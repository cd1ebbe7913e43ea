import LevelSchema.Proofs.Distinct
import LevelSchema.Proofs.Document.Spans

/-!
# Where loading points

What loading finds wrong is pointed at by places of the document, or by the start of the text if
there is no level to point at.  `LoadFinding.Placed p` asks `p` of the places of a finding, and its
diagnostic is then anchored at places with `p` (`LoadFinding.anchored_iff`).

The checks are gone through once, declaration by declaration, with `Noted.Confines`: on a document
with places in `p` they note findings with places in `p`, and the schema has such places as well
(`Document.load_confines`).  Checks that compare names remember where the earlier ones stand.
-/

namespace LevelSchema

variable {p : Span → Prop}

/-! ## Findings -/

/-- All that a finding points at is at places with `p`. -/
def LoadFinding.Placed (p : Span → Prop) : LoadFinding → Prop
  | .noLevel => p .atStart
  | .reservedName _ name _ _ => p name.span
  | .repeatedName _ name _ _ first => p name.span ∧ p first.span
  | .undeclaredLevel _ parent => p parent.span
  | .undeclaredType _ parent => p parent.span
  | .noObjectType level => p level.span
  | .noMember _ span => p span
  | .missingFlagValue _ name => p name.span
  | .notSingleBit _ _ span => p span
  | .valueOutOfRange _ _ _ span => p span
  | .repeatedValue _ _ _ span _ first => p span ∧ p first.span
  | .emptyDescription _ span => p span

/-- The labels of a diagnostic are where the finding is. -/
lemma LoadFinding.anchored_iff (f : LoadFinding) : f.diagnostic.Anchored p ↔ f.Placed p := by
  cases f with
  | repeatedName role name owner key first =>
      simp only [diagnostic]
      split_ifs <;> simp [Placed]
  | _ => simp [diagnostic, Placed]

/-! ## Schemas -/

/-- The places of a property have `p`. -/
structure Property.Placed (p : Span → Prop) (r : Property) : Prop where
  name : p r.name.span
  type : p r.type.span

/-- The places of the names in an object type have `p`. -/
structure ObjectType.Placed (p : Span → Prop) (o : ObjectType) : Prop where
  name : p o.name.span
  parent : ∀ n ∈ o.parent, p n.span
  properties : ∀ r ∈ o.properties, r.Placed p

/-- The places of the names in a level have `p`. -/
structure Level.Placed (p : Span → Prop) (l : Level) : Prop where
  name : p l.name.span
  parent : ∀ n ∈ l.parent, p n.span
  parameterTypes : ∀ t ∈ l.parameterTypes, p t.name.span
  objectTypes : ∀ o ∈ l.objectTypes, o.Placed p

/-- The places of the names in a schema have `p`. -/
def Schema.Placed (p : Span → Prop) (s : Schema) : Prop :=
  ∀ l ∈ s.levels, l.Placed p

/-! ## Checks -/

namespace Load

open Noted LoadFinding

variable {seen : Seen} {owner : String}

/-- The names of a scope stand at places with `p`. -/
def SeenPlaced (p : Span → Prop) (seen : Seen) : Prop :=
  ∀ e ∈ seen, p e.2.span

lemma seenPlaced_nil : SeenPlaced p [] :=
  nofun

/-- A name that is checked is reported at its own place or at one that was seen before. -/
lemma checkName_confines {role : NameRole} {name : Located String} (hseen : SeenPlaced p seen)
    (hname : p name.span) :
    Confines (LoadFinding.Placed p) (checkName role seen name owner) (SeenPlaced p) := by
  unfold checkName
  refine confines_bind (confines_noteAny fun f hf => ?_) fun _ _ => ?_
  · obtain ⟨reason, -, rfl⟩ := Option.map_eq_some_iff.mp hf
    exact hname
  split
  · next first hfirst =>
      have hplace : p first.span := hseen _ (mem_of_lookup_eq_some hfirst)
      exact confines_bind (confines_note ⟨hname, hplace⟩) fun _ _ => confines_pure hseen
  · exact confines_pure (List.forall_mem_cons.mpr ⟨hname, hseen⟩)

lemma describe_confines {d : Option Description} (hd : ∀ t ∈ d, p t.span) :
    Confines (LoadFinding.Placed p) (describe owner d) fun _ => True := by
  cases d with
  | none => exact confines_pure trivial
  | some d =>
      simp only [describe]
      split_ifs
      · exact confines_bind (confines_note (hd d rfl)) fun _ _ => confines_pure trivial
      · exact confines_pure trivial

/-- The place of a member's value is that of the written number or of the member. -/
lemma valueSpan_of_every {m : MemberDecl} (hm : m.Every (.placed p)) : p (valueSpan m) := by
  unfold valueSpan
  split
  · next v hv => exact hm.value v hv
  · exact hm.name

/-- Whatever is wrong with the value of a member is reported inside the member. -/
lemma memberValue_confines {kind : ParameterKind} {m : MemberDecl} {next : UInt64}
    (hm : m.Every (.placed p)) :
    Confines (LoadFinding.Placed p) (memberValue kind owner m next) fun _ => True := by
  have hspan := valueSpan_of_every hm
  unfold memberValue
  refine confines_bind (P := fun _ => True) ?_ fun candidate _ => ?_
  · split
    · exact confines_pure trivial
    · exact confines_pure trivial
    · exact confines_bind (confines_note hm.name) fun _ _ => confines_pure trivial
    · split_ifs
      · exact confines_pure trivial
      · exact confines_bind (confines_note hspan) fun _ _ => confines_pure trivial
  · split
    · exact confines_pure trivial
    · split_ifs
      · exact confines_pure trivial
      · exact confines_bind (confines_note hspan) fun _ _ => confines_pure trivial

/-- Members report places of their own, or of earlier ones that the scope holds. -/
lemma members_confines {kind : ParameterKind} {parameter : String} {ms : List MemberDecl} :
    ∀ {scope : MemberScope}, SeenPlaced p scope.seen → (∀ e ∈ scope.values, p e.2.span) →
      (∀ m ∈ ms, m.Every (.placed p)) →
        Confines (LoadFinding.Placed p) (members kind parameter scope ms) fun _ => True := by
  induction ms with
  | nil => exact fun _ _ _ => confines_pure trivial
  | cons m ms ih =>
      intro scope hseen hvalues hms
      obtain ⟨hm, hms⟩ := List.forall_mem_cons.mp hms
      rw [members]
      refine confines_bind (checkName_confines hseen hm.name) fun seen hseen => ?_
      refine confines_bind (memberValue_confines hm) fun value _ => ?_
      split
      · exact ih hseen hvalues hms
      · next value =>
          split
          · next first hfirst =>
              have hplace : p first.span := hvalues _ (mem_of_lookup_eq_some hfirst)
              exact confines_bind (confines_note ⟨valueSpan_of_every hm, hplace⟩) fun _ _ =>
                ih hseen hvalues hms
          · have hvalues' : ∀ e ∈ (value, m.name) :: scope.values, p e.2.span :=
              List.forall_mem_cons.mpr ⟨hm.name, hvalues⟩
            split
            · exact ih hseen hvalues' hms
            · refine confines_bind (describe_confines hm.description) fun _ _ => ?_
              exact confines_bind (ih hseen hvalues' hms) fun _ _ => confines_pure trivial

/-- A parameter type reports places of its own declaration. -/
lemma parameterType_confines {d : ParameterDecl} (hd : d.Every (.placed p)) :
    Confines (LoadFinding.Placed p) (parameterType owner d) fun t => p t.name.span := by
  unfold parameterType
  refine confines_ite_note hd.name ?_
  refine confines_bind (members_confines seenPlaced_nil (by simp) hd.members) fun _ _ => ?_
  exact confines_bind (describe_confines hd.description) fun _ _ => confines_pure hd.name

/-- The properties of an object type report places of their own declarations. -/
lemma properties_confines {object : String} {ds : List PropertyDecl} :
    ∀ {seen : Seen}, SeenPlaced p seen → (∀ d ∈ ds, d.Every (.placed p)) →
      Confines (LoadFinding.Placed p) (properties object seen ds) fun rs =>
        ∀ r ∈ rs, r.Placed p := by
  induction ds with
  | nil => exact fun _ _ => confines_pure (by simp)
  | cons d ds ih =>
      intro seen hseen hds
      obtain ⟨hd, hds⟩ := List.forall_mem_cons.mp hds
      rw [properties]
      refine confines_bind (checkName_confines hseen hd.name) fun seen hseen => ?_
      refine confines_bind (describe_confines hd.description) fun _ _ => ?_
      refine confines_bind (ih hseen hds) fun rest hrest => confines_pure ?_
      exact List.forall_mem_cons.mpr ⟨⟨hd.name, hd.typeName⟩, hrest⟩

/-- An object type reports places of its own declaration. -/
lemma objectType_confines {typeNames : List String} {d : ObjectDecl} (hd : d.Every (.placed p)) :
    Confines (LoadFinding.Placed p) (objectType typeNames owner d) fun o => o.Placed p := by
  have hrest : Confines (LoadFinding.Placed p) (do
      let properties ← properties owner [] d.properties
      let description ← describe owner d.description
      return ⟨d.name, description, d.parent, properties, d.span⟩ : Check ObjectType)
      fun o => o.Placed p := by
    refine confines_bind (properties_confines seenPlaced_nil hd.properties) fun rs hrs => ?_
    exact confines_bind (describe_confines hd.description) fun _ _ =>
      confines_pure ⟨hd.name, hd.parent, hrs⟩
  unfold objectType
  split
  · next parent hparent => exact confines_ite_note (hd.parent parent hparent) hrest
  · exact hrest

lemma items_confines {typeNames : List String} {level : String} {is : List LevelItem} :
    ∀ {seen : Seen}, SeenPlaced p seen → (∀ i ∈ is, i.Every (.placed p)) →
      Confines (LoadFinding.Placed p) (items typeNames level seen is) fun r =>
        (∀ t ∈ r.1, p t.name.span) ∧ ∀ o ∈ r.2, o.Placed p := by
  induction is with
  | nil => exact fun _ _ => confines_pure (by simp)
  | cons i is ih =>
      intro seen hseen his
      obtain ⟨hi, hrest⟩ := List.forall_mem_cons.mp his
      rw [items]
      cases i with
      | parameter d =>
          refine confines_bind (checkName_confines hseen hi.name) fun seen hseen => ?_
          refine confines_bind (parameterType_confines hi) fun t ht => ?_
          refine confines_bind (ih hseen hrest) fun r hr => confines_pure ?_
          exact ⟨List.forall_mem_cons.mpr ⟨ht, hr.1⟩, hr.2⟩
      | object d =>
          refine confines_bind (checkName_confines hseen hi.name) fun seen hseen => ?_
          refine confines_bind (objectType_confines hi) fun o ho => ?_
          refine confines_bind (ih hseen hrest) fun r hr => confines_pure ?_
          exact ⟨hr.1, List.forall_mem_cons.mpr ⟨ho, hr.2⟩⟩

/-- A level reports places of its own declaration. -/
lemma level_confines {levelNames typeNames : List String} {d : LevelDecl}
    (hd : d.Every (.placed p)) :
    Confines (LoadFinding.Placed p) (level levelNames typeNames d) fun l => l.Placed p := by
  have hrest : Confines (LoadFinding.Placed p) (do
      let r ← items typeNames d.name.value [] d.items
      if r.2.isEmpty then
        Noted.note (.noObjectType d.name)
      let description ← describe d.name.value d.description
      return ⟨d.name, description, d.parent, r.1, r.2, d.span⟩ : Check Level)
      fun l => l.Placed p := by
    refine confines_bind (items_confines seenPlaced_nil hd.items) fun r hr => ?_
    refine confines_ite_note hd.name ?_
    exact confines_bind (describe_confines hd.description) fun _ _ =>
      confines_pure ⟨hd.name, hd.parent, hr.1, hr.2⟩
  unfold level
  split
  · next parent hparent => exact confines_ite_note (hd.parent parent hparent) hrest
  · exact hrest

/-- Levels report places of their own declarations, or of names that were seen before. -/
lemma levels_confines {levelNames typeNames : List String} {ds : List LevelDecl} :
    ∀ {seen : Seen}, SeenPlaced p seen → (∀ d ∈ ds, d.Every (.placed p)) →
      Confines (LoadFinding.Placed p) (levels levelNames typeNames seen ds) fun ls =>
        ∀ l ∈ ls, l.Placed p := by
  induction ds with
  | nil => exact fun _ _ => confines_pure (by simp)
  | cons d ds ih =>
      intro seen hseen hds
      obtain ⟨hd, hds⟩ := List.forall_mem_cons.mp hds
      rw [levels]
      refine confines_bind (checkName_confines hseen hd.name) fun seen hseen => ?_
      refine confines_bind (level_confines hd) fun l hl => ?_
      refine confines_bind (ih hseen hds) fun rest hrest => confines_pure ?_
      exact List.forall_mem_cons.mpr ⟨hl, hrest⟩

end Load

open Load Noted in
/-- **Loading points only at places of the document**, or at the start of the text. -/
lemma Document.load_confines {d : Document} (hstart : p .atStart) (hd : d.Every (.placed p)) :
    Confines (LoadFinding.Placed p) d.load (Schema.Placed p) := by
  unfold Document.load
  refine confines_ite_note hstart ?_
  exact confines_bind (levels_confines seenPlaced_nil hd) fun _ hlevels => confines_pure hlevels

end LevelSchema
