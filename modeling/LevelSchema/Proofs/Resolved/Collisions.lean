import LevelSchema.Proofs.Resolved.Termination

/-!
# Clashing properties

A property that clashes with one above it is left out of what descendants inherit.  So whether a
property clashes depends on which properties before it were accepted: `Accepts` goes through the
properties of a lineage from the root down and keeps those whose type is known and that conflict
with none that was kept.

**One report for each.**  Each object type is flattened once, and what is in the table for its
parent is what was accepted on the way down to the parent (`Schema.Holds`).  So the reports about an
object type are about those of its own properties that are refused on its lineage, each once, and
they say nothing about what it inherits (`Schema.Grounded.exists_adds_declared`).

**Any order.**  Of the order in which object types are flattened it is only asked that each comes
after the one it extends, and which properties are refused does not depend on it
(`Schema.Grounded.listsCollisions_flattenAll`).
-/

namespace LevelSchema

/-! ## Accepting one after the other -/

section Accepts

variable {α : Type} {known : α → Prop} {conflict : α → α → Prop} {acc acc' mid : List α}
  {qs ps : List α} {q : α}

/-- Going through a list after `acc` has been accepted, each element is accepted if it is known and
conflicts with nothing accepted so far. -/
inductive Accepts (known : α → Prop) (conflict : α → α → Prop) :
    List α → List α → List α → Prop
  | nil {acc : List α} : Accepts known conflict acc [] acc
  | unknown {acc acc' : List α} {q : α} {qs : List α} (hq : ¬ known q)
      (h : Accepts known conflict acc qs acc') : Accepts known conflict acc (q :: qs) acc'
  | refused {acc acc' : List α} {q : α} {qs : List α} (hq : known q)
      (hclash : ∃ a ∈ acc, conflict a q) (h : Accepts known conflict acc qs acc') :
      Accepts known conflict acc (q :: qs) acc'
  | accepted {acc acc' : List α} {q : α} {qs : List α} (hq : known q)
      (hfree : ∀ a ∈ acc, ¬ conflict a q) (h : Accepts known conflict (acc ++ [q]) qs acc') :
      Accepts known conflict acc (q :: qs) acc'

/-- In going through the list, `q` is refused because of something accepted before it. -/
def Refuses (known : α → Prop) (conflict : α → α → Prop) (acc qs : List α) (q : α) : Prop :=
  ∃ before after accepted, qs = before ++ q :: after ∧ Accepts known conflict acc before accepted ∧
    known q ∧ ∃ a ∈ accepted, conflict a q

namespace Accepts

/-- What is accepted is determined by what was accepted before. -/
lemma eq (h : Accepts known conflict acc qs acc') (h' : Accepts known conflict acc qs mid) :
    acc' = mid := by
  induction h with
  | nil =>
      cases h'
      rfl
  | unknown hq _ ih =>
      cases h' with
      | unknown _ h' => exact ih h'
      | refused hq' | accepted hq' => exact absurd hq' hq
  | refused hq hclash _ ih =>
      cases h' with
      | unknown hq' => exact absurd hq hq'
      | refused _ _ h' => exact ih h'
      | accepted _ hfree =>
          obtain ⟨a, ha, hconflict⟩ := hclash
          exact absurd hconflict (hfree a ha)
  | accepted hq hfree _ ih =>
      cases h' with
      | unknown hq' => exact absurd hq hq'
      | refused _ hclash =>
          obtain ⟨a, ha, hconflict⟩ := hclash
          exact absurd hconflict (hfree a ha)
      | accepted _ _ h' => exact ih h'

/-- Accepting goes on where it stopped. -/
lemma append (h : Accepts known conflict acc qs mid) (h' : Accepts known conflict mid ps acc') :
    Accepts known conflict acc (qs ++ ps) acc' := by
  induction h with
  | nil => exact h'
  | unknown hq _ ih => exact .unknown hq (ih h')
  | refused hq hclash _ ih => exact .refused hq hclash (ih h')
  | accepted hq hfree _ ih => exact .accepted hq hfree (ih h')

/-- A step, and then the rest. -/
lemma of_cons (h : Accepts known conflict acc (q :: qs) acc') :
    ∃ mid, Accepts known conflict acc [q] mid ∧ Accepts known conflict mid qs acc' := by
  cases h with
  | unknown hq h => exact ⟨acc, .unknown hq .nil, h⟩
  | refused hq hclash h => exact ⟨acc, .refused hq hclash .nil, h⟩
  | accepted hq hfree h => exact ⟨acc ++ [q], .accepted hq hfree .nil, h⟩

end Accepts

lemma not_refuses_nil : ¬ Refuses known conflict acc [] q := by
  rintro ⟨before, after, accepted, h, -⟩
  simp at h

/-- What is refused from the head on is the head, or refused after it. -/
lemma refuses_cons_iff {p : α} (h : Accepts known conflict acc [p] mid) :
    Refuses known conflict acc (p :: qs) q ↔
      (q = p ∧ known p ∧ ∃ a ∈ acc, conflict a p) ∨ Refuses known conflict mid qs q := by
  constructor
  · rintro ⟨before, after, accepted, hqs, hbefore, hq, hclash⟩
    cases before with
    | nil =>
        obtain ⟨rfl, rfl⟩ := List.cons.inj hqs
        cases hbefore
        exact .inl ⟨rfl, hq, hclash⟩
    | cons p' before =>
        obtain ⟨rfl, rfl⟩ := List.cons.inj hqs
        obtain ⟨mid', hmid, hrest⟩ := hbefore.of_cons
        exact .inr ⟨before, after, accepted, rfl, h.eq hmid ▸ hrest, hq, hclash⟩
  · rintro (⟨rfl, hq, hclash⟩ | ⟨before, after, accepted, rfl, hbefore, hq, hclash⟩)
    · exact ⟨[], qs, acc, rfl, .nil, hq, hclash⟩
    · exact ⟨p :: before, after, accepted, rfl, h.append hbefore, hq, hclash⟩

/-- What does not stand in the first part is refused in the second. -/
lemma refuses_append_iff (h : Accepts known conflict acc qs mid) (hq : q ∉ qs) :
    Refuses known conflict acc (qs ++ ps) q ↔ Refuses known conflict mid ps q := by
  induction qs generalizing acc with
  | nil =>
      cases h
      rfl
  | cons p qs ih =>
      rw [List.mem_cons, not_or] at hq
      obtain ⟨next, hp, hqs⟩ := h.of_cons
      rw [List.cons_append, refuses_cons_iff hp, ih hqs hq.2]
      simp [hq.1]

end Accepts

/-! ## Properties in their places -/

/-- A property and the object type that declares it. -/
structure PlacedProperty where
  owner : PlacedObject
  decl : Property

namespace PlacedProperty

/-- The generated name of the field and of its getter. -/
def field (q : PlacedProperty) : String :=
  Name.snake q.decl.name.value

/-- Two properties give the same field, or a getter of one is named like the setter of the other. -/
def Conflicts (a q : PlacedProperty) : Prop :=
  a.field = q.field ∨ q.field = "set_" ++ a.field ∨ a.field = "set_" ++ q.field

/-- The finding says that the property clashes with an inherited one or with the accessors of
another, and points at the name of the property first. -/
structure ReportedBy (q : PlacedProperty) (f : ResolveFinding) : Prop where
  finding : ∃ p other, f = .inheritedProperty q.owner.path p other ∨
    f = .sharedAccessor q.owner.path p other
  labels : ∃ message second, f.diagnostic.labels = [⟨q.decl.name.span, message, true⟩, second] ∧
    second.isPrimary = false

end PlacedProperty

/-- The properties that an object type declares. -/
def PlacedObject.declared (x : PlacedObject) : List PlacedProperty :=
  x.decl.properties.map (⟨x, ·⟩)

lemma PlacedObject.mem_declared {x : PlacedObject} {q : PlacedProperty} :
    q ∈ x.declared ↔ q.owner = x ∧ q.decl ∈ x.decl.properties := by
  rw [declared, List.mem_map]
  constructor
  · rintro ⟨p, hp, rfl⟩
    exact ⟨rfl, hp⟩
  · rintro ⟨rfl, hp⟩
    exact ⟨q.decl, hp, rfl⟩

/-- The properties that are declared along a lineage, from the root down. -/
def declaredAlong (chain : List PlacedObject) : List PlacedProperty :=
  chain.flatMap PlacedObject.declared

/-! ## Adding the properties of one object type -/

namespace Resolve

variable {inherited accepted : List ResolvedProperty} {p : ResolvedProperty}

/-- A property with the field of an inherited one or the accessors of an accepted one is noted and
left out. -/
lemma addProperties_cons_of_clash (object : TypePath) (own : List ResolvedProperty)
    (h : (∃ q ∈ inherited, q.field = p.field) ∨ ∃ q ∈ accepted, p.sharesAccessor q = true) :
    ∃ f, (∃ other, f = .inheritedProperty object p other ∨ f = .sharedAccessor object p other) ∧
      addProperties object inherited accepted (p :: own) =
        ⟨(addProperties object inherited accepted own).value,
          f :: (addProperties object inherited accepted own).notes⟩ := by
  rw [addProperties]
  cases hfield : inherited.find? fun q => q.field == p.field with
  | some q => exact ⟨_, ⟨q, .inl rfl⟩, rfl⟩
  | none =>
      have hnew : ¬ ∃ q ∈ inherited, q.field = p.field := by
        simpa using List.find?_eq_none.mp hfield
      have hshared : (accepted.find? p.sharesAccessor).isSome = true := by
        rw [List.find?_isSome]
        exact h.resolve_left hnew
      obtain ⟨q, hq⟩ := Option.isSome_iff_exists.mp hshared
      rw [hq]
      exact ⟨_, ⟨q, .inr rfl⟩, rfl⟩

/-- A property without a clash is added. -/
lemma addProperties_cons_of_free (object : TypePath) (own : List ResolvedProperty)
    (h : ¬ ((∃ q ∈ inherited, q.field = p.field) ∨ ∃ q ∈ accepted, p.sharesAccessor q = true)) :
    addProperties object inherited accepted (p :: own) =
      addProperties object inherited (accepted ++ [p]) own := by
  obtain ⟨hfield, hshared⟩ := not_or.mp h
  have hfield : inherited.find? (fun q => q.field == p.field) = none := by
    simpa using hfield
  have hshared : accepted.find? p.sharesAccessor = none := by
    simpa using hshared
  rw [addProperties, hfield, hshared]

end Resolve

namespace Schema

open Resolve

variable {s : Schema} {P : PrimitiveSet} {x y : PlacedObject} {chain : List PlacedObject}
  {q : PlacedProperty}

/-- The property with its type bound, if the type is known. -/
def resolved? (s : Schema) (P : PrimitiveSet) (q : PlacedProperty) : Option ResolvedProperty :=
  bindProperty? P ((s.scopesOf P).value.of q.owner.level.name.value) q.owner.path q.decl

lemma field_of_resolved? {p : ResolvedProperty} (h : s.resolved? P q = some p) :
    p.field = q.field := by
  obtain ⟨type, -, rfl⟩ := Option.map_eq_some_iff.mp h
  rfl

/-- A clash is reported for the property that comes later. -/
lemma reportedBy_of_resolved? {p : ResolvedProperty} {f : ResolveFinding}
    (h : s.resolved? P q = some p) (hf : ∃ other, f = .inheritedProperty q.owner.path p other ∨
      f = .sharedAccessor q.owner.path p other) : q.ReportedBy f := by
  obtain ⟨type, -, rfl⟩ := Option.map_eq_some_iff.mp h
  obtain ⟨other, rfl | rfl⟩ := hf
  · refine ⟨⟨_, other, .inl rfl⟩, ?_⟩
    simp only [ResolveFinding.diagnostic]
    split_ifs <;> exact ⟨_, _, rfl, rfl⟩
  · exact ⟨⟨_, other, .inr rfl⟩, _, _, rfl, rfl⟩

/-- Fields can be compared before or after types are bound. -/
lemma exists_field_filterMap_iff {acc : List PlacedProperty}
    (hacc : ∀ a ∈ acc, (s.resolved? P a).isSome = true) (φ : String → Prop) :
    (∃ r ∈ acc.filterMap (s.resolved? P), φ r.field) ↔ ∃ a ∈ acc, φ a.field := by
  constructor
  · rintro ⟨r, hr, hfield⟩
    obtain ⟨a, ha, har⟩ := List.mem_filterMap.mp hr
    exact ⟨a, ha, field_of_resolved? har ▸ hfield⟩
  · rintro ⟨a, ha, hfield⟩
    obtain ⟨r, har⟩ := Option.isSome_iff_exists.mp (hacc a ha)
    exact ⟨r, List.mem_filterMap.mpr ⟨a, ha, har⟩, (field_of_resolved? har).symm ▸ hfield⟩

/-- The comparisons of flattening amount to a conflict with an accepted property. -/
lemma clash_iff {p : ResolvedProperty} (hp : s.resolved? P q = some p)
    {acc : List PlacedProperty} (hacc : ∀ a ∈ acc, (s.resolved? P a).isSome = true)
    {inherited : List ResolvedProperty}
    (hinherited : (∃ r ∈ inherited, r.field = q.field) ↔ ∃ a ∈ acc, a.field = q.field) :
    ((∃ r ∈ inherited, r.field = p.field) ∨
      ∃ r ∈ acc.filterMap (s.resolved? P), p.sharesAccessor r = true) ↔
        ∃ a ∈ acc, a.Conflicts q := by
  have hshared := exists_field_filterMap_iff hacc fun f =>
    q.field = "set_" ++ f ∨ f = "set_" ++ q.field
  simp only [ResolvedProperty.sharesAccessor, ResolvedProperty.setter, Bool.or_eq_true,
    beq_iff_eq, field_of_resolved? hp, hinherited, hshared, PlacedProperty.Conflicts,
    ← exists_or, ← and_or_left]

/-- What comes of adding the properties `qs` to those accepted: some more are accepted, and the
refused ones are noted, each once. -/
structure Adds (s : Schema) (P : PrimitiveSet) (known : PlacedProperty → Prop)
    (acc qs acc' noted : List PlacedProperty) (added : Check (List ResolvedProperty)) :
    Prop where
  accepts : Accepts known PlacedProperty.Conflicts acc qs acc'
  resolved : ∀ a ∈ acc', (s.resolved? P a).isSome = true
  value : added.value = acc'.filterMap (s.resolved? P)
  sublist : noted.Sublist qs
  reported : List.Forall₂ PlacedProperty.ReportedBy noted added.notes
  mem_noted_iff : ∀ q, q ∈ noted ↔ Refuses known PlacedProperty.Conflicts acc qs q

namespace Adds

variable {known : PlacedProperty → Prop} {acc qs acc' noted : List PlacedProperty}
  {added : Check (List ResolvedProperty)}

/-- A step: a property of unknown type is passed over, and noted elsewhere. -/
lemma unknown (h : s.Adds P known acc qs acc' noted added) (hq : ¬ known q) :
    s.Adds P known acc (q :: qs) acc' noted added where
  accepts := .unknown hq h.accepts
  resolved := h.resolved
  value := h.value
  sublist := h.sublist.cons q
  reported := h.reported
  mem_noted_iff r := by
    rw [h.mem_noted_iff, refuses_cons_iff (.unknown hq .nil)]
    simp [hq]

/-- A step: a property in conflict with an accepted one is refused and noted. -/
lemma refused (h : s.Adds P known acc qs acc' noted added) (hq : known q)
    (hclash : ∃ a ∈ acc, a.Conflicts q) {f : ResolveFinding} (hf : q.ReportedBy f) :
    s.Adds P known acc (q :: qs) acc' (q :: noted) ⟨added.value, f :: added.notes⟩ where
  accepts := .refused hq hclash h.accepts
  resolved := h.resolved
  value := h.value
  sublist := h.sublist.cons_cons q
  reported := .cons hf h.reported
  mem_noted_iff r := by
    rw [List.mem_cons, h.mem_noted_iff, refuses_cons_iff (.refused hq hclash .nil)]
    simp [hq, hclash]

/-- A step: a property in conflict with none is accepted, and not noted. -/
lemma accepted (h : s.Adds P known (acc ++ [q]) qs acc' noted added) (hq : known q)
    (hfree : ∀ a ∈ acc, ¬ a.Conflicts q) : s.Adds P known acc (q :: qs) acc' noted added where
  accepts := .accepted hq hfree h.accepts
  resolved := h.resolved
  value := h.value
  sublist := h.sublist.cons q
  reported := h.reported
  mem_noted_iff r := by
    rw [h.mem_noted_iff, refuses_cons_iff (.accepted hq hfree .nil)]
    refine (or_iff_right ?_).symm
    rintro ⟨-, -, a, ha, hconflict⟩
    exact hfree a ha hconflict

end Adds

/-- **The properties of an object type are added one after the other.**  Those of an object type
itself differ in their fields, so that it is enough to compare fields with the inherited ones. -/
lemma exists_adds {known : PlacedProperty → Prop} {inherited : List ResolvedProperty}
    {acc qs : List PlacedProperty} (howner : ∀ q ∈ qs, q.owner = x)
    (hknown : ∀ q ∈ qs, known q ↔ (s.resolved? P q).isSome = true)
    (hacc : ∀ a ∈ acc, (s.resolved? P a).isSome = true)
    (hnodup : (qs.map PlacedProperty.field).Nodup)
    (hinherited : ∀ q ∈ qs, (∃ r ∈ inherited, r.field = q.field) ↔ ∃ a ∈ acc, a.field = q.field) :
    ∃ acc' noted, s.Adds P known acc qs acc' noted (addProperties x.path inherited
      (acc.filterMap (s.resolved? P)) (qs.filterMap (s.resolved? P))) := by
  induction qs generalizing acc with
  | nil => exact ⟨acc, [], .nil, hacc, rfl, .slnil, .nil, fun q => by simp [not_refuses_nil]⟩
  | cons q qs ih =>
      obtain ⟨rfl, howner⟩ := List.forall_mem_cons.mp howner
      obtain ⟨hkq, hknown⟩ := List.forall_mem_cons.mp hknown
      obtain ⟨hiq, hinherited⟩ := List.forall_mem_cons.mp hinherited
      obtain ⟨hfield, hnodup⟩ := List.nodup_cons.mp hnodup
      cases hp : s.resolved? P q with
      | none =>
          obtain ⟨acc', noted, h⟩ := ih howner hknown hacc hnodup hinherited
          rw [List.filterMap_cons_none hp]
          exact ⟨acc', noted, h.unknown (by simp [hkq, hp])⟩
      | some p =>
          have hq : known q := by simp [hkq, hp]
          have hclash := clash_iff hp hacc hiq
          rw [List.filterMap_cons_some hp]
          by_cases hconflict : ∃ a ∈ acc, a.Conflicts q
          · obtain ⟨acc', noted, h⟩ := ih howner hknown hacc hnodup hinherited
            obtain ⟨f, hf, hadds⟩ := addProperties_cons_of_clash q.owner.path
              (qs.filterMap (s.resolved? P)) (hclash.mpr hconflict)
            rw [hadds]
            exact ⟨acc', q :: noted, h.refused hq hconflict (reportedBy_of_resolved? hp hf)⟩
          · -- the accepted property has a field of its own, so the comparisons of fields with the
            -- inherited properties stay right
            have hacc' : ∀ a ∈ acc ++ [q], (s.resolved? P a).isSome = true :=
              List.forall_mem_append.mpr ⟨hacc, by simp [hp]⟩
            have hinherited' : ∀ r ∈ qs, (∃ i ∈ inherited, i.field = r.field) ↔
                ∃ a ∈ acc ++ [q], a.field = r.field := by
              intro r hr
              have hne : q.field ≠ r.field := fun h => hfield (h ▸ List.mem_map_of_mem hr)
              rw [hinherited r hr]
              simp [or_and_right, exists_or, hne]
            obtain ⟨acc', noted, h⟩ := ih howner hknown hacc' hnodup hinherited'
            rw [addProperties_cons_of_free _ _ (hclash.not.mpr hconflict)]
            refine ⟨acc', noted, Adds.accepted ?_ hq fun a ha h => hconflict ⟨a, ha, h⟩⟩
            simpa [hp] using h

/-! ## Flattening in any order -/

/-- The levels form no cycle, and the type of the property is a primitive or declared by the level
of its owner or one above. -/
def TypeResolved (s : Schema) (P : PrimitiveSet) (q : PlacedProperty) : Prop :=
  (∀ l, ¬ Relation.TransGen s.Extends l l) ∧ (q.decl.type.value.name ∈ P.names ∨
    ∃ m, Relation.ReflTransGen s.Extends q.owner.level m ∧ q.decl.type.value.name ∈ m.typeNames)

/-- The declared property is not on a cycle of object types or below one, its type is known, and it
conflicts with a property that was accepted before it on its lineage. -/
structure Collides (s : Schema) (P : PrimitiveSet) (q : PlacedProperty) : Prop where
  owner_mem : q.owner ∈ s.objects
  declared : q.decl ∈ q.owner.decl.properties
  acyclic : ∀ y, Relation.ReflTransGen s.SpecializesNearest q.owner y →
    ¬ Relation.TransGen s.SpecializesNearest y y
  typeResolved : s.TypeResolved P q
  conflicts : ∃ chain before after accepted, Lineage s.SpecializesNearest q.owner chain ∧
    declaredAlong chain = before ++ q :: after ∧
    Accepts (s.TypeResolved P) PlacedProperty.Conflicts [] before accepted ∧
    ∃ a ∈ accepted, a.Conflicts q

/-- The properties are those accepted along the lineage. -/
def KeptAlong (s : Schema) (P : PrimitiveSet) (chain : List PlacedObject)
    (properties : List ResolvedProperty) : Prop :=
  ∃ acc, Accepts (s.TypeResolved P) PlacedProperty.Conflicts [] (declaredAlong chain) acc ∧
    (∀ a ∈ acc, (s.resolved? P a).isSome = true) ∧ properties = acc.filterMap (s.resolved? P)

/-- The table holds for each object type what was accepted along its lineage. -/
def Holds (s : Schema) (P : PrimitiveSet) (done : List PlacedObject) (table : FlatTable) : Prop :=
  ∀ x ∈ done, ∀ chain, Lineage s.SpecializesNearest x chain →
    ∃ f, table.lookup x.path = some f ∧ s.KeptAlong P chain f.properties

lemma properties_boundObject_eq (s : Schema) (P : PrimitiveSet) (x : PlacedObject) :
    (s.boundObject P x).value.2.properties = x.declared.filterMap (s.resolved? P) := by
  have hvalue : (s.boundObject P x).value.2.properties = (bindProperties s P
    ((s.scopesOf P).value.of x.level.name.value) x.path x.decl.properties).value := rfl
  rw [hvalue, value_bindProperties, PlacedObject.declared, List.filterMap_map]
  rfl

namespace Grounded

variable {done order : List PlacedObject} {table : FlatTable}

lemma specializesNearest_rightUnique (hs : s.Grounded) :
    Relator.RightUnique s.SpecializesNearest := by
  intro x y z hxy hxz
  have hpath := (s.bindingsOf .builtin).value.forest.links_rightUnique
    ((hs.links_forest_iff_nearest hxy.1.1).mpr ⟨y, hxy, rfl⟩)
    ((hs.links_forest_iff_nearest hxy.1.1).mpr ⟨z, hxz, rfl⟩)
  exact hs.eq_of_path_eq hxy.1.2.1 hxz.1.2.1 hpath

/-- A property is resolved if its type is. -/
lemma isSome_resolved?_iff (hs : s.Grounded) (hq : q.owner ∈ s.objects) :
    (s.resolved? P q).isSome = true ↔ s.TypeResolved P q := by
  obtain ⟨hl, -⟩ := mem_objects.mp hq
  obtain ⟨above, habove⟩ := hs.exists_lineage q.owner.level hl
  rw [TypeResolved, and_iff_right (hs.grounded_iff.mp hs), resolved?, bindProperty?,
    Option.isSome_map, isSome_typeRef?_iff, hs.of_scopesOf hl habove, Scope.names_along,
    List.mem_reverse, List.mem_flatMap]
  simp only [habove.mem_iff hs.extends_rightUnique]

/-- An object type starts from what was accepted above it. -/
lemma keptAlong_inheritedPart (hs : s.Grounded) (hx : x ∈ s.objects)
    (hchain : Lineage s.SpecializesNearest x chain)
    (hdone : ∀ y, s.SpecializesNearest x y → y ∈ done) (htable : s.Holds P done table) :
    s.KeptAlong P chain.dropLast
      (inheritedPart table (s.boundObject P x).value.2.parent).properties := by
  have hparent : ∀ t, (s.boundObject P x).value.2.parent = some t ↔
      ∃ y, s.SpecializesNearest x y ∧ y.path = t := by
    intro t
    rw [← hs.links_forest_iff_nearest hx,
      Bindings.links_forest_iff (hs.path_mem_paths P hx) (hs.get?_bindingsOf hx)]
  cases hchain with
  | root hroot =>
      have hnone : (s.boundObject P x).value.2.parent = none := by
        refine Option.eq_none_iff_forall_ne_some.mpr fun t ht => ?_
        obtain ⟨y, hy, -⟩ := (hparent t).mp ht
        exact hroot y hy
      rw [hnone]
      exact ⟨[], .nil, by simp, rfl⟩
  | @step _ y above hlink hy =>
      obtain ⟨f, hf, hkept⟩ := htable y (hdone y hlink) above hy
      rw [(hparent y.path).mpr ⟨y, hlink, rfl⟩, List.dropLast_concat]
      simpa [inheritedPart, hf] using hkept

/-- The properties that one object type declares have distinct names. -/
lemma fields_declared_nodup (hs : s.Grounded) (hx : x ∈ s.objects) :
    (x.declared.map PlacedProperty.field).Nodup := by
  obtain ⟨hl, ho⟩ := mem_objects.mp hx
  rw [PlacedObject.declared, List.map_map]
  exact ((hs.levels x.level hl).objectTypes x.decl ho).keys_nodup

/-- A property collides exactly when it is refused among those of its owner. -/
lemma collides_iff_refuses (hs : s.Grounded) (hx : x ∈ s.objects) {above : List PlacedObject}
    (hchain : Lineage s.SpecializesNearest x (above ++ [x])) {acc : List PlacedProperty}
    (hacc : Accepts (s.TypeResolved P) PlacedProperty.Conflicts [] (declaredAlong above) acc)
    (hq : q.owner = x) : s.Collides P q ↔
      Refuses (s.TypeResolved P) PlacedProperty.Conflicts acc x.declared q := by
  have hr := hs.specializesNearest_rightUnique
  have hout : q ∉ declaredAlong above := by
    intro hmem
    obtain ⟨y, hy, hqy⟩ := List.mem_flatMap.mp hmem
    obtain ⟨rfl, -⟩ := PlacedObject.mem_declared.mp hqy
    have hnodup := hchain.nodup hr
    rw [← hq] at hnodup
    exact (List.nodup_append.mp hnodup).2.2 _ hy _ (by simp) rfl
  have halong : declaredAlong (above ++ [x]) = declaredAlong above ++ x.declared := by
    simp [declaredAlong]
  rw [← refuses_append_iff hacc hout, ← halong]
  subst hq
  constructor
  · rintro ⟨-, -, -, htype, chain, before, after, accepted, hchain', hqs, hbefore, hclash⟩
    rw [hchain'.eq hr hchain] at hqs
    exact ⟨before, after, accepted, hqs, hbefore, htype, hclash⟩
  · rintro ⟨before, after, accepted, hqs, hbefore, htype, hclash⟩
    have hmem : q ∈ declaredAlong (above ++ [q.owner]) := by simp [hqs]
    have hdecl : q ∈ q.owner.declared := by
      rw [halong, List.mem_append] at hmem
      exact hmem.resolve_left hout
    refine ⟨hx, (PlacedObject.mem_declared.mp hdecl).2, fun y hy => ?_, htype, _, before, after,
      accepted, hchain, hqs, hbefore, hclash⟩
    obtain ⟨chain, hy⟩ := hchain.exists_of_reflTransGen hr hy
    exact hy.not_transGen_self hr

/-- Flattening an object type notes its own properties that collide, and enters what was accepted
along its lineage. -/
lemma exists_adds_declared (hs : s.Grounded) (hx : x ∈ s.objects)
    (hchain : Lineage s.SpecializesNearest x chain) {inherited : List ResolvedProperty}
    (hkept : s.KeptAlong P chain.dropLast inherited) :
    let added := addProperties x.path inherited inherited (s.boundObject P x).value.2.properties
    s.KeptAlong P chain added.value ∧ ∃ noted, noted.Sublist x.declared ∧
      List.Forall₂ PlacedProperty.ReportedBy noted added.notes ∧
        ∀ q, q ∈ noted ↔ q.owner = x ∧ s.Collides P q := by
  intro added
  obtain ⟨above, rfl⟩ := hchain.eq_append
  rw [List.dropLast_concat] at hkept
  obtain ⟨acc, haccepts, hacc, rfl⟩ := hkept
  have howner : ∀ q ∈ x.declared, q.owner = x := fun q hq => (PlacedObject.mem_declared.mp hq).1
  have hinherited : ∀ q ∈ x.declared, (∃ r ∈ acc.filterMap (s.resolved? P), r.field = q.field) ↔
      ∃ a ∈ acc, a.field = q.field := fun q _ => exists_field_filterMap_iff hacc (· = q.field)
  obtain ⟨acc', noted, hadds⟩ := exists_adds howner
    (fun q hq => (hs.isSome_resolved?_iff (howner q hq ▸ hx)).symm) hacc
    (hs.fields_declared_nodup hx) hinherited
  rw [← properties_boundObject_eq] at hadds
  refine ⟨⟨acc', ?_, hadds.resolved, hadds.value⟩, noted, hadds.sublist, hadds.reported,
    fun q => ?_⟩
  · simpa [declaredAlong] using haccepts.append hadds.accepts
  · rw [hadds.mem_noted_iff]
    constructor
    · intro hrefused
      have hq : q.owner = x := by
        obtain ⟨before, after, -, hqs, -⟩ := hrefused
        exact howner q (by simp [hqs])
      exact ⟨hq, (hs.collides_iff_refuses hx hchain haccepts hq).mpr hrefused⟩
    · rintro ⟨hq, hcollides⟩
      exact (hs.collides_iff_refuses hx hchain haccepts hq).mp hcollides

/-- A step: flattening one more object type after its parent extends the table. -/
lemma holds_cons (hs : s.Grounded) (hpass : Pass s.SpecializesNearest PlacedObject.path done
    (x :: order)) (htable : s.Holds P done table) (hchain : Lineage s.SpecializesNearest x chain)
    {f : Flattened} (hf : s.KeptAlong P chain f.properties) :
    s.Holds P (x :: done) ((x.path, f) :: table) := by
  intro y hy chain' hchain'
  rw [List.lookup_cons]
  rcases List.mem_cons.mp hy with rfl | hy
  · rw [hchain'.eq hs.specializesNearest_rightUnique hchain, beq_self_eq_true]
    exact ⟨f, rfl, hf⟩
  · rw [beq_eq_false_iff_ne.mpr (hpass.fresh x List.mem_cons_self y hy)]
    exact htable y hy chain' hchain'

/-- Flattening in an order with parents first notes each property that collides, once. -/
lemma exists_flattenAll (hs : s.Grounded)
    (hpass : Pass s.SpecializesNearest PlacedObject.path done order) (hsub : order ⊆ s.objects)
    (htable : s.Holds P done table) : ∃ noted : List PlacedProperty, noted.Nodup ∧
      List.Forall₂ PlacedProperty.ReportedBy noted
        (flattenAll (s.bindingsOf P).value table (order.map PlacedObject.path)).notes ∧
      ∀ q, q ∈ noted ↔ q.owner ∈ order ∧ s.Collides P q := by
  induction order generalizing done table with
  | nil => exact ⟨[], .nil, .nil, by simp⟩
  | cons x order ih =>
      obtain ⟨hx, hsub⟩ := List.cons_subset.mp hsub
      obtain ⟨chain, hchain⟩ := hpass.exists_lineage x List.mem_cons_self
      have hbase := hs.keptAlong_inheritedPart hx hchain hpass.parentsFirst.1 htable
      obtain ⟨hvalue, own, hown, hreported, hmem⟩ := hs.exists_adds_declared hx hchain hbase
      obtain ⟨rest, hrest, hreports, hmem'⟩ :=
        ih hpass.tail hsub (hs.holds_cons hpass htable hchain (f := ⟨_, _⟩) hvalue)
      have hnew : x ∉ order := by
        intro hmem
        exact (List.nodup_cons.mp hpass.nodup).1 (List.mem_map_of_mem hmem)
      refine ⟨own ++ rest, List.nodup_append.mpr ⟨?_, hrest, ?_⟩, ?_, fun q => ?_⟩
      · exact hown.nodup (List.Nodup.of_map _ (hs.fields_declared_nodup hx))
      · rintro q hq _ hq' rfl
        exact hnew (((hmem q).mp hq).1 ▸ ((hmem' q).mp hq').1)
      · rw [List.map_cons, flattenAll, hs.get?_bindingsOf hx]
        exact List.rel_append hreported hreports
      · rw [List.mem_append, hmem, hmem', List.mem_cons, or_and_right]

end Grounded

/-- An order in which object types can be flattened: all that are not on a cycle or below one, once
each, and each after the one it extends. -/
structure FlattensIn (s : Schema) (order : List PlacedObject) : Prop where
  mem_iff : ∀ x, x ∈ order ↔ x ∈ s.objects ∧ ∃ chain, Lineage s.SpecializesNearest x chain
  nodup : order.Nodup
  parentsFirst : ParentsFirst s.SpecializesNearest [] order

/-- The findings are about the properties that collide, one about each. -/
def ListsCollisions (s : Schema) (P : PrimitiveSet) (findings : List ResolveFinding) : Prop :=
  ∃ collided : List PlacedProperty, collided.Nodup ∧ (∀ q, q ∈ collided ↔ s.Collides P q) ∧
    List.Forall₂ PlacedProperty.ReportedBy collided findings

namespace Grounded

variable {order : List PlacedObject}

/-- **In whatever order object types are flattened, each collision is noted once.** -/
lemma listsCollisions_flattenAll (hs : s.Grounded) (P : PrimitiveSet) (h : s.FlattensIn order) :
    s.ListsCollisions P
      (flattenAll (s.bindingsOf P).value [] (order.map PlacedObject.path)).notes := by
  have hsub : order ⊆ s.objects := fun x hx => ((h.mem_iff x).mp hx).1
  have hpass : Pass s.SpecializesNearest PlacedObject.path [] order := by
    refine ⟨h.parentsFirst, fun x hx => ((h.mem_iff x).mp hx).2, ?_, by simp⟩
    exact h.nodup.map_on fun x hx y hy => hs.eq_of_path_eq (hsub hx) (hsub hy)
  obtain ⟨noted, hnodup, hreported, hmem⟩ := hs.exists_flattenAll (P := P) hpass hsub nofun
  refine ⟨noted, hnodup, fun q => (hmem q).trans (and_iff_right_of_imp fun hq => ?_), hreported⟩
  obtain ⟨chain, -, -, -, hchain, -⟩ := hq.conflicts
  exact (h.mem_iff _).mpr ⟨hq.owner_mem, chain, hchain⟩

/-- An object type has a lineage exactly when its path has one. -/
lemma exists_lineage_path_iff (hs : s.Grounded) (P : PrimitiveSet) (hx : x ∈ s.objects) :
    (∃ chain, Lineage (s.bindingsOf P).value.forest.Links x.path chain) ↔
      ∃ chain, Lineage s.SpecializesNearest x chain := by
  have hpaths : ∀ paths, Lineage (s.bindingsOf P).value.forest.Links x.path paths ↔ ∃ chain,
      Lineage s.SpecializesNearest x chain ∧ chain.map PlacedObject.path = paths := fun paths =>
    Lineage.map_iff (p := (· ∈ s.objects)) (fun _ _ _ h => h.1.2.1)
      (fun _ ha _ => hs.links_forest_iff_nearest ha) hx
  simp only [hpaths]
  constructor
  · rintro ⟨_, chain, hchain, -⟩
    exact ⟨chain, hchain⟩
  · rintro ⟨chain, hchain⟩
    exact ⟨_, chain, hchain, rfl⟩

/-- Of the object types those with a lineage are flattened. -/
lemma path_mem_flatOrder_iff (hs : s.Grounded) (P : PrimitiveSet) (hx : x ∈ s.objects) :
    x.path ∈ flatOrder (s.bindingsOf P).value ↔
      ∃ chain, Lineage s.SpecializesNearest x chain := by
  rw [Bindings.mem_flatOrder_iff fun _ _ => mem_paths_of_links,
    and_iff_right (hs.path_mem_paths P hx), hs.exists_lineage_path_iff P hx]

/-- The order that is taken is one of them. -/
lemma exists_flattensIn (hs : s.Grounded) (P : PrimitiveSet) : ∃ order, s.FlattensIn order ∧
    order.map PlacedObject.path = flatOrder (s.bindingsOf P).value := by
  have hobject : ∀ t ∈ flatOrder (s.bindingsOf P).value, ∃ x, x ∈ s.objects ∧ x.path = t := by
    intro t ht
    have hpath := ((Bindings.mem_flatOrder_iff fun _ _ => mem_paths_of_links).mp ht).1
    rw [hs.paths_bindingsOf] at hpath
    obtain ⟨x, hx, rfl⟩ := List.mem_map.mp hpath
    exact ⟨x, hs.mem_orderedObjects.mp hx, rfl⟩
  obtain ⟨order, hsub, horder⟩ := exists_map_eq hobject
  have hpass := (s.bindingsOf P).value.pass_flatOrder
  rw [← horder] at hpass
  refine ⟨order, ⟨fun x => ⟨fun hx => ?_, ?_⟩, ?_, ?_⟩, horder⟩
  · refine ⟨hsub x hx, (hs.path_mem_flatOrder_iff P (hsub x hx)).mp ?_⟩
    rw [← horder]
    exact List.mem_map_of_mem hx
  · rintro ⟨hx, hchain⟩
    have hpath := (hs.path_mem_flatOrder_iff P hx).mpr hchain
    rw [← horder] at hpath
    obtain ⟨y, hy, heq⟩ := List.mem_map.mp hpath
    exact hs.eq_of_path_eq (hsub y hy) hx heq ▸ hy
  · exact List.Nodup.of_map PlacedObject.path (by simpa using hpass.nodup)
  · have hspecial : ∀ x y, s.SpecializesNearest x y → y ∈ s.objects := fun _ _ h => h.1.2.1
    exact ParentsFirst.of_map hspecial
      (fun x y h => (hs.links_forest_iff_nearest h.1.1).mpr ⟨y, h, rfl⟩)
      (fun x hx y hy => hs.eq_of_path_eq hx hy) (List.nil_subset _) hsub hpass.parentsFirst

end Grounded

/-! ## Reports -/

/-- What resolving finds; nothing if it succeeds. -/
def findings (s : Schema) (P : PrimitiveSet) : List ResolveFinding :=
  match s.resolution P with
  | .ok _ => []
  | .error fs => fs

lemma reports_eq_map_findings (s : Schema) (P : PrimitiveSet) :
    s.reports P = (s.findings P).map ResolveFinding.diagnostic := by
  unfold reports findings resolve
  cases s.resolution P <;> rfl

/-- What is found in a schema: cycles and missing levels alone, or all the rest. -/
lemma findings_eq (s : Schema) (P : PrimitiveSet) : s.findings P =
    if undeclaredParents s ++ levelCycles s = [] then (body P s).notes
    else undeclaredParents s ++ levelCycles s := by
  unfold findings resolution
  by_cases hearly : undeclaredParents s ++ levelCycles s = []
  · by_cases hlate : (body P s).notes = [] <;> simp [hearly, hlate]
  · simp [hearly]

/-- A loaded schema has one report for each property that collides. -/
lemma WellFormed.listsCollisions (hs : s.WellFormed) (P : PrimitiveSet) :
    s.ListsCollisions P ((s.findings P).filter (·.concern = .properties)) := by
  have hparents := hs.linked.undeclaredParents_eq_nil
  rw [findings_eq, hparents, List.nil_append]
  by_cases hacyclic : ∀ l, ¬ Relation.TransGen s.Extends l l
  · have hgrounded := hs.grounded_iff.mpr hacyclic
    rw [if_pos (hs.linked.levelCycles_eq_nil_iff.mpr hgrounded.exists_lineage), filter_properties]
    obtain ⟨order, horder, hpaths⟩ := hgrounded.exists_flattensIn P
    have hlists := hgrounded.listsCollisions_flattenAll P horder
    rwa [hpaths] at hlists
  · -- resolving stops at the cycles of levels, and no type gets resolved
    have hcycles : levelCycles s ≠ [] := fun hnil => hacyclic
      (hs.linked.rooted_iff.mp ⟨hs.linked, hs.linked.levelCycles_eq_nil_iff.mp hnil⟩)
    have hnone : (levelCycles s).filter (·.concern = .properties) = [] :=
      List.filter_eq_nil_iff.mpr (List.forall_mem_map.mpr fun _ _ => by
        simp [ResolveFinding.concern])
    rw [if_neg hcycles, hnone]
    refine ⟨[], .nil, fun q => ?_, .nil⟩
    simp only [List.not_mem_nil, false_iff]
    exact fun hq => hacyclic hq.typeResolved.1

/-- **Clashes of properties do not spread.**  A loaded schema has one report for each declared
property that conflicts with a property accepted before it on its lineage, provided that it is of
known type and its owner is not on a cycle or below one; the report points at the name of the
property.  The same ones are noted in every order in which object types can be flattened. -/
theorem collisions_reported_once {source : String} {loaded : Noted Diagnostic Schema}
    (h : Schema.ofSource source = .ok loaded) (P : PrimitiveSet) :
    loaded.value.reports P = (loaded.value.findings P).map ResolveFinding.diagnostic ∧
    loaded.value.ListsCollisions P
      ((loaded.value.findings P).filter (·.concern = .properties)) ∧
    ((∀ l, ¬ Relation.TransGen loaded.value.Extends l l) → ∀ order, loaded.value.FlattensIn order →
      loaded.value.ListsCollisions P (flattenAll (loaded.value.bindingsOf P).value []
        (order.map PlacedObject.path)).notes) := by
  have hs := wellFormed_of_ofSource h
  refine ⟨reports_eq_map_findings _ P, hs.listsCollisions P, fun hacyclic order horder => ?_⟩
  exact (hs.grounded_iff.mpr hacyclic).listsCollisions_flattenAll P horder

/-- Two properties of an object type clash with one that it inherits.  What extends it has a
property that would clash with one of the two. -/
def widthTwice : String :=
  "AbstractionLevel Site\n    Object Plot\n        Number width\n" ++
    "    Object House extends Plot\n        Number Width\n        Number set_width\n" ++
    "    Object Tower extends House\n        Number set_set_width\n"

theorem widthTwice_reported : ∃ loaded, Schema.ofSource widthTwice = .ok loaded ∧
    ((loaded.value.findings .builtin).filter (·.concern = .properties)).length = 2 ∧
    loaded.value.ListsCollisions .builtin
      ((loaded.value.findings .builtin).filter (·.concern = .properties)) ∧
    (∀ l, ¬ Relation.TransGen loaded.value.Extends l l) ∧
    ∃ order, loaded.value.FlattensIn order ∧ loaded.value.ListsCollisions .builtin
      (flattenAll (loaded.value.bindingsOf .builtin).value []
        (order.map PlacedObject.path)).notes := by
  have hrun : (Schema.ofSource widthTwice).toOption.map (fun loaded =>
      (((loaded.value.findings .builtin).filter (·.concern = .properties)).length,
        (levelCycles loaded.value).isEmpty)) = some (2, true) := by
    decide +kernel
  obtain ⟨loaded, hload, hcount⟩ := exists_of_toOption_map hrun
  obtain ⟨hcount, hcycles⟩ := Prod.mk.inj hcount
  have hs := wellFormed_of_ofSource hload
  have hlineages := hs.linked.levelCycles_eq_nil_iff.mp (List.isEmpty_iff.mp hcycles)
  have hgrounded : loaded.value.Grounded := hs.grounded ⟨hs.linked, hlineages⟩
  have hacyclic := hs.grounded_iff.mp hgrounded
  obtain ⟨order, horder, -⟩ := hgrounded.exists_flattensIn .builtin
  obtain ⟨-, hlists, hany⟩ := collisions_reported_once hload .builtin
  exact ⟨loaded, hload, hcount, hlists, hacyclic, order, horder, hany hacyclic order horder⟩

end Schema

end LevelSchema
