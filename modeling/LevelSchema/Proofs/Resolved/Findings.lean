import LevelSchema.Proofs.Resolved.Levels
import LevelSchema.Proofs.Schema.Findings

/-!
# Where resolution points

What resolution finds wrong is pointed at by places of the schema: of names, of what is extended,
and of the types of properties.  It goes on after a mistake, so nothing can be taken from what an
accepted schema is like; the stages are gone through as they are, each with what it hands on.  If
the places of the schema have `p`, so have those of scopes, bindings and flattened properties, and
with them those of all findings (`Schema.placed_of_resolution`).

**Cycles.**  A cycle is labelled step by step, the first step as the place of the mistake.  There is
always a first step, because a node on a cycle extends something.
-/

namespace LevelSchema

open Noted

variable {p : Span → Prop}

/-! ## Findings -/

namespace ResolveFinding

/-- All that a finding points at is at places with `p`, and a cycle has something to point at. -/
def Placed (p : Span → Prop) : ResolveFinding → Prop
  | .undeclaredLevel _ parent => p parent.span
  | .levelCycle steps => steps ≠ [] ∧ ∀ s ∈ steps, p s.parent.span
  | .levelShadowsPrimitive level => p level.span
  | .typeShadowsPrimitive _ span => p span
  | .redeclaredType _ span inherited => p span ∧ p inherited.span
  | .typeNamedLikeLevel level type => p level.span ∧ p type.span
  | .extendsParameterType _ parent type => p parent.span ∧ p type.span
  | .extendsUnknownType _ parent _ => p parent.span
  | .unknownPropertyType _ _ type _ => p type.span
  | .objectCycle steps => steps ≠ [] ∧ ∀ s ∈ steps, p s.parent.span
  | .inheritedProperty _ property inherited => p property.span ∧ p inherited.span
  | .sharedAccessor _ property other => p property.span ∧ p other.span
  | .sharedCollection _ _ span _ => p span

/-- A cycle is labelled at the clauses that lead around it. -/
lemma labelSteps_anchored {d : Diagnostic} {steps : List CycleStep} (hd : d.labels = [])
    (hne : steps ≠ []) (hsteps : ∀ s ∈ steps, p s.parent.span) :
    (labelSteps d steps).Anchored p := by
  have hothers : ∀ (remark : CycleStep → String) (others : List CycleStep) (d : Diagnostic),
      d.Anchored p → (∀ s ∈ others, p s.parent.span) →
        (others.foldl (fun d s => d.secondary s.parent.span (remark s)) d).Anchored p := by
    intro remark others
    induction others with
    | nil => exact fun _ hd _ => hd
    | cons s others ih =>
        intro d hd hspans
        obtain ⟨hs, hspans⟩ := List.forall_mem_cons.mp hspans
        exact ih _ (Diagnostic.anchored_secondary_iff.mpr ⟨hd, hs⟩) hspans
  cases steps with
  | nil => exact absurd rfl hne
  | cons first others =>
      obtain ⟨hfirst, hspans⟩ := List.forall_mem_cons.mp hsteps
      refine hothers _ others _ ?_ hspans
      exact Diagnostic.anchored_primary_iff.mpr ⟨by simp [hd], hfirst⟩

/-- The labels of a diagnostic are where the finding is. -/
lemma Placed.anchored {f : ResolveFinding} (h : f.Placed p) : f.diagnostic.Anchored p := by
  cases f with
  | levelCycle steps => exact labelSteps_anchored rfl h.1 h.2
  | objectCycle steps => exact labelSteps_anchored rfl h.1 h.2
  | typeNamedLikeLevel level type =>
      simp only [diagnostic]
      split_ifs
      · simpa using h.2
      · simpa [Placed] using h
  | inheritedProperty object property inherited =>
      simp only [diagnostic]
      split_ifs <;> simpa [Placed] using h
  | _ => simpa [diagnostic, Placed] using h

end ResolveFinding

/-! ## Levels -/

/-- The steps of a cycle, where `step?` gives a step for every node that extends something. -/
lemma Forest.steps_placed {α : Type} [DecidableEq α] {g : Forest α} {nodes cycle : List α}
    {step? : α → Option CycleStep} (hcycle : cycle ∈ g.cycles nodes)
    (hlinks : ∀ n m, g.Links n m → (step? n).isSome = true)
    (hstep : ∀ n s, step? n = some s → p s.parent.span) :
    cycle.filterMap step? ≠ [] ∧ ∀ s ∈ cycle.filterMap step?, p s.parent.span := by
  constructor
  · obtain ⟨n, between, rfl, hchain⟩ := (g.listsCycles_cycles nodes).closes cycle hcycle
    obtain ⟨m, hm, -⟩ := Relation.TransGen.head'_iff.mp (transGen_of_isChain between n hchain)
    obtain ⟨s, hs⟩ := Option.isSome_iff_exists.mp (hlinks n m hm)
    exact List.ne_nil_of_mem (List.mem_filterMap.mpr ⟨n, List.mem_cons_self, hs⟩)
  · intro s hs
    obtain ⟨n, -, hn⟩ := List.mem_filterMap.mp hs
    exact hstep n s hn

namespace Resolve

open ResolveFinding

variable {s : Schema} {primitives : PrimitiveSet}

/-- A parent that is not declared is reported where it is named. -/
lemma undeclaredParents_placed (hs : s.Placed p) : ∀ f ∈ undeclaredParents s, f.Placed p := by
  intro f hf
  obtain ⟨l, hl, hfound⟩ := List.mem_filterMap.mp hf
  split at hfound
  · next parent hparent =>
      split_ifs at hfound
      cases hfound
      exact (hs l hl).parent parent hparent
  · exact nomatch hfound

/-- A cycle of levels is reported at the clauses that make it. -/
lemma levelCycles_placed (hs : s.Placed p) : ∀ f ∈ levelCycles s, f.Placed p := by
  refine List.forall_mem_map.mpr fun cycle hcycle => Forest.steps_placed hcycle ?_ ?_
  · intro name parent hlink
    rw [Forest.Links, Schema.forest, Forest.parent?_ofParent] at hlink
    split_ifs at hlink
    obtain ⟨l, hl, hparent⟩ := Option.bind_eq_some_iff.mp hlink
    obtain ⟨n, hn, -⟩ := Option.map_eq_some_iff.mp hparent
    simp [hl, hn]
  · intro name step hstep
    obtain ⟨l, hl, hparent⟩ := Option.bind_eq_some_iff.mp hstep
    obtain ⟨n, hn, rfl⟩ := Option.map_eq_some_iff.mp hparent
    exact (hs l (Schema.mem_of_level? hl)).parent n hn

/-! ## Scopes -/

/-- The types of a scope are declared at places with `p`. -/
def ScopePlaced (p : Span → Prop) (scope : Scope) : Prop :=
  ∀ e ∈ scope, p e.2.span

/-- So are those of all scopes. -/
def Scopes.Placed (p : Span → Prop) (scopes : Scopes) : Prop :=
  ∀ e ∈ scopes.byLevel, ScopePlaced p e.2

/-- What is found in a scope has a place of the schema. -/
lemma ScopePlaced.lookup {scope : Scope} (h : ScopePlaced p scope) {name : String} {v : Visible}
    (hv : scope.lookup name = some v) : p v.span :=
  h _ (mem_of_lookup_eq_some hv)

lemma Scopes.Placed.of {scopes : Scopes} (h : scopes.Placed p) (name : String) :
    ScopePlaced p (scopes.of name) := by
  unfold Scopes.of
  cases hscope : scopes.byLevel.lookup name with
  | none => exact nofun
  | some scope => exact h _ (mem_of_lookup_eq_some hscope)

lemma Scopes.Placed.ofParent {scopes : Scopes} (h : scopes.Placed p) (l : Level) :
    ScopePlaced p (scopes.ofParent l) := by
  unfold Scopes.ofParent
  split
  · exact h.of _
  · exact nofun

lemma ownTypes_placed {l : Level} (hl : l.Placed p) : ∀ t ∈ l.ownTypes, p t.1.span := by
  refine List.forall_mem_append.mpr ⟨?_, ?_⟩
  · exact List.forall_mem_map.mpr hl.parameterTypes
  · exact List.forall_mem_map.mpr fun o ho => (hl.objectTypes o ho).name

/-- Declaring types reports their places, and for a collision that of the inherited type too. -/
lemma declareTypes_confines {level : String} {types : List (Located String × TypeKind)} :
    ∀ {scope : Scope}, ScopePlaced p scope → (∀ t ∈ types, p t.1.span) →
      Confines (ResolveFinding.Placed p) (declareTypes primitives level scope types) fun r =>
        ScopePlaced p r.1 := by
  induction types with
  | nil => exact fun hscope _ => confines_pure hscope
  | cons t types ih =>
      intro scope hscope htypes
      obtain ⟨ht, hrest⟩ := List.forall_mem_cons.mp htypes
      obtain ⟨name, kind⟩ := t
      rw [declareTypes]
      refine confines_bind (confines_noteAny fun f hf => ?_) fun _ _ => ?_
      · obtain ⟨-, hnoted⟩ := Option.ite_none_right_eq_some.mp hf
        cases hnoted
        exact ht
      refine confines_bind (confines_noteAny fun f hf => ?_) fun _ _ => ?_
      · obtain ⟨v, hv, rfl⟩ := Option.map_eq_some_iff.mp hf
        exact ⟨ht, hscope.lookup hv⟩
      exact confines_bind (ih (List.forall_mem_cons.mpr ⟨ht, hscope⟩) hrest) fun r hr =>
        confines_pure hr

lemma levelScope_confines {parent : Scope} {l : Level} (hparent : ScopePlaced p parent)
    (hl : l.Placed p) :
    Confines (ResolveFinding.Placed p) (levelScope primitives parent l) fun r =>
      ScopePlaced p r.1 := by
  unfold levelScope
  refine confines_bind (confines_noteAny fun f hf => ?_) fun _ _ => ?_
  · obtain ⟨-, hnoted⟩ := Option.ite_none_right_eq_some.mp hf
    cases hnoted
    exact hl.name
  refine confines_bind (declareTypes_confines hparent (ownTypes_placed hl)) fun r hr => ?_
  refine confines_bind (confines_noteAny fun f hf => ?_) fun _ _ => confines_pure hr
  obtain ⟨v, hv, rfl⟩ := Option.map_eq_some_iff.mp hf
  exact ⟨hl.name, hr.lookup hv⟩

/-- The scopes of levels are built one upon the other and hold only places of the schema. -/
lemma scopes_confines {ls : List Level} : ∀ {done : Scopes}, done.Placed p →
    (∀ l ∈ ls, l.Placed p) →
      Confines (ResolveFinding.Placed p) (scopes primitives done ls) (Scopes.Placed p) := by
  induction ls with
  | nil => exact fun hdone _ => confines_pure hdone
  | cons l ls ih =>
      intro done hdone hls
      obtain ⟨hl, hrest⟩ := List.forall_mem_cons.mp hls
      rw [scopes]
      refine confines_bind (levelScope_confines (hdone.ofParent l) hl) fun r hr => ?_
      exact ih (List.forall_mem_cons.mpr ⟨hr, hdone⟩) hrest

/-! ## Bindings -/

/-- The places of a bound object type have `p`, and a link is only bound where one is declared. -/
structure BoundPlaced (p : Span → Prop) (o : BoundObject) : Prop where
  decl_parent : ∀ n ∈ o.decl.parent, p n.span
  declared : o.parent.isSome = true → o.decl.parent.isSome = true
  properties : ∀ r ∈ o.properties, p r.span

/-- So it is for all bindings. -/
def BindingsPlaced (p : Span → Prop) (b : Bindings) : Prop :=
  ∀ e ∈ b.objects, BoundPlaced p e.2

lemma BindingsPlaced.get? {b : Bindings} (h : BindingsPlaced p b) {path : TypePath}
    {o : BoundObject} (ho : b.get? path = some o) : BoundPlaced p o :=
  h _ (List.mem_reverse.mp (mem_of_lookup_eq_some ho))

/-- A parent that cannot be bound is reported where it is named. -/
lemma bindParent_confines {scope : Scope} {path : TypePath} {o : ObjectType}
    (hscope : ScopePlaced p scope) (ho : ∀ n ∈ o.parent, p n.span) :
    Confines (ResolveFinding.Placed p) (bindParent s scope path o) fun r =>
      r.isSome = true → o.parent.isSome = true := by
  unfold bindParent
  split
  · exact confines_pure nofun
  · next parent hparent =>
      have hplace := ho parent hparent
      split
      · exact confines_pure fun _ => by simp [hparent]
      · next hv =>
          exact confines_bind (confines_note ⟨hplace, hscope.lookup hv⟩) fun _ _ =>
            confines_pure nofun
      · exact confines_bind (confines_note hplace) fun _ _ => confines_pure nofun

/-- A property whose type cannot be bound is reported where the type is named. -/
lemma bindProperties_confines {scope : Scope} {path : TypePath} {rs : List Property}
    (hrs : ∀ r ∈ rs, r.Placed p) :
    Confines (ResolveFinding.Placed p) (bindProperties s primitives scope path rs) fun bound =>
      ∀ r ∈ bound, p r.span := by
  induction rs with
  | nil => exact confines_pure nofun
  | cons r rs ih =>
      obtain ⟨hr, hrest⟩ := List.forall_mem_cons.mp hrs
      rw [bindProperties]
      split
      · exact confines_bind (ih hrest) fun bound hbound =>
          confines_pure (List.forall_mem_cons.mpr ⟨hr.name, hbound⟩)
      · exact confines_bind (confines_note hr.type) fun _ _ => ih hrest

/-- An object type that is bound carries only places of its declaration. -/
lemma bindObject_confines {scope : Scope} {level : String} {o : ObjectType}
    (hscope : ScopePlaced p scope) (ho : o.Placed p) :
    Confines (ResolveFinding.Placed p) (bindObject s primitives scope level o) fun e =>
      BoundPlaced p e.2 := by
  unfold bindObject
  refine confines_bind (bindParent_confines hscope ho.parent) fun parent hparent => ?_
  refine confines_bind (bindProperties_confines ho.properties) fun bound hbound => ?_
  exact confines_pure ⟨ho.parent, hparent, hbound⟩

/-- All object types are bound with places of the schema. -/
lemma bindings_confines {scopes : Scopes} {ls : List Level} (hscopes : scopes.Placed p)
    (hls : ∀ l ∈ ls, l.Placed p) :
    Confines (ResolveFinding.Placed p) (bindings s primitives scopes ls) (BindingsPlaced p) := by
  unfold bindings
  refine confines_bind (confines_each fun l hl => confines_each fun o ho =>
    bindObject_confines (hscopes.of _) ((hls l hl).objectTypes o ho)) fun objects hobjects => ?_
  refine confines_pure fun e he => ?_
  obtain ⟨es, hes, he⟩ := List.mem_flatten.mp he
  exact hobjects es hes e he

/-- A cycle of object types is reported at the clauses that make it. -/
lemma objectCycles_placed {b : Bindings} (hb : BindingsPlaced p b) :
    ∀ f ∈ objectCycles b, f.Placed p := by
  refine List.forall_mem_map.mpr fun cycle hcycle => Forest.steps_placed hcycle ?_ ?_
  · intro path parent hlink
    rw [Forest.Links, Bindings.forest, Forest.parent?_ofParent] at hlink
    split_ifs at hlink
    obtain ⟨o, ho, hparent⟩ := Option.bind_eq_some_iff.mp hlink
    have hdeclared := (hb.get? ho).declared (by simp [hparent])
    simpa [ho] using hdeclared
  · intro path step hstep
    obtain ⟨o, ho, hparent⟩ := Option.bind_eq_some_iff.mp hstep
    obtain ⟨n, hn, rfl⟩ := Option.map_eq_some_iff.mp hparent
    exact (hb.get? ho).decl_parent n hn

/-! ## Flattening and collections -/

/-- The properties of what is flattened are declared at places with `p`. -/
def FlatPlaced (p : Span → Prop) (table : FlatTable) : Prop :=
  ∀ e ∈ table, ∀ r ∈ e.2.properties, p r.span

lemma inheritedPart_placed {done : FlatTable} (hdone : FlatPlaced p done)
    (parent : Option TypePath) : ∀ r ∈ (inheritedPart done parent).properties, p r.span := by
  unfold inheritedPart
  split
  · exact nofun
  · split
    · next hf => exact hdone _ (mem_of_lookup_eq_some hf)
    · exact nofun

/-- Adding properties reports their places, and for a collision that of the other one too. -/
lemma addProperties_confines {object : TypePath} {inherited own : List ResolvedProperty}
    (hinherited : ∀ r ∈ inherited, p r.span) :
    ∀ {accepted : List ResolvedProperty}, (∀ r ∈ accepted, p r.span) → (∀ r ∈ own, p r.span) →
      Confines (ResolveFinding.Placed p) (addProperties object inherited accepted own) fun rs =>
        ∀ r ∈ rs, p r.span := by
  induction own with
  | nil => exact fun haccepted _ => confines_pure haccepted
  | cons r own ih =>
      intro accepted haccepted hown
      obtain ⟨hr, hrest⟩ := List.forall_mem_cons.mp hown
      rw [addProperties]
      split
      · next hfound =>
          have hplace := hinherited _ (List.mem_of_find?_eq_some hfound)
          exact confines_bind (confines_note ⟨hr, hplace⟩) fun _ _ => ih haccepted hrest
      · split
        · next hfound =>
            have hplace := haccepted _ (List.mem_of_find?_eq_some hfound)
            exact confines_bind (confines_note ⟨hr, hplace⟩) fun _ _ => ih haccepted hrest
        · exact ih (List.forall_mem_append.mpr ⟨haccepted, by simpa using hr⟩) hrest

/-- Flattening hands on the places that binding has given. -/
lemma flattenAll_confines {b : Bindings} (hb : BindingsPlaced p b) {paths : List TypePath} :
    ∀ {done : FlatTable}, FlatPlaced p done →
      Confines (ResolveFinding.Placed p) (flattenAll b done paths) (FlatPlaced p) := by
  induction paths with
  | nil => exact fun hdone => confines_pure hdone
  | cons path paths ih =>
      intro done hdone
      rw [flattenAll]
      split
      · exact ih hdone
      · next o ho =>
          have hbase := inheritedPart_placed hdone o.parent
          refine confines_bind (addProperties_confines hbase hbase (hb.get? ho).properties)
            fun rs hrs => ?_
          exact ih (List.forall_mem_cons.mpr ⟨hrs, hdone⟩)

lemma addCollections_confines {level : String} {redeclared : List TypePath}
    {os : List ObjectType} : ∀ {accepted : List Collection}, (∀ o ∈ os, o.Placed p) →
      Confines (ResolveFinding.Placed p) (addCollections level redeclared accepted os) fun _ =>
        True := by
  induction os with
  | nil => exact fun _ => confines_pure trivial
  | cons o os ih =>
      intro accepted hos
      obtain ⟨ho, hrest⟩ := List.forall_mem_cons.mp hos
      rw [addCollections]
      split
      · refine confines_bind (confines_noteAny fun f hf => ?_) fun _ _ => ih hrest
        obtain ⟨-, hnoted⟩ := Option.ite_none_left_eq_some.mp hf
        cases hnoted
        exact ho.name
      · exact ih hrest

/-- Collections are reported at the object types they are made from. -/
lemma resolvedLevels_confines {redeclared : List TypePath} {flat : FlatTable} {ls : List Level} :
    ∀ {done : CollectionTable}, (∀ l ∈ ls, l.Placed p) →
      Confines (ResolveFinding.Placed p) (resolvedLevels s redeclared flat done ls) fun _ =>
        True := by
  induction ls with
  | nil => exact fun _ => confines_pure trivial
  | cons l ls ih =>
      intro done hls
      obtain ⟨hl, hrest⟩ := List.forall_mem_cons.mp hls
      rw [resolvedLevels]
      refine confines_bind (addCollections_confines hl.objectTypes) fun _ _ => ?_
      exact confines_bind (ih hrest) fun _ _ => confines_pure trivial

/-- Everything that is found after the first check has a place of the schema. -/
lemma body_confines (hs : s.Placed p) :
    Confines (ResolveFinding.Placed p) (body primitives s) fun _ => True := by
  have hlevels : ∀ l ∈ s.orderedLevels, l.Placed p :=
    fun l hl => hs l (Schema.mem_of_mem_orderedLevels hl)
  unfold body
  refine confines_bind (scopes_confines nofun hlevels) fun scopes hscopes => ?_
  refine confines_bind (bindings_confines hscopes hlevels) fun b hb => ?_
  refine confines_bind (P := fun _ => True) ⟨objectCycles_placed hb, trivial⟩ fun _ _ => ?_
  refine confines_bind (flattenAll_confines hb nofun) fun flat _ => ?_
  exact confines_bind (resolvedLevels_confines hlevels) fun _ _ => confines_pure trivial

end Resolve

/-- **Resolution points only at places of the schema.** -/
lemma Schema.placed_of_resolution {s : Schema} {primitives : PrimitiveSet}
    {fs : List ResolveFinding} (hs : s.Placed p) (h : s.resolution primitives = .error fs) :
    ∀ f ∈ fs, f.Placed p := by
  unfold Schema.resolution at h
  simp only at h
  split_ifs at h
  · cases h
    exact (Resolve.body_confines hs).notes
  · cases h
    exact List.forall_mem_append.mpr
      ⟨Resolve.undeclaredParents_placed hs, Resolve.levelCycles_placed hs⟩

end LevelSchema
