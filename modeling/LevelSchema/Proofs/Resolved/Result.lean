import LevelSchema.Proofs.Resolved.Acceptance

/-!
# What a resolved schema holds

Once resolving succeeds, its result can be read off the declarations: the levels stand in their
order, one for one; each has its own types, the ancestors and collections of its lineage, and each
of its object types has the ancestors and properties of its own lineage
(`Schema.WellFormed.forall₂_levelYields`).

The relations `ObjectYields` and `LevelYields` say this of single object types and levels, in terms
of `Lineage` only, so that nothing later has to look at the tables of resolving again.
-/

namespace LevelSchema

namespace Schema

open Resolve

variable {s : Schema} {P : PrimitiveSet} {l : Level} {x : PlacedObject} {r : ResolvedSchema}
  {flat : FlatTable}

/-- What resolving makes of an object type. -/
structure ObjectYields (s : Schema) (P : PrimitiveSet) (x : PlacedObject) (o : ResolvedObject) :
    Prop where
  path : o.path = x.path
  description : o.description = x.decl.description
  span : o.span = x.decl.span
  lineage : ∃ chain, Lineage s.Specializes x chain ∧
    o.ancestors = chain.dropLast.map PlacedObject.path ∧
      o.properties = chain.flatMap (s.boundProperties P)

/-- What resolving makes of a level. -/
structure LevelYields (s : Schema) (P : PrimitiveSet) (l : Level) (r : ResolvedLevel) : Prop where
  name : r.name = l.name.value
  description : r.description = l.description
  span : r.span = l.span
  parameterTypes : r.parameterTypes = l.parameterTypes
  objectTypes : List.Forall₂ (s.ObjectYields P) l.objects r.objectTypes
  lineage : ∃ chain, Lineage s.Extends l chain ∧
    r.ancestors = chain.dropLast.map (·.name.value) ∧
      r.collections = chain.flatMap Level.collections

/-- No object type of a level is lost, since all of them could be flattened. -/
lemma Bound.forall₂_resolvedObjects (hs : s.Bound P)
    (hflat : (flatten (s.bindingsOf P).value).notes = []) (hl : l ∈ s.levels) :
    List.Forall₂ (s.ObjectYields P) l.objects
      (resolvedObjects (flatten (s.bindingsOf P).value).value l) := by
  rw [resolvedObjects, Level.objects, List.forall₂_map_left_iff]
  refine forall₂_filterMap fun o ho => ?_
  have hx : (⟨l, o⟩ : PlacedObject) ∈ s.objects := mem_objects.mpr ⟨hl, ho⟩
  obtain ⟨chain, hchain⟩ := hs.exists_specialization ⟨l, o⟩
  have hlookup : (flatten (s.bindingsOf P).value).value.lookup ⟨l.name.value, o.name.value⟩ = _ :=
    hs.lookup_flatten_bindingsOf hflat hx hchain
  simp only [hlookup]
  exact ⟨_, rfl, rfl, rfl, rfl, chain, hchain, rfl, rfl⟩

/-- **A schema resolves to its levels in order, each with what its lineages declare.** -/
theorem WellFormed.forall₂_levelYields (hs : s.WellFormed) (h : s.resolve P = .ok r) :
    List.Forall₂ (s.LevelYields P) s.orderedLevels r.levels := by
  obtain ⟨hresolvable, rfl⟩ := hs.resolve_eq_ok_iff.mp h
  have hbound : s.Bound P := hresolvable.bound hs
  obtain ⟨-, hnotes⟩ := hs.notes_eq_nil_iff.mpr hresolvable
  obtain ⟨hscopes, -, -, hflat, hlevels⟩ := (notes_body s P).mp hnotes
  have hvalue : (body P s).value.levels =
    (resolvedLevels s (s.scopesOf P).value.redeclared
      (flatten (s.bindingsOf P).value).value [] s.orderedLevels).value := rfl
  rw [redeclared_scopesOf hscopes] at hlevels hvalue
  have hsub : s.orderedLevels ⊆ s.levels := fun l hl => hbound.mem_orderedLevels.mp hl
  rw [hvalue]
  have hresolved := hbound.value_resolvedLevels hbound.pass_orderedLevels hsub tabulates_nil hlevels
  refine ((List.forall₂_and_left _ _).mpr ⟨hsub, hresolved⟩).imp ?_
  rintro l r ⟨hl, hr⟩
  obtain ⟨chain, hchain⟩ := hbound.exists_lineage l hl
  rw [hr chain hchain]
  exact ⟨rfl, rfl, rfl, rfl, hbound.forall₂_resolvedObjects hflat hl,
    chain, hchain, hbound.ancestors_eq hl hchain, rfl⟩

/-- Resolving has made sure of everything that its result relies on. -/
lemma WellFormed.bound_of_resolve (hs : s.WellFormed) (h : s.resolve P = .ok r) : s.Bound P :=
  (hs.resolve_eq_ok_iff.mp h).1.bound hs

/-- Every resolved level comes from a declared one. -/
lemma WellFormed.exists_levelYields (hs : s.WellFormed) (h : s.resolve P = .ok r)
    {level : ResolvedLevel} (hlevel : level ∈ r.levels) :
    ∃ l ∈ s.levels, s.LevelYields P l level := by
  have hbound := hs.bound_of_resolve h
  obtain ⟨l, hl, hyields⟩ := exists_of_forall₂_of_mem (hs.forall₂_levelYields h) hlevel
  exact ⟨l, hbound.mem_orderedLevels.mp hl, hyields⟩

/-- Every declared level is resolved. -/
lemma WellFormed.exists_resolved (hs : s.WellFormed) (h : s.resolve P = .ok r)
    (hl : l ∈ s.levels) : ∃ level ∈ r.levels, s.LevelYields P l level := by
  have hbound := hs.bound_of_resolve h
  exact exists_of_forall₂_of_mem (hs.forall₂_levelYields h).flip (hbound.mem_orderedLevels.mpr hl)

/-! ## Levels above a level -/

variable {level : ResolvedLevel} {o : ResolvedObject} {y : PlacedObject}

/-- What an object type specializes is declared at its level or above. -/
lemma reflTransGen_of_mem_lineage {chain : List PlacedObject}
    (hchain : Lineage s.Specializes x chain) (hy : y ∈ chain) :
    Relation.ReflTransGen s.Extends x.level y.level := by
  induction hchain with
  | root => exact List.mem_singleton.mp hy ▸ .refl
  | step hxz _ ih =>
      rcases List.mem_append.mp hy with hy | hy
      · exact hxz.2.2.1.trans (ih hy)
      · exact List.mem_singleton.mp hy ▸ .refl

/-- The object types of a resolved level come from the declared ones. -/
lemma LevelYields.exists_objectYields (hr : s.LevelYields P l level) (hl : l ∈ s.levels)
    (ho : o ∈ level.objectTypes) : ∃ x ∈ s.objects, x.level = l ∧ s.ObjectYields P x o := by
  obtain ⟨x, hx, hyields⟩ := exists_of_forall₂_of_mem hr.objectTypes ho
  obtain ⟨hlevel, hdecl⟩ := Level.mem_objects.mp hx
  exact ⟨x, mem_objects.mpr (hlevel ▸ ⟨hl, hdecl⟩), hlevel, hyields⟩

lemma LevelYields.mem_ancestors_iff (hs : s.WellFormed) (hr : s.LevelYields P l level)
    {name : String} :
    name ∈ level.ancestors ↔ ∃ m, Relation.TransGen s.Extends l m ∧ m.name.value = name := by
  obtain ⟨chain, hchain, hancestors, -⟩ := hr.lineage
  rw [hancestors, List.mem_map]
  simp only [hchain.mem_dropLast_iff hs.linked.extends_rightUnique]

end Schema

end LevelSchema
