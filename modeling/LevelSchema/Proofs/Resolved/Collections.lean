import LevelSchema.Proofs.Resolved.Flatten

/-!
# The collections of a level

The last pass of resolving gives each level the collections of its parent and one for each object
type of its own.  As with properties, a collection whose accessor is taken is left out, so the table
of the pass holds all collections of a lineage only as long as nothing is noted.

A clash is not reported for object types that were reported as redeclared.  When scopes are in order
there are none, so nothing is left out in silence, and the pass notes nothing exactly when accessors
are distinct along every lineage (`Schema.CollectionsDistinct`).
-/

namespace LevelSchema

namespace Level

/-- The collections of a level's own object types. -/
def collections (l : Level) : List Collection :=
  l.objectTypes.map fun o => ⟨⟨l.name.value, o.name.value⟩⟩

/-- The names under which they are reached. -/
def accessors (l : Level) : List String :=
  l.objectTypes.map fun o => Name.snake (o.name.value ++ "Collection")

lemma accessors_collections (l : Level) : l.collections.map (·.accessor) = l.accessors := by
  simp [collections, accessors, Collection.accessor, Collection.name]

end Level

lemma accessors_flatMap_collections (chain : List Level) :
    (chain.flatMap Level.collections).map (·.accessor) = chain.flatMap Level.accessors := by
  simp only [List.map_flatMap, Level.accessors_collections]

/-! ## Adding the collections of one level -/

namespace Resolve

variable {level : String} {accepted : List Collection} {os : List ObjectType}

/-- Adding collections reports nothing if their accessors join those that are there. -/
lemma notes_addCollections_iff (level : String) (accepted : List Collection)
    (os : List ObjectType) : (addCollections level [] accepted os).notes = [] ↔
      Joins (accepted.map (·.accessor))
        (os.map fun o => Name.snake (o.name.value ++ "Collection")) := by
  induction os generalizing accepted with
  | nil => simp [addCollections, joins_nil]
  | cons o os ih =>
      let collection : Collection := ⟨⟨level, o.name.value⟩⟩
      have htaken : collection.accessor ∈ accepted.map (·.accessor) ↔
          ∃ c, accepted.find? (fun c => c.accessor == collection.accessor) = some c := by
        rw [← Option.isSome_iff_exists, List.find?_isSome, List.mem_map]
        simp
      rw [addCollections, List.map_cons, joins_cons_iff]
      cases hfind : accepted.find? fun c => c.accessor == collection.accessor with
      | some c =>
          have hnot := not_not_intro (htaken.mpr ⟨c, hfind⟩)
          exact iff_of_false (by simp) fun h => hnot h.1
      | none =>
          have hnew : collection.accessor ∉ accepted.map (·.accessor) := by simp [htaken, hfind]
          simp only [ih]
          refine Iff.trans (joins_congr fun a => ?_) (and_iff_right hnew).symm
          rw [List.map_append, List.mem_append, List.mem_cons, or_comm]
          exact or_congr_left List.mem_singleton

lemma value_addCollections (h : (addCollections level [] accepted os).notes = []) :
    (addCollections level [] accepted os).value =
      accepted ++ os.map fun o => ⟨⟨level, o.name.value⟩⟩ := by
  induction os generalizing accepted with
  | nil => simp [addCollections]
  | cons o os ih =>
      rw [addCollections] at h ⊢
      cases hfind : accepted.find? fun c =>
          c.accessor == (⟨⟨level, o.name.value⟩⟩ : Collection).accessor with
      | some c => simp [hfind] at h
      | none =>
          simp only [hfind] at h ⊢
          rw [ih h, List.append_assoc, List.map_cons, List.singleton_append]

end Resolve

/-! ## All levels -/

namespace Schema

open Resolve

variable {s : Schema} {P : PrimitiveSet} {l : Level} {chain done ls : List Level}
  {flat : FlatTable} {acc : CollectionTable}

/-- Along every lineage the accessors of collections are distinct. -/
def CollectionsDistinct (s : Schema) : Prop :=
  ∀ l ∈ s.levels, ∀ chain, Lineage s.Extends l chain → (chain.flatMap Level.accessors).Nodup

/-- What resolving makes of a level with the given lineage. -/
def resolvedLevel (s : Schema) (flat : FlatTable) (l : Level) (chain : List Level) :
    ResolvedLevel :=
  ⟨l.name.value, l.description, l.span, s.ancestors l, l.parameterTypes, resolvedObjects flat l,
    chain.flatMap Level.collections⟩

namespace Grounded

/-- What a level inherits are the collections along the chain above it. -/
lemma inheritedCollections_eq (hs : s.Grounded) (hl : l ∈ s.levels)
    (hchain : Lineage s.Extends l chain) (hdone : ∀ p, s.Extends l p → p ∈ done)
    (htable : Tabulates s.Extends (·.name.value) (·.flatMap Level.collections) done acc) :
    inheritedCollections acc l = chain.dropLast.flatMap Level.collections := by
  rw [← hs.getD_lookup_parent hl hchain hdone htable rfl, inheritedCollections]
  cases l.parent <;> rfl

/-- One step of the pass: nothing is noted exactly when the accessors are new, and then the level is
as it should be and the table as well. -/
lemma resolvedLevels_cons (hs : s.Grounded) (flat : FlatTable) (ls : List Level)
    (hl : l ∈ s.levels) (hchain : Lineage s.Extends l chain) (hdone : ∀ p, s.Extends l p → p ∈ done)
    (htable : Tabulates s.Extends (·.name.value) (·.flatMap Level.collections) done acc) :
    ((resolvedLevels s [] flat acc (l :: ls)).notes = [] ↔
      Joins (chain.dropLast.flatMap Level.accessors) l.accessors ∧
        (resolvedLevels s [] flat
          ((l.name.value, chain.flatMap Level.collections) :: acc) ls).notes = []) ∧
    (Joins (chain.dropLast.flatMap Level.accessors) l.accessors →
      (resolvedLevels s [] flat acc (l :: ls)).value =
        s.resolvedLevel flat l chain :: (resolvedLevels s [] flat
          ((l.name.value, chain.flatMap Level.collections) :: acc) ls).value) := by
  have hbase := hs.inheritedCollections_eq hl hchain hdone htable
  have hjoins := notes_addCollections_iff l.name.value
    (chain.dropLast.flatMap Level.collections) l.objectTypes
  rw [accessors_flatMap_collections] at hjoins
  have hvalue : Joins (chain.dropLast.flatMap Level.accessors) l.accessors →
      (addCollections l.name.value [] (chain.dropLast.flatMap Level.collections)
        l.objectTypes).value = chain.flatMap Level.collections := by
    intro h
    rw [value_addCollections (hjoins.mpr h)]
    obtain ⟨above, rfl⟩ := hchain.eq_append
    simp [Level.collections]
  simp only [resolvedLevels, hbase, Noted.notes_bind, Noted.value_bind, Noted.notes_pure,
    Noted.value_pure, List.append_nil, List.append_eq_nil_iff, hjoins]
  refine ⟨and_congr_right fun h => ?_, fun h => ?_⟩
  · rw [hvalue h]
  · rw [hvalue h]
    rfl

/-- A pass over levels reports nothing if the accessors of each join those above it. -/
lemma notes_resolvedLevels_iff (hs : s.Grounded)
    (hpass : Pass s.Extends (·.name.value) done ls) (hls : ls ⊆ s.levels)
    (htable : Tabulates s.Extends (·.name.value) (·.flatMap Level.collections) done acc) :
    (resolvedLevels s [] flat acc ls).notes = [] ↔ ∀ l ∈ ls, ∀ chain, Lineage s.Extends l chain →
      Joins (chain.dropLast.flatMap Level.accessors) l.accessors := by
  induction ls generalizing acc done with
  | nil => simp [resolvedLevels]
  | cons l ls ih =>
      obtain ⟨hl, hls⟩ := List.cons_subset.mp hls
      obtain ⟨chain, hchain⟩ := hs.exists_lineage l hl
      have htail := htable.cons hs.extends_rightUnique hpass hchain
      rw [(hs.resolvedLevels_cons flat ls hl hchain hpass.parentsFirst.1 htable).1,
        List.forall_mem_cons, ih hpass.tail hls htail]
      refine and_congr_left fun _ => ⟨fun hjoins chain' hchain' => ?_, fun h => h chain hchain⟩
      rwa [hchain'.eq hs.extends_rightUnique hchain]

/-- Without notes every level is resolved, in the given order. -/
lemma value_resolvedLevels (hs : s.Grounded)
    (hpass : Pass s.Extends (·.name.value) done ls) (hls : ls ⊆ s.levels)
    (htable : Tabulates s.Extends (·.name.value) (·.flatMap Level.collections) done acc)
    (h : (resolvedLevels s [] flat acc ls).notes = []) :
    List.Forall₂ (fun l r => ∀ chain, Lineage s.Extends l chain → r = s.resolvedLevel flat l chain)
      ls (resolvedLevels s [] flat acc ls).value := by
  induction ls generalizing acc done with
  | nil => exact .nil
  | cons l ls ih =>
      obtain ⟨hl, hls⟩ := List.cons_subset.mp hls
      obtain ⟨chain, hchain⟩ := hs.exists_lineage l hl
      have htail := htable.cons hs.extends_rightUnique hpass hchain
      have hstep := hs.resolvedLevels_cons flat ls hl hchain hpass.parentsFirst.1 htable
      obtain ⟨hjoins, hrest⟩ := hstep.1.mp h
      rw [hstep.2 hjoins]
      refine .cons (fun chain' hchain' => ?_) (ih hpass.tail hls htail hrest)
      rw [hchain'.eq hs.extends_rightUnique hchain]

/-- **Nothing is noted about collections exactly when accessors are distinct along lineages.** -/
theorem notes_resolvedLevels_orderedLevels_iff (hs : s.Grounded) :
    (resolvedLevels s [] flat [] s.orderedLevels).notes = [] ↔ s.CollectionsDistinct := by
  rw [hs.notes_resolvedLevels_iff hs.pass_orderedLevels
    (fun l hl => hs.mem_orderedLevels.mp hl) tabulates_nil]
  simp only [hs.mem_orderedLevels]
  exact Lineage.forall_check_iff List.Nodup (fun _ _ h => h.2.1) List.nodup_nil
    fun l _ above => nodup_append_iff_joins

end Grounded

end Schema

end LevelSchema
