import LevelSchema.Proofs.Lineage.Order
import LevelSchema.Proofs.Resolved.Acceptance

/-!
# The order of resolved levels

Resolving keeps levels in the order of their declaration, except that a level pulls its ancestors in
front of itself.  For a `Rooted` schema this is the pass over lineages that
`Hierarchy.ranked_keepFirst` describes (`Schema.Rooted.orderedLevels_eq`), so the levels come out
sorted by the place where each is first used, and then by the number of their ancestors.
-/

namespace LevelSchema

namespace Schema

open Resolve

variable {s : Schema} {P : PrimitiveSet} {r : ResolvedSchema}

/-! ## Sorting levels -/

/-- The levels of a rooted schema are a hierarchy. -/
lemma Rooted.hierarchy (hs : s.Rooted) : Hierarchy s.Extends s.levels where
  nodup := List.Nodup.of_map _ hs.names_nodup
  rightUnique := hs.extends_rightUnique
  mem _ _ h := ⟨h.1, h.2.1⟩
  acyclic := hs.rooted_iff.mp hs

/-- Names are ordered by following their lineages, and so are the levels themselves. -/
lemma Rooted.orderedLevels_eq (hs : s.Rooted) {chain : Level → List Level}
    (hchain : ∀ l ∈ s.levels, Lineage s.Extends l (chain l)) :
    s.orderedLevels = keepFirst (s.levels.flatMap chain) := by
  have hmem : ∀ m ∈ s.levels.flatMap chain, m ∈ s.levels := by
    intro m hm
    obtain ⟨l, hl, hm⟩ := List.mem_flatMap.mp hm
    exact mem_levels_of_lineage hl (hchain l hl) hm
  have hnames : s.orderedNames = (keepFirst (s.levels.flatMap chain)).map (·.name.value) := by
    rw [← keepFirst_map fun l hl m hm => hs.eq_of_name_eq (hmem l hl) (hmem m hm),
      List.map_flatMap, orderedNames]
    congr 1
    exact List.flatMap_congr fun l hl => hs.ancestors_append hl (hchain l hl)
  rw [orderedLevels, hnames, List.filterMap_map]
  refine (List.filterMap_congr fun l hl => ?_).trans List.filterMap_some
  exact hs.level?_eq_some_iff.mpr ⟨hmem l (mem_keepFirst.mp hl), rfl⟩

lemma Rooted.ranked_orderedLevels (hs : s.Rooted) : Ranked s.Extends s.levels s.orderedLevels := by
  choose! chain hchain using hs.exists_lineage
  rw [hs.orderedLevels_eq hchain]
  exact hs.hierarchy.ranked_keepFirst hchain

/-! ## Resolved levels -/

/-- Resolving keeps the names and the order of levels. -/
lemma names_resolvedLevels {redeclared : List TypePath} {flat : FlatTable} {ls : List Level} :
    ∀ done, (resolvedLevels s redeclared flat done ls).value.map (·.name) =
      ls.map (·.name.value) := by
  induction ls with
  | nil => simp [resolvedLevels]
  | cons l ls ih => simp [resolvedLevels, ih]

/-- Resolved levels stand in the order of levels, whatever the schema. -/
lemma names_of_resolve (h : s.resolve P = .ok r) :
    r.levels.map (·.name) = s.orderedLevels.map (·.name.value) := by
  obtain ⟨-, rfl⟩ := resolve_eq_ok_iff_notes.mp h
  exact names_resolvedLevels []

/-- **Levels are resolved in the order of their first use.**  They are the declared levels, sorted
by the first place where the level or one that descends from it is declared, and then by the number
of ancestors.  So every level comes once and after all its ancestors; it is moved ahead of a level
that is declared earlier only as an ancestor of that level or of one declared before it; and nothing
is moved if every level is declared after the one it extends. -/
theorem levels_sorted_by_first_use (hnames : s.levelNames.Nodup)
    (hparents : ∀ l ∈ s.levels, ∀ p, l.parent = some p → ∃ m ∈ s.levels, m.name.value = p.value)
    (hacyclic : ∀ l, ¬ Relation.TransGen s.Extends l l) :
    (∀ P r, s.resolve P = .ok r → r.levels.map (·.name) = s.orderedLevels.map (·.name.value)) ∧
      Ranked s.Extends s.levels s.orderedLevels ∧ s.orderedLevels.Nodup ∧
      (∀ l m, Relation.TransGen s.Extends l m → [m, l].Sublist s.orderedLevels) ∧
      (∀ l m, [l, m].Sublist s.orderedLevels → [m, l].Sublist s.levels →
        ∃ n, Relation.TransGen s.Extends n l ∧ (n = m ∨ [n, m].Sublist s.levels)) ∧
      ((∀ l m, s.Extends l m → [m, l].Sublist s.levels) → s.orderedLevels = s.levels) := by
  have hlinked : s.Linked := ⟨hnames, hparents⟩
  have hrooted : s.Rooted := hlinked.rooted_iff.mpr hacyclic
  have hranked := hrooted.ranked_orderedLevels
  exact ⟨fun _ _ h => names_of_resolve h, hranked, hranked.nodup hrooted.hierarchy,
    fun _ _ h => hranked.sublist_of_transGen hrooted.hierarchy h,
    fun _ _ h h' => hranked.exists_pulling hrooted.hierarchy h h',
    hranked.eq_of_parents_first hrooted.hierarchy⟩

/-- Two levels are declared before what they extend, and one that is unrelated stands between. -/
def parkAmongParentsLast : String :=
  "AbstractionLevel District extends City\n    Object Ward\n" ++
    "AbstractionLevel Park\n    Object Lawn\n" ++
    "AbstractionLevel City extends Site\n    Object Tower\n" ++
    "AbstractionLevel Site\n    Object Plot\n"

theorem parkAmongParentsLast_sorted : ∃ loaded r,
    Schema.ofSource parkAmongParentsLast = .ok loaded ∧ loaded.value.resolve .builtin = .ok r ∧
    loaded.value.levelNames = ["District", "Park", "City", "Site"] ∧
    r.levels.map (·.name) = ["Site", "City", "District", "Park"] ∧
    loaded.value.levelNames.Nodup ∧
    (∀ l ∈ loaded.value.levels, ∀ p, l.parent = some p →
      ∃ m ∈ loaded.value.levels, m.name.value = p.value) ∧
    (∀ l, ¬ Relation.TransGen loaded.value.Extends l l) ∧
    r.levels.map (·.name) = loaded.value.orderedLevels.map (·.name.value) ∧
    Ranked loaded.value.Extends loaded.value.levels loaded.value.orderedLevels := by
  have hrun : ((Schema.ofSource parkAmongParentsLast).bind fun loaded =>
      (loaded.value.resolve .builtin).bind fun r => .ok (loaded, r)).toOption.map
        (fun x => (x.1.value.levelNames, x.2.levels.map (·.name))) =
      some (["District", "Park", "City", "Site"], ["Site", "City", "District", "Park"]) := by
    decide +kernel
  obtain ⟨_, hpair, hnames⟩ := exists_of_toOption_map hrun
  obtain ⟨loaded, hload, hrest⟩ := bind_eq_ok_iff.mp hpair
  obtain ⟨r, hresolve, heq⟩ := bind_eq_ok_iff.mp hrest
  cases heq
  obtain ⟨hdeclared, hresolved⟩ := Prod.mk.inj hnames
  have hs := wellFormed_of_ofSource hload
  have hacyclic := (hs.resolve_eq_ok_iff.mp hresolve).1.levels_acyclic
  obtain ⟨horder, hranked, -⟩ :=
    levels_sorted_by_first_use hs.names_nodup hs.parents_declared hacyclic
  exact ⟨loaded, r, hload, hresolve, hdeclared, hresolved, hs.names_nodup, hs.parents_declared,
    hacyclic, horder _ _ hresolve, hranked⟩

end Schema

end LevelSchema
