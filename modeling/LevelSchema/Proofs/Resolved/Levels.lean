import LevelSchema.Proofs.Lineage.Cycles
import LevelSchema.Proofs.Schema.WellFormed
import LevelSchema.Resolved.Resolve

/-!
# Levels and what they extend

`Schema.Extends` is the relation that the `extends` clauses of levels declare.  A schema is `Linked`
when a level is known by its name and what a level names is a level.  The relation then agrees with
the forest of names on which resolving works (`Schema.Linked.links_forest_iff`).

**Rooted schemas.**  The first check of resolving lets a linked schema pass exactly when every level
has a lineage, that is, when no level extends itself through others.  Such a schema is `Rooted`, and
in it the computed ancestors of a level are its lineage without the level
(`Schema.Linked.ancestors_eq`), and the computed order holds every level once, after the one it
extends.

Well-formed schemas are linked.  Those that are rooted as well are `Grounded`, and resolving them
goes on to the object types.
-/

namespace LevelSchema

namespace Schema

variable {s : Schema} {l m : Level} {chain : List Level}

/-- The level `l` of the schema extends the level `m`. -/
def Extends (s : Schema) (l m : Level) : Prop :=
  l ∈ s.levels ∧ m ∈ s.levels ∧ ∃ p, l.parent = some p ∧ p.value = m.name.value

/-- The levels of a lineage are levels of the schema. -/
lemma mem_levels_of_lineage (hl : l ∈ s.levels) (hchain : Lineage s.Extends l chain)
    (hm : m ∈ chain) : m ∈ s.levels := by
  induction hchain with
  | root => exact List.mem_singleton.mp hm ▸ hl
  | step hab _ ih =>
      rcases List.mem_append.mp hm with hm | hm
      · exact ih hab.2.1 hm
      · exact List.mem_singleton.mp hm ▸ hl

lemma mem_of_level? {name : String} (h : s.level? name = some l) : l ∈ s.levels :=
  List.mem_reverse.mp (List.mem_of_find?_eq_some h)

lemma mem_of_mem_orderedLevels (h : l ∈ s.orderedLevels) : l ∈ s.levels := by
  obtain ⟨name, -, hname⟩ := List.mem_filterMap.mp h
  exact mem_of_level? hname

lemma isSome_level?_iff {name : String} :
    (s.level? name).isSome ↔ ∃ m ∈ s.levels, m.name.value = name := by
  simp [level?]

/-- The check of parents finds nothing exactly when each level names nothing or a level. -/
lemma undeclaredParents_eq_nil_iff : Resolve.undeclaredParents s = [] ↔
    ∀ l ∈ s.levels, ∀ p, l.parent = some p → ∃ m ∈ s.levels, m.name.value = p.value := by
  rw [Resolve.undeclaredParents, List.filterMap_eq_nil_iff]
  refine forall₂_congr fun l _ => ?_
  cases l.parent with
  | none => simp
  | some p => simp [← isSome_level?_iff, Option.isSome_iff_ne_none]

/-! ## Linked schemas -/

/-- A schema in which no two levels share a name and what a level names is a level. -/
structure Linked (s : Schema) : Prop where
  names_nodup : s.levelNames.Nodup
  parents_declared : ∀ l ∈ s.levels, ∀ p, l.parent = some p → ∃ m ∈ s.levels, m.name.value = p.value

namespace Linked

/-- A level is known by its name. -/
lemma eq_of_name_eq (hs : s.Linked) (hl : l ∈ s.levels) (hm : m ∈ s.levels)
    (h : l.name.value = m.name.value) : l = m :=
  List.inj_on_of_nodup_map hs.names_nodup hl hm h

/-- In a linked schema a name finds the level that has it. -/
lemma level?_eq_some_iff (hs : s.Linked) {name : String} :
    s.level? name = some l ↔ l ∈ s.levels ∧ l.name.value = name := by
  have hnodup : (s.levels.reverse.map (·.name.value)).Nodup := by
    rw [List.map_reverse]
    exact List.nodup_reverse.mpr hs.names_nodup
  rw [level?, find?_key_eq_some_iff hnodup, List.mem_reverse]

/-- A level extends at most one other. -/
lemma extends_rightUnique (hs : s.Linked) : Relator.RightUnique s.Extends := by
  rintro l m m' ⟨-, hm, p, hp, hpm⟩ ⟨-, hm', p', hp', hpm'⟩
  cases hp.symm.trans hp'
  exact hs.eq_of_name_eq hm hm' (hpm.symm.trans hpm')

/-- What a level names is a level that it extends. -/
lemma exists_extends (hs : s.Linked) (hl : l ∈ s.levels) {p : Located String}
    (hp : l.parent = some p) : ∃ m, s.Extends l m ∧ m.name.value = p.value := by
  obtain ⟨m, hm, hname⟩ := hs.parents_declared l hl p hp
  exact ⟨m, ⟨hl, hm, p, hp, hname.symm⟩, hname⟩

/-- A link in the forest is a level that extends another. -/
lemma links_forest_iff (hs : s.Linked) (hl : l ∈ s.levels) {name : String} :
    s.forest.Links l.name.value name ↔ ∃ m, s.Extends l m ∧ m.name.value = name := by
  have hmem : l.name.value ∈ s.levelNames := List.mem_map.mpr ⟨l, hl, rfl⟩
  have hparent : s.forest.parent? l.name.value = l.parent.map (·.value) := by
    rw [forest, Forest.parent?_ofParent, if_pos hmem, parentName?,
      hs.level?_eq_some_iff.mpr ⟨hl, rfl⟩]
    rfl
  rw [Forest.Links, hparent, Option.map_eq_some_iff]
  constructor
  · rintro ⟨p, hp, rfl⟩
    exact hs.exists_extends hl hp
  · rintro ⟨m, ⟨-, -, p, hp, hpm⟩, rfl⟩
    exact ⟨p, hp, hpm⟩

/-- The lineages of names are the lineages of levels. -/
lemma lineage_forest_iff (hs : s.Linked) (hl : l ∈ s.levels) {names : List String} :
    Lineage s.forest.Links l.name.value names ↔
      ∃ chain, Lineage s.Extends l chain ∧ chain.map (·.name.value) = names := by
  exact Lineage.map_iff (f := fun l : Level => l.name.value) (p := (· ∈ s.levels))
    (fun _ _ _ h => h.2.1) (fun _ ha _ => hs.links_forest_iff ha) hl

/-- A level with a one-element lineage names nothing; any other lineage continues that of the level
that is named. -/
lemma lineage_cases (hs : s.Linked) (hl : l ∈ s.levels) (hchain : Lineage s.Extends l chain) :
    l.parent = none ∧ chain = [l] ∨ ∃ p m above, l.parent = some p ∧ p.value = m.name.value ∧
      s.Extends l m ∧ Lineage s.Extends m above ∧ chain = above ++ [l] := by
  cases hchain with
  | root hroot =>
      cases hp : l.parent with
      | none => exact .inl ⟨rfl, rfl⟩
      | some p =>
          obtain ⟨m, hm, -⟩ := hs.exists_extends hl hp
          exact absurd hm (hroot m)
  | @step _ m above hlm hm =>
      obtain ⟨p, hp, hpm⟩ := hlm.2.2
      exact .inr ⟨p, m, above, hp, hpm, hlm, hm, rfl⟩

/-- The ancestors of a level are the names along its lineage, itself left out. -/
lemma ancestors_eq (hs : s.Linked) (hl : l ∈ s.levels) (hchain : Lineage s.Extends l chain) :
    s.ancestors l = chain.dropLast.map (·.name.value) := by
  rcases hs.lineage_cases hl hchain with ⟨hp, rfl⟩ | ⟨p, m, above, hp, hpm, hlm, hm, rfl⟩
  · simp [ancestors, hp]
  · have hlineage := (hs.lineage_forest_iff hlm.2.1).mpr ⟨above, hm, rfl⟩
    rw [← hpm] at hlineage
    simp [ancestors, hp, Forest.lineage?_eq_some_iff.mpr hlineage]

lemma ancestors_append (hs : s.Linked) (hl : l ∈ s.levels)
    (hchain : Lineage s.Extends l chain) :
    s.ancestors l ++ [l.name.value] = chain.map (·.name.value) := by
  rw [hs.ancestors_eq hl hchain]
  obtain ⟨above, rfl⟩ := hchain.eq_append
  simp

/-! ## The first check -/

lemma undeclaredParents_eq_nil (hs : s.Linked) : Resolve.undeclaredParents s = [] :=
  undeclaredParents_eq_nil_iff.mpr hs.parents_declared

/-- No cycle is found exactly if every level has a lineage. -/
lemma levelCycles_eq_nil_iff (hs : s.Linked) : Resolve.levelCycles s = [] ↔
    ∀ l ∈ s.levels, ∃ chain, Lineage s.Extends l chain := by
  rw [Resolve.levelCycles, List.map_eq_nil_iff, Forest.cycles_eq_nil_iff, levelNames,
    List.forall_mem_map]
  refine forall₂_congr fun l hl => ?_
  simp only [hs.lineage_forest_iff hl]
  constructor
  · rintro ⟨_, chain, hchain, -⟩
    exact ⟨chain, hchain⟩
  · rintro ⟨chain, hchain⟩
    exact ⟨_, chain, hchain, rfl⟩

end Linked

/-! ## Rooted schemas -/

/-- A linked schema in which every level has a lineage. -/
structure Rooted (s : Schema) : Prop extends s.Linked where
  exists_lineage : ∀ l ∈ s.levels, ∃ chain, Lineage s.Extends l chain

/-- A linked schema is rooted exactly when no level is its own ancestor. -/
lemma Linked.rooted_iff (hs : s.Linked) :
    s.Rooted ↔ ∀ l, ¬ Relation.TransGen s.Extends l l := by
  rw [← Lineage.forall_exists_iff_acyclic hs.extends_rightUnique fun _ _ h => ⟨h.1, h.2.1⟩]
  exact ⟨fun hroot => hroot.exists_lineage, fun h => ⟨hs, h⟩⟩

namespace Rooted

lemma mem_orderedNames (hs : s.Rooted) {name : String} :
    name ∈ s.orderedNames ↔ ∃ l ∈ s.levels, l.name.value = name := by
  rw [orderedNames, mem_keepFirst, List.mem_flatMap]
  constructor
  · rintro ⟨l, hl, hname⟩
    obtain ⟨chain, hchain⟩ := hs.exists_lineage l hl
    rw [hs.ancestors_append hl hchain] at hname
    obtain ⟨m, hm, rfl⟩ := List.mem_map.mp hname
    exact ⟨m, mem_levels_of_lineage hl hchain hm, rfl⟩
  · rintro ⟨l, hl, rfl⟩
    exact ⟨l, hl, by simp⟩

/-- Ordering loses no level of a rooted schema. -/
lemma mem_orderedLevels (hs : s.Rooted) : l ∈ s.orderedLevels ↔ l ∈ s.levels := by
  rw [orderedLevels, List.mem_filterMap]
  constructor
  · rintro ⟨name, -, hl⟩
    exact (hs.level?_eq_some_iff.mp hl).1
  · intro hl
    exact ⟨l.name.value, hs.mem_orderedNames.mpr ⟨l, hl, rfl⟩,
      hs.level?_eq_some_iff.mpr ⟨hl, rfl⟩⟩

lemma names_orderedLevels (hs : s.Rooted) :
    s.orderedLevels.map (·.name.value) = s.orderedNames := by
  rw [orderedLevels, List.map_filterMap]
  refine (List.filterMap_congr fun name hname => ?_).trans List.filterMap_some
  obtain ⟨l, hl, rfl⟩ := hs.mem_orderedNames.mp hname
  simp [hs.level?_eq_some_iff.mpr ⟨hl, rfl⟩]

/-- Ordering repeats no level. -/
lemma names_orderedLevels_nodup (hs : s.Rooted) :
    (s.orderedLevels.map (·.name.value)).Nodup := by
  rw [hs.names_orderedLevels]
  exact nodup_keepFirst _

/-- Every level stands after the one it extends. -/
lemma parentsFirst_orderedLevels (hs : s.Rooted) :
    ParentsFirst s.Extends [] s.orderedLevels := by
  have hnames : ParentsFirst s.forest.Links [] s.orderedNames := by
    refine ParentsFirst.keepFirst (ParentsFirst.flatMap fun l hl done => ?_)
    obtain ⟨chain, hchain⟩ := hs.exists_lineage l hl
    rw [hs.ancestors_append hl hchain]
    exact .of_lineage s.forest.links_rightUnique
      ((hs.lineage_forest_iff hl).mpr ⟨chain, hchain, rfl⟩)
  rw [← hs.names_orderedLevels] at hnames
  have hmem : ∀ a b, s.Extends a b → b ∈ s.levels := fun _ _ h => h.2.1
  refine ParentsFirst.of_map hmem (fun a b hab => ?_)
    (fun a ha b hb => hs.eq_of_name_eq ha hb) (List.nil_subset _)
    (fun a ha => hs.mem_orderedLevels.mp ha) hnames
  exact (hs.links_forest_iff hab.1).mpr ⟨b, hab, rfl⟩

end Rooted

/-! ## Grounded schemas -/

namespace WellFormed

lemma names_nodup (hs : s.WellFormed) : s.levelNames.Nodup := by
  have hkeys := hs.keys_nodup
  refine List.Nodup.of_map Name.snake ?_
  rwa [levelNames, List.map_map]

/-- Levels with different keys have different names, so a level is known by its name. -/
lemma linked (hs : s.WellFormed) : s.Linked :=
  ⟨hs.names_nodup, hs.parents_declared⟩

end WellFormed

/-- A schema that is well formed and rooted. -/
structure Grounded (s : Schema) : Prop extends s.WellFormed, s.Rooted

/-- A well-formed schema is grounded once its levels have lineages. -/
lemma WellFormed.grounded (hs : s.WellFormed) (hroot : s.Rooted) : s.Grounded :=
  { hs, hroot with }

/-- A well-formed schema is grounded exactly when no level is its own ancestor. -/
lemma WellFormed.grounded_iff (hs : s.WellFormed) :
    s.Grounded ↔ ∀ l, ¬ Relation.TransGen s.Extends l l := by
  rw [← hs.linked.rooted_iff]
  exact ⟨fun hg => hg.toRooted, hs.grounded⟩

namespace Grounded

/-- The computed order is what a pass over the levels needs: parents come first, every level has a
lineage, and no name comes twice. -/
lemma pass_orderedLevels (hs : s.Grounded) :
    Pass s.Extends (·.name.value) [] s.orderedLevels :=
  ⟨hs.parentsFirst_orderedLevels,
    fun l hl => hs.exists_lineage l (hs.mem_orderedLevels.mp hl),
    hs.names_orderedLevels_nodup, by simp⟩

/-- What a level takes over from a table of its ancestors is what the table holds for the chain
above it. -/
lemma getD_lookup_parent {β : Type} {val : List Level → List β} {done : List Level}
    {table : List (String × List β)} (hs : s.Grounded) (hl : l ∈ s.levels)
    (hchain : Lineage s.Extends l chain) (hdone : ∀ p, s.Extends l p → p ∈ done)
    (htable : Tabulates s.Extends (·.name.value) val done table) (hval : val [] = []) :
    (l.parent.bind fun p => table.lookup p.value).getD [] = val chain.dropLast := by
  rcases hs.linked.lineage_cases hl hchain with ⟨hp, rfl⟩ | ⟨p, m, above, hp, hpm, hlm, hm, rfl⟩
  · simp [hp, hval]
  · simp [hp, hpm, htable m (hdone m hlm) above hm]

end Grounded

end Schema

end LevelSchema
