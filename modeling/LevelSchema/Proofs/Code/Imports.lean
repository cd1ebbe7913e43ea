import LevelSchema.Proofs.Code.Mentions
import LevelSchema.Proofs.Name

/-!
# What a module brings in

A module brings in the types it names from the modules of other levels, and the primitives it names.
Both are sorted sets, so nothing is brought in twice, and what is brought in is what is named and
not declared by the level itself (`Code.mem_importedTypes`, `Code.mem_importedPrimitives`).

**Names side by side.**  Names are brought in without the modules they come from, so they have to
differ from each other and from everything the module declares.  They do: a level sees one type of
each name, and no type and no level is called like a primitive
(`Schema.LevelYields.nodup_scope`).
-/

namespace LevelSchema

namespace Code

variable {r : ResolvedLevel} {i j : String × String} {name : String}

/-! ## Sorted sets of imports -/

lemma nameLess_irrefl (a : String) : nameLess a a = false := by
  simp [nameLess]

lemma nameLess_trans (a b c : String) (hab : nameLess a b = true) (hbc : nameLess b c = true) :
    nameLess a c = true := by
  simp only [nameLess, decide_eq_true_eq] at hab hbc ⊢
  exact String.lt_trans hab hbc

lemma eq_of_not_nameLess (a b : String) (hab : nameLess a b = false)
    (hba : nameLess b a = false) : a = b := by
  simp only [nameLess, decide_eq_false_iff_not] at hab hba
  exact String.le_antisymm (String.not_lt.mp hba) (String.not_lt.mp hab)

/-- Imports are ordered by module and then by name. -/
lemma importLess_iff : importLess i j = true ↔ i.1 < j.1 ∨ i.1 = j.1 ∧ i.2 < j.2 := by
  simp [importLess]

lemma importLess_irrefl (i : String × String) : importLess i i = false := by
  simp [importLess]

lemma importLess_trans (i j k : String × String) (hij : importLess i j = true)
    (hjk : importLess j k = true) : importLess i k = true := by
  rw [importLess_iff] at hij hjk ⊢
  rcases hij with hij | ⟨hij, hij'⟩ <;> rcases hjk with hjk | ⟨hjk, hjk'⟩
  · exact .inl (String.lt_trans hij hjk)
  · exact .inl (hjk ▸ hij)
  · exact .inl (hij ▸ hjk)
  · exact .inr ⟨hij.trans hjk, String.lt_trans hij' hjk'⟩

/-- The order of imports is total. -/
lemma eq_of_not_importLess (i j : String × String) (hij : importLess i j = false)
    (hji : importLess j i = false) : i = j := by
  rw [← Bool.not_eq_true, importLess_iff, not_or] at hij hji
  have hfst : i.1 = j.1 :=
    String.le_antisymm (String.not_lt.mp hji.1) (String.not_lt.mp hij.1)
  have hsnd : i.2 = j.2 :=
    String.le_antisymm (String.not_lt.mp fun h => hji.2 ⟨hfst.symm, h⟩)
      (String.not_lt.mp fun h => hij.2 ⟨hfst, h⟩)
  exact Prod.ext hfst hsnd

/-- The types brought in are those named that another level declares. -/
lemma mem_importedTypes : i ∈ importedTypes r ↔ ∃ path ∈ mentionedPaths r, path.level ≠ r.name ∧
    (moduleName path.level, Name.escape path.name) = i := by
  rw [importedTypes, mem_sortedSet eq_of_not_importLess, List.mem_map]
  simp only [List.mem_filter, decide_eq_true_eq, and_assoc]

/-- What is imported of the primitive types are those that are mentioned. -/
lemma mem_importedPrimitives : name ∈ importedPrimitives r ↔
    ∃ n ∈ mentionedPrimitives r, Name.escape n = name := by
  rw [importedPrimitives, mem_sortedSet eq_of_not_nameLess, List.mem_map]

/-- No type is imported twice. -/
lemma nodup_importedTypes (r : ResolvedLevel) : (importedTypes r).Nodup :=
  nodup_sortedSet importLess_irrefl importLess_trans eq_of_not_importLess _

lemma nodup_importedPrimitives (r : ResolvedLevel) : (importedPrimitives r).Nodup :=
  nodup_sortedSet nameLess_irrefl nameLess_trans eq_of_not_nameLess _

/-! ## Grouping by module -/

/-- Grouping loses nothing and changes no order. -/
lemma pairs_groupByModule (is : List (String × String)) :
    (groupByModule is).flatMap (fun g => g.2.map fun n => (g.1, n)) = is := by
  fun_induction groupByModule is with
  | case1 => rfl
  | case2 source name rest other names groups hgroups hsame ih =>
      rw [hgroups] at ih
      simpa [eq_of_beq hsame] using ih
  | case3 source name rest other names groups hgroups hother ih =>
      rw [hgroups] at ih
      simpa using ih
  | case4 source name rest hgroups ih =>
      rw [hgroups] at ih
      simpa using ih

lemma head?_groupByModule (is : List (String × String)) :
    (groupByModule is).head?.map (·.1) = is.head?.map (·.1) := by
  fun_cases groupByModule is <;> simp

/-- No group of imports is empty. -/
lemma ne_nil_of_mem_groupByModule {is : List (String × String)} {g : String × List String}
    (hg : g ∈ groupByModule is) : g.2 ≠ [] := by
  fun_induction groupByModule is generalizing g with
  | case1 => exact nomatch hg
  | case2 source name rest other names groups hgroups hsame ih =>
      rcases List.mem_cons.mp hg with rfl | hg
      · exact List.cons_ne_nil _ _
      · exact ih (hgroups ▸ List.mem_cons_of_mem _ hg)
  | case3 source name rest other names groups hgroups hother ih =>
      rcases List.mem_cons.mp hg with rfl | hg
      · exact List.cons_ne_nil _ _
      · exact ih (hgroups ▸ hg)
  | case4 source name rest hgroups ih =>
      rw [List.mem_singleton.mp hg]
      exact List.cons_ne_nil _ _

/-- Names that are sorted have one group for each module. -/
lemma pairwise_groupByModule {is : List (String × String)}
    (h : is.Pairwise fun i j => importLess i j = true) :
    ((groupByModule is).map (·.1)).Pairwise (· < ·) := by
  fun_induction groupByModule is with
  | case1 => exact .nil
  | case2 source name rest other names groups hgroups hsame ih =>
      have hgroup := ih h.tail
      rw [hgroups] at hgroup
      simpa [eq_of_beq hsame] using hgroup
  | case3 source name rest other names groups hgroups hother ih =>
      have hgroup := ih h.tail
      rw [hgroups] at hgroup
      -- the first group of the rest is that of the next name, and comes after this one
      have hless : source < other := by
        have hhead := head?_groupByModule rest
        rw [hgroups] at hhead
        obtain ⟨i, hi, rfl⟩ := Option.map_eq_some_iff.mp hhead.symm
        have hi := (List.pairwise_cons.mp h).1 i (List.mem_of_mem_head? hi)
        rw [importLess_iff] at hi
        exact hi.resolve_right fun heq => hother (beq_iff_eq.mpr heq.1)
      refine List.pairwise_cons.mpr ⟨fun later hlater => ?_, hgroup⟩
      rcases List.mem_cons.mp hlater with rfl | hlater
      · exact hless
      · exact String.lt_trans hless ((List.pairwise_cons.mp hgroup).1 later hlater)
  | case4 source name rest hgroups ih => exact List.pairwise_singleton _ _

/-- The lines that bring in types, one for each module. -/
def typeUses (r : ResolvedLevel) : List Use :=
  (groupByModule (importedTypes r)).map fun (source, names) => ⟨"super::" ++ source, names⟩

/-- The line that brings in primitives, if there are any. -/
def primitiveUses (primitivesPath : String) (r : ResolvedLevel) : List Use :=
  if (importedPrimitives r).isEmpty then [] else [⟨primitivesPath, importedPrimitives r⟩]

lemma broughtIn_eq (primitivesPath : String) (r : ResolvedLevel) :
    broughtIn primitivesPath r = typeUses r ++ primitiveUses primitivesPath r :=
  rfl

/-- There is one import for each module. -/
lemma nodup_source_typeUses (r : ResolvedLevel) : ((typeUses r).map (·.source)).Nodup := by
  have hsorted := pairwise_groupByModule
    (pairwise_sortedSet importLess_trans eq_of_not_importLess
      (((mentionedPaths r).filter fun path => path.level ≠ r.name).map fun path =>
        (moduleName path.level, Name.escape path.name)))
  have hnodup : ((groupByModule (importedTypes r)).map (·.1)).Nodup :=
    hsorted.imp fun hless => ne_of_lt hless
  have hinj : Function.Injective fun source => "super::" ++ source := fun a b hab =>
    (String.append_right_inj "super::").mp hab
  have hsources : (typeUses r).map (·.source) =
      ((groupByModule (importedTypes r)).map (·.1)).map fun source => "super::" ++ source := by
    rw [typeUses, List.map_map, List.map_map]
    rfl
  rw [hsources]
  exact hnodup.map hinj

/-- What is brought in, name by name with the place it comes from. -/
lemma pairs_broughtIn (primitivesPath : String) (r : ResolvedLevel) :
    (broughtIn primitivesPath r).flatMap (fun u => u.names.map fun n => (n, u.source)) =
      (importedTypes r).map (fun i => (i.2, "super::" ++ i.1)) ++
        (importedPrimitives r).map fun n => (n, primitivesPath) := by
  rw [broughtIn_eq, List.flatMap_append]
  congr 1
  · have hpairs := congrArg (List.map fun i : String × String => (i.2, "super::" ++ i.1))
      (pairs_groupByModule (importedTypes r))
    rw [← hpairs, typeUses, List.flatMap_map, List.map_flatMap]
    simp [Function.comp_def]
  · cases hprims : importedPrimitives r <;> simp [primitiveUses, hprims]

/-- What is brought into scope are the types and the primitive types that are imported. -/
lemma names_broughtIn (primitivesPath : String) (r : ResolvedLevel) :
    (broughtIn primitivesPath r).flatMap (·.names) =
      (importedTypes r).map (·.2) ++ importedPrimitives r := by
  have hnames := congrArg (List.map Prod.fst) (pairs_broughtIn primitivesPath r)
  simpa [List.map_flatMap, Function.comp_def] using hnames

end Code

/-! ## Everything in a module's scope -/

namespace Schema

variable {s : Schema} {P : PrimitiveSet} {l : Level} {r : ResolvedLevel} {p : TypePath}

/-- A type that is seen has an identifier as its name. -/
lemma Sees.isIdentifier (hs : s.WellFormed) (hl : l ∈ s.levels) (h : s.Sees l p) :
    Name.isIdentifier p.name = true := by
  obtain ⟨m, hm, -, hname⟩ := h
  exact ((hs.levels m (mem_levels_of_reflTransGen hl hm)).usable _ hname).isIdentifier

/-- A type that is seen is not named like the level. -/
lemma Scoped.name_ne_of_sees (hs : s.Scoped P) (hl : l ∈ s.levels) (h : s.Sees l p) :
    p.name ≠ l.name.value := by
  obtain ⟨chain, hchain⟩ := hs.exists_lineage l hl
  obtain ⟨m, hm, -, hname⟩ := h
  intro heq
  refine (hs.typesDistinct l hl chain hchain).2 (heq ▸ List.mem_flatMap.mpr ⟨m, ?_, hname⟩)
  exact (hchain.mem_iff hs.extends_rightUnique).mpr hm

lemma Scoped.not_mem_names_of_sees (hs : s.Scoped P) (hl : l ∈ s.levels) (h : s.Sees l p) :
    p.name ∉ P.names := by
  obtain ⟨m, hm, -, hname⟩ := h
  exact (hs.avoidsPrimitives m (mem_levels_of_reflTransGen hl hm)).2 _ hname

/-- A type that is brought in is one that the level sees and does not declare. -/
lemma LevelYields.exists_sees_of_mem_importedTypes (hs : s.Bound P) (hr : s.LevelYields P l r)
    (hl : l ∈ s.levels) {i : String × String} (hi : i ∈ Code.importedTypes r) :
    ∃ p, s.Sees l p ∧ p.level ≠ l.name.value ∧
      (Code.moduleName p.level, Name.escape p.name) = i ∧ Name.bare i.2 = p.name := by
  obtain ⟨p, hp, hlevel, rfl⟩ := Code.mem_importedTypes.mp hi
  have hsees := hr.sees_of_mentioned hs hl hp
  exact ⟨p, hsees, hr.name ▸ hlevel, rfl,
    Name.bare_escape (hsees.isIdentifier hs.toWellFormed hl)⟩

/-- A primitive that is brought in is one in force. -/
lemma LevelYields.exists_name_of_mem_importedPrimitives (hs : s.Bound P)
    (hP : ∀ n ∈ P.names, Name.isIdentifier n = true) (hr : s.LevelYields P l r)
    (hl : l ∈ s.levels) {n : String} (hn : n ∈ Code.importedPrimitives r) :
    ∃ q ∈ P.names, Name.escape q = n ∧ Name.bare n = q := by
  obtain ⟨q, hq, rfl⟩ := Code.mem_importedPrimitives.mp hn
  have hmem := hr.mem_names_of_mentioned hs hl hq
  exact ⟨q, hmem, rfl, Name.bare_escape (hP q hmem)⟩

/-- What is brought in has distinct bare names: types because the level sees one of each name, and
none of them is a primitive. -/
lemma LevelYields.nodup_imported (hs : s.Bound P)
    (hP : ∀ n ∈ P.names, Name.isIdentifier n = true) (hr : s.LevelYields P l r)
    (hl : l ∈ s.levels) :
    (((Code.importedTypes r).map (·.2) ++ Code.importedPrimitives r).map Name.bare).Nodup := by
  rw [List.map_append, List.map_map]
  refine List.nodup_append.mpr ⟨?_, ?_, ?_⟩
  · refine (Code.nodup_importedTypes r).map_on fun i hi j hj heq => ?_
    obtain ⟨p, hp, -, rfl, hpname⟩ := hr.exists_sees_of_mem_importedTypes hs hl hi
    obtain ⟨q, hq, -, rfl, hqname⟩ := hr.exists_sees_of_mem_importedTypes hs hl hj
    rw [hs.eq_of_sees hl hp hq (hpname.symm.trans (heq.trans hqname))]
  · refine (Code.nodup_importedPrimitives r).map_on fun m hm n hn heq => ?_
    obtain ⟨p, -, rfl, hp⟩ := hr.exists_name_of_mem_importedPrimitives hs hP hl hm
    obtain ⟨q, -, rfl, hq⟩ := hr.exists_name_of_mem_importedPrimitives hs hP hl hn
    rw [← hp, ← hq, heq]
  · refine List.forall_mem_map.mpr fun i hi => List.forall_mem_map.mpr fun n hn heq => ?_
    obtain ⟨p, hp, -, -, hpname⟩ := hr.exists_sees_of_mem_importedTypes hs hl hi
    obtain ⟨q, hq, -, hqname⟩ := hr.exists_name_of_mem_importedPrimitives hs hP hl hn
    refine hs.not_mem_names_of_sees hl hp ?_
    rw [← hpname, show Name.bare i.2 = Name.bare n from heq, hqname]
    exact hq

/-- **What a module declares and brings in has distinct bare names.** -/
theorem LevelYields.nodup_scope (hs : s.Bound P)
    (hP : ∀ n ∈ P.names, Name.isIdentifier n = true) (hr : s.LevelYields P l r)
    (hl : l ∈ s.levels) :
    (l.typeNames ++ l.name.value ::
      ((Code.importedTypes r).map (·.2) ++ Code.importedPrimitives r).map Name.bare).Nodup := by
  have hown : ∀ n ∈ l.typeNames, s.Sees l ⟨l.name.value, n⟩ := fun n hn => ⟨l, .refl, rfl, hn⟩
  have himported : ∀ n ∈ ((Code.importedTypes r).map (·.2) ++
      Code.importedPrimitives r).map Name.bare, n ∉ l.typeNames ∧ n ≠ l.name.value := by
    rw [List.forall_mem_map, List.forall_mem_append, List.forall_mem_map]
    constructor
    · intro i hi
      obtain ⟨p, hp, hlevel, -, hname⟩ := hr.exists_sees_of_mem_importedTypes hs hl hi
      rw [hname]
      refine ⟨fun hmem => hlevel ?_, hs.name_ne_of_sees hl hp⟩
      rw [hs.eq_of_sees hl hp (hown _ hmem) rfl]
    · intro n hn
      obtain ⟨q, hq, -, hname⟩ := hr.exists_name_of_mem_importedPrimitives hs hP hl hn
      rw [hname]
      refine ⟨fun hmem => hs.not_mem_names_of_sees hl (hown _ hmem) hq, fun heq => ?_⟩
      exact (hs.avoidsPrimitives l hl).1 (heq ▸ hq)
  refine List.nodup_append.mpr ⟨(hs.levels l hl).typeNames_nodup, ?_, ?_⟩
  · refine List.nodup_cons.mpr ⟨fun hmem => (himported _ hmem).2 rfl, ?_⟩
    exact hr.nodup_imported hs hP hl
  · rintro n hn _ hmem rfl
    rcases List.mem_cons.mp hmem with rfl | hmem
    · exact hs.name_ne_of_sees hl (hown _ hn) rfl
    · exact (himported n hmem).1 hn

end Schema

end LevelSchema
