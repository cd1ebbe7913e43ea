import LevelSchema.Proofs.Resolved.Levels

/-!
# The types that can be named from a level

Scopes are built level by level, each on top of the scope of the parent, so the scope of a level
holds the types declared along its lineage (`Scope.along`).  This is so whether or not anything is
wrong with their names.

**Clashes.**  Nothing is noted about scopes exactly when no level and no type is called like a
primitive (`Schema.AvoidsPrimitives`), and along every lineage the types have distinct names, none
of them that of the level at its end (`Schema.TypesDistinct`).  Each level is compared with its
ancestors only; the ancestors were compared with each other before, and this is how the check of
single levels adds up to one about whole lineages (`Schema.Grounded.fits_iff`).
-/

namespace LevelSchema

/-! ## What a scope holds -/

namespace Resolve

/-- What a declared type looks like in a scope. -/
def entry (level : String) (t : Located String × TypeKind) : String × Visible :=
  (t.1.value, ⟨⟨level, t.1.value⟩, t.2, t.1.span⟩)

end Resolve

/-- What a level adds to a scope, in the order of declaration. -/
def Level.entries (l : Level) : Scope :=
  l.ownTypes.map (Resolve.entry l.name.value)

/-- The scope along a chain of levels, root first. -/
def Scope.along (chain : List Level) : Scope :=
  (chain.flatMap Level.entries).reverse

lemma Level.names_entries (l : Level) : l.entries.map (·.1) = l.typeNames := by
  simp [entries, typeNames, Resolve.entry]

lemma Scope.along_append (above : List Level) (l : Level) :
    along (above ++ [l]) = l.entries.reverse ++ along above := by
  simp [along]

/-- The names in the scope of a chain of levels are those of their types. -/
lemma Scope.names_along (chain : List Level) :
    (along chain).map (·.1) = (chain.flatMap Level.typeNames).reverse := by
  simp only [along, List.map_reverse, List.map_flatMap, Level.names_entries]

namespace Resolve

variable {P : PrimitiveSet} {scope : Scope}

/-! ## One level -/

section Declare

variable {level : String} {own : List (Located String × TypeKind)}

/-- Declaring puts the types in front of the scope, reported or not. -/
lemma value_declareTypes : (declareTypes P level scope own).value.1 =
    (own.map (entry level)).reverse ++ scope := by
  induction own generalizing scope with
  | nil => rfl
  | cons t ts ih =>
      have hstep : (declareTypes P level scope (t :: ts)).value.1 =
        (declareTypes P level (entry level t :: scope) ts).value.1 := rfl
      rw [hstep, ih]
      simp

/-- Declaring types on top of a scope goes well when no name is a primitive, stands in the scope, or
comes twice. -/
lemma notes_declareTypes_iff : (declareTypes P level scope own).notes = [] ↔
    (∀ n ∈ own.map (·.1.value), n ∉ P.names) ∧ Joins (scope.map (·.1)) (own.map (·.1.value)) := by
  induction own generalizing scope with
  | nil => simp [declareTypes, joins_nil]
  | cons t ts ih =>
      have hstep : (declareTypes P level scope (t :: ts)).notes = [] ↔
          (t.1.value ∉ P.names ∧ t.1.value ∉ scope.map (·.1)) ∧
            (declareTypes P level (entry level t :: scope) ts).notes = [] := by
        rw [← lookup_eq_none_iff_not_mem]
        simp [declareTypes, PrimitiveSet.contains, entry, and_assoc]
      rw [hstep, ih, List.map_cons, List.map_cons, List.forall_mem_cons, joins_cons_iff]
      exact and_and_and_comm

lemma redeclared_declareTypes (h : (declareTypes P level scope own).notes = []) :
    (declareTypes P level scope own).value.2 = [] := by
  induction own generalizing scope with
  | nil => rfl
  | cons t ts ih =>
      simp only [declareTypes, Noted.notes_bind, Noted.notes_noteAny, List.append_eq_nil_iff,
        Option.toList_eq_nil_iff, Option.map_eq_none_iff] at h
      obtain ⟨hprim, hscope, hts, -⟩ := h
      have hnot : P.contains t.1.value = false := by simpa using hprim
      simp [declareTypes, hnot, hscope, ih hts]

end Declare

/-- A level can be put on top of the scope of its parent. -/
structure Fits (P : PrimitiveSet) (parent : Scope) (l : Level) : Prop where
  level_not_primitive : l.name.value ∉ P.names
  types_not_primitive : ∀ n ∈ l.typeNames, n ∉ P.names
  types_join : Joins (parent.map (·.1)) l.typeNames
  level_new : l.name.value ∉ (l.entries.reverse ++ parent).map (·.1)

variable {l : Level}

lemma value_levelScope : (levelScope P scope l).value.1 = l.entries.reverse ++ scope :=
  value_declareTypes

/-- The scope of a level is built without report if the level fits. -/
lemma notes_levelScope_iff : (levelScope P scope l).notes = [] ↔ Fits P scope l := by
  have hstep : (levelScope P scope l).notes = [] ↔ l.name.value ∉ P.names ∧
      (declareTypes P l.name.value scope l.ownTypes).notes = [] ∧
        (l.entries.reverse ++ scope).lookup l.name.value = none := by
    rw [Level.entries, ← value_declareTypes (P := P)]
    simp [levelScope, PrimitiveSet.contains]
  rw [hstep, notes_declareTypes_iff, lookup_eq_none_iff_not_mem]
  constructor
  · rintro ⟨hlevel, ⟨htypes, hjoin⟩, hlast⟩
    exact ⟨hlevel, htypes, hjoin, hlast⟩
  · rintro ⟨hlevel, htypes, hjoin, hlast⟩
    exact ⟨hlevel, ⟨htypes, hjoin⟩, hlast⟩

lemma redeclared_levelScope (h : (levelScope P scope l).notes = []) :
    (levelScope P scope l).value.2 = [] := by
  simp only [levelScope, Noted.notes_bind, List.append_eq_nil_iff] at h
  exact redeclared_declareTypes h.2.1

/-! ## All levels -/

/-- Scopes with one more level. -/
def Scopes.extend (P : PrimitiveSet) (acc : Scopes) (l : Level) : Scopes :=
  ⟨(l.name.value, (levelScope P (acc.ofParent l) l).value.1) :: acc.byLevel,
    acc.redeclared ++ (levelScope P (acc.ofParent l) l).value.2⟩

variable {acc : Scopes} {ls : List Level}

lemma value_scopes_cons :
    (scopes P acc (l :: ls)).value = (scopes P (acc.extend P l) ls).value := rfl

lemma notes_scopes_cons : (scopes P acc (l :: ls)).notes =
    (levelScope P (acc.ofParent l) l).notes ++ (scopes P (acc.extend P l) ls).notes := rfl

/-- Where nothing is noted no type counts as redeclared. -/
lemma redeclared_scopes (h : (scopes P acc ls).notes = []) :
    (scopes P acc ls).value.redeclared = acc.redeclared := by
  induction ls generalizing acc with
  | nil => rfl
  | cons l ls ih =>
      rw [notes_scopes_cons, List.append_eq_nil_iff] at h
      rw [value_scopes_cons, ih h.2, Scopes.extend, redeclared_levelScope h.1, List.append_nil]

end Resolve

namespace Schema.Grounded

open Resolve

variable {s : Schema} {P : PrimitiveSet} {acc : Scopes} {l : Level} {chain done ls : List Level}

/-- The scope of a level's parent is that of the chain above it. -/
lemma ofParent_eq (hs : s.Grounded) (hl : l ∈ s.levels) (hchain : Lineage s.Extends l chain)
    (hdone : ∀ p, s.Extends l p → p ∈ done)
    (htable : Tabulates s.Extends (·.name.value) Scope.along done acc.byLevel) :
    acc.ofParent l = Scope.along chain.dropLast := by
  rw [← hs.getD_lookup_parent hl hchain hdone htable rfl, Scopes.ofParent]
  cases l.parent <;> rfl

/-- One step of the pass: the scope of a level on top of that of its parent is the scope along its
lineage. -/
lemma tabulates_extend (hs : s.Grounded) (hpass : Pass s.Extends (·.name.value) done (l :: ls))
    (hl : l ∈ s.levels) (htable : Tabulates s.Extends (·.name.value) Scope.along done acc.byLevel) :
    Tabulates s.Extends (·.name.value) Scope.along (l :: done) (acc.extend P l).byLevel := by
  obtain ⟨chain, hchain⟩ := hs.exists_lineage l hl
  have hscope : (levelScope P (acc.ofParent l) l).value.1 = Scope.along chain := by
    rw [value_levelScope, hs.ofParent_eq hl hchain hpass.parentsFirst.1 htable,
      ← Scope.along_append]
    obtain ⟨above, rfl⟩ := hchain.eq_append
    simp
  rw [Scopes.extend, hscope]
  exact htable.cons hs.extends_rightUnique hpass hchain

/-- A pass over levels tabulates their scopes. -/
lemma tabulates_scopes (hs : s.Grounded) (hpass : Pass s.Extends (·.name.value) done ls)
    (hls : ls ⊆ s.levels)
    (htable : Tabulates s.Extends (·.name.value) Scope.along done acc.byLevel) :
    Tabulates s.Extends (·.name.value) Scope.along (ls.reverse ++ done)
      (scopes P acc ls).value.byLevel := by
  induction ls generalizing acc done with
  | nil => exact htable
  | cons l ls ih =>
      obtain ⟨hl, hls⟩ := List.cons_subset.mp hls
      rw [value_scopes_cons, List.reverse_cons, List.append_assoc]
      exact ih hpass.tail hls (hs.tabulates_extend hpass hl htable)

/-- A pass over levels reports nothing if each fits the scope above it. -/
lemma notes_scopes_pass_iff (hs : s.Grounded) (hpass : Pass s.Extends (·.name.value) done ls)
    (hls : ls ⊆ s.levels)
    (htable : Tabulates s.Extends (·.name.value) Scope.along done acc.byLevel) :
    (scopes P acc ls).notes = [] ↔
      ∀ l ∈ ls, ∀ chain, Lineage s.Extends l chain → Fits P (Scope.along chain.dropLast) l := by
  induction ls generalizing acc done with
  | nil => simp [scopes]
  | cons l ls ih =>
      obtain ⟨hl, hls⟩ := List.cons_subset.mp hls
      obtain ⟨chain, hchain⟩ := hs.exists_lineage l hl
      rw [notes_scopes_cons, List.append_eq_nil_iff,
        ih hpass.tail hls (hs.tabulates_extend hpass hl htable), notes_levelScope_iff,
        hs.ofParent_eq hl hchain hpass.parentsFirst.1 htable, List.forall_mem_cons]
      refine and_congr_left fun _ => ⟨fun hfits chain' hchain' => ?_, fun h => h chain hchain⟩
      rwa [hchain'.eq hs.extends_rightUnique hchain]

end Schema.Grounded

/-! ## Names along lineages -/

namespace Schema

open Resolve

variable {s : Schema} {P : PrimitiveSet} {l : Level} {chain : List Level}

/-- No level and no type is called like a primitive. -/
def AvoidsPrimitives (s : Schema) (P : PrimitiveSet) : Prop :=
  ∀ l ∈ s.levels, l.name.value ∉ P.names ∧ ∀ n ∈ l.typeNames, n ∉ P.names

/-- No type name is declared twice among a level and its ancestors, and none is the name of the
level. -/
def TypesDistinct (s : Schema) : Prop :=
  ∀ l ∈ s.levels, ∀ chain, Lineage s.Extends l chain →
    (chain.flatMap Level.typeNames).Nodup ∧ l.name.value ∉ chain.flatMap Level.typeNames

/-- The checks of single levels against the scopes of their parents amount to distinct names along
every lineage. -/
lemma Grounded.fits_iff (hs : s.Grounded) :
    (∀ l ∈ s.levels, ∀ chain, Lineage s.Extends l chain →
      Fits P (Scope.along chain.dropLast) l) ↔ s.AvoidsPrimitives P ∧ s.TypesDistinct := by
  have hnodup : (∀ l ∈ s.levels, ∀ chain, Lineage s.Extends l chain →
      Joins (chain.dropLast.flatMap Level.typeNames) l.typeNames) ↔
        ∀ l ∈ s.levels, ∀ chain, Lineage s.Extends l chain →
          (chain.flatMap Level.typeNames).Nodup :=
    Lineage.forall_check_iff List.Nodup (fun _ _ h => h.2.1) List.nodup_nil
      fun l _ above => nodup_append_iff_joins
  have hnames : ∀ (chain : List Level) (n : String),
      n ∈ (Scope.along chain).map (·.1) ↔ n ∈ chain.flatMap Level.typeNames := by
    intro chain n
    rw [Scope.names_along, List.mem_reverse]
  have hlevel : ∀ {l chain}, Lineage s.Extends l chain →
      l.entries.reverse ++ Scope.along chain.dropLast = Scope.along chain := by
    intro l chain hchain
    obtain ⟨above, rfl⟩ := hchain.eq_append
    rw [List.dropLast_concat, Scope.along_append]
  constructor
  · intro h
    refine ⟨fun l hl => ?_, fun l hl chain hchain => ⟨?_, ?_⟩⟩
    · obtain ⟨chain, hchain⟩ := hs.exists_lineage l hl
      exact ⟨(h l hl chain hchain).level_not_primitive, (h l hl chain hchain).types_not_primitive⟩
    · refine hnodup.mp (fun l hl chain hchain => ?_) l hl chain hchain
      exact (joins_congr (hnames _)).mp (h l hl chain hchain).types_join
    · have hnew := (h l hl chain hchain).level_new
      rwa [hlevel hchain, hnames] at hnew
  · rintro ⟨havoids, hdistinct⟩ l hl chain hchain
    refine ⟨(havoids l hl).1, (havoids l hl).2, (joins_congr (hnames _)).mpr ?_, ?_⟩
    · exact hnodup.mpr (fun l hl chain hchain => (hdistinct l hl chain hchain).1) l hl chain hchain
    · rw [hlevel hchain, hnames]
      exact (hdistinct l hl chain hchain).2

/-- The scopes of a grounded schema. -/
abbrev scopesOf (s : Schema) (P : PrimitiveSet) : Check Scopes :=
  scopes P ⟨[], []⟩ s.orderedLevels

/-- **Nothing is noted about scopes exactly when names avoid primitives and are distinct along
lineages.** -/
theorem Grounded.notes_scopesOf_iff (hs : s.Grounded) :
    (s.scopesOf P).notes = [] ↔ s.AvoidsPrimitives P ∧ s.TypesDistinct := by
  rw [← hs.fits_iff, scopesOf, hs.notes_scopes_pass_iff hs.pass_orderedLevels
    (fun l hl => hs.mem_orderedLevels.mp hl) tabulates_nil]
  simp only [hs.mem_orderedLevels]

/-- **The scope of a level holds the types declared along its lineage.** -/
theorem Grounded.of_scopesOf (hs : s.Grounded) (hl : l ∈ s.levels)
    (hchain : Lineage s.Extends l chain) :
    (s.scopesOf P).value.of l.name.value = Scope.along chain := by
  have hempty : Tabulates s.Extends (·.name.value) Scope.along [] (Scopes.mk [] []).byLevel :=
    tabulates_nil
  have htable := hs.tabulates_scopes (P := P) hs.pass_orderedLevels
    (fun l hl => hs.mem_orderedLevels.mp hl) hempty
  rw [Scopes.of, htable l (by simpa using hs.mem_orderedLevels.mpr hl) chain hchain]
  rfl

end Schema

end LevelSchema
