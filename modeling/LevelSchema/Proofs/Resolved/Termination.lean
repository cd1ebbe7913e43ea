import LevelSchema.Proofs.Resolved.Cycles

/-!
# Resolving comes to an end

A schema that was put together by hand may declare a level or a type twice, extend what is not
declared, and have cycles among its levels and object types.  Three parts of resolving follow links
that such a schema may close to a circle: the search for cycles, the walk up the ancestors of a
level, and the recursion from an object type to the one it extends.

**Runs.**  Each of the three is described here without a bound on its steps, so that only a run that
ends is a run at all: the search by `Searches`, the walk by `Lineage`, and the recursion by
`Flattens`.  What resolving works out are the results of such runs, for every schema.

**Well-founded links.**  The search needs nothing, since it remembers where it has been.  The walk
is taken only if the links of levels are well founded (`Schema.Founded`), because otherwise the
schema has been rejected before (`Schema.early_eq_nil_iff`).  The recursion stops at object types on
a cycle, and without these the links are well founded (`Bindings.wellFounded_recursion`); so it has
nothing to give for what is on a cycle or below one (`Bindings.lookup_flatten_eq_none_iff`).
-/

namespace LevelSchema

open Resolve

/-! ## Levels -/

namespace Schema

variable {s : Schema} {P : PrimitiveSet} {l : Level}

/-- Levels extend declared levels, and following them comes to an end. -/
structure Founded (s : Schema) : Prop where
  parents_declared : ∀ l ∈ s.levels, ∀ p, l.parent = some p → ∃ m ∈ s.levels, m.name.value = p.value
  wellFounded : WellFounded fun parent name => s.parentName? name = some parent

lemma parent?_forest (s : Schema) : s.forest.parent? = s.parentName? := by
  refine Forest.parent?_ofParent_eq fun name parent h => ?_
  obtain ⟨l, hl, -⟩ := Option.bind_eq_some_iff.mp h
  obtain ⟨m, hm, hname⟩ := isSome_level?_iff.mp (Option.isSome_of_eq_some hl)
  exact List.mem_map.mpr ⟨m, hm, hname⟩

/-- The forest of a schema links each level to the one it names. -/
lemma links_forest (s : Schema) : s.forest.Links = ParentOf s.parentName? := by
  rw [← s.parent?_forest]
  rfl

/-- Recursion along the links of levels ends where every name has a lineage. -/
lemma wellFounded_links_iff : (WellFounded fun parent name => s.parentName? name = some parent) ↔
    ∀ name, ∃ chain, Lineage s.forest.Links name chain := by
  rw [s.links_forest]
  exact Lineage.wellFounded_iff (parentOf_rightUnique s.parentName?)

/-- **The first check lets exactly those schemas pass whose levels are founded.** -/
lemma early_eq_nil_iff : undeclaredParents s ++ levelCycles s = [] ↔ s.Founded := by
  have hcycles : levelCycles s = [] ↔
      WellFounded fun parent name => s.parentName? name = some parent := by
    rw [wellFounded_links_iff, levelCycles, List.map_eq_nil_iff, Forest.cycles_eq_nil_iff]
    refine ⟨fun h name => ?_, fun h name _ => h name⟩
    by_cases hname : name ∈ s.levelNames
    · exact h name hname
    · refine ⟨[name], .root fun parent hlink => ?_⟩
      rw [Forest.Links, forest, Forest.parent?_ofParent, if_neg hname] at hlink
      cases hlink
  rw [List.append_eq_nil_iff, undeclaredParents_eq_nil_iff, hcycles]
  constructor
  · rintro ⟨hparents, hwf⟩
    exact ⟨hparents, hwf⟩
  · rintro ⟨hparents, hwf⟩
    exact ⟨hparents, hwf⟩

/-- `names` is what a level meets on its way up, the nearest last. -/
def ClimbsTo (s : Schema) (l : Level) (names : List String) : Prop :=
  match l.parent with
  | none => names = []
  | some parent => Lineage (ParentOf s.parentName?) parent.value names

/-- The walk up the ancestors of a level ends at a root. -/
lemma Founded.climbsTo (hs : s.Founded) (l : Level) : s.ClimbsTo l (s.ancestors l) := by
  unfold ClimbsTo ancestors
  cases l.parent with
  | none => rfl
  | some parent =>
      obtain ⟨chain, hchain⟩ := wellFounded_links_iff.mp hs.wellFounded parent.value
      simp only [Forest.lineage?_eq_some_iff.mpr hchain, Option.getD_some]
      rwa [← s.links_forest]

/-- The order of levels holds every name that is declared, once. -/
lemma Founded.mem_orderedNames_iff (hs : s.Founded) {name : String} :
    name ∈ s.orderedNames ↔ name ∈ s.levelNames := by
  have hclosed : Closed (ParentOf s.parentName?) s.levelNames := by
    rintro n - parent hlink
    obtain ⟨l, hl, hparent⟩ := Option.bind_eq_some_iff.mp hlink
    obtain ⟨p, hp, rfl⟩ := Option.map_eq_some_iff.mp hparent
    obtain ⟨m, hm, hname⟩ := hs.parents_declared l (mem_of_level? hl) p hp
    exact List.mem_map.mpr ⟨m, hm, hname⟩
  have hancestors : ∀ l ∈ s.levels, ∀ n ∈ s.ancestors l, n ∈ s.levelNames := by
    intro l hl n hn
    have hclimbs := hs.climbsTo l
    unfold ClimbsTo at hclimbs
    cases hp : l.parent with
    | none =>
        simp only [hp] at hclimbs
        rw [hclimbs] at hn
        exact absurd hn List.not_mem_nil
    | some p =>
        simp only [hp] at hclimbs
        obtain ⟨m, hm, hname⟩ := hs.parents_declared l hl p hp
        refine hclosed.mem_of_reflTransGen (List.mem_map.mpr ⟨m, hm, hname⟩) ?_
        exact (hclimbs.mem_iff (parentOf_rightUnique _)).mp hn
  rw [orderedNames, mem_keepFirst, List.mem_flatMap]
  constructor
  · rintro ⟨l, hl, hname⟩
    rcases List.mem_append.mp hname with hname | hname
    · exact hancestors l hl name hname
    · exact List.mem_map.mpr ⟨l, hl, (List.mem_singleton.mp hname).symm⟩
  · intro hname
    obtain ⟨l, hl, rfl⟩ := List.mem_map.mp hname
    exact ⟨l, hl, by simp⟩

end Schema

/-! ## Links between bound object types -/

namespace Resolve.Scopes

variable {levels ls : List Level} {acc : Scopes} {P : PrimitiveSet}

/-- What the scopes hold is declared in the given levels. -/
def DeclaredIn (levels : List Level) (acc : Scopes) : Prop :=
  ∀ e ∈ acc.byLevel, ∀ v ∈ e.2, ∃ l ∈ levels, v ∈ l.entries

lemma DeclaredIn.of (h : DeclaredIn levels acc) (name : String) :
    ∀ v ∈ acc.of name, ∃ l ∈ levels, v ∈ l.entries := by
  unfold Scopes.of
  cases hscope : acc.byLevel.lookup name with
  | none => exact nofun
  | some scope => exact h _ (mem_of_lookup_eq_some hscope)

lemma DeclaredIn.extend (h : DeclaredIn levels acc) {l : Level} (hl : l ∈ levels) :
    DeclaredIn levels (acc.extend P l) := by
  refine List.forall_mem_cons.mpr ⟨fun v hv => ?_, h⟩
  rw [value_levelScope, List.mem_append, List.mem_reverse] at hv
  rcases hv with hv | hv
  · exact ⟨l, hl, hv⟩
  · unfold Scopes.ofParent at hv
    split at hv
    · exact h.of _ v hv
    · exact absurd hv List.not_mem_nil

/-- Scopes hold only types that levels declare. -/
lemma DeclaredIn.scopes (h : DeclaredIn levels acc) (hls : ls ⊆ levels) :
    DeclaredIn levels (scopes P acc ls).value := by
  induction ls generalizing acc with
  | nil => exact h
  | cons l ls ih =>
      obtain ⟨hl, hls⟩ := List.cons_subset.mp hls
      rw [value_scopes_cons]
      exact ih (h.extend hl) hls

end Resolve.Scopes

namespace Bindings

variable {b : Bindings} {path parent : TypePath}

lemma mem_paths_of_get? {o : BoundObject} (h : b.get? path = some o) : path ∈ b.paths := by
  rw [paths, mem_keepFirst]
  exact List.mem_map.mpr ⟨_, List.mem_reverse.mp (mem_of_lookup_eq_some h), rfl⟩

lemma parent?_forest (b : Bindings) : b.forest.parent? = b.parent? := by
  refine Forest.parent?_ofParent_eq fun path parent h => ?_
  obtain ⟨o, ho, -⟩ := Option.bind_eq_some_iff.mp h
  exact mem_paths_of_get? ho

lemma links_forest (b : Bindings) : b.forest.Links = ParentOf b.parent? := by
  rw [← b.parent?_forest]
  rfl

end Bindings

/-- Whatever is wrong with a schema, what object types are bound to is bound itself. -/
lemma Schema.mem_paths_of_links {s : Schema} {P : PrimitiveSet} {path parent : TypePath}
    (h : (s.bindingsOf P).value.forest.Links path parent) :
    parent ∈ (s.bindingsOf P).value.paths := by
  rw [Bindings.links_forest] at h
  obtain ⟨o, ho, hparent⟩ := Option.bind_eq_some_iff.mp h
  have hmem := List.mem_reverse.mp (mem_of_lookup_eq_some ho)
  rw [objects_bindingsOf] at hmem
  obtain ⟨x, -, hx⟩ := List.mem_map.mp hmem
  obtain ⟨-, rfl⟩ := Prod.mk.inj hx
  obtain ⟨p, span, -, hlookup⟩ := value_bindParent_iff.mp hparent
  have hscopes : Scopes.DeclaredIn s.orderedLevels (s.scopesOf P).value :=
    Scopes.DeclaredIn.scopes nofun (List.Subset.refl _)
  obtain ⟨l, hl, hentry⟩ := hscopes.of _ _ (mem_of_lookup_eq_some hlookup)
  obtain ⟨q, hq, hname, -, rfl⟩ := mem_entries_object.mp hentry
  rw [Bindings.paths, mem_keepFirst, objects_bindingsOf, List.map_map]
  refine List.mem_map.mpr ⟨⟨l, q⟩, List.mem_flatMap.mpr ⟨l, hl, ?_⟩, ?_⟩
  · exact Level.mem_objects.mpr ⟨rfl, hq⟩
  · rw [← hname]
    rfl

/-! ## Recursion along the links -/

namespace Bindings

variable {b : Bindings} {path parent : TypePath} {done paths : List TypePath} {acc : FlatTable}

/-- The object types that are found to be on a cycle. -/
def onCycle (b : Bindings) : List TypePath :=
  (b.forest.cycles b.paths).flatten

/-- An object type with its own properties added to what it inherits. -/
def flattenOnto (path : TypePath) (o : BoundObject) (base : Flattened) : Flattened :=
  ⟨base.ancestors, (addProperties path base.properties base.properties o.properties).value⟩

/-- What recursion from an object type to the one it extends gives, if it comes to an end.  It goes
no further at object types on a cycle. -/
inductive Flattens (b : Bindings) : TypePath → Option Flattened → Prop
  | onCycle {path : TypePath} (h : path ∈ b.onCycle) : Flattens b path none
  | unbound {path : TypePath} (h : path ∉ b.onCycle) (hget : b.get? path = none) :
      Flattens b path none
  | root {path : TypePath} {o : BoundObject} (h : path ∉ b.onCycle) (hget : b.get? path = some o)
      (hparent : o.parent = none) : Flattens b path (some (flattenOnto path o ⟨[], []⟩))
  | blocked {path parent : TypePath} {o : BoundObject} (h : path ∉ b.onCycle)
      (hget : b.get? path = some o) (hparent : o.parent = some parent)
      (hrec : Flattens b parent none) : Flattens b path none
  | step {path parent : TypePath} {o : BoundObject} {f : Flattened} (h : path ∉ b.onCycle)
      (hget : b.get? path = some o) (hparent : o.parent = some parent)
      (hrec : Flattens b parent (some f)) :
      Flattens b path (some (flattenOnto path o ⟨f.ancestors ++ [parent], f.properties⟩))

/-- An object type is on a cycle if links lead back to it. -/
lemma mem_onCycle_iff : path ∈ b.onCycle ↔ Relation.TransGen b.forest.Links path path := by
  rw [onCycle, List.mem_flatten, (b.forest.listsCycles_cycles b.paths).mem_iff,
    and_iff_right_iff_imp]
  intro hround
  obtain ⟨parent, hlink, -⟩ := Relation.TransGen.head'_iff.mp hround
  rw [links_forest] at hlink
  obtain ⟨o, ho, -⟩ := Option.bind_eq_some_iff.mp hlink
  exact ⟨path, mem_paths_of_get? ho, .refl⟩

/-- A recursion that ends has only links below it along which it can go. -/
lemma Flattens.accessible {result : Option Flattened} (h : b.Flattens path result) :
    Acc (fun parent path => path ∉ b.onCycle ∧ b.parent? path = some parent) path := by
  induction h with
  | onCycle h => exact .intro _ fun parent hp => absurd h hp.1
  | unbound _ hget => exact .intro _ fun parent hp => by simp [parent?, hget] at hp
  | root _ hget hparent => exact .intro _ fun parent hp => by simp [parent?, hget, hparent] at hp
  | blocked _ hget hparent _ ih | step _ hget hparent _ ih =>
      refine .intro _ fun parent hp => ?_
      have heq := hp.2
      simp only [parent?, hget, Option.bind_eq_bind, Option.bind_some, hparent,
        Option.some.injEq] at heq
      exact heq ▸ ih

/-- The table holds what the recursion gives, and nothing else. -/
structure Remembers (b : Bindings) (done : List TypePath) (acc : FlatTable) : Prop where
  flattens : ∀ path ∈ done, ∃ f, acc.lookup path = some f ∧ b.Flattens path (some f)
  lookup_eq_none : ∀ path, path ∉ done → acc.lookup path = none

/-- A step: what is flattened after its parent is remembered. -/
lemma Remembers.cons {o : BoundObject} (h : b.Remembers done acc)
    (hlineage : ∃ chain, Lineage b.forest.Links path chain) (ho : b.get? path = some o)
    (hdone : ∀ p, b.forest.Links path p → p ∈ done) (hnew : path ∉ done) :
    b.Remembers (path :: done)
      ((path, flattenOnto path o (inheritedPart acc o.parent)) :: acc) := by
  have hfree : path ∉ b.onCycle := by
    obtain ⟨chain, hchain⟩ := hlineage
    rw [mem_onCycle_iff]
    exact hchain.not_transGen_self b.forest.links_rightUnique
  have hflattens : b.Flattens path (some (flattenOnto path o (inheritedPart acc o.parent))) := by
    cases hparent : o.parent with
    | none => exact .root hfree ho hparent
    | some parent =>
        have hlink := (Bindings.links_forest_iff (mem_paths_of_get? ho) ho).mpr hparent
        obtain ⟨f, hf, hrec⟩ := h.flattens parent (hdone parent hlink)
        simp only [inheritedPart, hf]
        exact .step hfree ho hparent hrec
  constructor
  · intro n hn
    rw [List.lookup_cons]
    by_cases heq : n = path
    · subst heq
      exact ⟨_, by simp, hflattens⟩
    · rw [beq_eq_false_iff_ne.mpr heq]
      exact h.flattens n (List.mem_of_ne_of_mem heq hn)
  · intro n hn
    rw [List.mem_cons, not_or] at hn
    rw [List.lookup_cons, beq_eq_false_iff_ne.mpr hn.1]
    exact h.lookup_eq_none n hn.2

/-- So a pass over object types remembers all of them. -/
lemma remembers_flattenAll (hpass : Pass b.forest.Links id done paths) (hsub : paths ⊆ b.paths)
    (h : b.Remembers done acc) :
    b.Remembers (paths.reverse ++ done) (flattenAll b acc paths).value := by
  induction paths generalizing acc done with
  | nil => exact h
  | cons path paths ih =>
      obtain ⟨hpath, hsub⟩ := List.cons_subset.mp hsub
      obtain ⟨o, ho⟩ := exists_get? hpath
      have hstep : (flattenAll b acc (path :: paths)).value = (flattenAll b
          ((path, flattenOnto path o (inheritedPart acc o.parent)) :: acc) paths).value := by
        rw [flattenAll, ho]
        rfl
      have hnew : path ∉ done := fun hmem => hpass.fresh path List.mem_cons_self path hmem rfl
      rw [hstep, List.reverse_cons, List.append_assoc]
      exact ih hpass.tail hsub (h.cons (hpass.exists_lineage path List.mem_cons_self) ho
        hpass.parentsFirst.1 hnew)

/-- Recursion gives nothing for what stands on a cycle or below one. -/
lemma flattens_none (hup : Relation.ReflTransGen b.forest.Links path parent)
    (hround : Relation.TransGen b.forest.Links parent parent) : b.Flattens path none := by
  induction hup using Relation.ReflTransGen.head_induction_on with
  | refl => exact .onCycle (mem_onCycle_iff.mpr hround)
  | @head n p hlink _ ih =>
      by_cases hn : n ∈ b.onCycle
      · exact .onCycle hn
      · rw [links_forest] at hlink
        obtain ⟨o, ho, hparent⟩ := Option.bind_eq_some_iff.mp hlink
        exact .blocked hn ho hparent ih

section Closed

variable (hlinks : ∀ n p, b.forest.Links n p → p ∈ b.paths)

include hlinks

lemma remembers_flatten : b.Remembers (flatOrder b) (flatten b).value := by
  have hsub : flatOrder b ⊆ b.paths := fun _ h => ((mem_flatOrder_iff hlinks).mp h).1
  have hempty : b.Remembers [] [] := ⟨nofun, fun _ _ => rfl⟩
  have hall := remembers_flattenAll b.pass_flatOrder hsub hempty
  refine ⟨fun path hpath => hall.flattens path ?_, fun path hpath => hall.lookup_eq_none path ?_⟩
  · simpa using hpath
  · simpa using hpath

/-- An object type is left out exactly when it is on a cycle or below one. -/
lemma lookup_flatten_eq_none_iff (hpath : path ∈ b.paths) :
    (flatten b).value.lookup path = none ↔ ∃ n, Relation.ReflTransGen b.forest.Links path n ∧
      Relation.TransGen b.forest.Links n n := by
  have hmem : path ∈ flatOrder b ↔ (flatten b).value.lookup path ≠ none := by
    constructor
    · intro h
      obtain ⟨f, hf, -⟩ := (remembers_flatten hlinks).flattens path h
      simp [hf]
    · exact fun h => by_contra fun hnot => h ((remembers_flatten hlinks).lookup_eq_none path hnot)
  rw [← not_iff_not, ← Ne, ← hmem, mem_flatOrder_iff hlinks, and_iff_right hpath,
    Lineage.exists_iff_acyclic b.forest.links_rightUnique hlinks]
  simp

/-- **What flattening holds is what the recursion gives.** -/
lemma flattens_lookup (path : TypePath) :
    b.Flattens path ((flatten b).value.lookup path) := by
  by_cases hpath : path ∈ b.paths
  · cases hlookup : (flatten b).value.lookup path with
    | none =>
        obtain ⟨n, hup, hround⟩ := (lookup_flatten_eq_none_iff hlinks hpath).mp hlookup
        exact flattens_none hup hround
    | some f =>
        have hmem : path ∈ flatOrder b := by
          by_contra hnot
          rw [(remembers_flatten hlinks).lookup_eq_none path hnot] at hlookup
          exact nomatch hlookup
        obtain ⟨f', hf', hflattens⟩ := (remembers_flatten hlinks).flattens path hmem
        rwa [← Option.some.inj (hf'.symm.trans hlookup)]
  · have hout : path ∉ flatOrder b := fun h => hpath ((mem_flatOrder_iff hlinks).mp h).1
    rw [(remembers_flatten hlinks).lookup_eq_none path hout]
    have hget : b.get? path = none := by
      by_contra hsome
      obtain ⟨o, ho⟩ := Option.ne_none_iff_exists'.mp hsome
      exact hpath (mem_paths_of_get? ho)
    by_cases hround : path ∈ b.onCycle
    · exact .onCycle hround
    · exact .unbound hround hget

/-- **The links that the recursion follows are well founded.** -/
lemma wellFounded_recursion :
    WellFounded fun parent path => path ∉ b.onCycle ∧ b.parent? path = some parent :=
  ⟨fun path => (flattens_lookup hlinks path).accessible⟩

end Closed

end Bindings

/-! ## Resolving as a whole -/

namespace Schema

/-- Resolving follows links only as far as they go.  The search for cycles among levels ends; unless
levels are founded resolving goes no further, and if they are the walk up the ancestors of each
level ends and the order of levels holds each name once.  The search for cycles among object types
ends as well, the recursion from object types to what they extend follows well-founded links, and it
leaves out exactly what is on a cycle or below one. -/
structure ResolvesFinitely (s : Schema) (P : PrimitiveSet) : Prop where
  levelSearch : Searches s.parentName? [] s.levelNames (s.forest.cycles s.levelNames)
  rejected : ¬ s.Founded → s.resolve P =
    .error ⟨(undeclaredParents s ++ levelCycles s).map ResolveFinding.diagnostic⟩
  entered : s.Founded → s.resolve P = if (body P s).notes.isEmpty then .ok (body P s).value
    else .error ⟨(body P s).notes.map ResolveFinding.diagnostic⟩
  ancestors : s.Founded → ∀ l ∈ s.levels, s.ClimbsTo l (s.ancestors l)
  order : s.Founded → s.orderedNames.Nodup ∧ ∀ name, name ∈ s.orderedNames ↔ name ∈ s.levelNames
  objectSearch : Searches (s.bindingsOf P).value.parent? [] (s.bindingsOf P).value.paths
    ((s.bindingsOf P).value.forest.cycles (s.bindingsOf P).value.paths)
  recursion : WellFounded fun parent path => path ∉ (s.bindingsOf P).value.onCycle ∧
    (s.bindingsOf P).value.parent? path = some parent
  flattens : ∀ path, (s.bindingsOf P).value.Flattens path
    ((flatten (s.bindingsOf P).value).value.lookup path)
  left_out : ∀ path ∈ (s.bindingsOf P).value.paths,
    ((flatten (s.bindingsOf P).value).value.lookup path = none ↔
      ∃ n, Relation.ReflTransGen (ParentOf (s.bindingsOf P).value.parent?) path n ∧
        Relation.TransGen (ParentOf (s.bindingsOf P).value.parent?) n n)

/-- **Resolving ends on every schema and every set of primitives.** -/
theorem resolves_finitely (s : Schema) (P : PrimitiveSet) : s.ResolvesFinitely P := by
  have hlinks : ∀ n p, (s.bindingsOf P).value.forest.Links n p →
      p ∈ (s.bindingsOf P).value.paths := fun _ _ => mem_paths_of_links
  exact
    { levelSearch := s.parent?_forest ▸ s.forest.searches_cycles s.levelNames
      rejected := fun h => resolve_of_early_ne_nil (early_eq_nil_iff.not.mpr h)
      entered := fun h => resolve_of_early_eq_nil (early_eq_nil_iff.mpr h)
      ancestors := fun h l _ => h.climbsTo l
      order := fun h => ⟨nodup_keepFirst _, fun _ => h.mem_orderedNames_iff⟩
      objectSearch := Bindings.parent?_forest _ ▸ Forest.searches_cycles _ _
      recursion := Bindings.wellFounded_recursion hlinks
      flattens := Bindings.flattens_lookup hlinks
      left_out := fun path hpath => by
        rw [← Bindings.links_forest]
        exact Bindings.lookup_flatten_eq_none_iff hlinks hpath }

/-- A name that stands nowhere in particular. -/
def unplacedName (name : String) : Located String :=
  ⟨name, ⟨0, 0⟩⟩

/-- An object type without properties. -/
def bareObject (name : String) (parent : Option String) : ObjectType :=
  ⟨unplacedName name, none, parent.map unplacedName, [], ⟨0, 0⟩⟩

/-- A level with object types only. -/
def bareLevel (name : String) (parent : Option String) (objects : List ObjectType) : Level :=
  ⟨unplacedName name, none, parent.map unplacedName, [], objects, ⟨0, 0⟩⟩

/-- A level and a type are declared twice, and an object type extends itself. -/
def siteTwice : Schema :=
  ⟨[bareLevel "Site" none [bareObject "Plot" none],
    bareLevel "City" (some "Site")
      [bareObject "Ward" (some "Lot"), bareObject "Ward" (some "Path")],
    bareLevel "Site" none
      [bareObject "Plot" (some "Plot"), bareObject "Lot" (some "Plot"), bareObject "Path" none]]⟩

/-- A level extends itself, another one extends what is not declared. -/
def siteOnItself : Schema :=
  ⟨[bareLevel "Site" (some "Site") [], bareLevel "City" (some "Town") []]⟩

theorem siteTwice_resolved_finitely :
    (siteTwice.ResolvesFinitely .builtin ∧ siteTwice.Founded ∧
      ((flatten (siteTwice.bindingsOf .builtin).value).value.lookup ⟨"Site", "Lot"⟩).isNone ∧
      ((flatten (siteTwice.bindingsOf .builtin).value).value.lookup ⟨"City", "Ward"⟩).isSome) ∧
    siteOnItself.ResolvesFinitely .builtin ∧ ¬ siteOnItself.Founded := by
  refine ⟨⟨resolves_finitely _ _, early_eq_nil_iff.mp ?_, ?_, ?_⟩, resolves_finitely _ _,
    early_eq_nil_iff.not.mp ?_⟩
  all_goals decide +kernel

end Schema

end LevelSchema
