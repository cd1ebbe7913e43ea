import LevelSchema.Proofs.Resolved.Concerns

/-!
# Every cycle is reported once

The search for cycles works on names of levels and on paths of object types.  In a loaded schema
names and paths tell their owners apart, so what it finds are the cycles of the levels and object
types themselves.

**Levels.**  A loaded schema with a cycle of levels is rejected with one report for each cycle, and
with nothing else (`Schema.Linked.exists_levelCycles`).

**Object types.**  If there is none, resolving goes on, and reports each cycle of object types once
among whatever else it finds (`Schema.Grounded.exists_objectCycles`).  Names may clash by then, so
which object type is extended has to be said with care: it is the one that the nearest level
declares under the name, looking from the level of the object type upwards
(`Schema.SpecializesNearest`).
-/

namespace LevelSchema

/-! ## Nearest declarations -/

namespace Schema

variable {s : Schema} {P : PrimitiveSet} {l m p : Level} {chain : List Level} {name : String}
  {x y : PlacedObject}

/-- Looking upwards from the level `l`, the level `m` is the first that declares the name. -/
structure Nearest (s : Schema) (l : Level) (name : String) (m : Level) : Prop where
  above : Relation.ReflTransGen s.Extends l m
  declared : name ∈ m.typeNames
  unhidden : ∀ n, Relation.ReflTransGen s.Extends l n → Relation.TransGen s.Extends n m →
    name ∉ n.typeNames

/-- The object type `x` extends `y`, which the nearest level declares under the name. -/
def SpecializesNearest (s : Schema) (x y : PlacedObject) : Prop :=
  s.Specializes x y ∧ s.Nearest x.level y.decl.name.value y.level

/-- A level that declares the name hides all above it. -/
lemma nearest_iff_eq (hl : name ∈ l.typeNames) (hacyclic : ¬ Relation.TransGen s.Extends l l) :
    s.Nearest l name m ↔ m = l := by
  constructor
  · intro h
    rcases Relation.reflTransGen_iff_eq_or_transGen.mp h.above with heq | hup
    · exact heq
    · exact absurd hl (h.unhidden l .refl hup)
  · rintro rfl
    exact ⟨.refl, hl, fun n hup hdown => absurd (Relation.TransGen.trans_right hup hdown) hacyclic⟩

/-- From a level that does not declare the name one looks on at its parent. -/
lemma nearest_iff_of_extends (hr : Relator.RightUnique s.Extends) (hlp : s.Extends l p)
    (hl : name ∉ l.typeNames) : s.Nearest l name m ↔ s.Nearest p name m := by
  constructor
  · intro h
    refine ⟨?_, h.declared, fun n hup => h.unhidden n (.head hlp hup)⟩
    rcases h.above.cases_head with rfl | ⟨q, hlq, hup⟩
    · exact absurd h.declared hl
    · exact hr hlq hlp ▸ hup
  · intro h
    refine ⟨.head hlp h.above, h.declared, fun n hup hdown => ?_⟩
    rcases hup.cases_head with rfl | ⟨q, hlq, hup⟩
    · exact hl
    · exact h.unhidden n (hr hlq hlp ▸ hup) hdown

/-- A level that declares the name hides the scope below its own types. -/
lemma Grounded.lookup_entries_append (hs : s.Grounded) (hl : l ∈ s.levels)
    (hname : name ∈ l.typeNames) {scope : Scope} {v : Visible} :
    (l.entries.reverse ++ scope).lookup name = some v ↔ (name, v) ∈ l.entries := by
  have hnodup : (l.entries.reverse.map (·.1)).Nodup := by
    rw [List.map_reverse, List.nodup_reverse, Level.names_entries]
    exact (hs.levels l hl).typeNames_nodup
  have hsome : (l.entries.reverse.lookup name).isSome = true := by
    rw [Option.isSome_iff_ne_none, Ne, lookup_eq_none_iff_not_mem]
    simpa [List.map_reverse, Level.names_entries] using hname
  rw [List.lookup_append, Option.or_of_isSome hsome, lookup_eq_some_iff_mem hnodup,
    List.mem_reverse]

lemma lookup_entries_append_of_not_mem (hname : name ∉ l.typeNames) (scope : Scope) :
    (l.entries.reverse ++ scope).lookup name = scope.lookup name := by
  have hnone : l.entries.reverse.lookup name = none := by
    rw [lookup_eq_none_iff_not_mem, List.map_reverse, List.mem_reverse, Level.names_entries]
    exact hname
  rw [List.lookup_append, hnone, Option.none_or]

/-- **A name stands for what the nearest level declares under it.** -/
lemma Grounded.lookup_along_iff (hs : s.Grounded) (hl : l ∈ s.levels)
    (hchain : Lineage s.Extends l chain) {v : Visible} :
    (Scope.along chain).lookup name = some v ↔
      ∃ m, s.Nearest l name m ∧ (name, v) ∈ m.entries := by
  induction hchain with
  | @root l hroot =>
      have hacyclic := (Lineage.root hroot).not_transGen_self hs.extends_rightUnique
      rw [← List.nil_append [l], Scope.along_append]
      by_cases hname : name ∈ l.typeNames
      · rw [hs.lookup_entries_append hl hname]
        simp [nearest_iff_eq hname hacyclic]
      · rw [lookup_entries_append_of_not_mem hname]
        refine iff_of_false (by simp [Scope.along]) ?_
        rintro ⟨m, hm, -⟩
        rcases hm.above.cases_head with rfl | ⟨p, hp, -⟩
        · exact hname hm.declared
        · exact hroot p hp
  | @step l p above hlp hp ih =>
      have hacyclic := (Lineage.step hlp hp).not_transGen_self hs.extends_rightUnique
      rw [Scope.along_append]
      by_cases hname : name ∈ l.typeNames
      · rw [hs.lookup_entries_append hl hname]
        simp [nearest_iff_eq hname hacyclic]
      · rw [lookup_entries_append_of_not_mem hname]
        refine (ih hlp.2.1).trans (exists_congr fun m => and_congr_left fun _ => ?_)
        exact (nearest_iff_of_extends hs.extends_rightUnique hlp hname).symm

/-- The links between paths are those of the object types. -/
lemma Grounded.links_forest_iff_nearest (hs : s.Grounded) (hx : x ∈ s.objects) {t : TypePath} :
    (s.bindingsOf P).value.forest.Links x.path t ↔
      ∃ y, s.SpecializesNearest x y ∧ y.path = t := by
  obtain ⟨hl, -⟩ := mem_objects.mp hx
  obtain ⟨chain, hchain⟩ := hs.exists_lineage x.level hl
  rw [hs.links_forest_iff_lookup hx hchain]
  constructor
  · rintro ⟨p, span, hp, hlookup⟩
    obtain ⟨m, hm, hentry⟩ := (hs.lookup_along_iff hl hchain).mp hlookup
    obtain ⟨o, ho, hname, -, rfl⟩ := mem_entries_object.mp hentry
    have hy : (⟨m, o⟩ : PlacedObject) ∈ s.objects :=
      mem_objects.mpr ⟨mem_levels_of_reflTransGen hl hm.above, ho⟩
    exact ⟨⟨m, o⟩, ⟨⟨hx, hy, hm.above, p, hp, hname.symm⟩, hname ▸ hm⟩,
      by rw [PlacedObject.path, hname]⟩
  · rintro ⟨y, ⟨⟨-, hy, -, p, hp, hname⟩, hnearest⟩, rfl⟩
    refine ⟨p, y.decl.name.span, hp, (hs.lookup_along_iff hl hchain).mpr
      ⟨y.level, hname ▸ hnearest, ?_⟩⟩
    refine mem_entries_object.mpr ⟨y.decl, (mem_objects.mp hy).2, hname.symm, rfl, ?_⟩
    rw [PlacedObject.path, hname]

end Schema

/-! ## What is said about a cycle -/

/-- The step from a level to the one it extends. -/
def Level.step? (l : Level) : Option CycleStep :=
  l.parent.map (⟨l.name.value, ·⟩)

/-- The step from an object type to the one it extends. -/
def PlacedObject.step? (x : PlacedObject) : Option CycleStep :=
  x.decl.parent.map (⟨x.path.qualified, ·⟩)

/-- The report about a cycle of levels. -/
def Level.cycleReport (cycle : List Level) : Diagnostic :=
  (ResolveFinding.levelCycle (cycle.filterMap Level.step?)).diagnostic

/-- The report about a cycle of object types. -/
def PlacedObject.cycleReport (cycle : List PlacedObject) : Diagnostic :=
  (ResolveFinding.objectCycle (cycle.filterMap PlacedObject.step?)).diagnostic

/-- The number under which a diagnostic is shown. -/
def Diagnostic.number? (d : Diagnostic) : Option String :=
  d.code.map Code.number

namespace ResolveFinding

lemma code_labelSteps (d : Diagnostic) (steps : List CycleStep) :
    (labelSteps d steps).code = d.code := by
  have hothers : ∀ (remark : CycleStep → String) (others : List CycleStep) (d : Diagnostic),
      (others.foldl (fun d s => d.secondary s.parent.span (remark s)) d).code = d.code := by
    intro remark others
    induction others with
    | nil => exact fun _ => rfl
    | cons s others ih => exact fun d => ih _
  cases steps with
  | nil => rfl
  | cons first others => exact hothers _ others _

/-- Only reports about cycles have the number of such reports. -/
lemma number?_diagnostic (f : ResolveFinding) : f.diagnostic.number? = some "E302" ↔
    (∃ steps, f = .levelCycle steps) ∨ f.concern = .objectCycles := by
  cases f with
  | levelCycle steps | objectCycle steps =>
      simp [diagnostic, Diagnostic.number?, code_labelSteps, Diagnostic.withCode, Diagnostic.hint,
        Code.number, concern]
  | typeNamedLikeLevel level type =>
      simp only [diagnostic]
      split_ifs <;> simp [Diagnostic.number?, Diagnostic.primary, Diagnostic.secondary,
        Diagnostic.withCode, Diagnostic.hint, Code.number, concern]
  | _ => simp [diagnostic, Diagnostic.number?, Diagnostic.primary, Diagnostic.secondary,
      Diagnostic.withCode, Diagnostic.hint, Code.number, concern]

end ResolveFinding

namespace Schema

open Resolve

variable {s : Schema}

/-- The cycles of levels that are found are all there are, each once. -/
lemma Linked.exists_levelCycles (hs : s.Linked) : ∃ cycles,
    ListsCycles s.Extends (· ∈ s.levels) cycles ∧
      levelCycles s = cycles.map fun c => .levelCycle (c.filterMap Level.step?) := by
  have hclosed : Closed s.forest.Links s.levelNames := by
    rintro _ hn name hlink
    obtain ⟨l, hl, rfl⟩ := List.mem_map.mp hn
    obtain ⟨m, hm, rfl⟩ := (hs.links_forest_iff hl).mp hlink
    exact List.mem_map_of_mem hm.2.1
  have hfound := (s.forest.listsCycles_cycles s.levelNames).congr fun _ => reachable_iff_mem hclosed
  obtain ⟨cycles, hcycles, heq⟩ := ListsCycles.exists_of_map (f := fun l : Level => l.name.value)
    (fun _ _ h => ⟨h.1, h.2.1⟩) (fun _ hl _ => hs.links_forest_iff hl)
    (fun _ hl _ hm => hs.eq_of_name_eq hl hm) hfound
  refine ⟨cycles, hcycles, ?_⟩
  rw [levelCycles, ← heq, List.map_map]
  refine List.map_congr_left fun c hc => ?_
  rw [Function.comp_apply, List.filterMap_map]
  refine congrArg _ (List.filterMap_congr fun l hl => ?_)
  have hlevel := ((hcycles.mem_iff l).mp ⟨c, hc, hl⟩).1
  simp [hs.level?_eq_some_iff.mpr ⟨hlevel, rfl⟩, Level.step?]

/-- The cycles of object types that are found are all there are, each once. -/
lemma Grounded.exists_objectCycles (hs : s.Grounded) (P : PrimitiveSet) : ∃ cycles,
    ListsCycles s.SpecializesNearest (· ∈ s.objects) cycles ∧
      objectCycles (s.bindingsOf P).value =
        cycles.map fun c => .objectCycle (c.filterMap PlacedObject.step?) := by
  set b := (s.bindingsOf P).value
  have hpaths : b.paths = s.orderedObjects.map PlacedObject.path := hs.paths_bindingsOf
  have hmem : ∀ {x}, x ∈ s.orderedObjects ↔ x ∈ s.objects := hs.mem_orderedObjects
  have hclosed : Closed b.forest.Links (s.orderedObjects.map PlacedObject.path) := by
    rintro _ hn path hlink
    obtain ⟨x, hx, rfl⟩ := List.mem_map.mp hn
    obtain ⟨y, hy, rfl⟩ := (hs.links_forest_iff_nearest (hmem.mp hx)).mp hlink
    exact List.mem_map_of_mem (hmem.mpr hy.1.2.1)
  have hfound := (b.forest.listsCycles_cycles _).congr fun _ => reachable_iff_mem hclosed
  obtain ⟨cycles, hcycles, heq⟩ := ListsCycles.exists_of_map
    (r := s.SpecializesNearest) (fun _ _ h => ⟨hmem.mpr h.1.1, hmem.mpr h.1.2.1⟩)
    (fun _ hx _ => hs.links_forest_iff_nearest (hmem.mp hx))
    (fun _ hx _ hy => hs.eq_of_path_eq (hmem.mp hx) (hmem.mp hy)) hfound
  have hobjects := hcycles.congr fun _ => hmem
  refine ⟨cycles, hobjects, ?_⟩
  rw [objectCycles, hpaths, ← heq, List.map_map]
  refine List.map_congr_left fun c hc => ?_
  rw [Function.comp_apply, List.filterMap_map]
  refine congrArg _ (List.filterMap_congr fun x hx => ?_)
  have hget : b.get? x.path = some (s.boundObject P x).value.2 :=
    hs.get?_bindingsOf ((hobjects.mem_iff x).mp ⟨c, hc, hx⟩).1
  have hdecl : (s.boundObject P x).value.2.decl = x.decl := rfl
  simp [hget, hdecl, PlacedObject.step?]

/-! ## Reports -/

/-- What resolving reports; nothing if it succeeds. -/
def reports (s : Schema) (P : PrimitiveSet) : List Diagnostic :=
  match s.resolve P with
  | .ok _ => []
  | .error r => r.diagnostics

/-- What is found among the levels is reported alone. -/
lemma resolve_of_early_ne_nil {P : PrimitiveSet}
    (h : undeclaredParents s ++ levelCycles s ≠ []) : s.resolve P =
      .error ⟨(undeclaredParents s ++ levelCycles s).map ResolveFinding.diagnostic⟩ := by
  simp [resolve, resolution, h]

/-- Otherwise everything else is checked, and reported together. -/
lemma resolve_of_early_eq_nil {P : PrimitiveSet} (h : undeclaredParents s ++ levelCycles s = []) :
    s.resolve P = if (body P s).notes.isEmpty then .ok (body P s).value
      else .error ⟨(body P s).notes.map ResolveFinding.diagnostic⟩ := by
  by_cases hlate : (body P s).notes = []
  · simp [resolve, resolution, h, hlate]
  · simp [resolve, resolution, h, hlate]

lemma reports_of_early_eq_nil {P : PrimitiveSet} (h : undeclaredParents s ++ levelCycles s = []) :
    s.reports P = (body P s).notes.map ResolveFinding.diagnostic := by
  rw [reports, resolve_of_early_eq_nil h]
  by_cases hlate : (body P s).notes = []
  · simp [hlate]
  · simp [hlate]

/-- Cycles of levels are reported once each and alone, and where there is none the cycles of object
types are reported once each among other findings. -/
structure ReportsCyclesOnce (s : Schema) (P : PrimitiveSet) : Prop where
  levels : ∃ cycles, ListsCycles s.Extends (· ∈ s.levels) cycles ∧
    (cycles ≠ [] → s.resolve P = .error ⟨cycles.map Level.cycleReport⟩ ∧
      ∀ c ∈ cycles, (Level.cycleReport c).number? = some "E302")
  objects : (∀ l, ¬ Relation.TransGen s.Extends l l) → ∃ cycles,
    ListsCycles s.SpecializesNearest (· ∈ s.objects) cycles ∧
      (s.reports P).filter (·.number? = some "E302") = cycles.map PlacedObject.cycleReport

/-- A well-formed schema has each of its cycles reported once. -/
lemma WellFormed.reportsCyclesOnce (hs : s.WellFormed) (P : PrimitiveSet) :
    s.ReportsCyclesOnce P := by
  have hparents := hs.linked.undeclaredParents_eq_nil
  constructor
  · obtain ⟨cycles, hcycles, hfound⟩ := hs.linked.exists_levelCycles
    refine ⟨cycles, hcycles, fun hne => ⟨?_, fun c _ => ?_⟩⟩
    · have hearly : undeclaredParents s ++ levelCycles s ≠ [] := by
        rw [hparents, hfound]
        simpa using hne
      rw [resolve_of_early_ne_nil hearly, hparents, hfound, List.nil_append, List.map_map]
      rfl
    · exact (ResolveFinding.number?_diagnostic _).mpr (.inl ⟨_, rfl⟩)
  · intro hacyclic
    have hgrounded := hs.grounded_iff.mpr hacyclic
    have hearly : undeclaredParents s ++ levelCycles s = [] := by
      rw [hparents, hs.linked.levelCycles_eq_nil_iff.mpr hgrounded.exists_lineage]
      rfl
    obtain ⟨cycles, hcycles, hfound⟩ := hgrounded.exists_objectCycles P
    refine ⟨cycles, hcycles, ?_⟩
    have hcodes : ∀ f ∈ (body P s).notes,
        decide (f.diagnostic.number? = some "E302") = decide (f.concern = .objectCycles) := by
      intro f hf
      rw [decide_eq_decide, ResolveFinding.number?_diagnostic, or_iff_right_iff_imp]
      rintro ⟨steps, rfl⟩
      exact absurd rfl (concern_body_ne_levels _ hf)
    calc (s.reports P).filter (·.number? = some "E302")
        = ((body P s).notes.filter (·.diagnostic.number? = some "E302")).map
            ResolveFinding.diagnostic := by
          rw [reports_of_early_eq_nil hearly, List.filter_map]
          rfl
      _ = (objectCycles (s.bindingsOf P).value).map ResolveFinding.diagnostic := by
          rw [List.filter_congr hcodes, filter_objectCycles]
      _ = cycles.map PlacedObject.cycleReport := by
          rw [hfound, List.map_map]
          rfl

/-- **Every cycle is found and reported once.**  The search for cycles lists each cycle that can be
reached from the given nodes once.  So a loaded schema with cycles of levels is rejected with one
report for each, and nothing else; one without them has one such report for each cycle of object
types, and none for what only stands below a cycle. -/
theorem each_cycle_reported_once :
    (∀ {α : Type} [DecidableEq α] (nodes sources : List α) (parent : α → Option α),
      (∀ n p, parent n = some p → n ∈ sources) →
        ListsCycles (ParentOf parent) (Reachable (ParentOf parent) nodes)
          ((Forest.ofParent sources parent).cycles nodes)) ∧
      ∀ (source : String) (loaded : Noted Diagnostic Schema) (P : PrimitiveSet),
        Schema.ofSource source = .ok loaded → loaded.value.ReportsCyclesOnce P := by
  refine ⟨fun nodes sources parent h => ?_, fun source loaded P h => ?_⟩
  · have hlinks : (Forest.ofParent sources parent).Links = ParentOf parent := by
      funext n p
      rw [Forest.Links, Forest.parent?_ofParent_eq h, ParentOf]
    rw [← hlinks]
    exact Forest.listsCycles_cycles _ nodes
  · exact (wellFormed_of_ofSource h).reportsCyclesOnce P

/-- A node below a cycle of two. -/
def belowRound : ℕ → Option ℕ
  | 0 => some 1
  | 1 => some 2
  | 2 => some 1
  | _ => none

/-- Two cycles of object types, and a third type below one of them. -/
def towerBelowCycle : String :=
  "AbstractionLevel Site\n    Object Tower extends Lot\n    Object Lot extends Plot\n" ++
    "    Object Plot extends Lot\n    Object Ring extends Ring\n"

/-- Two levels that extend each other, and a third on top. -/
def districtBelowCycle : String :=
  "AbstractionLevel District extends City\n    Object Ward\n" ++
    "AbstractionLevel City extends Site\n    Object Tower extends Tower\n" ++
    "AbstractionLevel Site extends City\n    Object Plot\n"

theorem cycles_on_site_and_city_reported :
    ListsCycles (ParentOf belowRound) (Reachable (ParentOf belowRound) [0, 3, 0]) [[1, 2]] ∧
    (∃ loaded, Schema.ofSource towerBelowCycle = .ok loaded ∧
      loaded.value.ReportsCyclesOnce .builtin ∧
        ((loaded.value.reports .builtin).filter (·.number? = some "E302")).length = 2) ∧
    ∃ loaded, Schema.ofSource districtBelowCycle = .ok loaded ∧
      loaded.value.ReportsCyclesOnce .builtin ∧ (loaded.value.reports .builtin).length = 1 := by
  obtain ⟨hsearch, hresolve⟩ := each_cycle_reported_once
  refine ⟨?_, ?_, ?_⟩
  · refine hsearch [0, 3, 0] [0, 1, 2] belowRound fun n p h => ?_
    unfold belowRound at h
    split at h <;> simp_all
  · have hrun : (Schema.ofSource towerBelowCycle).toOption.map (fun loaded =>
        ((loaded.value.reports .builtin).filter (·.number? = some "E302")).length) = some 2 := by
      decide +kernel
    obtain ⟨loaded, hload, hcount⟩ := exists_of_toOption_map hrun
    exact ⟨loaded, hload, hresolve _ _ _ hload, hcount⟩
  · have hrun : (Schema.ofSource districtBelowCycle).toOption.map (fun loaded =>
        (loaded.value.reports .builtin).length) = some 1 := by
      decide +kernel
    obtain ⟨loaded, hload, hcount⟩ := exists_of_toOption_map hrun
    exact ⟨loaded, hload, hresolve _ _ _ hload, hcount⟩

end Schema

end LevelSchema
