import LevelSchema.Proofs.Code.Consistency
import LevelSchema.Proofs.Code.Rewording
import LevelSchema.Proofs.Resolved.Locality

/-!
# Generating is local

A module is generated from one resolved level.  Of the rest of the schema only one thing matters,
and only for whether there is a module at all: that the parent of the level is there.  Places do not
matter, since forgetting them keeps all that generating reads
(`ResolvedLevel.reworded_unplaced`).

Together with the locality of resolving this gives `Schema.resolve_and_emit_locally`: what a level
comes to, as a resolved level and as a file of the per-level layout, is settled by its declaration
and those of its ancestors.
-/

namespace LevelSchema

/-! ## Places -/

lemma ParameterType.reworded_unplaced (t : ParameterType) : t.Reworded id t.unplaced :=
  ⟨rfl, rfl, rfl, forall₂_map_self (fun _ => ⟨rfl, rfl, rfl⟩) t.members⟩

lemma ResolvedObject.reworded_unplaced (o : ResolvedObject) : o.Reworded id o.unplaced :=
  ⟨rfl, rfl, rfl, forall₂_map_self (fun _ => ⟨rfl, rfl, rfl⟩) o.properties⟩

/-- Forgetting places keeps all that generating reads, and the descriptions. -/
lemma ResolvedLevel.reworded_unplaced (l : ResolvedLevel) : l.Reworded id l.unplaced :=
  ⟨rfl, rfl, rfl, rfl, forall₂_map_self ParameterType.reworded_unplaced l.parameterTypes,
    forall₂_map_self ResolvedObject.reworded_unplaced l.objectTypes⟩

namespace Code

variable {s s' : ResolvedSchema} {l l' : ResolvedLevel} {primitivesPath : String}

lemma Module.ofLevel_unplaced (primitivesPath : String) (s : ResolvedSchema) (l : ResolvedLevel) :
    Module.ofLevel primitivesPath s l.unplaced = Module.ofLevel primitivesPath s l := by
  rw [Module.ofLevel_of_reworded (s := s) l.reworded_unplaced rfl]
  cases Module.ofLevel primitivesPath s l with
  | error fault => rfl
  | ok m => exact congrArg Except.ok m.reword_id

/-! ## Other levels -/

/-- The modules of two levels that are the same up to places are the same, whatever else the two
schemas hold. -/
lemma Module.ofLevel_eq_of_unplaced_eq (hs : s.Consistent) (hs' : s'.Consistent)
    (hl : l ∈ s.levels) (hl' : l' ∈ s'.levels) (h : l'.unplaced = l.unplaced) :
    Module.ofLevel primitivesPath s' l' = Module.ofLevel primitivesPath s l := by
  have hparent : missingParent? s l = none :=
    missingParent?_eq_none_iff.mpr (hs.parents_resolved l hl)
  have hparent' : missingParent? s' l.unplaced = none := by
    rw [← h]
    exact missingParent?_eq_none_iff.mpr (hs'.parents_resolved l' hl')
  rw [← Module.ofLevel_unplaced primitivesPath s', ← Module.ofLevel_unplaced primitivesPath s, h,
    Module.ofLevel, Module.ofLevel, hparent']
  exact hparent ▸ rfl

end Code

namespace ResolvedSchema

open Code

variable {r : ResolvedSchema} {settings : EmitSettings} {artifact : Artifact}

/-- **Generating does not look at places.** -/
lemma emit_unplaced (r : ResolvedSchema) (settings : EmitSettings) :
    r.unplaced.emit settings = r.emit settings := by
  have hreworded : r.Reworded id r.unplaced :=
    forall₂_map_self ResolvedLevel.reworded_unplaced r.levels
  rw [emit, emit, hreworded.mapM_ofLevel]
  cases r.levels.mapM (Module.ofLevel settings.primitivesPath r) with
  | error fault => rfl
  | ok modules =>
      have hmodules : modules.map (Module.reword id) = modules :=
        (List.map_congr_left fun m _ => m.reword_id).trans (List.map_id _)
      exact congrArg (fun ms => Except.ok (Artifact.ofModules settings ms)) hmodules

/-- In the per-level layout the unit of a level stands where the level stands, behind the root. -/
lemma exists_unit (hlayout : settings.layout = .perLevel) (h : r.emit settings = .ok artifact)
    {level : ResolvedLevel} (hlevel : level ∈ r.levels) :
    ∃ m, Module.ofLevel settings.primitivesPath r level = .ok m ∧
      (level, ⟨Artifact.moduleFileName m, text (Artifact.moduleLines settings m)⟩) ∈
        r.levels.zip artifact.units.tail := by
  obtain ⟨modules, hmodules, hartifact⟩ := bind_eq_ok_iff.mp h
  obtain ⟨m, hm, hmodule⟩ := exists_mem_zip_of_forall₂ (mapM_eq_ok_iff.mp hmodules) hlevel
  refine ⟨m, hmodule, ?_⟩
  rw [← pure_eq_ok_iff.mp hartifact, Artifact.ofModules, hlayout, List.tail_cons,
    List.zip_map_right]
  exact List.mem_map.mpr ⟨(level, m), hm, rfl⟩

end ResolvedSchema

namespace Schema

/-- **Resolving and generating are local.**  Where two loaded schemas share a level with all its
ancestors, up to places, the level is resolved to the same and has the same unit in the per-level
layout.  Nothing is asked of the other levels, nor of the order.  And when the levels of a loaded
schema are put into another order, it can be resolved exactly if it could before. -/
theorem resolve_and_emit_locally {source source' : String}
    {loaded loaded' : Noted Diagnostic Schema}
    (hload : Schema.ofSource source = .ok loaded) (hload' : Schema.ofSource source' = .ok loaded')
    (settings : Settings) (hlayout : settings.emit.layout = .perLevel) :
    (∀ r r' l l', loaded.value.resolve settings.primitives = .ok r →
      loaded'.value.resolve settings.primitives = .ok r' → loaded.value.Shared loaded'.value l l' →
        ∃ artifact artifact' level level' unit, r.emit settings.emit = .ok artifact ∧
          r'.emit settings.emit = .ok artifact' ∧ level.name = l.name.value ∧
            (level, unit) ∈ r.levels.zip artifact.units.tail ∧
              (level', unit) ∈ r'.levels.zip artifact'.units.tail ∧
                level'.unplaced = level.unplaced) ∧
      ∀ levels, levels.Perm loaded.value.levels →
        ((∃ r, (Schema.mk levels).resolve settings.primitives = .ok r) ↔
          ∃ r, loaded.value.resolve settings.primitives = .ok r) := by
  have hs := wellFormed_of_ofSource hload
  have hs' := wellFormed_of_ofSource hload'
  constructor
  · intro r r' l l' hresolve hresolve' hshared
    have hconsistent := hs.consistent_of_resolve hresolve
    have hconsistent' := hs'.consistent_of_resolve hresolve'
    obtain ⟨artifact, hemit⟩ := ResolvedSchema.exists_emit_iff.mpr hconsistent
    obtain ⟨artifact', hemit'⟩ := ResolvedSchema.exists_emit_iff.mpr hconsistent'
    obtain ⟨level, hlevel, hyields⟩ := hs.exists_resolved hresolve hshared.left
    obtain ⟨level', hlevel', hyields'⟩ := hs'.exists_resolved hresolve' hshared.right
    have hsame : level'.unplaced = level.unplaced :=
      hshared.unplaced_eq (hs.bound_of_resolve hresolve) (hs'.bound_of_resolve hresolve') hyields
        hyields'
    obtain ⟨m, hm, hunit⟩ := ResolvedSchema.exists_unit hlayout hemit hlevel
    obtain ⟨m', hm', hunit'⟩ := ResolvedSchema.exists_unit hlayout hemit' hlevel'
    have hmodules : m' = m := by
      rw [Code.Module.ofLevel_eq_of_unplaced_eq hconsistent hconsistent' hlevel hlevel' hsame,
        hm] at hm'
      exact (Except.ok.inj hm').symm
    exact ⟨artifact, artifact', level, level', _, hemit, hemit', hyields.name, hunit,
      hmodules ▸ hunit', hsame⟩
  · intro levels hperm
    have hsame := sameLevels_of_perm hperm
    have hswap := hs.of_perm hperm
    simp only [hswap.resolve_eq_ok_iff, hs.resolve_eq_ok_iff, exists_and_left, exists_eq, and_true]
    exact ⟨hsame.symm.resolvable hs hswap, hsame.resolvable hswap hs⟩

/-- The levels of `towerOnPlot` in the other order, and one that nothing builds on. -/
def parkBesideTower : String :=
  "AbstractionLevel City extends Site\n    Object Tower extends Plot\n        Plot Lot\n" ++
    "AbstractionLevel Park\n    Object Plot\n" ++
    "AbstractionLevel Site\n    Object Plot\n        Curve Edge\n"

theorem city_resolved_alike_beside_park :
    ∃ loaded loaded' r r' artifact artifact' level level' unit,
      Schema.ofSource towerOnPlot = .ok loaded ∧ Schema.ofSource parkBesideTower = .ok loaded' ∧
        loaded.value.resolve .builtin = .ok r ∧ loaded'.value.resolve .builtin = .ok r' ∧
          r.emit { layout := .perLevel } = .ok artifact ∧
            r'.emit { layout := .perLevel } = .ok artifact' ∧ level.name = "City" ∧
              (level, unit) ∈ r.levels.zip artifact.units.tail ∧
                (level', unit) ∈ r'.levels.zip artifact'.units.tail ∧
                  level'.unplaced = level.unplaced := by
  -- one evaluation for all that has to be known about the two texts
  have hrun : (Schema.ofSource towerOnPlot).toOption.map (fun a =>
      (Schema.ofSource parkBesideTower).toOption.map fun b =>
        (a.value.resolve .builtin).isOk && (b.value.resolve .builtin).isOk &&
          decide ("City" ∈ a.value.levelNames ∧
            ∀ l ∈ a.value.levels, ∃ l' ∈ b.value.levels, l'.unplaced = l.unplaced)) =
      some (some true) := by
    decide +kernel
  obtain ⟨loaded, hload, hrun⟩ := exists_of_toOption_map hrun
  obtain ⟨loaded', hload', hrun⟩ := exists_of_toOption_map hrun
  rw [Bool.and_eq_true, Bool.and_eq_true, decide_eq_true_iff] at hrun
  obtain ⟨⟨hresolves, hresolves'⟩, hcity, hlevels⟩ := hrun
  obtain ⟨r, hresolve⟩ := exists_of_isOk hresolves
  obtain ⟨r', hresolve'⟩ := exists_of_isOk hresolves'
  obtain ⟨l, hl, hname⟩ := List.mem_map.mp hcity
  obtain ⟨l', hl', hsame⟩ := hlevels l hl
  have hshared : loaded.value.Shared loaded'.value l l' :=
    ⟨hl, hl', hsame, fun m hup => hlevels m (mem_levels_of_reflTransGen hl hup)⟩
  obtain ⟨artifact, artifact', level, level', unit, hemit, hemit', hlevel, hrest⟩ :=
    (resolve_and_emit_locally hload hload' { emit.layout := .perLevel } rfl).1 r r' l l'
      hresolve hresolve' hshared
  exact ⟨loaded, loaded', r, r', artifact, artifact', level, level', unit, hload, hload',
    hresolve, hresolve', hemit, hemit', hlevel.trans hname, hrest⟩

end Schema

end LevelSchema
