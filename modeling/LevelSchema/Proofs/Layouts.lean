import LevelSchema.Proofs.Artifact
import LevelSchema.Proofs.Code.OneLine

/-!
# The two layouts agree

Both layouts are written from the same modules.  The single layout puts each of them in a block of
its own, the per-level layout in a file of its own, and the root file declares them in the same
order (`Artifact.SameModules`).

The agreement is about the texts, row by row: a row of a module's file stands in the single file
four blanks further in, and an empty row stays empty.  This needs every line to be one row of the
text, and no line of code to be empty.  Every module that is generated from a source has such lines
(`Schema.LevelYields.fits`), because its names are identifiers and the configured paths are paths.
-/

namespace LevelSchema

open Code

/-- The same settings with another layout. -/
def Settings.withLayout (settings : Settings) (layout : Layout) : Settings :=
  { settings with emit := { settings.emit with layout := layout } }

/-! ## Rows of the files -/

namespace Artifact

/-- A row of documentation. -/
def docRow (text : String) : String :=
  if text = "" then "///" else "/// " ++ text

/-- The rows of a description, which lose the blanks at their ends. -/
def descriptionRows : Option String → List String
  | none => []
  | some text => (Text.lines text.toList).map fun l => docRow (String.ofList (Text.trimEnd l))

/-- The row that marks generated files if it is wanted, with the given rows behind it. -/
def headerRows (settings : EmitSettings) (behind : List String) : List String :=
  if settings.header then "// @generated by semio. Do not edit by hand." :: behind else []

/-- The rows of a level in the single file, from those it has in a file of its own. -/
def blockRows (l : ResolvedLevel) (body : List String) : List String :=
  "" :: descriptionRows l.description ++
    ("pub mod " ++ moduleName l.name ++ " \x7b") :: body.map indented ++ ["\x7d"]

/-- The rows of a level in the root file. -/
def declarationRows (l : ResolvedLevel) : List String :=
  descriptionRows l.description ++ ["pub mod " ++ moduleName l.name ++ ";"]

/-- Two artifacts with the same levels, one in the single and one in the per-level layout.  Each
level has a body, the rows of its own file behind the header. -/
structure SameModules (settings : EmitSettings) (levels : List ResolvedLevel)
    (bodies : List (List String)) (single perLevel : Artifact) : Prop where
  single : ∃ model, single.units = [model] ∧ model.fileName = "model.rs" ∧
    MadeOf model.contents (headerRows settings [] ++
      (levels.zip bodies).flatMap fun (l, body) => blockRows l body)
  perLevel : ∃ root units, perLevel.units = root :: units ∧ root.fileName = "mod.rs" ∧
    MadeOf root.contents (headerRows settings [""] ++ levels.flatMap declarationRows) ∧
    units.map (·.fileName) = levels.map (fun l => Name.snake l.name ++ ".rs") ∧
    List.Forall₂ (fun u body => MadeOf u.contents (headerRows settings [""] ++ body)) units bodies

/-- A module as it is made from a level, and written on lines that are lines. -/
structure Represents (l : ResolvedLevel) (m : Module) : Prop where
  name : m.name = moduleName l.name
  description : m.description = l.description
  usable : Load.Usable .level l.name
  fits : m.Fits

variable {settings : EmitSettings} {levels : List ResolvedLevel} {modules : List Module}

lemma render_code (text : String) : (code text).render = text :=
  String.empty_append

lemma render_doc (text : String) : (doc text).render = docRow text := by
  have hrender : (doc text).render = if text.isEmpty then "///" else "/// " ++ text :=
    String.empty_append
  simp [hrender, docRow]

lemma map_render_docs (description : Option String) :
    (docs description).map Line.render = descriptionRows description := by
  cases description with
  | none => rfl
  | some text =>
      rw [docs, List.map_map, descriptionRows]
      exact List.map_congr_left fun l _ => render_doc _

/-- The header is the same in both layouts. -/
lemma map_render_withHeader (settings : EmitSettings) (behind : List Line) :
    (withHeader settings behind).map Line.render =
      headerRows settings (behind.map Line.render) := by
  unfold withHeader headerRows
  split_ifs
  · rw [List.map_cons, headerLine, render_code]
  · rfl

lemma fit_withHeader {behind : List Line} (h : Fit behind) : Fit (withHeader settings behind) := by
  have hheader : headerLine.Fits := ⟨by decide, oneLine_ofList (by decide)⟩
  unfold withHeader
  split_ifs
  · exact fit_cons.mpr ⟨hheader, h⟩
  · exact fit_nil

/-! ## Modules -/

/-- The rows that a module has in any layout. -/
def bodyRows (settings : EmitSettings) (m : Module) : List String :=
  (m.lines (derives settings)).map Line.render

/-- In one file, a module is a block with its description in front. -/
lemma Represents.map_render_block {l : ResolvedLevel} {m : Module} (h : Represents l m)
    (hderives : ∀ d ∈ derives settings, OneLine d) :
    (.blank :: docs m.description ++
      block ("pub mod " ++ m.name) (m.lines (derives settings))).map Line.render =
        blockRows l (bodyRows settings m) := by
  have hbody := map_render_indent (h.fits.fit_lines hderives)
  simp only [block, List.cons_append, List.append_assoc, List.map_cons, List.map_append,
    List.map_nil, map_render_docs, hbody, render_code, h.description, h.name, blockRows, bodyRows]
  rfl

/-- With a file for each level, the root declares the module. -/
lemma Represents.map_render_declaration {l : ResolvedLevel} {m : Module} (h : Represents l m) :
    (docs m.description ++ [code ("pub mod " ++ m.name ++ ";")]).map Line.render =
      declarationRows l := by
  rw [List.map_append, map_render_docs, h.description, h.name]
  simp only [List.map_cons, List.map_nil, render_code, declarationRows]

/-- The file of a level is called like it, in snake case. -/
lemma Represents.moduleFileName_eq {l : ResolvedLevel} {m : Module} (h : Represents l m) :
    moduleFileName m = Name.snake l.name ++ ".rs" := by
  have hbare : Name.bare m.name = Name.snake l.name := by
    rw [h.name]
    exact Name.bare_escape (Name.isIdentifier_snake h.usable.isIdentifier)
  rw [Artifact.moduleFileName_eq (h.name ▸ h.usable.legal_escape_snake), hbare]

/-- The single file has the rows of all levels. -/
lemma madeOf_singleLines (h : List.Forall₂ Represents levels modules)
    (hderives : ∀ d ∈ derives settings, OneLine d) :
    MadeOf (text (singleLines settings modules)) (headerRows settings [] ++
      (levels.zip (modules.map (bodyRows settings))).flatMap
        fun (l, body) => blockRows l body) := by
  have hfit : Fit (singleLines settings modules) := by
    refine fit_append.mpr ⟨fit_withHeader fit_nil, fit_flatMap.mpr fun m hm => ?_⟩
    obtain ⟨l, -, hlm⟩ := exists_of_forall₂_of_mem h hm
    have hname : OneLine ("pub mod " ++ m.name) := oneLine_append.mpr ⟨by decide, hlm.fits.name⟩
    simp [hname, hlm.fits.fit_lines hderives]
  have hrows := madeOf_text hfit
  rw [singleLines, List.map_append, map_render_withHeader, List.map_flatMap,
    flatMap_zip_eq_of_forall₂ h fun l m hlm => hlm.map_render_block hderives] at hrows
  exact hrows

/-- The root file declares all levels. -/
lemma madeOf_rootLines (h : List.Forall₂ Represents levels modules) :
    MadeOf (text (rootLines settings modules))
      (headerRows settings [""] ++ levels.flatMap declarationRows) := by
  have hfit : Fit (rootLines settings modules) := by
    refine fit_append.mpr ⟨fit_withHeader (by simp), fit_flatMap.mpr fun m hm => ?_⟩
    obtain ⟨l, -, hlm⟩ := exists_of_forall₂_of_mem h hm
    simp +decide [hlm.fits.name]
  have hrows := madeOf_text hfit
  rw [rootLines, List.map_append, map_render_withHeader, List.map_flatMap,
    flatMap_eq_flatMap_of_forall₂ h fun l m hlm => hlm.map_render_declaration] at hrows
  exact hrows

/-- The file of a module has its rows behind the header. -/
lemma madeOf_moduleLines {m : Module} (h : m.Fits) (hderives : ∀ d ∈ derives settings, OneLine d) :
    MadeOf (text (moduleLines settings m)) (headerRows settings [""] ++ bodyRows settings m) := by
  have hfit : Fit (moduleLines settings m) :=
    fit_append.mpr ⟨fit_withHeader (by simp), h.fit_lines hderives⟩
  have hrows := madeOf_text hfit
  rw [moduleLines, List.map_append, map_render_withHeader] at hrows
  exact hrows

end Artifact

namespace Schema

variable {s : Schema} {P : PrimitiveSet} {primitivesPath : String} {resolved : ResolvedSchema}
  {modules : List Module}

/-- Every resolved level is represented by its module. -/
lemma WellFormed.forall₂_represents (hs : s.WellFormed)
    (hP : ∀ n ∈ P.names, Name.isIdentifier n = true) (hpath : OneLine primitivesPath)
    (hresolve : s.resolve P = .ok resolved)
    (hmodules : resolved.levels.mapM (Module.ofLevel primitivesPath resolved) = .ok modules) :
    List.Forall₂ Artifact.Represents resolved.levels modules := by
  refine (forall₂_and_mem (mapM_eq_ok_iff.mp hmodules)).imp ?_
  rintro r m ⟨hr, -, hm⟩
  obtain ⟨l, hl, hyields⟩ := hs.exists_levelYields hresolve hr
  have hfits := hyields.fits (hs.bound_of_resolve hresolve) hP hpath hl hm
  obtain ⟨parameters, -, rfl⟩ := Module.ofLevel_eq_ok hm
  exact ⟨rfl, rfl, hyields.name ▸ hs.usable l hl, hfits⟩

end Schema

namespace Session

open Artifact

variable {settings : Settings} {session session' : Session}

/-- **The two layouts agree.**  Settings that differ only in the layout reject the same sources,
with the same errors.  Where they give artifacts, the single file has a block for each level, in the
order of levels: its description, `pub mod`, and the rows of the level's own file moved inwards.
The root of the per-level layout has the same descriptions and declares the same modules, in the
same order.  Beside the header and the blank rows that separate, there is nothing else in any of the
files. -/
theorem layouts_hold_same_modules
    (hsingle : Session.start (settings.withLayout .single) = .ok session)
    (hperLevel : Session.start (settings.withLayout .perLevel) = .ok session') (source : String) :
    (∀ failure, (session.compile source).result = .error failure ↔
      (session'.compile source).result = .error failure) ∧
    ∀ single perLevel, (session.compile source).result = .ok single →
      (session'.compile source).result = .ok perLevel →
        ∃ loaded resolved bodies, Schema.ofSource source = .ok loaded ∧
          loaded.value.resolve settings.primitives = .ok resolved ∧
            SameModules settings.emit resolved.levels bodies single perLevel := by
  refine ⟨fun failure => ?_, fun single perLevel h h' => ?_⟩
  · exact (compile_eq_error_iff hsingle).trans (compile_eq_error_iff hperLevel).symm
  obtain ⟨loaded, resolved, modules, hload, hresolve, hmodules, rfl⟩ :=
    exists_modules_of_compile hsingle h
  obtain ⟨loaded', resolved', modules', hload', hresolve', hmodules', rfl⟩ :=
    exists_modules_of_compile hperLevel h'
  -- no stage before the last one looks at the layout
  obtain rfl : loaded = loaded' := Except.ok.inj (hload.symm.trans hload')
  obtain rfl : resolved = resolved' := Except.ok.inj (hresolve.symm.trans hresolve')
  obtain rfl : modules = modules' := Except.ok.inj (hmodules.symm.trans hmodules')
  have hvalid : settings.fault? = none := (start_eq_ok_iff.mp hsingle).1
  obtain ⟨hpath, hderives, -⟩ := Settings.fault?_eq_none_iff.mp hvalid
  have hderives : ∀ d ∈ derives settings.emit, OneLine d := fun d hd =>
    oneLine_of_isPath (hderives d (mem_keepFirst.mp hd))
  have hrepresents := (Schema.wellFormed_of_ofSource hload).forall₂_represents
    (isIdentifier_of_mem_primitives hvalid) (oneLine_of_isPath hpath) hresolve hmodules
  refine ⟨loaded, resolved, modules.map (bodyRows settings.emit), hload, hresolve,
    ⟨_, rfl, rfl, madeOf_singleLines hrepresents hderives⟩,
    ⟨_, _, rfl, rfl, madeOf_rootLines hrepresents, ?_, ?_⟩⟩
  · rw [List.map_map]
    exact map_eq_map_of_forall₂ hrepresents fun l m hlm => hlm.moduleFileName_eq
  · rw [List.forall₂_map_left_iff, List.forall₂_map_right_iff, List.forall₂_same]
    intro m hm
    obtain ⟨l, -, hlm⟩ := exists_of_forall₂_of_mem hrepresents hm
    exact madeOf_moduleLines hlm.fits hderives

/-- Two levels, the first with a description that has an empty row. -/
def describedCity : String :=
  "\"All land,\\n\\nin pieces\"\nAbstractionLevel Site\n    Object Plot\n" ++
    "AbstractionLevel City extends Site\n    Object Tower extends Plot\n"

/-- The rows of the description stand in front of the block and of the declaration. -/
theorem describedCity_laid_out : ∃ single perLevel levels bodies,
    ((Session.mk (Settings.withLayout {} .single) .idle "").compile describedCity).result =
      .ok single ∧
    ((Session.mk (Settings.withLayout {} .perLevel) .idle "").compile describedCity).result =
      .ok perLevel ∧ SameModules {} levels bodies single perLevel := by
  have hsingle : Session.start (Settings.withLayout {} .single) =
      .ok ⟨Settings.withLayout {} .single, .idle, ""⟩ := by
    decide +kernel
  have hperLevel : Session.start (Settings.withLayout {} .perLevel) =
      .ok ⟨Settings.withLayout {} .perLevel, .idle, ""⟩ := by
    decide +kernel
  have hrun : ((Session.mk (Settings.withLayout {} .single) .idle "").compile
      describedCity).result.isOk = true := by
    decide +kernel
  obtain ⟨single, hresult⟩ := exists_of_isOk hrun
  obtain ⟨hfail, hsame⟩ := layouts_hold_same_modules hsingle hperLevel describedCity
  cases hresult' : ((Session.mk (Settings.withLayout {} .perLevel) .idle "").compile
      describedCity).result with
  | error failure =>
      rw [(hfail failure).mpr hresult'] at hrun
      exact nomatch hrun
  | ok perLevel =>
      obtain ⟨-, resolved, bodies, -, -, hsame⟩ := hsame single perLevel hresult hresult'
      exact ⟨single, perLevel, resolved.levels, bodies, hresult, rfl, hsame⟩

end Session

end LevelSchema
