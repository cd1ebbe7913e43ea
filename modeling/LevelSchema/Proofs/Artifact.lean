import LevelSchema.Proofs.Code.Modules
import LevelSchema.Proofs.Publication

/-!
# The files of an artifact

In the per-level layout every module has a file that is called like it, without the mark of a raw
identifier.  The root file is called `mod.rs` whatever the modules are called.

**The root names the others.**  Reading the `pub mod` lines back from the text of the root file
gives the modules in their order (`Artifact.modulesIn_rootLines`).  Descriptions stand between these
lines, but they are written as documentation, line by line, and no line of documentation starts like
a declaration.
-/

namespace LevelSchema

namespace Code

variable {name : String} {cs : List Char} {lines : List Line}

/-! ## Reading modules -/

/-- The module declared by a line of the form `pub mod m;`. -/
def moduleIn? (cs : List Char) : Option String :=
  match (behind? "pub" cs).bind (behind? "mod") with
  | some rest => if rest.dropWhile isWritten = [';'] then some (nameAhead rest) else none
  | none => none

/-- The modules that a text declares, line by line. -/
def modulesIn (text : String) : List String :=
  (Text.lines text.toList).filterMap moduleIn?

lemma moduleIn?_eq (h : Name.Legal name) :
    moduleIn? ("pub mod " ++ name ++ ";").toList = some name := by
  have hbehind : (behind? "pub" ("pub mod " ++ name ++ ";").toList).bind (behind? "mod") =
      some (name.toList ++ [';']) := by
    rw [String.toList_append, String.toList_append, List.append_assoc]
    rfl
  have hrest : (name.toList ++ [';']).dropWhile isWritten = [';'] := by
    rw [List.dropWhile_append_of_pos fun c hc => isWritten_of_legal h hc]
    rfl
  simp only [moduleIn?, hbehind, hrest, if_true]
  exact congrArg some (nameAhead_eq h (by decide))

/-- A text is read line by line as it was written. -/
lemma modulesIn_text (h : ∀ l ∈ lines, '\n' ∉ l.render.toList) :
    modulesIn (text lines) = lines.filterMap fun l => moduleIn? l.render.toList := by
  rw [modulesIn, toList_text, Text.lines_flatMap (List.forall_mem_map.mpr h), List.filterMap_map]
  rfl

/-- Documentation stays on its lines and declares no module. -/
lemma forall_mem_docs (description : Option String) : ∀ l ∈ docs description,
    '\n' ∉ l.render.toList ∧ moduleIn? l.render.toList = none := by
  intro l hl
  obtain ⟨text, rfl, htext⟩ := exists_doc_of_mem_docs hl
  have hmargin : Line.margin 0 = "" := rfl
  rw [doc, Line.render, hmargin, String.empty_append]
  split_ifs
  · exact ⟨by decide, rfl⟩
  · rw [String.toList_append]
    refine ⟨fun hmem => ?_, rfl⟩
    rcases List.mem_append.mp hmem with hmem | hmem
    · exact absurd hmem (by decide)
    · exact htext hmem

end Code

namespace Artifact

open Code

variable {settings : EmitSettings} {modules : List Module}

lemma forall_mem_withHeader (settings : EmitSettings) : ∀ l ∈ withHeader settings [.blank],
    '\n' ∉ l.render.toList ∧ moduleIn? l.render.toList = none := by
  have hheader : ∀ l ∈ [headerLine, .blank],
      '\n' ∉ l.render.toList ∧ moduleIn? l.render.toList = none := by
    decide +kernel
  unfold withHeader
  split_ifs
  · exact hheader
  · simp

/-- The declaration of a module stays on its line and is read back. -/
lemma render_declaration {name : String} (h : Name.Legal name) :
    '\n' ∉ (code ("pub mod " ++ name ++ ";")).render.toList ∧
      moduleIn? (code ("pub mod " ++ name ++ ";")).render.toList = some name := by
  have hrender : (code ("pub mod " ++ name ++ ";")).render = "pub mod " ++ name ++ ";" :=
    String.empty_append
  rw [hrender]
  refine ⟨fun hmem => ?_, moduleIn?_eq h⟩
  rw [String.toList_append, String.toList_append, List.mem_append, List.mem_append] at hmem
  rcases hmem with (hmem | hmem) | hmem
  · exact absurd hmem (by decide)
  · exact absurd (isWritten_of_legal h hmem) (by decide)
  · exact absurd hmem (by decide)

/-- **The root file declares the modules, in their order.** -/
theorem modulesIn_rootLines (h : ∀ m ∈ modules, Name.Legal m.name) :
    modulesIn (text (rootLines settings modules)) = modules.map (·.name) := by
  have hlines : ∀ l ∈ rootLines settings modules, '\n' ∉ l.render.toList := by
    refine List.forall_mem_append.mpr ⟨fun l hl => (forall_mem_withHeader settings l hl).1, ?_⟩
    intro l hl
    obtain ⟨m, hm, hl⟩ := List.mem_flatMap.mp hl
    rcases List.mem_append.mp hl with hl | hl
    · exact (forall_mem_docs m.description l hl).1
    · exact List.mem_singleton.mp hl ▸ (render_declaration (h m hm)).1
  have hheader : (withHeader settings [.blank]).filterMap (fun l => moduleIn? l.render.toList) =
      [] :=
    List.filterMap_eq_nil_iff.mpr fun l hl => (forall_mem_withHeader settings l hl).2
  have hdocs : ∀ m : Module, (docs m.description).filterMap
      (fun l => moduleIn? l.render.toList) = [] := fun m =>
    List.filterMap_eq_nil_iff.mpr fun l hl => (forall_mem_docs m.description l hl).2
  rw [modulesIn_text hlines, rootLines, List.filterMap_append, hheader, List.nil_append]
  clear hlines
  induction modules with
  | nil => rfl
  | cons m modules ih =>
      obtain ⟨hm, hmodules⟩ := List.forall_mem_cons.mp h
      rw [List.flatMap_cons, List.filterMap_append, ih hmodules, List.filterMap_append, hdocs,
        List.filterMap_cons, (render_declaration hm).2]
      rfl

/-! ## Names of files -/

lemma dropRawMarks_of_isIdentifier {cs : List Char} (h : Name.isIdentifierChars cs = true) :
    dropRawMarks cs = cs := by
  unfold dropRawMarks
  split
  · next cs =>
      have hmark := Name.isPart_of_mem_identifier h (List.mem_cons_of_mem _ List.mem_cons_self)
      exact absurd hmark (by decide)
  · rfl

/-- A module's file is called like the module, without its mark. -/
lemma moduleFileName_eq {m : Module} (h : Name.Legal m.name) :
    moduleFileName m = Name.bare m.name ++ ".rs" := by
  have hid := h.isIdentifier
  unfold Name.bare at hid ⊢
  unfold moduleFileName
  split at hid
  · next cs hchars =>
      rw [Name.isIdentifier, String.toList_ofList] at hid
      rw [hchars, dropRawMarks, dropRawMarks_of_isIdentifier hid]
  · rw [dropRawMarks_of_isIdentifier hid, String.ofList_toList]

/-- The files of the modules are called like the modules, without their marks. -/
lemma map_moduleFileName (h : ∀ m ∈ modules, Name.Legal m.name) :
    modules.map moduleFileName = ((modules.map (·.name)).map Name.bare).map (· ++ ".rs") := by
  rw [List.map_map, List.map_map]
  exact List.map_congr_left fun m hm => moduleFileName_eq (h m hm)

lemma map_fileName_ofModules (hlayout : settings.layout = .perLevel)
    (h : ∀ m ∈ modules, Name.Legal m.name) : (ofModules settings modules).units.map (·.fileName) =
      rootFileName :: ((modules.map (·.name)).map Name.bare).map (· ++ ".rs") := by
  rw [ofModules, hlayout, ← map_moduleFileName h]
  simp

lemma append_rs_injective : Function.Injective fun name : String => name ++ ".rs" :=
  fun _ _ h => (String.append_left_inj ".rs").mp h

/-- Files have different names exactly when no module is called like the root. -/
lemma nodup_fileNames_iff {names : List String} (h : names.Nodup) :
    (rootFileName :: names.map (· ++ ".rs")).Nodup ↔ "mod" ∉ names := by
  have hroot : rootFileName = "mod" ++ ".rs" := by decide
  rw [List.nodup_cons, hroot, List.mem_map_of_injective append_rs_injective]
  exact and_iff_left (h.map append_rs_injective)

/-- No file is called like a step that leads nowhere or upwards. -/
lemma append_rs_isName (name : String) : name ++ ".rs" ∉ ["", ".", ".."] := by
  have hshort : ∀ s ∈ ["", ".", ".."], ¬ ".rs".toList <:+ s.toList := by
    decide
  intro hmem
  refine hshort _ hmem ?_
  rw [String.toList_append]
  exact List.suffix_append _ _

lemma not_mem_of_isIdentifier {name : String} (h : Name.isIdentifier name = true) :
    '/' ∉ name.toList := fun hmem =>
  absurd (Name.isPart_of_mem_identifier h hmem) (by decide)

lemma isFileName_of_mem_fileNames {names : List String} {file : String}
    (hnames : ∀ n ∈ names, Name.isIdentifier n = true)
    (hfile : file ∈ rootFileName :: names.map (· ++ ".rs")) : Publication.IsFileName file := by
  rcases List.mem_cons.mp hfile with rfl | hfile
  · exact ⟨append_rs_isName "mod", by decide⟩
  · obtain ⟨name, hname, rfl⟩ := List.mem_map.mp hfile
    refine ⟨append_rs_isName name, fun hmem => ?_⟩
    rw [String.toList_append] at hmem
    rcases List.mem_append.mp hmem with hmem | hmem
    · exact not_mem_of_isIdentifier (hnames name hname) hmem
    · exact absurd hmem (by decide)

end Artifact

namespace Session

open Code Artifact

variable {settings : Settings} {session : Session} {source : String} {artifact : Artifact}

/-- **In the per-level layout files have different names unless a level is called like the root.**
The root comes first, then one file for each module that the root declares, in the same order and
called like it.  Level files always differ from each other; all files differ exactly when no level
is `mod` in snake case, which nothing checks.  Then publishing loses none of them. -/
theorem perLevel_files_differ_iff (hstart : Session.start settings = .ok session)
    (hlayout : settings.emit.layout = .perLevel)
    (h : (session.compile source).result = .ok artifact) :
    ∃ loaded root units, Schema.ofSource source = .ok loaded ∧ artifact.units = root :: units ∧
      root.fileName = "mod.rs" ∧
      units.map (·.fileName) = (modulesIn root.contents).map (fun m => Name.bare m ++ ".rs") ∧
      (units.map (·.fileName)).Nodup ∧
      ((artifact.units.map (·.fileName)).Nodup ↔
        ∀ l ∈ loaded.value.levels, Name.snake l.name.value ≠ "mod") ∧
      ((∀ l ∈ loaded.value.levels, Name.snake l.name.value ≠ "mod") →
        ∀ device destination t t', publishIn device t artifact destination = (.ok (), t') →
          ∀ u ∈ artifact.units,
            t'.read (destination.child u.fileName) = .ok u.contents.toUTF8) := by
  obtain ⟨loaded, resolved, modules, hload, hresolve, hmodules, rfl⟩ :=
    exists_modules_of_compile hstart h
  have hs := Schema.wellFormed_of_ofSource hload
  have hP := isIdentifier_of_mem_primitives (start_eq_ok_iff.mp hstart).1
  have hbound := ((hs.resolve_eq_ok_iff.mp hresolve).1).bound hs
  have hlegal : ∀ m ∈ modules, Name.Legal m.name := fun m hm =>
    (hs.wellNamed_of_mem_modules hP hresolve hmodules hm).legal _ List.mem_cons_self
  have happart := hs.apart_modules hresolve hmodules
  have hfiles := map_fileName_ofModules hlayout hlegal
  have hlevels : (modules.map fun m => (⟨moduleFileName m, text (moduleLines settings.emit m)⟩ :
      GeneratedUnit)).map (·.fileName) = ((modules.map (·.name)).map Name.bare).map (· ++ ".rs") :=
    (List.map_map ..).trans (map_moduleFileName hlegal)
  have hcondition : "mod" ∉ (modules.map (·.name)).map Name.bare ↔
      ∀ l ∈ loaded.value.levels, Name.snake l.name.value ≠ "mod" := by
    rw [hs.map_bare_modules hresolve hmodules]
    simp [hbound.mem_orderedLevels]
  have hiff := nodup_fileNames_iff happart
  rw [hcondition, ← hfiles] at hiff
  refine ⟨loaded, ⟨rootFileName, text (rootLines settings.emit modules)⟩,
    modules.map fun m => ⟨moduleFileName m, text (moduleLines settings.emit m)⟩, hload, ?_, rfl, ?_,
    ?_, hiff, fun hmod device destination t t' hpublish u hu => ?_⟩
  · rw [ofModules, hlayout]
  · rw [modulesIn_rootLines hlegal, hlevels]
    exact List.map_map ..
  · rw [hlevels]
    exact happart.map append_rs_injective
  · have hnames : ∀ n ∈ (modules.map (·.name)).map Name.bare, Name.isIdentifier n = true := by
      rw [List.map_map]
      exact List.forall_mem_map.mpr fun m hm => (hlegal m hm).isIdentifier
    have hplain : ∀ u ∈ (ofModules settings.emit modules).units,
        Publication.IsFileName u.fileName :=
      fun u hu => isFileName_of_mem_fileNames hnames (hfiles ▸ List.mem_map.mpr ⟨u, hu, rfl⟩)
    exact read_of_publishIn hlayout (hiff.mpr hmod) hplain hpublish hu

/-- Settings with a file for each level, and otherwise as they are. -/
def levelPerFile : Settings :=
  { emit := { layout := .perLevel } }

/-- The file of a level that is called like a reserved word has no mark. -/
theorem raw_level_files_differ : ∃ artifact root units,
    ((Session.mk levelPerFile .idle "").compile
      "AbstractionLevel Match\n    Object Plot\n").result = .ok artifact ∧
    artifact.units = root :: units ∧ (artifact.units.map (·.fileName)).Nodup ∧
      units.map (·.fileName) = (modulesIn root.contents).map fun m => Name.bare m ++ ".rs" := by
  have hstart : Session.start levelPerFile = .ok ⟨levelPerFile, .idle, ""⟩ := by decide +kernel
  have hrun : ((Session.mk levelPerFile .idle "").compile
      "AbstractionLevel Match\n    Object Plot\n").result.isOk = true := by
    decide +kernel
  have hlevels : (Schema.ofSource "AbstractionLevel Match\n    Object Plot\n").toOption.all
      (fun loaded => loaded.value.levels.all fun l => Name.snake l.name.value ≠ "mod") = true := by
    decide +kernel
  obtain ⟨artifact, hresult⟩ := exists_of_isOk hrun
  obtain ⟨loaded, root, units, hload, hunits, -, hnames, -, hiff, -⟩ :=
    perLevel_files_differ_iff hstart rfl hresult
  rw [hload] at hlevels
  have hmod : ∀ l ∈ loaded.value.levels, Name.snake l.name.value ≠ "mod" := by
    simpa [Except.toOption] using hlevels
  exact ⟨artifact, root, units, hresult, hunits, hiff.mpr hmod, hnames⟩

/-- A level that is called `Mod` takes the name of the root file, and publishing loses a file. -/
theorem mod_level_takes_root_file :
    ∃ artifact, ((Session.mk levelPerFile .idle "").compile
        "AbstractionLevel Mod\n    Object Plot\n").result = .ok artifact ∧
      artifact.units.map (·.fileName) = ["mod.rs", "mod.rs"] ∧
      ∃ t', publishIn .roomy ⟨[], []⟩ artifact (.ofText "out") = (.ok (), t') ∧
        ∃ u ∈ artifact.units,
          t'.read ((Path.ofText "out").child u.fileName) ≠ .ok u.contents.toUTF8 := by
  have hrun : ((Session.mk levelPerFile .idle "").compile
      "AbstractionLevel Mod\n    Object Plot\n").result.toOption.any
        (fun a => a.units.map (·.fileName) = ["mod.rs", "mod.rs"] ∧
          (publishIn .roomy ⟨[], []⟩ a (.ofText "out")).1.isOk ∧ ∃ u ∈ a.units,
            ((publishIn .roomy ⟨[], []⟩ a (.ofText "out")).2.read
              ((Path.ofText "out").child u.fileName)).toOption ≠ some u.contents.toUTF8) =
                true := by
    decide +kernel
  cases hresult : ((Session.mk levelPerFile .idle "").compile
      "AbstractionLevel Mod\n    Object Plot\n").result with
  | error e =>
      rw [hresult] at hrun
      exact nomatch hrun
  | ok artifact =>
      rw [hresult] at hrun
      obtain ⟨hfiles, hpublish, u, hu, hlost⟩ := of_decide_eq_true hrun
      obtain ⟨_, hdone⟩ := exists_of_isOk hpublish
      exact ⟨artifact, rfl, hfiles, _, Prod.ext hdone rfl, u, hu,
        fun hread => hlost (by rw [hread]; rfl)⟩

end Session

end LevelSchema
