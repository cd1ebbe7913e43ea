import LevelSchema.Artifact
import LevelSchema.Proofs.Code.Lines

/-!
# Where generated source stands

What is generated from a level is written into a unit of the artifact.  In the single layout it is a
block of the one file; in the per-level layout it is all that follows the header in a file of its
own.  `Artifact.Shows` says this of a unit, and every module of an artifact is shown by one
(`Artifact.exists_shows`).

Pieces of a module then stand in the contents of the unit as well, one level deeper in the single
layout (`Artifact.Shows.standsIn`).
-/

namespace LevelSchema

namespace Code

/-! ## Pieces of source -/

/-- One text stands in another, all in one place. -/
def StandsIn (part whole : String) : Prop :=
  part.toList <:+: whole.toList

/-- The text of lines that follow each other stands in the text of them all. -/
lemma standsIn_text {part whole : List Line} (h : part <:+: whole) :
    StandsIn (text part) (text whole) := by
  obtain ⟨front, back, rfl⟩ := h
  rw [StandsIn, text_append, text_append, String.toList_append, String.toList_append]
  exact List.infix_append _ _ _

/-- A piece stands among the pieces, blank lines between them. -/
lemma isInfix_separated {piece : List Line} {pieces : List (List Line)} (h : piece ∈ pieces) :
    piece <:+: separated pieces := by
  fun_induction separated pieces with
  | case1 => exact absurd h List.not_mem_nil
  | case2 first => exact List.mem_singleton.mp h ▸ List.infix_rfl
  | case3 first pieces _ ih =>
      rcases List.mem_cons.mp h with rfl | h
      · exact (List.prefix_append _ _).isInfix
      · exact (ih h).trans ((List.suffix_cons _ _).isInfix.trans (List.suffix_append _ _).isInfix)

lemma isInfix_flatMap {α : Type} {as : List α} {a : α} {f : α → List Line} {part : List Line}
    (h : a ∈ as) (hpart : part <:+: f a) : part <:+: as.flatMap f := by
  rw [List.flatMap_def]
  exact hpart.trans (List.infix_of_mem_flatten (List.mem_map_of_mem h))

/-- The body of a block stands in it, indented. -/
lemma isInfix_block (header : String) (body : List Line) :
    body.map Line.indent <:+: block header body :=
  ⟨[code (header ++ " \x7b")], [code "\x7d"], rfl⟩

namespace Module

variable {m : Module}

/-- A parameter type stands in the lines of its module. -/
lemma isInfix_of_mem_parameters {p : ParameterItem} (h : p ∈ m.parameters) (derives : List String) :
    p.lines <:+: m.lines derives := by
  refine isInfix_separated (List.mem_append_left _ (List.mem_append_left _ ?_))
  exact List.mem_append_right _ (List.mem_map_of_mem h)

/-- A record stands in the lines of its module. -/
lemma isInfix_of_mem_records {r : Record} (h : r ∈ m.records) (derives : List String) :
    r.lines derives <:+: m.lines derives :=
  isInfix_separated (List.mem_append_left _ (List.mem_append_right _ (List.mem_map_of_mem h)))

lemma isInfix_aggregate (m : Module) (derives : List String) :
    m.aggregate.lines derives <:+: m.lines derives :=
  isInfix_separated (List.mem_append_right _ List.mem_cons_self)

end Module

end Code

open Code

/-- Lines at the depth that a module has in a file of the layout. -/
def Layout.nested : Layout → List Line → List Line
  | .single, ls => ls.map Line.indent
  | .perLevel, ls => ls

namespace Artifact

/-! ## Units -/

/-- The unit shows the source of a module: in a block of the one file, or as all that follows the
header in the file of the module, which the root file declares. -/
structure Shows (artifact : Artifact) (u : GeneratedUnit) (name : String) (source : List Line) :
    Prop where
  mem : u ∈ artifact.units
  single : artifact.layout = .single → u.fileName = "model.rs" ∧
    StandsIn (text (block ("pub mod " ++ name) source)) u.contents
  perLevel : artifact.layout = .perLevel →
    u.fileName = String.ofList (dropRawMarks name.toList) ++ ".rs" ∧
      (text source).toList <:+ u.contents.toList
  declared : artifact.layout = .perLevel → ∃ root ∈ artifact.units, root.fileName = "mod.rs" ∧
    StandsIn ("pub mod " ++ name ++ ";\n") root.contents

/-- **Every module of an artifact is shown.** -/
lemma exists_shows {modules : List Module} {m : Module} (h : m ∈ modules)
    (settings : EmitSettings) :
    ∃ u, (ofModules settings modules).Shows u m.name (m.lines (derives settings)) := by
  cases hlayout : settings.layout with
  | single =>
      have hother : (ofModules settings modules).layout ≠ .perLevel := by
        intro hother
        cases hlayout.symm.trans hother
      refine ⟨⟨singleFileName, text (singleLines settings modules)⟩, ?_, fun _ => ⟨rfl, ?_⟩,
        fun h => absurd h hother, fun h => absurd h hother⟩
      · simp [ofModules, hlayout]
      · refine standsIn_text (List.IsInfix.trans ?_ (List.suffix_append _ _).isInfix)
        exact isInfix_flatMap h (List.suffix_append _ _).isInfix
  | perLevel =>
      have hunits : (ofModules settings modules).units =
          ⟨rootFileName, text (rootLines settings modules)⟩ ::
            modules.map fun m => ⟨moduleFileName m, text (moduleLines settings m)⟩ := by
        rw [ofModules, hlayout]
      refine ⟨⟨moduleFileName m, text (moduleLines settings m)⟩, ?_, ?_, fun _ => ⟨rfl, ?_⟩,
        fun _ => ⟨⟨rootFileName, text (rootLines settings modules)⟩, ?_, rfl, ?_⟩⟩
      · exact hunits ▸ List.mem_cons_of_mem _ (List.mem_map_of_mem h)
      · intro hother
        cases hlayout.symm.trans hother
      · rw [moduleLines, text_append, String.toList_append]
        exact List.suffix_append _ _
      · exact hunits ▸ List.mem_cons_self
      · have hline : text [code ("pub mod " ++ m.name ++ ";")] = "pub mod " ++ m.name ++ ";\n" := by
          simp [text, code, Line.render, Line.margin, String.append_assoc]
        rw [← hline]
        refine standsIn_text (List.IsInfix.trans ?_ (List.suffix_append _ _).isInfix)
        exact isInfix_flatMap h (List.suffix_append _ _).isInfix

/-- Pieces of a module stand in the unit that shows it. -/
lemma Shows.standsIn {artifact : Artifact} {u : GeneratedUnit} {name : String}
    {part source : List Line} (h : artifact.Shows u name source) (hpart : part <:+: source) :
    StandsIn (text (artifact.layout.nested part)) u.contents := by
  cases hlayout : artifact.layout with
  | single =>
      refine List.IsInfix.trans ?_ (h.single hlayout).2
      exact standsIn_text ((hpart.map Line.indent).trans (isInfix_block _ _))
  | perLevel => exact (standsIn_text hpart).trans (h.perLevel hlayout).2.isInfix

end Artifact

end LevelSchema
