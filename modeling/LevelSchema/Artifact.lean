import LevelSchema.Code.Generate
import LevelSchema.Code.Print
import LevelSchema.Settings.Basic

/-!
# Artifacts

An artifact is everything that one schema compiles to: a list of units, each a file name and its
contents.  In the single layout there is one unit, with a module around each level.  In the
per-level layout every level has a unit of its own, and a root unit in front names them all.
-/

namespace LevelSchema

/-- A generated file. -/
structure GeneratedUnit where
  fileName : String
  contents : String
deriving DecidableEq

/-- Everything generated from a schema. -/
structure Artifact where
  layout : Layout
  units : List GeneratedUnit
deriving DecidableEq

namespace Artifact

open Code

/-- The line that marks generated files. -/
def headerLine : Line :=
  code "// @generated by semio. Do not edit by hand."

/-- The file of the single layout. -/
def singleFileName : String := "model.rs"

/-- The root file of the per-level layout. -/
def rootFileName : String := "mod.rs"

/-- A name without the marks of raw identifiers in front. -/
def dropRawMarks : List Char → List Char
  | 'r' :: '#' :: cs => dropRawMarks cs
  | cs => cs

/-- The file of a module in the per-level layout. -/
def moduleFileName (m : Module) : String :=
  String.ofList (dropRawMarks m.name.toList) ++ ".rs"

/-- The header line if it is wanted, with the given lines behind it. -/
def withHeader (settings : EmitSettings) (behind : List Line) : List Line :=
  if settings.header then headerLine :: behind else []

/-- The derives to write, each once. -/
def derives (settings : EmitSettings) : List String :=
  keepFirst settings.derives

/-- All modules in one file. -/
def singleLines (settings : EmitSettings) (modules : List Module) : List Line :=
  withHeader settings [] ++ modules.flatMap fun m =>
    .blank :: docs m.description ++ block ("pub mod " ++ m.name) (m.lines (derives settings))

/-- The root file that names all modules. -/
def rootLines (settings : EmitSettings) (modules : List Module) : List Line :=
  withHeader settings [.blank] ++ modules.flatMap fun m =>
    docs m.description ++ [code ("pub mod " ++ m.name ++ ";")]

/-- The file of one module. -/
def moduleLines (settings : EmitSettings) (m : Module) : List Line :=
  withHeader settings [.blank] ++ m.lines (derives settings)

/-- Lay out generated modules. -/
def ofModules (settings : EmitSettings) (modules : List Module) : Artifact where
  layout := settings.layout
  units :=
    match settings.layout with
    | .single => [⟨singleFileName, text (singleLines settings modules)⟩]
    | .perLevel =>
        ⟨rootFileName, text (rootLines settings modules)⟩ ::
          modules.map fun m => ⟨moduleFileName m, text (moduleLines settings m)⟩

end Artifact

/-- Generate the object model of a resolved schema. -/
def ResolvedSchema.emit (s : ResolvedSchema) (settings : EmitSettings) :
    Except Code.Fault Artifact := do
  let modules ← s.levels.mapM (Code.Module.ofLevel settings.primitivesPath s)
  return .ofModules settings modules

end LevelSchema
