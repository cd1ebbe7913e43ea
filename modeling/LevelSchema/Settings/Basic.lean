import LevelSchema.Name.Case
import LevelSchema.Primitives

/-!
# Settings

What a user can configure: how the generated source is laid out, where it finds the primitive
types, what it derives, whether it carries a header line, and which primitive names there are
beyond the built-in ones.

Settings that could not appear in generated code are refused by `validate`, which names the first
one it meets: the path of the primitives, then the derives, then the extra primitives.
-/

namespace LevelSchema

/-- How generated levels are spread over files. -/
inductive Layout
  | single
  | perLevel
deriving DecidableEq

namespace Layout

/-- The name of a layout in a configuration. -/
def label : Layout → String
  | .single => "single"
  | .perLevel => "per-level"

/-- The layout with the given name. -/
def ofLabel? (text : String) : Option Layout :=
  [Layout.single, .perLevel].find? fun l => l.label == text

end Layout

/-- Settings for the generated source. -/
structure EmitSettings where
  layout : Layout := .single
  primitivesPath : String := "crate::primitives"
  derives : List String := ["Debug", "Clone", "Default"]
  header : Bool := true
deriving DecidableEq

/-- Everything that can be configured. -/
structure Settings where
  emit : EmitSettings := {}
  extraPrimitives : List String := []
deriving DecidableEq

/-! ## Paths -/

/-- The segments of a path, separated by two colons. -/
def pathSegments : List Char → List (List Char)
  | [] => [[]]
  | ':' :: ':' :: cs => [] :: pathSegments cs
  | c :: cs =>
      match pathSegments cs with
      | [] => [[c]]
      | s :: ss => (c :: s) :: ss

/-- Whether every segment of a path is an identifier. -/
def isPath (s : String) : Bool :=
  (pathSegments s.toList).all Name.isIdentifierChars

/-! ## Validation -/

/-- A setting that cannot be used. -/
inductive SettingsFault
  | primitivesPath (text : String)
  | derive (text : String)
  | extraPrimitive (text : String)
deriving DecidableEq

/-- What is wrong, in words. -/
def SettingsFault.message : SettingsFault → String
  | .primitivesPath text => "Invalid primitives_path in config: `" ++ text ++ "` is not a Rust path"
  | .derive text => "Invalid derive in config: `" ++ text ++ "` is not a Rust path"
  | .extraPrimitive text =>
      "Invalid extra primitive in config: `" ++ text ++ "` is not an identifier"

namespace Settings

/-- The first setting that cannot be used, if there is one. -/
def fault? (s : Settings) : Option SettingsFault :=
  if !isPath s.emit.primitivesPath then
    some (.primitivesPath s.emit.primitivesPath)
  else
    match s.emit.derives.find? fun d => !isPath d with
    | some d => some (.derive d)
    | none =>
        (s.extraPrimitives.find? fun n => !Name.isIdentifier n).map .extraPrimitive

/-- Accept settings that can be used throughout. -/
def validate (s : Settings) : Except SettingsFault Settings :=
  match s.fault? with
  | some f => .error f
  | none => .ok s

/-- The primitive names in force. -/
def primitives (s : Settings) : PrimitiveSet :=
  .withExtra s.extraPrimitives

end Settings

end LevelSchema
