/-!
# Words the generated language keeps for itself

The generated code is Rust, and a declared name may be one of its reserved words.  Most of them can
still be used when written as a raw identifier, with `r#` in front; a handful cannot be used as
identifiers in any form.  `escape` writes a name so that it is read as an identifier whenever that
is possible at all.
-/

namespace LevelSchema.Name

/-- Reserved words that a raw identifier makes usable. -/
def escapableWords : List String :=
  ["abstract", "as", "async", "await", "become", "box", "break", "const", "continue", "do",
   "dyn", "else", "enum", "extern", "false", "final", "fn", "for", "gen", "if", "impl", "in",
   "let", "loop", "macro", "match", "mod", "move", "mut", "override", "priv", "pub", "ref",
   "return", "static", "struct", "trait", "true", "try", "type", "typeof", "unsafe", "unsized",
   "use", "virtual", "where", "while", "yield"]

/-- Reserved words that no spelling turns into an identifier. -/
def unescapableWords : List String :=
  ["self", "Self", "super", "crate", "_"]

/-- Whether a name is a reserved word. -/
def isKeyword (s : String) : Bool :=
  escapableWords.contains s || unescapableWords.contains s

/-- Whether a name cannot be used as an identifier even in raw form. -/
def isUnescapable (s : String) : Bool :=
  unescapableWords.contains s

/-- The mark of a raw identifier. -/
def rawMark : String := "r#"

/-- The name as it is written in generated code. -/
def escape (s : String) : String :=
  if escapableWords.contains s then rawMark ++ s else s

end LevelSchema.Name
