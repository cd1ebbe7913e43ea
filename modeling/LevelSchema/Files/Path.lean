/-!
# Paths

A path names a file by the parts between its slashes, from the root of all files if it starts with
a slash and from the working directory otherwise.  It keeps every part it was written with, since
the system limits the length of what is written.

Empty parts and single dots are **idle**: they lead nowhere else.  All that an idle part at the end
says is that the path names a directory.  The **empty path** names nothing.
-/

namespace LevelSchema

/-- The way to a file or directory. -/
structure Path where
  parts : List String
deriving DecidableEq

namespace Path

/-! ## Texts -/

/-- The parts of a text between slashes. -/
def partsOf : List Char → List (List Char)
  | [] => [[]]
  | '/' :: cs => [] :: partsOf cs
  | c :: cs =>
      match partsOf cs with
      | [] => [[c]]
      | p :: ps => (c :: p) :: ps

/-- The path that a text describes. -/
def ofText (text : String) : Path :=
  ⟨(partsOf text.toList).map String.ofList⟩

/-- The text of a path. -/
def toText (p : Path) : String :=
  "/".intercalate p.parts

/-! ## Kinds of paths -/

/-- Whether a path names nothing. -/
def isEmpty (p : Path) : Bool :=
  p.parts == [] || p.parts == [""]

/-- Whether a path starts from the root. -/
def isAbsolute (p : Path) : Bool :=
  p.parts.head? == some "" && !p.isEmpty

/-- Whether a path ends in a slash. -/
def endsInSlash (p : Path) : Bool :=
  p.parts.getLast? == some "" && !p.isEmpty

/-! ## Neighbours -/

/-- The path of the root. -/
def root : Path := ⟨["", ""]⟩

/-- The path of the working directory. -/
def here : Path := ⟨["."]⟩

/-- Whether a part leads nowhere else. -/
def isIdle (part : String) : Bool :=
  part == "" || part == "."

/-- Parts without the idle ones at the end. -/
def dropIdle (parts : List String) : List String :=
  (parts.reverse.dropWhile isIdle).reverse

/-- The path without its last part that is not idle.  The first part is left out last, and nothing
holds the root. -/
def parent? (p : Path) : Option Path :=
  match p.parts with
  | [] => none
  | first :: rest =>
      match dropIdle rest with
      | [] => if first = "" then none else some ⟨[""]⟩
      | steps =>
          let above := dropIdle steps.dropLast
          if first = "" ∧ above = [] then some root else some ⟨first :: above⟩

/-- The path of the directory that holds what a path names. -/
def directory (p : Path) : Path :=
  match p.parent? with
  | some q => if q.isEmpty then here else q
  | none => here

/-- A path, its parent, the parent of that and so on, up to the root or the empty path, which is
left out; at most `n` of them. -/
def ancestors : Nat → Path → List Path
  | 0, _ => []
  | n + 1, p =>
      if p.isEmpty then []
      else p :: (p.parent?.map (ancestors n)).getD []

/-- A path and all directories above it.  Every step up leaves out a part. -/
def lineage (p : Path) : List Path :=
  p.ancestors (p.parts.length + 1)

/-- The path of a file in the directory that a path names.  A name with slashes in it is followed
part by part, and from the root if it starts with one. -/
def child (p : Path) (name : String) : Path :=
  let further := ofText name
  if further.isAbsolute then further
  else
    ⟨(if p.endsInSlash || p.isEmpty then p.parts.dropLast else p.parts) ++ further.parts⟩

/-- The parts up to the last that is not empty, and that one. -/
def final? (p : Path) : Option (List String × String) :=
  match p.parts.reverse.dropWhile (· == "") with
  | [] => none
  | last :: before => some (before.reverse, last)

end Path

end LevelSchema
