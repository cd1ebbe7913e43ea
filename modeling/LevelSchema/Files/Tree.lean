import LevelSchema.Files.Basic

/-!
# File trees

A `FileTree` is a whole set of files as a value, with the working directory from which paths start.
A **place** is the list of names from the root to a file or directory.

**Following a path.**  Every step has to start from a directory: a step from a file is an error of
its own, different from a step to something that is not there.  Idle steps stay where they are.

**Limits.**  A path with the null character in it is never followed, nor is one that is too long
altogether.  A single name that is too long is noticed when its step is taken.

**Writing.**  Whether contents can be written is up to the device that a tree is kept on.  It may
have no room for them, or fail in a way of its own; then nothing is left of the draft.

**Moving.**  A draft never replaces a directory, and a path that can only name a directory is no
place for it.  A path whose last step is not a name cannot be replaced at all.  No path leads to a
draft, since its name is longer than the names in paths can be.
-/

namespace LevelSchema

/-- The names that lead from the root to a file or directory. -/
abbrev Place := List String

/-- What is at a place. -/
inductive Entry
  | file (contents : ByteArray)
  | directory

/-- A set of files and directories, and the working directory.  The root is always there. -/
structure FileTree where
  home : Place
  entries : List (Place × Entry)

namespace FileTree

/-! ## Places -/

/-- What is at a place. -/
def get? (t : FileTree) (place : Place) : Option Entry :=
  if place.isEmpty then some .directory else t.entries.lookup place

/-- The tree without what is at a place. -/
def erase (t : FileTree) (place : Place) : FileTree :=
  { t with entries := t.entries.filter fun e => e.1 ≠ place }

/-- The tree with something at a place, instead of what is there. -/
def put (t : FileTree) (place : Place) (entry : Entry) : FileTree :=
  { t with entries := (place, entry) :: (t.erase place).entries }

/-! ## Following paths -/

/-- Where a step leads. -/
def follow (place : Place) : String → Place
  | "" => place
  | "." => place
  | ".." => place.dropLast
  | name => place ++ [name]

/-- There has to be a directory. -/
def requireDirectory (t : FileTree) (place : Place) : Except FileError Unit :=
  match t.get? place with
  | some .directory => .ok ()
  | some (.file _) => .error .notDirectory
  | none => .error .notFound

/-- The number of bytes that a name can have. -/
def nameLimit : Nat := 255

/-- The number of bytes that a path can have. -/
def pathLimit : Nat := 4095

/-- A name must not be too long. -/
def requireName (name : String) : Except FileError Unit :=
  if name.utf8ByteSize ≤ nameLimit then .ok () else .error .nameTooLong

/-- A path must be one that can be followed at all. -/
def requirePath (p : Path) : Except FileError Unit :=
  if p.parts.any fun part => part.toList.contains '\x00' then .error .invalidName
  else if p.isEmpty then .error .notFound
  else if p.toText.utf8ByteSize ≤ pathLimit then .ok ()
  else .error .nameTooLong

/-- Where some steps lead, each of them from a directory. -/
def walk (t : FileTree) : Place → List String → Except FileError Place
  | place, [] => .ok place
  | place, step :: steps => do
      t.requireDirectory place
      requireName step
      t.walk (follow place step) steps

/-- Where a path starts. -/
def start (t : FileTree) (p : Path) : Place :=
  if p.isAbsolute then [] else t.home

/-- Where a path leads. -/
def locate (t : FileTree) (p : Path) : Except FileError Place := do
  requirePath p
  t.walk (t.start p) p.parts

/-- What a path names. -/
def lookup (t : FileTree) (p : Path) : Except FileError Entry := do
  let place ← t.locate p
  match t.get? place with
  | some entry => .ok entry
  | none => .error .notFound

/-- The place of the last name of a path.  The directory it is in has to exist; `fault` is what is
wrong with a path whose last step is not a name. -/
def spot (t : FileTree) (p : Path) (fault : FileError) : Except FileError Place := do
  requirePath p
  match p.final? with
  | none => .error fault
  | some (steps, last) => do
      let directory ← t.walk (t.start p) steps
      t.requireDirectory directory
      if last = "." ∨ last = ".." then .error fault
      else do
        requireName last
        return directory ++ [last]

/-! ## Reading -/

/-- Whether a path names a directory. -/
def isDirectory (t : FileTree) (p : Path) : Bool :=
  match t.lookup p with
  | .ok .directory => true
  | _ => false

/-- The contents of a file. -/
def read (t : FileTree) (p : Path) : Except FileError ByteArray :=
  match t.lookup p with
  | .ok (.file contents) => .ok contents
  | .ok .directory => .error .isDirectory
  | .error e => .error e

/-! ## Creating directories -/

/-- Create one directory. -/
def makeDirectory (t : FileTree) (p : Path) : Except FileError FileTree := do
  let place ← t.spot p .alreadyExists
  if (t.get? place).isSome then .error .alreadyExists else .ok (t.put place .directory)

/-- Create one directory unless it is there. -/
def ensureDirectory (t : FileTree) (p : Path) : Except FileError Unit × FileTree :=
  match t.makeDirectory p with
  | .ok t => (.ok (), t)
  | .error e => (if t.isDirectory p then .ok () else .error e, t)

/-- Create a directory, after those above it if they are missing.  Those that were created stay even
if the last one cannot be. -/
def makeLineage (t : FileTree) : List Path → Except FileError Unit × FileTree
  | [] => (.ok (), t)
  | p :: above =>
      match t.ensureDirectory p with
      | (.error .notFound, t) =>
          match t.makeLineage above with
          | (.ok (), t) => t.ensureDirectory p
          | (.error e, t) => (.error e, t)
      | other => other

/-- Create a directory and those it is in, as far as they are missing. -/
def makeDirectories (t : FileTree) (p : Path) : Except FileError Unit × FileTree :=
  t.makeLineage p.lineage

/-! ## Writing -/

/-- A name that no entry of the tree has and no path can have: it is longer than all of them. -/
def draftName (t : FileTree) : String :=
  let longest := t.entries.foldl (fun n e => max n ((e.1.getLast?.getD "").length)) nameLimit
  String.ofList (List.replicate (longest + 1) '.')

/-- What a tree is kept on: whether contents can be written at a place of the tree. -/
abbrev Device := FileTree → Place → ByteArray → Except FileError Unit

/-- A device with room for everything. -/
def Device.roomy : Device :=
  fun _ _ _ => .ok ()

/-- Put contents into a draft in a directory. -/
def stage (device : Device) (t : FileTree) (directory : Path) (contents : ByteArray) :
    Except FileError Place × FileTree :=
  match t.locate directory with
  | .error e => (.error e, t)
  | .ok place =>
      match t.requireDirectory place with
      | .error e => (.error e, t)
      | .ok () =>
          let draft := place ++ [t.draftName]
          match device t draft contents with
          | .error e => (.error e, t)
          | .ok () => (.ok draft, t.put draft (.file contents))

/-- Move a draft. -/
def move (t : FileTree) (draft : Place) (target : Path) : Except FileError FileTree := do
  let place ← t.spot target .busy
  if target.endsInSlash then .error .notDirectory
  else
    match t.get? place, t.get? draft with
    | some .directory, _ => .error .isDirectory
    | _, some (.file contents) => .ok ((t.erase draft).put place (.file contents))
    | _, _ => .error .notFound

/-- The operations on a tree that is kept on a device. -/
abbrev files (device : Device) : Files Place (StateM FileTree) where
  isPresent p := fun t => (t.lookup p matches .ok _, t)
  read p := fun t => (t.read p, t)
  makeDirectories p := fun t => t.makeDirectories p
  stage directory contents := fun t => t.stage device directory contents
  move draft target := fun t =>
    match t.move draft target with
    | .ok t => (.ok (), t)
    | .error e => (.error e, t)
  discard draft := fun t => ((), t.erase draft)

instance : Files Place (StateM FileTree) :=
  files .roomy

end FileTree

end LevelSchema
