import LevelSchema.Files.Path

/-!
# Files

What the compiler asks of the files it works on.  It reads files, creates directories, and writes
in two steps: contents are first **staged** as a draft, under a name that nothing else has, and the
draft then **moves** to its place, replacing what is there at once.
-/

namespace LevelSchema

/-- Why a file operation failed. -/
inductive FileError
  | notFound
  | alreadyExists
  | isDirectory
  | notDirectory
  | busy
  | invalidName
  | nameTooLong
  | full
  | invalidData
  | other (description : String)
deriving DecidableEq

/-- The name of a file error. -/
def FileError.label : FileError → String
  | .notFound => "NotFound"
  | .alreadyExists => "AlreadyExists"
  | .isDirectory => "IsADirectory"
  | .notDirectory => "NotADirectory"
  | .busy => "ResourceBusy"
  | .invalidName => "InvalidInput"
  | .nameTooLong => "InvalidFilename"
  | .full => "StorageFull"
  | .invalidData => "InvalidData"
  | .other description => description

/-- Operations on files; `δ` is what drafts are known by.

* `isPresent`: whether a path names a file or directory.
* `read`: the contents of a file.
* `makeDirectories`: create a directory and those it is in, as far as they are missing.
* `stage`: put contents into a draft in a directory.
* `move`: move a draft to a path, replacing the file that is there.
* `discard`: remove a draft. -/
class Files (δ : outParam Type) (m : Type → Type) where
  isPresent : Path → m Bool
  read : Path → m (Except FileError ByteArray)
  makeDirectories : Path → m (Except FileError Unit)
  stage : Path → ByteArray → m (Except FileError δ)
  move : δ → Path → m (Except FileError Unit)
  discard : δ → m Unit

/-- The contents of a file that holds text. -/
def Files.readText {δ : Type} {m : Type → Type} [Monad m] [Files δ m] (p : Path) :
    m (Except FileError String) := do
  match ← Files.read p with
  | .error e => return .error e
  | .ok bytes =>
      match String.fromUTF8? bytes with
      | some text => return .ok text
      | none => return .error .invalidData

end LevelSchema
