import LevelSchema.Artifact
import LevelSchema.Files.Basic

/-!
# Publication

An artifact is published in two steps, so that nothing is replaced before everything has been
written.  First every unit is staged in the directory it is for; then the drafts move to their
places, in the order of the units.

If a unit cannot be staged, the drafts are removed and no file has changed.  If a draft cannot move,
the files before it have been replaced, and the drafts from it on are removed.
-/

namespace LevelSchema

variable {δ : Type} {m : Type → Type} [Monad m] [Files δ m]

namespace Publication

/-- A draft and where it is to go. -/
structure Staged (δ : Type) where
  draft : δ
  target : Path

/-- Where the units of an artifact go: a single file to the destination, several into it. -/
def targets (artifact : Artifact) (destination : Path) : List (Path × String) :=
  match artifact.layout with
  | .single => artifact.units.map fun u => (destination, u.contents)
  | .perLevel => artifact.units.map fun u => (destination.child u.fileName, u.contents)

/-- The directory that has to exist before anything can be staged. -/
def directory (layout : Layout) (destination : Path) : Path :=
  match layout with
  | .single => destination.directory
  | .perLevel => destination

/-- Remove drafts. -/
def discardAll : List (Staged δ) → m Unit
  | [] => return ()
  | s :: rest => do
      Files.discard s.draft
      discardAll rest

/-- Stage everything, or nothing. -/
def stageAll : List (Path × String) → m (Except FileError (List (Staged δ)))
  | [] => return .ok []
  | (target, contents) :: rest => do
      match ← Files.stage target.directory contents.toUTF8 with
      | .error e => return .error e
      | .ok draft =>
          match ← stageAll rest with
          | .ok staged => return .ok (⟨draft, target⟩ :: staged)
          | .error e =>
              Files.discard draft
              return .error e

/-- Move drafts to their places, up to the first that cannot. -/
def moveAll : List (Staged δ) → m (Except FileError Unit)
  | [] => return .ok ()
  | s :: rest => do
      match ← Files.move s.draft s.target with
      | .ok () => moveAll rest
      | .error e =>
          discardAll (s :: rest)
          return .error e

end Publication

/-- Write the units of an artifact. -/
def Artifact.publish (artifact : Artifact) (destination : Path) : m (Except FileError Unit) := do
  match ← Files.makeDirectories (Publication.directory artifact.layout destination) with
  | .error e => return .error e
  | .ok () =>
      match ← Publication.stageAll (Publication.targets artifact destination) with
      | .error e => return .error e
      | .ok staged => Publication.moveAll staged

end LevelSchema
