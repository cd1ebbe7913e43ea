import LevelSchema.Diagnostic.Basic

/-!
# Results with notes

The stages of the compiler do not stop at the first mistake: they go on and report everything they
find.  A `Noted ν α` is a result of type `α` together with the notes of type `ν` taken on the way,
in order.  Doing one computation after another appends their notes.

A stage ends with `conclude`, which refuses the result if an error is among the notes, and hands it
on with its warnings otherwise.
-/

namespace LevelSchema

/-- A result and what was noticed while computing it. -/
structure Noted (ν α : Type) where
  value : α
  notes : List ν
deriving DecidableEq

namespace Noted

variable {ν μ α β : Type}

instance : Monad (Noted ν) where
  pure a := ⟨a, []⟩
  bind x f := ⟨(f x.value).value, x.notes ++ (f x.value).notes⟩

/-- Take a note. -/
def note (n : ν) : Noted ν Unit :=
  ⟨(), [n]⟩

/-- Take a note if there is one to take. -/
def noteAny (n : Option ν) : Noted ν Unit :=
  ⟨(), n.toList⟩

/-- Run a computation on every element of a list, from the first to the last. -/
def each (f : α → Noted ν β) : List α → Noted ν (List β)
  | [] => pure []
  | a :: as => do
      let b ← f a
      let bs ← each f as
      return b :: bs

/-- Rephrase the notes. -/
def mapNotes (f : ν → μ) (x : Noted ν α) : Noted μ α :=
  ⟨x.value, x.notes.map f⟩

/-- Accept the result with its warnings, or refuse it because of the errors among its notes. -/
def conclude (x : Noted Diagnostic α) : Except Rejection (Noted Diagnostic α) :=
  if x.notes.any (·.isError) then .error ⟨x.notes⟩ else .ok x

end Noted

end LevelSchema
