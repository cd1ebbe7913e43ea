import Mathlib.Tactic.SplitIfs
import LevelSchema.Proofs.Outcome
import LevelSchema.Schema.Load

/-!
# Notes of a computation

A computation with notes has two sides, its value and its notes, and each of the ways of combining
computations has one equation for either side.

**Two ways to succeed.**  Resolving succeeds when there is no note at all.  Loading succeeds when no
note is an error, since warnings do not count: `Load.Passes` says so of a computation, and
`passes_bind_iff` takes it apart step by step.
-/

namespace LevelSchema

namespace Noted

variable {ν α β : Type}

@[simp] lemma value_pure (a : α) : (pure a : Noted ν α).value = a := rfl

@[simp] lemma notes_pure (a : α) : (pure a : Noted ν α).notes = [] := rfl

/-- The value of a sequence is that of its last step. -/
@[simp] lemma value_bind (x : Noted ν α) (f : α → Noted ν β) :
    (x >>= f).value = (f x.value).value := rfl

/-- The notes of a sequence are those of its steps, in order. -/
@[simp] lemma notes_bind (x : Noted ν α) (f : α → Noted ν β) :
    (x >>= f).notes = x.notes ++ (f x.value).notes := rfl

@[simp] lemma notes_note (n : ν) : (note n).notes = [n] := rfl

@[simp] lemma notes_noteAny (n : Option ν) : (noteAny n).notes = n.toList := rfl

/-- The values of a pass over a list, one for each element. -/
lemma value_each (f : α → Noted ν β) (as : List α) :
    (each f as).value = as.map fun a => (f a).value := by
  induction as with
  | nil => rfl
  | cons a as ih => simp [each, ih]

/-- The notes of a pass over a list are those about each element, in order. -/
lemma notes_each (f : α → Noted ν β) (as : List α) :
    (each f as).notes = as.flatMap fun a => (f a).notes := by
  induction as with
  | nil => rfl
  | cons a as ih => simp [each, ih]

end Noted

/-! ## Errors among the findings of loading -/

namespace Diagnostic

@[simp] lemma isError_error (message : String) : (error message).isError = true := rfl

@[simp] lemma isError_warning (message : String) : (warning message).isError = false := rfl

@[simp] lemma isError_withCode (d : Diagnostic) (code : Code) :
    (d.withCode code).isError = d.isError := rfl

@[simp] lemma isError_primary (d : Diagnostic) (span : Span) (message : String) :
    (d.primary span message).isError = d.isError := rfl

@[simp] lemma isError_secondary (d : Diagnostic) (span : Span) (message : String) :
    (d.secondary span message).isError = d.isError := rfl

/-- A hint, like a label or a code, does not change how severe a diagnostic is. -/
@[simp] lemma isError_hint (d : Diagnostic) (help : String) : (d.hint help).isError = d.isError :=
  rfl

end Diagnostic

/-- Only an empty description is no error. -/
lemma LoadFinding.isError_diagnostic (f : LoadFinding) :
    f.diagnostic.isError = false ↔ ∃ owner span, f = .emptyDescription owner span := by
  cases f with
  | emptyDescription owner span => simp [diagnostic]
  | repeatedName role name owner key first =>
      simp only [diagnostic]
      split_ifs <;> simp
  | _ => simp [diagnostic]

namespace Load

variable {α β : Type}

/-- No error was found. -/
def Passes (x : Check α) : Prop :=
  ∀ f ∈ x.notes, f.diagnostic.isError = false

@[simp] lemma passes_pure (a : α) : Passes (pure a : Check α) := by
  simp [Passes]

/-- A sequence of checks passes if every one does. -/
@[simp] lemma passes_bind_iff {x : Check α} {f : α → Check β} :
    Passes (x >>= f) ↔ Passes x ∧ Passes (f x.value) := by
  simp [Passes, or_imp, forall_and]

/-- A note lets a check pass if it is only a warning. -/
@[simp] lemma passes_note_iff {f : LoadFinding} :
    Passes (Noted.note f) ↔ f.diagnostic.isError = false := by
  simp [Passes]

@[simp] lemma passes_noteAny_iff {o : Option LoadFinding} :
    Passes (Noted.noteAny o) ↔ ∀ f ∈ o, f.diagnostic.isError = false := by
  simp [Passes]

/-- A result is handed on exactly when no error was found. -/
lemma conclude_eq_ok_iff {x : Check α} {y : Noted Diagnostic α} :
    (x.mapNotes LoadFinding.diagnostic).conclude = .ok y ↔
      Passes x ∧ y = x.mapNotes LoadFinding.diagnostic := by
  have hany : (x.mapNotes LoadFinding.diagnostic).notes.any (·.isError) = true ↔ ¬ Passes x := by
    simp [Noted.mapNotes, Passes]
  rw [Noted.conclude]
  split_ifs with herror
  · simp [hany.mp herror]
  · have hpasses : Passes x := by
      by_contra hnot
      exact herror (hany.mpr hnot)
    simp [hpasses, eq_comm]

end Load

/-- A text has a schema exactly when it can be read and no error is found in what was read. -/
lemma Schema.ofSource_eq_ok_iff {source : String} {loaded : Noted Diagnostic Schema} :
    Schema.ofSource source = .ok loaded ↔
      ∃ lexemes document, scan source = .ok lexemes ∧ Document.ofLexemes lexemes = .ok document ∧
        Load.Passes document.load ∧ loaded = document.load.mapNotes LoadFinding.diagnostic := by
  simp only [Schema.ofSource, bind_eq_ok_iff, Load.conclude_eq_ok_iff]
  constructor
  · rintro ⟨lexemes, hscan, document, hread, hpasses⟩
    exact ⟨lexemes, document, hscan, hread, hpasses⟩
  · rintro ⟨lexemes, document, hscan, hread, hpasses⟩
    exact ⟨lexemes, hscan, document, hread, hpasses⟩

end LevelSchema
