import Mathlib.Logic.Function.Basic
import LevelSchema.Proofs.Files.Tree

/-!
# What files hold

A tree is looked at through the contents of its files, place by place (`FileTree.file?`).  In this
view putting a file is an update, erasing one is an update with nothing, and creating directories is
not seen at all (`FileTree.keepsFiles_makeDirectories`).

**Writing.**  `FileTree.written` is the view after files have been written one after the other.  At
a place that was not written it is what it was; what was written last at a place is there.
-/

namespace LevelSchema.FileTree

variable {t t' : FileTree} {p q : Place} {contents : ByteArray}

/-- What the file at a place holds, if there is one. -/
def file? (t : FileTree) (p : Place) : Option ByteArray :=
  match t.get? p with
  | some (.file contents) => some contents
  | _ => none

lemma file?_eq_some_iff : t.file? p = some contents ↔ t.get? p = some (.file contents) := by
  unfold file?
  split <;> simp_all

lemma file?_eq_of_get?_eq (h : t'.get? p = t.get? p) : t'.file? p = t.file? p := by
  rw [file?, h, file?]

/-! ## Changes at one place -/

lemma get?_erase_self (hp : p ≠ []) : (t.erase p).get? p = none := by
  have hlookup : (t.entries.filter fun e => e.1 ≠ p).lookup p = none := by
    refine List.lookup_eq_none_iff.mpr fun e he => ?_
    have hne : e.1 ≠ p := by simpa using (List.mem_filter.mp he).2
    simpa using hne.symm
  rw [get?, if_neg (by simpa using hp)]
  exact hlookup

/-- Putting a file changes the contents at one place. -/
lemma file?_put (hp : p ≠ []) :
    (t.put p (.file contents)).file? = Function.update t.file? p (some contents) := by
  funext q
  by_cases hq : q = p
  · rw [hq, Function.update_self, file?_eq_some_iff]
    exact get?_put_self hp
  · rw [Function.update_of_ne hq]
    exact file?_eq_of_get?_eq (get?_put_of_ne hq)

/-- Erasing takes away the contents at one place. -/
lemma file?_erase (hp : p ≠ []) : (t.erase p).file? = Function.update t.file? p none := by
  funext q
  by_cases hq : q = p
  · rw [hq, Function.update_self, file?, get?_erase_self hp]
  · rw [Function.update_of_ne hq]
    exact file?_eq_of_get?_eq (get?_erase_of_ne hq)

/-- The root is a directory in every tree. -/
lemma ne_nil_of_get?_ne (h : t.get? p ≠ some .directory) : p ≠ [] := by
  rintro rfl
  exact h rfl

/-- Putting an entry keeps the directories if none stood there. -/
lemma keeps_put (h : t.get? p ≠ some .directory) (entry : Entry) : Keeps t (t.put p entry) := by
  refine ⟨rfl, fun q hq => ?_⟩
  rw [get?_put_of_ne, hq]
  rintro rfl
  exact h hq

lemma keeps_erase (h : t.get? p ≠ some .directory) : Keeps t (t.erase p) := by
  refine ⟨rfl, fun q hq => ?_⟩
  rw [get?_erase_of_ne, hq]
  rintro rfl
  exact h hq

/-! ## Directories -/

/-- Files are what they were, directories stay, and there may be new directories. -/
structure KeepsFiles (t t' : FileTree) : Prop extends Keeps t t' where
  files : t'.file? = t.file?

lemma KeepsFiles.refl (t : FileTree) : KeepsFiles t t :=
  ⟨.refl t, rfl⟩

/-- Steps that keep the files keep them together. -/
lemma KeepsFiles.trans {t'' : FileTree} (h : KeepsFiles t t') (h' : KeepsFiles t' t'') :
    KeepsFiles t t'' :=
  ⟨h.toKeeps.trans h'.toKeeps, h'.files.trans h.files⟩

/-- A new directory where nothing was keeps the files. -/
lemma keepsFiles_put_directory (h : t.get? p = none) : KeepsFiles t (t.put p .directory) := by
  have hp : t.get? p ≠ some .directory := by simp [h]
  refine ⟨keeps_put hp _, funext fun q => ?_⟩
  by_cases hq : q = p
  · rw [hq, file?, get?_put_self (ne_nil_of_get?_ne hp), file?, h]
  · exact file?_eq_of_get?_eq (get?_put_of_ne hq)

/-- One directory is created, at a spot with nothing there. -/
lemma exists_spot_of_makeDirectory {path : Path} (h : t.makeDirectory path = .ok t') :
    ∃ q, t.spot path .alreadyExists = .ok q ∧ t.get? q = none ∧ t' = t.put q .directory := by
  obtain ⟨q, hspot, h⟩ := bind_eq_ok_iff.mp h
  split_ifs at h with hsome
  cases h
  exact ⟨q, hspot, Option.not_isSome_iff_eq_none.mp hsome, rfl⟩

/-- Making a directory keeps the files. -/
lemma keepsFiles_makeDirectory {path : Path} (h : t.makeDirectory path = .ok t') :
    KeepsFiles t t' := by
  obtain ⟨q, -, hnone, rfl⟩ := exists_spot_of_makeDirectory h
  exact keepsFiles_put_directory hnone

lemma keepsFiles_ensureDirectory (t : FileTree) (path : Path) :
    KeepsFiles t (t.ensureDirectory path).2 := by
  unfold ensureDirectory
  split
  · next t' hmake => exact keepsFiles_makeDirectory hmake
  · exact .refl t

/-- Creating the directories of a lineage goes upwards first and comes back, whether or not it is
finished, so the induction is on the lineage. -/
lemma keepsFiles_makeLineage (t : FileTree) (paths : List Path) :
    KeepsFiles t (t.makeLineage paths).2 := by
  induction paths generalizing t with
  | nil => exact .refl t
  | cons path above ih =>
      have hfirst := keepsFiles_ensureDirectory t path
      unfold makeLineage
      split
      · next t₁ hmissing =>
          rw [hmissing] at hfirst
          have habove := ih t₁
          split
          · next t₂ hmade =>
              rw [hmade] at habove
              exact (hfirst.trans habove).trans (keepsFiles_ensureDirectory t₂ path)
          · next e t₂ hfailed =>
              rw [hfailed] at habove
              exact hfirst.trans habove
      · exact hfirst

/-- So does making a directory with all that it lies in. -/
lemma keepsFiles_makeDirectories (t : FileTree) (path : Path) :
    KeepsFiles t (t.makeDirectories path).2 :=
  keepsFiles_makeLineage t _

/-! ## Writing -/

/-- The files after some were written, one after the other. -/
def written (files : Place → Option ByteArray) (writes : List (Place × ByteArray)) :
    Place → Option ByteArray :=
  writes.foldl (fun files w => Function.update files w.1 (some w.2)) files

variable {files : Place → Option ByteArray} {writes : List (Place × ByteArray)}

lemma written_cons (w : Place × ByteArray) :
    written files (w :: writes) = written (Function.update files w.1 (some w.2)) writes :=
  rfl

/-- What is not written stays. -/
lemma written_of_not_mem (h : p ∉ writes.map (·.1)) : written files writes p = files p := by
  induction writes generalizing files with
  | nil => rfl
  | cons w writes ih =>
      rw [List.map_cons, List.mem_cons, not_or] at h
      rw [written_cons, ih h.2, Function.update_of_ne h.1]

/-- What is written once is there afterwards. -/
lemma written_of_mem (hnodup : (writes.map (·.1)).Nodup) (h : (p, contents) ∈ writes) :
    written files writes p = some contents := by
  induction writes generalizing files with
  | nil => exact absurd h List.not_mem_nil
  | cons w writes ih =>
      obtain ⟨hfresh, hnodup⟩ := List.nodup_cons.mp hnodup
      rw [written_cons]
      rcases List.mem_cons.mp h with rfl | h
      · rw [written_of_not_mem hfresh, Function.update_self]
      · exact ih hnodup h

/-- A place holds what it held, or something that was written there. -/
lemma written_eq_or (files : Place → Option ByteArray) (writes : List (Place × ByteArray))
    (p : Place) : written files writes p = files p ∨
      ∃ contents, (p, contents) ∈ writes ∧ written files writes p = some contents := by
  induction writes generalizing files with
  | nil => exact .inl rfl
  | cons w writes ih =>
      rw [written_cons]
      rcases ih (Function.update files w.1 (some w.2)) with hsame | ⟨contents, hmem, hnew⟩
      · by_cases hp : p = w.1
        · subst hp
          rw [Function.update_self] at hsame
          exact .inr ⟨w.2, List.mem_cons_self, hsame⟩
        · rw [Function.update_of_ne hp] at hsame
          exact .inl hsame
      · exact .inr ⟨contents, List.mem_cons_of_mem _ hmem, hnew⟩

end LevelSchema.FileTree
