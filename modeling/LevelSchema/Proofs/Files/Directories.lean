import LevelSchema.Proofs.Files.Contents

/-!
# Directories that come into being

Directories are created along the lineage of a path and in no other way: a directory that was not
there before is where one of the paths of the lineage leads (`FileTree.addsOnly_makeDirectories`).
Writing a file or erasing one adds none.

**Where a path leads.**  `FileTree.Leads` only follows the steps of a path.  It does not ask whether
the path is too long to be used, and so the empty path, which names nothing, leads to the working
directory.
-/

namespace LevelSchema.FileTree

variable {t t' : FileTree} {p q : Place} {path : Path} {steps : List String}

/-! ## Following steps -/

/-- Where the steps of a path lead. -/
def Leads (t : FileTree) (path : Path) (p : Place) : Prop :=
  t.walk (t.start path) path.parts = .ok p

/-- A place that is located is where the path leads. -/
lemma leads_of_locate (h : t.locate path = .ok p) : t.Leads path p := by
  obtain ⟨-, -, hwalk⟩ := bind_eq_ok_iff.mp h
  exact hwalk

/-- Where directories stay, paths lead where they did. -/
lemma Keeps.leads (h : Keeps t t') (hp : t.Leads path p) : t'.Leads path p := by
  have hstart : t'.start path = t.start path := by rw [start, start, h.home]
  rw [Leads, hstart]
  exact h.walk hp

/-- Empty parts lead nowhere else. -/
lemma walk_replicate_empty (h : t.get? p = some .directory) (n : Nat) :
    t.walk p (List.replicate n "") = .ok p := by
  induction n with
  | zero => rfl
  | succ n ih => exact walk_cons_eq_ok_iff.mpr ⟨h, rfl, ih⟩

/-! ## Creating directories -/

/-- The path of a directory that was created leads to it. -/
lemma makeDirectory_eq_ok (h : t.makeDirectory path = .ok t') :
    ∃ q, t' = t.put q .directory ∧ t'.Leads path q := by
  obtain ⟨q, hspot, hnone, rfl⟩ := exists_spot_of_makeDirectory h
  have hq : t.get? q ≠ some .directory := by simp [hnone]
  have hkeeps := keeps_put hq .directory
  obtain ⟨-, steps, last, d, hfinal, hdots, hwalk, hd, hname, rfl⟩ := spot_eq_ok hspot
  obtain ⟨hlast, n, hparts⟩ := parts_of_final? hfinal
  have hfollow : follow d last = d ++ [last] := by
    unfold follow
    split <;> simp_all
  have hstart : (t.put (d ++ [last]) .directory).start path = t.start path := rfl
  refine ⟨_, rfl, ?_⟩
  rw [Leads, hparts, walk_append_eq_ok_iff, hstart]
  refine ⟨d, hkeeps.walk hwalk, walk_cons_eq_ok_iff.mpr ⟨hkeeps.directory d hd, hname, ?_⟩⟩
  rw [hfollow]
  exact walk_replicate_empty (get?_put_self (ne_nil_of_get?_ne hq)) n

/-- Directories that are new are where one of `paths` leads. -/
def AddsOnly (t t' : FileTree) (paths : List Path) : Prop :=
  ∀ p, t'.get? p = some .directory → t.get? p = some .directory ∨ ∃ path ∈ paths, t'.Leads path p

lemma AddsOnly.refl (t : FileTree) (paths : List Path) : AddsOnly t t paths :=
  fun _ hp => .inl hp

/-- Steps that add directories only at `paths` do so together. -/
lemma AddsOnly.trans {t'' : FileTree} {paths : List Path} (h : AddsOnly t t' paths)
    (h' : AddsOnly t' t'' paths) (hkeeps : Keeps t' t'') : AddsOnly t t'' paths := by
  intro p hp
  rcases h' p hp with hold | hnew
  · rcases h p hold with holder | ⟨path, hpath, hleads⟩
    · exact .inl holder
    · exact .inr ⟨path, hpath, hkeeps.leads hleads⟩
  · exact .inr hnew

lemma AddsOnly.mono {paths paths' : List Path} (h : AddsOnly t t' paths)
    (hsub : paths ⊆ paths') : AddsOnly t t' paths' := by
  intro p hp
  rcases h p hp with hold | ⟨path, hpath, hleads⟩
  · exact .inl hold
  · exact .inr ⟨path, hsub hpath, hleads⟩

/-- Ensuring a directory adds at most the one that its path leads to. -/
lemma addsOnly_ensureDirectory (t : FileTree) (path : Path) :
    AddsOnly t (t.ensureDirectory path).2 [path] := by
  unfold ensureDirectory
  split
  · next t' hmake =>
      obtain ⟨q, rfl, hleads⟩ := makeDirectory_eq_ok hmake
      intro p hp
      by_cases heq : p = q
      · exact .inr ⟨path, List.mem_singleton_self path, heq ▸ hleads⟩
      · exact .inl (get?_put_of_ne heq ▸ hp)
  · exact .refl t _

/-- Making the directories of a lineage adds only those. -/
lemma addsOnly_makeLineage (t : FileTree) (paths : List Path) :
    AddsOnly t (t.makeLineage paths).2 paths := by
  induction paths generalizing t with
  | nil => exact .refl t _
  | cons path above ih =>
      have hone : ∀ t : FileTree, AddsOnly t (t.ensureDirectory path).2 (path :: above) := fun t =>
        (addsOnly_ensureDirectory t path).mono (by simp)
      have hfirst := hone t
      unfold makeLineage
      split
      · next t₁ hmissing =>
          rw [hmissing] at hfirst
          have habove := (ih t₁).mono (List.subset_cons_self path above)
          have hkeeps := (keepsFiles_makeLineage t₁ above).toKeeps
          split
          · next t₂ hmade =>
              rw [hmade] at habove hkeeps
              exact (hfirst.trans habove hkeeps).trans (hone t₂)
                (keepsFiles_ensureDirectory t₂ path).toKeeps
          · next e t₂ hfailed =>
              rw [hfailed] at habove hkeeps
              exact hfirst.trans habove hkeeps
      · exact hfirst

/-- **New directories are on the way to the one that was asked for.** -/
lemma addsOnly_makeDirectories (t : FileTree) (path : Path) :
    AddsOnly t (t.makeDirectories path).2 path.lineage :=
  addsOnly_makeLineage t _

/-! ## Writing and erasing -/

/-- No directory is new. -/
def NoneNew (t t' : FileTree) : Prop :=
  ∀ p, t'.get? p = some .directory → t.get? p = some .directory

lemma NoneNew.refl (t : FileTree) : NoneNew t t :=
  fun _ hp => hp

lemma NoneNew.trans {t'' : FileTree} (h : NoneNew t t') (h' : NoneNew t' t'') : NoneNew t t'' :=
  fun p hp => h p (h' p hp)

/-- Nothing is added by a step that makes no directory. -/
lemma AddsOnly.trans_noneNew {t'' : FileTree} {paths : List Path} (h : AddsOnly t t' paths)
    (h' : NoneNew t' t'') (hkeeps : Keeps t' t'') : AddsOnly t t'' paths :=
  h.trans (fun p hp => .inl (h' p hp)) hkeeps

/-- One place has changed, and if it is not the root, which stays, then not into a directory. -/
lemma noneNew_of_change (hp : p ≠ [] → t'.get? p ≠ some .directory)
    (hothers : ∀ q, q ≠ p → t'.get? q = t.get? q) : NoneNew t t' := by
  intro q hq
  by_cases heq : q = p
  · subst heq
    rcases eq_or_ne q [] with rfl | hne
    · rfl
    · exact absurd hq (hp hne)
  · rw [← hothers q heq, hq]

lemma noneNew_put_file (t : FileTree) (p : Place) (contents : ByteArray) :
    NoneNew t (t.put p (.file contents)) :=
  noneNew_of_change (fun hp => by simp [get?_put_self hp]) fun _ => get?_put_of_ne

lemma noneNew_erase (t : FileTree) (p : Place) : NoneNew t (t.erase p) :=
  noneNew_of_change (fun hp => by simp [get?_erase_self hp]) fun _ => get?_erase_of_ne

/-- Staging a file makes no directory, whether it succeeds or not. -/
lemma noneNew_stage {device : Device} {directory : Path} {contents : ByteArray}
    {result : Except FileError Place} (h : t.stage device directory contents = (result, t')) :
    NoneNew t t' := by
  cases result with
  | error e => exact stage_eq_error h ▸ .refl t
  | ok draft =>
      obtain ⟨-, -, -, rfl⟩ := stage_eq_ok h
      exact noneNew_put_file t draft contents

/-- Moving a file makes no directory. -/
lemma noneNew_move {draft : Place} (h : t.move draft path = .ok t') : NoneNew t t' := by
  obtain ⟨q, contents, -, -, -, -, rfl⟩ := exists_spot_of_move h
  exact (noneNew_erase t draft).trans (noneNew_put_file _ q contents)

/-- If the file at a place is the same, or is missing as before, then all that can be new there is a
directory. -/
lemma get?_eq_or_new_directory (hkeeps : Keeps t t') (hfile : t'.file? p = t.file? p) :
    t'.get? p = t.get? p ∨ t.get? p = none ∧ t'.get? p = some .directory := by
  cases hp : t.get? p with
  | none =>
      cases hp' : t'.get? p with
      | none => exact .inl rfl
      | some entry =>
          cases entry with
          | file contents => simp [file?, hp, hp'] at hfile
          | directory => exact .inr ⟨rfl, rfl⟩
  | some entry =>
      cases entry with
      | file contents =>
          rw [file?_eq_some_iff.mpr hp] at hfile
          exact .inl (file?_eq_some_iff.mp hfile)
      | directory => exact .inl (hkeeps.directory p hp)

end LevelSchema.FileTree
