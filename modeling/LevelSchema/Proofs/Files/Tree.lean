import Mathlib.Data.List.Nodup
import Mathlib.Data.String.Basic
import Mathlib.Tactic.Common
import LevelSchema.Files.Tree
import LevelSchema.Proofs.Outcome

/-!
# Places in a file tree

Putting something at a place, or erasing it, changes nothing anywhere else.  Where a path leads
depends on the directories of a tree alone, so a path keeps leading to the same place as long as
directories stay (`FileTree.Keeps`, `FileTree.locate_of_spot`).

**Drafts.**  The name of a draft is longer than every name in the tree and longer than a path may
have, so that nothing is at the place of a new draft and no path leads there.
-/

namespace LevelSchema.FileTree

variable {t t' : FileTree} {p q : Place} {entry : Entry}

/-! ## Places -/

lemma lookup_filter_ne {entries : List (Place × Entry)} (h : q ≠ p) :
    (entries.filter fun e => e.1 ≠ p).lookup q = entries.lookup q := by
  induction entries with
  | nil => rfl
  | cons e entries ih =>
      by_cases hp : e.1 = p
      · have hq : (q == e.1) = false := beq_false_of_ne (hp ▸ h)
        rw [List.filter_cons_of_neg (by simpa using hp), ih, List.lookup_cons, hq]
      · rw [List.filter_cons_of_pos (by simpa using hp), List.lookup_cons, List.lookup_cons, ih]

/-- Erasing changes one place. -/
lemma get?_erase_of_ne (h : q ≠ p) : (t.erase p).get? q = t.get? q := by
  simp only [get?, erase, lookup_filter_ne h]

/-- Putting changes one place. -/
lemma get?_put_of_ne (h : q ≠ p) : (t.put p entry).get? q = t.get? q := by
  have hq : (q == p) = false := beq_false_of_ne h
  simp only [get?, put, erase, List.lookup_cons, hq, lookup_filter_ne h]

lemma get?_put_self (hp : p ≠ []) : (t.put p entry).get? p = some entry := by
  simp [get?, put, hp]

lemma mem_entries_of_get? (hp : p ≠ []) (h : t.get? p = some entry) : (p, entry) ∈ t.entries := by
  rw [get?, if_neg (by simpa using hp), List.lookup_eq_some_iff] at h
  obtain ⟨before, after, hentries, -⟩ := h
  rw [hentries]
  exact List.mem_append_right _ List.mem_cons_self

/-! ## Following paths -/

/-- What is required to be a directory is one. -/
lemma requireDirectory_eq_ok_iff : t.requireDirectory p = .ok () ↔ t.get? p = some .directory := by
  unfold requireDirectory
  split <;> simp_all

/-- Directories stay, and so does the working directory. -/
structure Keeps (t t' : FileTree) : Prop where
  home : t'.home = t.home
  directory : ∀ p, t.get? p = some .directory → t'.get? p = some .directory

lemma Keeps.refl (t : FileTree) : Keeps t t :=
  ⟨rfl, fun _ h => h⟩

/-- Steps that keep directories keep them together. -/
lemma Keeps.trans {t'' : FileTree} (h : Keeps t t') (h' : Keeps t' t'') : Keeps t t'' :=
  ⟨h'.home.trans h.home, fun p hp => h'.directory p (h.directory p hp)⟩

/-- A step goes from a directory, by a name that is allowed. -/
lemma walk_cons_eq_ok_iff {step : String} {steps : List String} :
    t.walk p (step :: steps) = .ok q ↔ t.get? p = some .directory ∧ requireName step = .ok () ∧
      t.walk (follow p step) steps = .ok q := by
  rw [walk, ← requireDirectory_eq_ok_iff]
  cases t.requireDirectory p <;> cases requireName step <;> simp [bind, Except.bind]

/-- A walk in two parts. -/
lemma walk_append_eq_ok_iff {steps steps' : List String} :
    t.walk p (steps ++ steps') = .ok q ↔ ∃ r, t.walk p steps = .ok r ∧ t.walk r steps' = .ok q := by
  induction steps generalizing p with
  | nil => simp [walk]
  | cons step steps ih =>
      rw [List.cons_append, walk_cons_eq_ok_iff, ih]
      simp only [walk_cons_eq_ok_iff]
      constructor
      · rintro ⟨hp, hstep, r, hr, hq⟩
        exact ⟨r, ⟨hp, hstep, hr⟩, hq⟩
      · rintro ⟨r, ⟨hp, hstep, hr⟩, hq⟩
        exact ⟨hp, hstep, r, hr, hq⟩

/-- Where directories stay, walks go where they did. -/
lemma Keeps.walk (h : Keeps t t') {steps : List String} (hwalk : t.walk p steps = .ok q) :
    t'.walk p steps = .ok q := by
  induction steps generalizing p with
  | nil => exact hwalk
  | cons step steps ih =>
      obtain ⟨hp, hstep, hrest⟩ := walk_cons_eq_ok_iff.mp hwalk
      exact walk_cons_eq_ok_iff.mpr ⟨h.directory p hp, hstep, ih hrest⟩

/-! ## Paths that end in a name -/

variable {path : Path} {steps : List String} {name : String}

/-- A path whose last part is the name of a file. -/
structure EndsIn (path : Path) (steps : List String) (name : String) : Prop where
  parts : path.parts = steps ++ [name]
  isName : name ∉ ["", ".", ".."]

lemma EndsIn.follow_eq (h : EndsIn path steps name) : follow p name = p ++ [name] := by
  have hname := h.isName
  unfold follow
  split <;> simp_all

lemma EndsIn.final?_eq (h : EndsIn path steps name) : path.final? = some (steps, name) := by
  have hempty : (name == "") = false := beq_false_of_ne fun hname => h.isName (by simp [hname])
  rw [Path.final?, h.parts, List.reverse_append, List.reverse_singleton, List.singleton_append,
    List.dropWhile_cons_of_neg (by simp [hempty])]
  simp

/-- Such a path leads to the place of its last name, whether or not something is there. -/
lemma EndsIn.locate_eq_ok_iff (h : EndsIn path steps name) : t.locate path = .ok q ↔
    requirePath path = .ok () ∧ ∃ d, t.walk (t.start path) steps = .ok d ∧
      t.get? d = some .directory ∧ requireName name = .ok () ∧ d ++ [name] = q := by
  have hlocate : t.locate path = .ok q ↔
      requirePath path = .ok () ∧ t.walk (t.start path) (steps ++ [name]) = .ok q := by
    rw [locate, h.parts]
    cases requirePath path <;> simp [bind, Except.bind]
  have hlast : ∀ d, t.walk d [name] = .ok q ↔
      t.get? d = some .directory ∧ requireName name = .ok () ∧ d ++ [name] = q := by
    intro d
    rw [walk_cons_eq_ok_iff, h.follow_eq, walk, Except.ok.injEq]
  simp only [hlocate, walk_append_eq_ok_iff, hlast]

lemma EndsIn.spot_eq_ok_iff (h : EndsIn path steps name) {fault : FileError} :
    t.spot path fault = .ok q ↔ t.locate path = .ok q := by
  have hdots : ¬ (name = "." ∨ name = "..") := by
    rintro (rfl | rfl) <;> exact absurd h.isName (by decide)
  rw [h.locate_eq_ok_iff, spot, h.final?_eq]
  cases requirePath path with
  | error e => simp [bind, Except.bind]
  | ok _ =>
      cases hwalk : t.walk (t.start path) steps with
      | error e => simp [bind, Except.bind, hwalk]
      | ok d =>
          simp only [bind, Except.bind, hwalk, ← requireDirectory_eq_ok_iff, if_neg hdots]
          cases hd : t.requireDirectory d <;> cases requireName name <;>
            simp [hd, pure, Except.pure]

/-- Where directories stay, a path with a last name is located where it was. -/
lemma EndsIn.locate_of_keeps (h : EndsIn path steps name) (hkeeps : Keeps t t')
    (hq : t.locate path = .ok q) : t'.locate path = .ok q := by
  have hstart : t'.start path = t.start path := by rw [start, start, hkeeps.home]
  obtain ⟨hpath, d, hwalk, hd, hname, rfl⟩ := h.locate_eq_ok_iff.mp hq
  refine h.locate_eq_ok_iff.mpr ⟨hpath, d, ?_, hkeeps.directory d hd, hname, rfl⟩
  rw [hstart]
  exact hkeeps.walk hwalk

lemma EndsIn.getLast?_of_locate (h : EndsIn path steps name) (hq : t.locate path = .ok q) :
    q.getLast? = some name ∧ name.utf8ByteSize ≤ nameLimit := by
  obtain ⟨-, d, -, -, hname, rfl⟩ := h.locate_eq_ok_iff.mp hq
  refine ⟨List.getLast?_concat, ?_⟩
  by_contra hlong
  rw [requireName, if_neg hlong] at hname
  exact nomatch hname

/-! ## Drafts -/

/-- A place that no path leads to, because its last name is too long. -/
def OutOfReach (p : Place) : Prop :=
  ∃ name, p.getLast? = some name ∧ nameLimit < name.utf8ByteSize

/-- No path leads to a place out of reach. -/
lemma OutOfReach.ne_of_locate (hp : OutOfReach p) (h : EndsIn path steps name)
    (hq : t.locate path = .ok q) : q ≠ p := by
  rintro rfl
  obtain ⟨long, hlast, hlong⟩ := hp
  obtain ⟨hlast', hshort⟩ := h.getLast?_of_locate hq
  cases hlast.symm.trans hlast'
  exact absurd hlong (Nat.not_lt.mpr hshort)

lemma le_foldl_max {α : Type} (f : α → Nat) (n : Nat) (as : List α) :
    n ≤ as.foldl (fun n a => max n (f a)) n ∧
      ∀ a ∈ as, f a ≤ as.foldl (fun n a => max n (f a)) n := by
  induction as generalizing n with
  | nil => simp
  | cons a as ih =>
      obtain ⟨hinit, hrest⟩ := ih (max n (f a))
      rw [List.foldl_cons, List.forall_mem_cons]
      exact ⟨(le_max_left _ _).trans hinit, (le_max_right _ _).trans hinit, hrest⟩

/-- The name of a draft is longer than all others. -/
lemma draftName_spec (t : FileTree) : nameLimit < t.draftName.utf8ByteSize ∧
    ∀ e ∈ t.entries, (e.1.getLast?.getD "").length < t.draftName.length := by
  have hdots : ∀ n, (String.ofList (List.replicate n '.')).utf8ByteSize = n := by
    intro n
    rw [String.utf8ByteSize_ofList]
    induction n with
    | zero => rfl
    | succ n ih => rw [List.replicate_succ, String.utf8Len_cons, ih, Char.utf8Size]; rfl
  obtain ⟨hlimit, hentries⟩ := le_foldl_max (fun e : Place × Entry => (e.1.getLast?.getD "").length)
    nameLimit t.entries
  rw [draftName, hdots, String.length_ofList, List.length_replicate]
  exact ⟨Nat.lt_succ_of_le hlimit, fun e he => Nat.lt_succ_of_le (hentries e he)⟩

/-- Staging puts the contents where nothing was before and no path leads. -/
lemma stage_eq_ok {device : Device} {directory : Path} {contents : ByteArray} {draft : Place}
    (h : t.stage device directory contents = (.ok draft, t')) :
    OutOfReach draft ∧ draft ≠ [] ∧ t.get? draft = none ∧ t' = t.put draft (.file contents) := by
  unfold stage at h
  split at h
  · cases h
  · next place _ =>
      split at h
      · cases h
      dsimp only at h
      split at h
      · cases h
      · obtain ⟨hlimit, hentries⟩ := t.draftName_spec
        cases h
        refine ⟨⟨t.draftName, List.getLast?_concat, hlimit⟩, by simp, ?_, rfl⟩
        by_contra hsome
        obtain ⟨entry, hentry⟩ := Option.ne_none_iff_exists'.mp hsome
        have hlength := hentries _ (mem_entries_of_get? (by simp) hentry)
        simp at hlength

/-- What cannot be staged leaves nothing behind. -/
lemma stage_eq_error {device : Device} {directory : Path} {contents : ByteArray} {e : FileError}
    (h : t.stage device directory contents = (.error e, t')) : t' = t := by
  unfold stage at h
  split at h
  · cases h
    rfl
  · split at h
    · cases h
      rfl
    dsimp only at h
    split at h
    · cases h
      rfl
    · cases h

/-! ## Moving -/

lemma isEmpty_of_requirePath (h : requirePath path = .ok ()) : path.isEmpty = false := by
  unfold requirePath at h
  split_ifs at h with _ hempty
  exact Bool.eq_false_of_not_eq_true hempty

lemma eq_replicate_append_of_dropWhile {parts before : List String} {last : String}
    (h : parts.dropWhile (· == "") = last :: before) :
    last ≠ "" ∧ ∃ n, parts = List.replicate n "" ++ last :: before := by
  induction parts with
  | nil => exact nomatch h
  | cons part parts ih =>
      by_cases hpart : part = ""
      · subst hpart
        obtain ⟨hlast, n, rfl⟩ := ih (by simpa using h)
        exact ⟨hlast, n + 1, rfl⟩
      · rw [List.dropWhile_cons_of_neg (by simpa using hpart)] at h
        cases h
        exact ⟨hpart, 0, rfl⟩

/-- Behind the last part that is not empty stand only empty ones. -/
lemma parts_of_final? {last : String} (h : path.final? = some (steps, last)) :
    last ≠ "" ∧ ∃ n, path.parts = steps ++ last :: List.replicate n "" := by
  unfold Path.final? at h
  split at h
  · exact nomatch h
  · next hdrop =>
      cases h
      obtain ⟨hlast, n, hparts⟩ := eq_replicate_append_of_dropWhile hdrop
      exact ⟨hlast, n, by simpa using congrArg List.reverse hparts⟩

/-- The last name of a path, up to idle parts, stands in a directory where the parts before it
lead. -/
lemma spot_eq_ok {fault : FileError} (h : t.spot path fault = .ok q) :
    requirePath path = .ok () ∧ ∃ steps last d, path.final? = some (steps, last) ∧
      ¬ (last = "." ∨ last = "..") ∧ t.walk (t.start path) steps = .ok d ∧
        t.get? d = some .directory ∧ requireName last = .ok () ∧ q = d ++ [last] := by
  obtain ⟨⟨⟩, hpath, h⟩ := bind_eq_ok_iff.mp h
  split at h
  · exact nomatch h
  · next steps last hfinal =>
      obtain ⟨d, hwalk, h⟩ := bind_eq_ok_iff.mp h
      obtain ⟨⟨⟩, hd, h⟩ := bind_eq_ok_iff.mp h
      split_ifs at h with hdots
      obtain ⟨⟨⟩, hname, h⟩ := bind_eq_ok_iff.mp h
      exact ⟨hpath, steps, last, d, hfinal, hdots, hwalk, requireDirectory_eq_ok_iff.mp hd, hname,
        (pure_eq_ok_iff.mp h).symm⟩

/-- A move takes a file to a spot with no directory at it, and the path has no slash at its end. -/
lemma exists_spot_of_move {draft : Place} (h : t.move draft path = .ok t') :
    ∃ q contents, t.spot path .busy = .ok q ∧ path.endsInSlash = false ∧
      t.get? q ≠ some .directory ∧ t.get? draft = some (.file contents) ∧
        t' = (t.erase draft).put q (.file contents) := by
  obtain ⟨q, hspot, h⟩ := bind_eq_ok_iff.mp h
  split_ifs at h with hslash
  split at h
  · exact nomatch h
  · next contents hdraft hnot =>
      cases h
      exact ⟨q, contents, hspot, Bool.eq_false_of_not_eq_true hslash, hnot, hdraft, rfl⟩
  · exact nomatch h

/-- A path that something can move to ends in a name. -/
lemma exists_endsIn_of_move {draft : Place} (h : t.move draft path = .ok t') :
    ∃ steps name, EndsIn path steps name := by
  obtain ⟨q, -, hspot, hslash, -⟩ := exists_spot_of_move h
  obtain ⟨hpath, steps, last, -, hfinal, hdots, -⟩ := spot_eq_ok hspot
  have hlast : path.parts.getLast? ≠ some "" := by
    simpa [Path.endsInSlash, isEmpty_of_requirePath hpath] using hslash
  obtain ⟨hne, n, hparts⟩ := parts_of_final? hfinal
  cases n with
  | zero => exact ⟨steps, last, hparts, by simpa [hne] using hdots⟩
  | succ n =>
      rw [hparts, List.replicate_succ', ← List.cons_append, ← List.append_assoc,
        List.getLast?_concat] at hlast
      exact absurd rfl hlast

/-- Moving takes the contents of a draft to the place of its target, where no directory was. -/
lemma move_eq_ok {draft : Place} {contents : ByteArray} (h : EndsIn path steps name)
    (hdraft : t.get? draft = some (.file contents)) (hmove : t.move draft path = .ok t') :
    ∃ q, t.locate path = .ok q ∧ t.get? q ≠ some .directory ∧
      t' = (t.erase draft).put q (.file contents) := by
  obtain ⟨q, moved, hspot, -, hq, hfile, rfl⟩ := exists_spot_of_move hmove
  rw [hdraft] at hfile
  cases hfile
  exact ⟨q, h.spot_eq_ok_iff.mp hspot, hq, rfl⟩

end LevelSchema.FileTree
