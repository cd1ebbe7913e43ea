import LevelSchema.Proofs.Files.Contents
import LevelSchema.Proofs.Outcome
import LevelSchema.Publication

/-!
# What publication leaves behind

Publishing in a file tree first stages all units and then moves them.  Staging adds drafts at places
of their own and changes nothing else (`Publication.stageAll_spec`); if it fails it takes them away
again (`Publication.keepsFiles_of_stageIn_error`).

**Moves.**  Moving a draft writes one file, where its target leads, and the draft is gone
(`Publication.move_spec`).  If a draft cannot move, it and those behind it are discarded.  So
whatever comes of it, moving leaves a tree in which the targets up to some point were written one
after the other and nothing else has changed (`Publication.moveAll_spec`).

This is what publishing comes to as a whole (`Artifact.publishIn_spec`), and every unit can be read
back after a publication if the file names differ (`Artifact.read_of_publishIn`).
-/

namespace LevelSchema

namespace Publication

open FileTree

variable {device : Device} {t t' : FileTree} {staged : List (Staged Place)}

/-- Stage in a file tree on a device. -/
abbrev stageIn (device : Device) (t : FileTree) (targets : List (Path × String)) :
    Except FileError (List (Staged Place)) × FileTree :=
  letI := files device
  (stageAll targets : StateM FileTree (Except FileError (List (Staged Place)))) t

/-- Move in a file tree on a device. -/
abbrev moveIn (device : Device) (t : FileTree) (staged : List (Staged Place)) :
    Except FileError Unit × FileTree :=
  letI := files device
  (moveAll staged : StateM FileTree (Except FileError Unit)) t

/-- Discard in a file tree on a device. -/
abbrev discardIn (device : Device) (t : FileTree) (staged : List (Staged Place)) : FileTree :=
  letI := files device
  ((discardAll staged : StateM FileTree Unit) t).2

/-! ## Steps -/

/-- Staging stops at the first unit that cannot be staged, and those before it are discarded. -/
lemma stageIn_cons (device : Device) (t : FileTree) (target : Path) (contents : String)
    (rest : List (Path × String)) :
    stageIn device t ((target, contents) :: rest) =
      match t.stage device target.directory contents.toUTF8 with
      | (.error e, t₁) => (.error e, t₁)
      | (.ok draft, t₁) =>
          match stageIn device t₁ rest with
          | (.ok others, t₂) => (.ok (⟨draft, target⟩ :: others), t₂)
          | (.error e, t₂) => (.error e, t₂.erase draft) := by
  simp only [stageIn, stageAll, bind, StateT.bind, Files.stage]
  rcases t.stage device target.directory contents.toUTF8 with ⟨_ | draft, t₁⟩
  · rfl
  · let := files device
    change StateT.bind (stageAll rest) _ t₁ = _
    simp only [StateT.bind, bind]
    rcases (stageAll rest : StateM FileTree (Except FileError (List (Staged Place)))) t₁
      with ⟨_ | others, t₂⟩ <;> rfl

/-- Moving stops at the first draft that cannot move, and those from it on are discarded. -/
lemma moveIn_cons (device : Device) (t : FileTree) (s : Staged Place)
    (staged : List (Staged Place)) :
    moveIn device t (s :: staged) =
      match t.move s.draft s.target with
      | .ok t₁ => moveIn device t₁ staged
      | .error e => (.error e, discardIn device t (s :: staged)) := by
  simp only [moveIn, moveAll, bind, StateT.bind, Files.move]
  cases t.move s.draft s.target with
  | error e =>
      let := files device
      change StateT.bind (discardAll (s :: staged)) _ t = _
      simp only [StateT.bind, bind]
      rfl
  | ok t₁ => rfl

lemma discardIn_cons (device : Device) (t : FileTree) (s : Staged Place)
    (staged : List (Staged Place)) :
    discardIn device t (s :: staged) = discardIn device (t.erase s.draft) staged :=
  rfl

/-! ## Staging -/

/-- Drafts that wait in a tree for their moves, each with its contents. -/
structure Waiting (t : FileTree) (targets : List (Path × String)) (staged : List (Staged Place)) :
    Prop where
  contents : List.Forall₂ (fun s x => s.target = x.1 ∧
    t.get? s.draft = some (.file x.2.toUTF8)) staged targets
  nodup : (staged.map (·.draft)).Nodup
  outOfReach : ∀ s ∈ staged, OutOfReach s.draft

/-- The files of a tree beside its drafts. -/
def besides (t : FileTree) (drafts : List Place) (p : Place) : Option ByteArray :=
  if p ∈ drafts then none else t.file? p

lemma besides_nil (t : FileTree) : besides t [] = t.file? :=
  funext fun _ => if_neg List.not_mem_nil

lemma besides_cons_self (t : FileTree) (draft : Place) (drafts : List Place) :
    besides t (draft :: drafts) draft = none :=
  if_pos List.mem_cons_self

lemma besides_cons_of_ne {p draft : Place} (h : p ≠ draft) (t : FileTree) (drafts : List Place) :
    besides t (draft :: drafts) p = besides t drafts p := by
  simp only [besides, List.mem_cons, h, false_or]

/-- **Staging adds drafts and changes nothing else.** -/
theorem stageAll_spec {targets : List (Path × String)}
    (h : stageIn device t targets = (.ok staged, t')) :
    Waiting t' targets staged ∧ Keeps t t' ∧ (∀ s ∈ staged, t.get? s.draft = none) ∧
      (∀ p entry, t.get? p = some entry → t'.get? p = some entry) ∧
        besides t' (staged.map (·.draft)) = t.file? := by
  induction targets generalizing t staged with
  | nil =>
      cases h
      exact ⟨⟨.nil, List.nodup_nil, by simp⟩, .refl _, by simp, fun _ _ hp => hp, besides_nil _⟩
  | cons x targets ih =>
      rw [stageIn_cons] at h
      split at h
      · exact nomatch h
      next draft t₁ hstage =>
      split at h
      swap
      · exact nomatch h
      next others t₂ hrest =>
      cases h
      obtain ⟨hreach, hne, hnone, rfl⟩ := stage_eq_ok hstage
      obtain ⟨hwaiting, hkeeps, hfresh, hkeep, hfiles⟩ := ih hrest
      have hdraft : (t.put draft (.file x.2.toUTF8)).get? draft = some (.file x.2.toUTF8) :=
        get?_put_self hne
      have hothers : ∀ s ∈ others, s.draft ≠ draft := by
        intro s hs heq
        have hs := hfresh s hs
        rw [heq, hdraft] at hs
        exact nomatch hs
      refine ⟨⟨.cons ⟨rfl, hkeep _ _ hdraft⟩ hwaiting.contents, ?_, ?_⟩,
        (keeps_put (by simp [hnone]) _).trans hkeeps, ?_, ?_, funext fun p => ?_⟩
      · refine List.nodup_cons.mpr ⟨fun hmem => ?_, hwaiting.nodup⟩
        obtain ⟨s, hs, heq⟩ := List.mem_map.mp hmem
        exact hothers s hs heq
      · exact List.forall_mem_cons.mpr ⟨hreach, hwaiting.outOfReach⟩
      · refine List.forall_mem_cons.mpr ⟨hnone, fun s hs => ?_⟩
        rw [← hfresh s hs, get?_put_of_ne (hothers s hs)]
      · intro p entry hp
        refine hkeep p entry ?_
        rw [get?_put_of_ne, hp]
        rintro rfl
        rw [hnone] at hp
        exact nomatch hp
      · have hp := congrFun hfiles p
        rw [file?_put hne] at hp
        rw [List.map_cons]
        by_cases hpd : p = draft
        · rw [hpd, besides_cons_self, file?, hnone]
        · rw [besides_cons_of_ne hpd, hp, Function.update_of_ne hpd]

/-- **If staging fails, no draft is left and all files are what they were.** -/
theorem keepsFiles_of_stageIn_error {targets : List (Path × String)} {e : FileError}
    (h : stageIn device t targets = (.error e, t')) : KeepsFiles t t' := by
  induction targets generalizing t t' with
  | nil => exact nomatch h
  | cons x targets ih =>
      rw [stageIn_cons] at h
      split at h
      · next hstage =>
          cases h
          rw [stage_eq_error hstage]
          exact .refl t
      next draft t₁ hstage =>
      split at h
      · exact nomatch h
      next t₂ hrest =>
      cases h
      obtain ⟨-, hne, hnone, rfl⟩ := stage_eq_ok hstage
      have hput := keeps_put (t := t) (p := draft) (by simp [hnone]) (.file x.2.toUTF8)
      have hkept := ih hrest
      have hfiles : t₂.file? = Function.update t.file? draft (some x.2.toUTF8) :=
        hkept.files.trans (file?_put hne)
      have hdraft : t₂.get? draft ≠ some .directory := by
        have hfile := congrFun hfiles draft
        rw [Function.update_self, file?_eq_some_iff] at hfile
        simp [hfile]
      refine ⟨(hput.trans hkept.toKeeps).trans (keeps_erase hdraft), ?_⟩
      rw [file?_erase hne, hfiles, Function.update_idem, Function.update_eq_self_iff, file?, hnone]

/-! ## Discarding -/

/-- Discarding drafts leaves the files beside them. -/
lemma discardIn_spec (h : ∀ s ∈ staged, t.get? s.draft ≠ some .directory) :
    Keeps t (discardIn device t staged) ∧
      (discardIn device t staged).file? = besides t (staged.map (·.draft)) := by
  induction staged generalizing t with
  | nil => exact ⟨.refl t, (besides_nil t).symm⟩
  | cons s staged ih =>
      obtain ⟨hs, hstaged⟩ := List.forall_mem_cons.mp h
      have hne := ne_nil_of_get?_ne hs
      have hrest : ∀ s' ∈ staged, (t.erase s.draft).get? s'.draft ≠ some .directory := by
        intro s' hs'
        by_cases heq : s'.draft = s.draft
        · rw [heq, get?_erase_self hne]
          exact nofun
        · rw [get?_erase_of_ne heq]
          exact hstaged s' hs'
      obtain ⟨hkeeps, hfiles⟩ := ih hrest
      rw [discardIn_cons]
      refine ⟨(keeps_erase hs).trans hkeeps, hfiles.trans (funext fun p => ?_)⟩
      rw [List.map_cons]
      by_cases hp : p = s.draft
      · rw [hp, besides_cons_self, besides, file?_erase hne, Function.update_self, ite_self]
      · rw [besides_cons_of_ne hp, besides, besides, file?_erase hne, Function.update_of_ne hp]

lemma Waiting.get?_ne_directory {targets : List (Path × String)} (hw : Waiting t targets staged) :
    ∀ s ∈ staged, t.get? s.draft ≠ some .directory := by
  intro s hs
  obtain ⟨x, -, -, hdraft⟩ := exists_mem_zip_of_forall₂ hw.contents hs
  simp [hdraft]

/-! ## Moving -/

/-- Where targets lead in a tree, and what they are to hold. -/
abbrev LeadTo (t : FileTree) (targets : List (Path × String))
    (writes : List (Place × ByteArray)) : Prop :=
  List.Forall₂ (fun x w => t.locate x.1 = .ok w.1 ∧ w.2 = x.2.toUTF8) targets writes

/-- Reading a path gives the file at the place where it leads. -/
lemma read_eq_ok {path : Path} {q : Place} {bytes : ByteArray} (hq : t.locate path = .ok q)
    (hfile : t.file? q = some bytes) : t.read path = .ok bytes := by
  have hget := file?_eq_some_iff.mp hfile
  simp [FileTree.read, FileTree.lookup, hq, hget, bind, Except.bind]

/-- What one move does: a file is written where the target leads, the other drafts still wait, and
directories are kept. -/
lemma move_spec {x : Path × String} {s : Staged Place} {targets : List (Path × String)}
    (hw : Waiting t (x :: targets) (s :: staged)) (hmove : t.move s.draft s.target = .ok t') :
    ∃ steps name q, EndsIn x.1 steps name ∧ t.locate x.1 = .ok q ∧ Waiting t' targets staged ∧
      Keeps t t' ∧ besides t' (staged.map (·.draft)) =
        Function.update (besides t ((s :: staged).map (·.draft))) q (some x.2.toUTF8) := by
  obtain ⟨⟨htarget, hdraft⟩, hcontents⟩ := List.forall₂_cons.mp hw.contents
  rw [htarget] at hmove
  obtain ⟨steps, name, hends⟩ := exists_endsIn_of_move hmove
  obtain ⟨q, hq, hdirectory, rfl⟩ := move_eq_ok hends hdraft hmove
  obtain ⟨hreach, houtOfReach⟩ := List.forall_mem_cons.mp hw.outOfReach
  obtain ⟨hother, hnodup⟩ := List.nodup_cons.mp hw.nodup
  have hsdraft : t.get? s.draft ≠ some .directory := by simp [hdraft]
  have hne := ne_nil_of_get?_ne hsdraft
  have hqdraft : q ≠ s.draft := hreach.ne_of_locate hends hq
  have herased : (t.erase s.draft).get? q ≠ some .directory := by
    rwa [get?_erase_of_ne hqdraft]
  have hqne := ne_nil_of_get?_ne hdirectory
  have hqdrafts : ∀ s' ∈ staged, q ≠ s'.draft := fun s' hs' =>
    (houtOfReach s' hs').ne_of_locate hends hq
  refine ⟨steps, name, q, hends, hq, ⟨?_, hnodup, houtOfReach⟩,
    (keeps_erase hsdraft).trans (keeps_put herased _), funext fun p => ?_⟩
  · have hdrafts : ∀ s' ∈ staged, ((t.erase s.draft).put q (.file x.2.toUTF8)).get? s'.draft =
        t.get? s'.draft := by
      intro s' hs'
      rw [get?_put_of_ne (hqdrafts s' hs').symm, get?_erase_of_ne]
      exact fun heq => hother (List.mem_map.mpr ⟨s', hs', heq⟩)
    refine ((List.forall₂_and_left _ _).mpr ⟨hdrafts, hcontents⟩).imp ?_
    rintro s' y ⟨hdraft, htarget, hy⟩
    exact ⟨htarget, hdraft.trans hy⟩
  · rw [besides, file?_put hqne, file?_erase hne]
    by_cases hpq : p = q
    · have hmem : q ∉ staged.map (·.draft) := by
        intro hmem
        obtain ⟨s', hs', heq⟩ := List.mem_map.mp hmem
        exact hqdrafts s' hs' heq.symm
      rw [hpq, if_neg hmem, Function.update_self, Function.update_self]
    · rw [Function.update_of_ne hpq, Function.update_of_ne hpq, List.map_cons]
      by_cases hps : p = s.draft
      · rw [hps, Function.update_self, ite_self, besides_cons_self]
      · rw [Function.update_of_ne hps, besides_cons_of_ne hps, besides]

/-- **Moving writes targets one after the other, up to some point.**  They are all written exactly
if nothing fails, and no draft is left in either case.  The induction is on the units that still
have to move. -/
theorem moveAll_spec {targets : List (Path × String)} {result : Except FileError Unit}
    (hw : Waiting t targets staged) (h : moveIn device t staged = (result, t')) :
    Keeps t t' ∧ ∃ n ≤ targets.length, ∃ writes, LeadTo t' (targets.take n) writes ∧
      t'.file? = written (besides t (staged.map (·.draft))) writes ∧
        (result = .ok () ↔ n = targets.length) := by
  induction targets generalizing t staged with
  | nil =>
      cases hw.contents
      cases h
      exact ⟨.refl _, 0, le_rfl, [], .nil, (besides_nil _).symm, iff_of_true rfl rfl⟩
  | cons x targets ih =>
      cases staged with
      | nil => exact nomatch hw.contents
      | cons s staged =>
          rw [moveIn_cons] at h
          split at h
          · next t₁ hmove =>
              obtain ⟨steps, name, q, hends, hq, hwaiting, hkeeps, hfiles⟩ := move_spec hw hmove
              obtain ⟨hkeeps', n, hn, writes, hlead, hwritten, hresult⟩ := ih hwaiting h
              have hkept := hkeeps.trans hkeeps'
              refine ⟨hkept, n + 1, Nat.succ_le_succ hn, (q, x.2.toUTF8) :: writes,
                .cons ⟨hends.locate_of_keeps hkept hq, rfl⟩ hlead, ?_, ?_⟩
              · rw [hwritten, hfiles, written_cons]
              · rw [hresult, List.length_cons, Nat.succ_inj]
          · cases h
            obtain ⟨hkeeps, hfiles⟩ := discardIn_spec hw.get?_ne_directory
            exact ⟨hkeeps, 0, Nat.zero_le _, [], .nil, hfiles,
              iff_of_false nofun (Nat.succ_ne_zero _).symm⟩

/-! ## Replaced targets -/

/-- A tree `t'` that is `t` with some targets written, one after the other.  Directories are kept,
and there may be new ones. -/
structure Replaced (t t' : FileTree) (targets : List (Path × String)) : Prop where
  keeps : Keeps t t'
  exists_writes : ∃ writes, LeadTo t' targets writes ∧ t'.file? = written t.file? writes

namespace Replaced

variable {targets : List (Path × String)}

/-- Where no target leads, files are what they were and there are no new ones. -/
lemma file?_eq (h : Replaced t t' targets) {p : Place}
    (hp : ∀ x ∈ targets, t'.locate x.1 ≠ .ok p) : t'.file? p = t.file? p := by
  obtain ⟨writes, hlead, hfiles⟩ := h.exists_writes
  rw [hfiles]
  refine written_of_not_mem fun hmem => ?_
  obtain ⟨w, hw, rfl⟩ := List.mem_map.mp hmem
  obtain ⟨x, hx, hq, -⟩ := exists_of_forall₂_of_mem hlead hw
  exact hp x hx hq

/-- Targets that lead to different places all hold what they were to hold. -/
lemma read_eq_ok (h : Replaced t t' targets)
    (hplaces : ∀ writes, LeadTo t' targets writes → (writes.map (·.1)).Nodup) :
    ∀ x ∈ targets, t'.read x.1 = .ok x.2.toUTF8 := by
  intro x hx
  obtain ⟨writes, hlead, hfiles⟩ := h.exists_writes
  obtain ⟨w, hw, hq, hcontents⟩ := exists_mem_zip_of_forall₂ hlead hx
  refine Publication.read_eq_ok hq ?_
  rw [hfiles, ← hcontents]
  exact written_of_mem (hplaces writes hlead) (List.of_mem_zip hw).2

end Replaced

/-! ## Units -/

/-- Targets that end in names, all of them different. -/
structure NamesApart (targets : List (Path × String)) : Prop where
  endsIn : ∀ x ∈ targets, ∃ steps name, EndsIn x.1 steps name
  nodup : (targets.map fun x => x.1.parts.getLast?).Nodup

/-- Paths that end in different names lead to different places. -/
lemma NamesApart.nodup_places {targets : List (Path × String)} (h : NamesApart targets)
    {writes : List (Place × ByteArray)} (hlead : LeadTo t targets writes) :
    (writes.map (·.1)).Nodup := by
  have hlast : (writes.map fun w => w.1.getLast?) = targets.map fun x => x.1.parts.getLast? := by
    refine map_eq_map_of_forall₂ (forall₂_and_mem hlead) ?_
    rintro x w ⟨hx, -, hq, -⟩
    obtain ⟨steps, name, hends⟩ := h.endsIn x hx
    rw [(hends.getLast?_of_locate hq).1, hends.parts, List.getLast?_concat]
  refine List.Nodup.of_map List.getLast? ?_
  rw [List.map_map]
  exact hlast ▸ h.nodup

/-- What a file can be called. -/
structure IsFileName (name : String) : Prop where
  isName : name ∉ ["", ".", ".."]
  noSlash : '/' ∉ name.toList

lemma partsOf_of_not_mem {cs : List Char} (h : '/' ∉ cs) : Path.partsOf cs = [cs] := by
  induction cs with
  | nil => rfl
  | cons c cs ih =>
      rw [List.mem_cons, not_or] at h
      rw [Path.partsOf, ih h.2]
      exact Ne.symm h.1

/-- The parts of a path that come before the name of a file in it. -/
def stem (destination : Path) : List String :=
  if destination.endsInSlash || destination.isEmpty then destination.parts.dropLast
  else destination.parts

/-- The path of a file ends in its name. -/
lemma endsIn_child {name : String} (h : IsFileName name) (destination : Path) :
    EndsIn (destination.child name) (stem destination) name := by
  have hname : Path.ofText name = ⟨[name]⟩ := by
    rw [Path.ofText, partsOf_of_not_mem h.noSlash, List.map_singleton, String.ofList_toList]
  have hrelative : (Path.mk [name]).isAbsolute = false := by
    simp [Path.isAbsolute, Path.isEmpty]
  refine ⟨?_, h.isName⟩
  simp only [Path.child, hname, hrelative, Bool.false_eq_true, if_false, stem]

/-- Units of several files go to paths that end in their names. -/
lemma namesApart_targets {artifact : Artifact} (hlayout : artifact.layout = .perLevel)
    (hnames : (artifact.units.map (·.fileName)).Nodup)
    (hplain : ∀ u ∈ artifact.units, IsFileName u.fileName) (destination : Path) :
    NamesApart (targets artifact destination) := by
  have htargets : targets artifact destination =
      artifact.units.map fun u => (destination.child u.fileName, u.contents) := by
    rw [targets, hlayout]
  rw [htargets]
  refine ⟨List.forall_mem_map.mpr fun u hu => ?_, ?_⟩
  · exact ⟨_, u.fileName, endsIn_child (hplain u hu) destination⟩
  · have hmap : (artifact.units.map fun u => (destination.child u.fileName, u.contents)).map
        (fun x => x.1.parts.getLast?) = (artifact.units.map (·.fileName)).map some := by
      rw [List.map_map, List.map_map]
      refine List.map_congr_left fun u hu => ?_
      have hends := endsIn_child (hplain u hu) destination
      exact (congrArg List.getLast? hends.parts).trans List.getLast?_concat
    rw [hmap]
    exact hnames.map fun _ _ h => Option.some.inj h

lemma length_targets (artifact : Artifact) (destination : Path) :
    (targets artifact destination).length = artifact.units.length := by
  unfold targets
  split <;> exact List.length_map ..

end Publication

namespace Artifact

open Publication FileTree

variable {artifact : Artifact} {destination : Path} {device : Device} {t t' : FileTree}

/-- Publish in a file tree on a device. -/
abbrev publishIn (device : Device) (t : FileTree) (artifact : Artifact) (destination : Path) :
    Except FileError Unit × FileTree :=
  letI := files device
  (artifact.publish destination : StateM FileTree (Except FileError Unit)) t

/-- Everything that is done before the first draft moves: directories are created, and all units are
staged. -/
def prepareIn (device : Device) (t : FileTree) (artifact : Artifact) (destination : Path) :
    Except FileError (List (Staged Place)) × FileTree :=
  match t.makeDirectories (directory artifact.layout destination) with
  | (.error e, t₁) => (.error e, t₁)
  | (.ok (), t₁) => stageIn device t₁ (targets artifact destination)

/-- Publishing is preparing, and then moving if all could be prepared. -/
lemma publishIn_eq (device : Device) (t : FileTree) (artifact : Artifact) (destination : Path) :
    publishIn device t artifact destination =
      match prepareIn device t artifact destination with
      | (.error e, t₁) => (.error e, t₁)
      | (.ok staged, t₁) => moveIn device t₁ staged := by
  simp only [publishIn, publish, bind, StateT.bind, Files.makeDirectories, prepareIn]
  rcases t.makeDirectories (directory artifact.layout destination) with ⟨_ | _, t₁⟩
  · rfl
  · let := files device
    change StateT.bind (stageAll (targets artifact destination)) _ t₁ = _
    simp only [StateT.bind, bind, stageIn]
    rcases (stageAll (targets artifact destination) :
      StateM FileTree (Except FileError (List (Staged Place)))) t₁ with ⟨_ | staged, t₂⟩ <;> rfl

/-- **What cannot be prepared leaves all files as they were.** -/
theorem keepsFiles_of_prepareIn_error {e : FileError}
    (h : prepareIn device t artifact destination = (.error e, t')) : KeepsFiles t t' := by
  have hmade := keepsFiles_makeDirectories t (directory artifact.layout destination)
  unfold prepareIn at h
  split at h
  · next hfailed =>
      cases h
      rwa [hfailed] at hmade
  · next t₁ hmake =>
      rw [hmake] at hmade
      exact hmade.trans (keepsFiles_of_stageIn_error h)

/-- **Publishing replaces targets one after the other, up to some point.**  They are all replaced
exactly if nothing fails. -/
theorem publishIn_spec {result : Except FileError Unit} (hunits : artifact.units ≠ [])
    (h : publishIn device t artifact destination = (result, t')) :
    ∃ n ≤ (targets artifact destination).length,
      Replaced t t' ((targets artifact destination).take n) ∧
        (result = .ok () ↔ n = (targets artifact destination).length) := by
  have hlength : (targets artifact destination).length ≠ 0 := by
    rwa [length_targets, Ne, List.length_eq_zero_iff]
  rw [publishIn_eq] at h
  split at h
  · next hprepare =>
      cases h
      have hkept := keepsFiles_of_prepareIn_error hprepare
      exact ⟨0, Nat.zero_le _, ⟨hkept.toKeeps, [], .nil, hkept.files⟩,
        iff_of_false nofun hlength.symm⟩
  · next staged t₂ hprepare =>
      have hmade := keepsFiles_makeDirectories t (directory artifact.layout destination)
      unfold prepareIn at hprepare
      split at hprepare
      · exact nomatch hprepare
      · next t₁ hmake =>
          rw [hmake] at hmade
          obtain ⟨hwaiting, hstaged, -, -, hbesides⟩ := stageAll_spec hprepare
          obtain ⟨hmoved, n, hn, writes, hlead, hfiles, hresult⟩ := moveAll_spec hwaiting h
          rw [hbesides, hmade.files] at hfiles
          have hkeeps := (hmade.toKeeps.trans hstaged).trans hmoved
          exact ⟨n, hn, ⟨hkeeps, writes, hlead, hfiles⟩, hresult⟩

/-- **Publishing several files loses none of them, if their names differ.** -/
theorem read_of_publishIn (hlayout : artifact.layout = .perLevel)
    (hnames : (artifact.units.map (·.fileName)).Nodup)
    (hplain : ∀ u ∈ artifact.units, IsFileName u.fileName)
    (h : publishIn device t artifact destination = (.ok (), t')) {u : GeneratedUnit}
    (hu : u ∈ artifact.units) :
    t'.read (destination.child u.fileName) = .ok u.contents.toUTF8 := by
  obtain ⟨n, -, hreplaced, hdone⟩ := publishIn_spec (List.ne_nil_of_mem hu) h
  rw [hdone.mp rfl, List.take_length] at hreplaced
  have hapart := namesApart_targets hlayout hnames hplain destination
  have hmem : (destination.child u.fileName, u.contents) ∈ targets artifact destination := by
    rw [targets, hlayout]
    exact List.mem_map.mpr ⟨u, hu, rfl⟩
  have hread := hreplaced.read_eq_ok fun _ hlead => hapart.nodup_places hlead
  exact hread (destination.child u.fileName, u.contents) hmem

end Artifact

end LevelSchema
