import LevelSchema.Proofs.Files.Directories
import LevelSchema.Proofs.Publication

/-!
# What publication changes, place by place

`Publication.Replaced` looks at files only.  Here a place is compared as a whole, so that a
directory that comes into being is seen too: after a publication everything is what it was, except
where a target leads, and except for directories on the way to the one that the targets go to
(`Artifact.publishIn_changes`).
-/

namespace LevelSchema

namespace Publication

open FileTree

variable {device : Device} {t t' : FileTree} {staged : List (Staged Place)}

/-! ## No new directories -/

lemma noneNew_discardIn (device : Device) (t : FileTree) (staged : List (Staged Place)) :
    NoneNew t (discardIn device t staged) := by
  induction staged generalizing t with
  | nil => exact .refl t
  | cons s staged ih =>
      rw [discardIn_cons]
      exact (noneNew_erase t s.draft).trans (ih _)

lemma noneNew_stageIn {targets : List (Path × String)}
    {result : Except FileError (List (Staged Place))}
    (h : stageIn device t targets = (result, t')) : NoneNew t t' := by
  induction targets generalizing t t' result with
  | nil =>
      cases h
      exact .refl t
  | cons x targets ih =>
      rw [stageIn_cons] at h
      split at h
      · next hstage =>
          cases h
          exact noneNew_stage hstage
      next draft t₁ hstage =>
      have hfirst := noneNew_stage hstage
      split at h
      · next hrest =>
          cases h
          exact hfirst.trans (ih hrest)
      · next hrest =>
          cases h
          exact (hfirst.trans (ih hrest)).trans (noneNew_erase _ draft)

lemma noneNew_moveIn {result : Except FileError Unit} (h : moveIn device t staged = (result, t')) :
    NoneNew t t' := by
  induction staged generalizing t with
  | nil =>
      cases h
      exact .refl _
  | cons s staged ih =>
      rw [moveIn_cons] at h
      split at h
      · next hmove => exact (noneNew_move hmove).trans (ih h)
      · cases h
        exact noneNew_discardIn device t (s :: staged)

/-! ## Targets in a directory -/

/-- A path is its stem, and perhaps a slash.  The stem is empty if the path names nothing. -/
lemma parts_eq_stem (destination : Path) :
    (∃ n, destination.parts = stem destination ++ List.replicate n "") ∧
      (stem destination = [] ↔ destination.isEmpty = true) := by
  unfold stem
  by_cases hempty : destination.isEmpty = true
  · have hparts : destination.parts = [] ∨ destination.parts = [""] := by
      simpa [Path.isEmpty] using hempty
    rw [if_pos (by simp [hempty])]
    rcases hparts with hparts | hparts <;> rw [hparts]
    · exact ⟨⟨0, rfl⟩, iff_of_true rfl hempty⟩
    · exact ⟨⟨1, rfl⟩, iff_of_true rfl hempty⟩
  · have hne : destination.parts ≠ [] ∧ destination.parts ≠ [""] := by
      simpa [Path.isEmpty] using hempty
    by_cases hlast : destination.parts.getLast? = some ""
    · have hparts := List.dropLast_append_getLast? "" hlast
      rw [if_pos (by simp [Path.endsInSlash, hlast])]
      refine ⟨⟨1, hparts.symm⟩, iff_of_false (fun hnil => hne.2 ?_) hempty⟩
      rw [← hparts, hnil]
      rfl
    · rw [if_neg (by simp [Path.endsInSlash, hlast, hempty])]
      exact ⟨⟨0, (List.append_nil _).symm⟩, iff_of_false hne.1 hempty⟩

/-- A file in a directory is looked for from where the directory is. -/
lemma start_child {destination : Path} {name : String} (hname : IsFileName name) :
    t.start (destination.child name) = t.start destination := by
  have hparts := (endsIn_child hname destination).parts
  obtain ⟨⟨n, hdestination⟩, hempty⟩ := parts_eq_stem destination
  have habsolute : (destination.child name).isAbsolute = destination.isAbsolute := by
    rw [Path.isAbsolute, Path.isAbsolute, Path.isEmpty, hparts]
    cases hstem : stem destination with
    | nil => simp [hempty.mp hstem]
    | cons part stem =>
        have hnot : destination.isEmpty = false :=
          Bool.eq_false_of_not_eq_true (mt hempty.mpr (hstem ▸ List.cons_ne_nil part stem))
        rw [hdestination, hstem]
        simp [hnot]
  rw [start, start, habsolute]

/-- The stem of a path leads where the path does. -/
lemma leads_of_walk_stem {destination : Path} {d : Place}
    (h : t.walk (t.start destination) (stem destination) = .ok d)
    (hd : t.get? d = some .directory) : t.Leads destination d := by
  obtain ⟨⟨n, hparts⟩, -⟩ := parts_eq_stem destination
  rw [Leads, hparts, walk_append_eq_ok_iff]
  exact ⟨d, h, walk_replicate_empty hd n⟩

/-- A file in a directory is at the place of its name there. -/
lemma exists_leads_of_locate_child {destination : Path} {name : String} {p : Place}
    (hname : IsFileName name) (h : t.locate (destination.child name) = .ok p) :
    ∃ d, t.Leads destination d ∧ p = d ++ [name] := by
  obtain ⟨-, d, hwalk, hd, -, rfl⟩ := (endsIn_child hname destination).locate_eq_ok_iff.mp h
  rw [start_child hname] at hwalk
  exact ⟨d, leads_of_walk_stem hwalk hd, rfl⟩

end Publication

namespace Artifact

open Publication FileTree

variable {artifact : Artifact} {destination : Path} {device : Device} {t t' : FileTree}
  {result : Except FileError Unit}

/-- Directories that are new after a publication are on the way to where the targets go. -/
lemma addsOnly_publishIn (h : publishIn device t artifact destination = (result, t')) :
    AddsOnly t t' (directory artifact.layout destination).lineage := by
  have hmade := addsOnly_makeDirectories t (directory artifact.layout destination)
  rw [publishIn_eq, prepareIn] at h
  split at h
  · next hprepare =>
      split at hprepare
      · next hfailed =>
          cases h
          cases hprepare
          rwa [hfailed] at hmade
      · next t₁ hmake =>
          cases h
          rw [hmake] at hmade
          exact hmade.trans_noneNew (noneNew_stageIn hprepare)
            (keepsFiles_of_stageIn_error hprepare).toKeeps
  · next staged t₂ hprepare =>
      split at hprepare
      · cases hprepare
      · next t₁ hmake =>
          rw [hmake] at hmade
          obtain ⟨hwaiting, hstaged, -⟩ := stageAll_spec hprepare
          obtain ⟨hmoved, -⟩ := moveAll_spec hwaiting h
          exact hmade.trans_noneNew ((noneNew_stageIn hprepare).trans (noneNew_moveIn h))
            (hstaged.trans hmoved)

/-- **Publishing changes a place in one of two ways.**  A target leads there and the unit is there
now; or nothing was there, and a directory on the way to the targets is there now. -/
lemma publishIn_changes (hunits : artifact.units ≠ [])
    (h : publishIn device t artifact destination = (result, t')) (p : Place) :
    t'.get? p = t.get? p ∨
      (∃ x ∈ targets artifact destination,
        t'.locate x.1 = .ok p ∧ t'.get? p = some (.file x.2.toUTF8)) ∨
      (t.get? p = none ∧ t'.get? p = some .directory ∧
        ∃ path ∈ (directory artifact.layout destination).lineage, t'.Leads path p) := by
  obtain ⟨n, -, hreplaced, -⟩ := publishIn_spec hunits h
  obtain ⟨writes, hlead, hfiles⟩ := hreplaced.exists_writes
  rcases written_eq_or t.file? writes p with hsame | ⟨contents, hmem, hnew⟩
  · rw [← hfiles] at hsame
    rcases get?_eq_or_new_directory hreplaced.keeps hsame with heq | ⟨hnone, hdirectory⟩
    · exact .inl heq
    · rcases addsOnly_publishIn h p hdirectory with hold | hpath
      · rw [hnone] at hold
        exact nomatch hold
      · exact .inr (.inr ⟨hnone, hdirectory, hpath⟩)
  · obtain ⟨x, hx, hq, hcontents⟩ := exists_of_forall₂_of_mem hlead hmem
    rw [← hfiles, file?_eq_some_iff] at hnew
    exact .inr (.inl ⟨x, List.mem_of_mem_take hx, hq, hcontents ▸ hnew⟩)

/-- What a publication can do to a place: write the one file to the destination, write a unit under
its name in the destination, or create a directory. -/
inductive Touched (t t' : FileTree) (artifact : Artifact) (destination : Path) (p : Place) : Prop
  | output {u : GeneratedUnit} (hlayout : artifact.layout = .single) (hu : u ∈ artifact.units)
      (hplace : t'.Leads destination p) (hnow : t'.get? p = some (.file u.contents.toUTF8))
  | unit {u : GeneratedUnit} {d : Place} (hlayout : artifact.layout = .perLevel)
      (hu : u ∈ artifact.units) (hdirectory : t'.Leads destination d)
      (hplace : p = d ++ [u.fileName]) (hnow : t'.get? p = some (.file u.contents.toUTF8))
  | directory {path : Path}
      (hpath : path ∈ (Publication.directory artifact.layout destination).lineage)
      (hplace : t'.Leads path p) (hbefore : t.get? p = none) (hnow : t'.get? p = some .directory)

lemma eq_or_touched_of_publishIn (hunits : artifact.units ≠ [])
    (hnames : ∀ u ∈ artifact.units, IsFileName u.fileName)
    (h : publishIn device t artifact destination = (result, t')) (p : Place) :
    t'.get? p = t.get? p ∨ Touched t t' artifact destination p := by
  rcases publishIn_changes hunits h p with heq | ⟨x, hx, hq, hnow⟩ |
    ⟨hbefore, hnow, path, hpath, hplace⟩
  · exact .inl heq
  · unfold targets at hx
    cases hlayout : artifact.layout with
    | single =>
        rw [hlayout] at hx
        obtain ⟨u, hu, rfl⟩ := List.mem_map.mp hx
        exact .inr (.output hlayout hu (leads_of_locate hq) hnow)
    | perLevel =>
        rw [hlayout] at hx
        obtain ⟨u, hu, rfl⟩ := List.mem_map.mp hx
        obtain ⟨d, hd, hplace⟩ := exists_leads_of_locate_child (hnames u hu) hq
        exact .inr (.unit hlayout hu hd hplace hnow)
  · exact .inr (.directory hpath hplace hbefore hnow)

end Artifact

end LevelSchema
