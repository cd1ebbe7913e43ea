import LevelSchema.Proofs.Artifact

/-!
# Publishing replaces files one by one

Whatever happens while an artifact is published, the tree that is left differs from the one before
in the targets up to some point, and in directories that were created.  If something fails before
the first draft moves, no file has changed.

**Names and places.**  Units with different file names have different targets, as long as the names
are names of files.  Those of a compiled artifact always are (`Session.isFileName_of_compile`),
since levels are called by identifiers.  A schema that is built by hand may have a level called
`./x`, whose file is that of `x` by another name, and then one of the two is lost.
-/

namespace LevelSchema

namespace Artifact

open Code Publication

variable {artifact : Artifact} {settings : EmitSettings} {modules : List Module}

lemma units_ofModules_ne_nil (settings : EmitSettings) (modules : List Module) :
    (ofModules settings modules).units ≠ [] := by
  unfold ofModules
  cases settings.layout <;> exact List.cons_ne_nil _ _

/-- The files of several units are called by something with an ending. -/
lemma isName_of_mem_ofModules (hlayout : settings.layout = .perLevel) {u : GeneratedUnit}
    (hu : u ∈ (ofModules settings modules).units) : u.fileName ∉ ["", ".", ".."] := by
  rw [ofModules, hlayout] at hu
  rcases List.mem_cons.mp hu with rfl | hu
  · exact append_rs_isName "mod"
  · obtain ⟨m, -, rfl⟩ := List.mem_map.mp hu
    exact append_rs_isName _

/-- Units with different file names have targets that lead to different places. -/
lemma nodup_places (hnames : ((ofModules settings modules).units.map (·.fileName)).Nodup)
    (hslash : ∀ u ∈ (ofModules settings modules).units, '/' ∉ u.fileName.toList)
    {destination : Path} {t : FileTree} {writes : List (Place × ByteArray)}
    (hlead : LeadTo t (targets (ofModules settings modules) destination) writes) :
    (writes.map (·.1)).Nodup := by
  cases hlayout : settings.layout with
  | single =>
      have hone : (targets (ofModules settings modules) destination).length = 1 := by
        rw [length_targets, ofModules, hlayout]
        rfl
      rw [hlead.length_eq] at hone
      obtain ⟨w, rfl⟩ := List.length_eq_one_iff.mp hone
      exact List.nodup_singleton _
  | perLevel =>
      exact (namesApart_targets hlayout hnames (fun u hu =>
        ⟨isName_of_mem_ofModules hlayout hu, hslash u hu⟩) destination).nodup_places hlead

end Artifact

namespace Session

open Code Artifact

/-- The files of a compiled artifact are called by names of files. -/
lemma isFileName_of_compile {settings : Settings} {session : Session} {source : String}
    {artifact : Artifact} (hstart : Session.start settings = .ok session)
    (h : (session.compile source).result = .ok artifact) :
    ∀ u ∈ artifact.units, Publication.IsFileName u.fileName := by
  obtain ⟨loaded, resolved, modules, hload, hresolve, hmodules, rfl⟩ :=
    exists_modules_of_compile hstart h
  have hs := Schema.wellFormed_of_ofSource hload
  have hP := isIdentifier_of_mem_primitives (start_eq_ok_iff.mp hstart).1
  have hlegal : ∀ m ∈ modules, Name.Legal m.name := fun m hm =>
    (hs.wellNamed_of_mem_modules hP hresolve hmodules hm).legal _ List.mem_cons_self
  intro u hu
  cases hlayout : settings.emit.layout with
  | single =>
      rw [ofModules, hlayout] at hu
      obtain rfl := List.mem_singleton.mp hu
      exact ⟨append_rs_isName "model", (by decide : '/' ∉ singleFileName.toList)⟩
  | perLevel =>
      have hnames : ∀ n ∈ (modules.map (·.name)).map Name.bare, Name.isIdentifier n = true := by
        rw [List.map_map]
        exact List.forall_mem_map.mpr fun m hm => (hlegal m hm).isIdentifier
      refine isFileName_of_mem_fileNames hnames ?_
      rw [← map_fileName_ofModules hlayout hlegal]
      exact List.mem_map.mpr ⟨u, hu, rfl⟩

end Session

namespace ResolvedSchema

open Artifact Publication

variable {r : ResolvedSchema} {settings : EmitSettings} {artifact : Artifact} {destination : Path}
  {device : FileTree.Device} {t t' : FileTree} {result : Except FileError Unit}

/-- **Publishing replaces targets one by one, and nothing else.**  If something fails before the
first draft moves, all files are what they were and there are no new ones.  Whatever comes of it,
directories stay; where no target leads files are what they were, so no draft is left; and the
targets that were written are the first ones, all of them exactly if the publication succeeds.  Then
every target holds the contents of its unit, if the units have different file names without slashes
in them.  Names with slashes are no names of files, and no run makes any. -/
theorem publish_replaces_first_targets (hemit : r.emit settings = .ok artifact)
    (h : publishIn device t artifact destination = (result, t')) :
    (∀ e t₁, prepareIn device t artifact destination = (.error e, t₁) →
      result = .error e ∧ t'.file? = t.file?) ∧
    (∀ p, t.get? p = some .directory → t'.get? p = some .directory) ∧
    (∀ p, (∀ x ∈ targets artifact destination, t'.locate x.1 ≠ .ok p) →
      t'.file? p = t.file? p) ∧
    (∃ n ≤ (targets artifact destination).length,
      Replaced t t' ((targets artifact destination).take n) ∧
        (result = .ok () ↔ n = (targets artifact destination).length)) ∧
    (result = .ok () → (artifact.units.map (·.fileName)).Nodup →
      (∀ u ∈ artifact.units, '/' ∉ u.fileName.toList) →
        ∀ x ∈ targets artifact destination, t'.read x.1 = .ok x.2.toUTF8) ∧
    ∀ configured session source, Session.start configured = .ok session →
      (session.compile source).result = .ok artifact →
        ∀ u ∈ artifact.units, '/' ∉ u.fileName.toList := by
  obtain ⟨modules, -, hartifact⟩ := bind_eq_ok_iff.mp hemit
  obtain rfl := pure_eq_ok_iff.mp hartifact
  obtain ⟨n, hn, hreplaced, hdone⟩ := publishIn_spec (units_ofModules_ne_nil settings modules) h
  refine ⟨fun e t₁ hprepare => ?_, hreplaced.keeps.directory, fun p hp => ?_,
    ⟨n, hn, hreplaced, hdone⟩, fun hok hnames hslash => ?_, fun _ _ _ hstart hcompile u hu =>
      (Session.isFileName_of_compile hstart hcompile u hu).noSlash⟩
  · rw [publishIn_eq, hprepare] at h
    cases h
    exact ⟨rfl, (keepsFiles_of_prepareIn_error hprepare).files⟩
  · exact hreplaced.file?_eq fun x hx => hp x (List.mem_of_mem_take hx)
  · rw [hdone.mp hok, List.take_length] at hreplaced
    exact hreplaced.read_eq_ok fun writes hlead => nodup_places hnames hslash hlead

/-- A schema with levels in which nothing is declared. -/
def emptyLevels (names : List String) : ResolvedSchema :=
  ⟨names.map fun name => ⟨name, none, ⟨0, 0⟩, [], [], [], []⟩⟩

/-- A tree in which a directory is in the way of the second unit. -/
def siteTaken : FileTree :=
  ⟨[], [(["out"], .directory), (["out", "mod.rs"], .file "old".toUTF8),
    (["out", "site.rs"], .directory), (["out", "park.rs"], .file "park".toUTF8)]⟩

/-- A device that takes files up to a size. -/
def upTo (size : Nat) : FileTree.Device := fun _ _ contents =>
  if contents.size ≤ size then .ok () else .error .full

/-- The root file is replaced, the level's file is not, and nothing else has changed.  On a device
with room for the root only, no file has changed.  Where nothing is in the way, both are written. -/
theorem siteTaken_root_replaced : ∃ artifact t' t'' written, (emptyLevels ["Site"]).emit
      { layout := .perLevel } = .ok artifact ∧
    publishIn .roomy siteTaken artifact (.ofText "out") = (.error .isDirectory, t') ∧
    (∀ p, (∀ x ∈ targets artifact (.ofText "out"), t'.locate x.1 ≠ .ok p) →
      t'.file? p = siteTaken.file? p) ∧
    (∃ n < (targets artifact (.ofText "out")).length,
      Replaced siteTaken t' ((targets artifact (.ofText "out")).take n)) ∧
    publishIn (upTo 100) siteTaken artifact (.ofText "out") = (.error .full, t'') ∧
      t''.file? = siteTaken.file? ∧
    publishIn .roomy ⟨[], []⟩ artifact (.ofText "out") = (.ok (), written) ∧
      ∀ x ∈ targets artifact (.ofText "out"), written.read x.1 = .ok x.2.toUTF8 := by
  have hrun : ((emptyLevels ["Site"]).emit { layout := .perLevel }).toOption.any (fun a =>
      decide ((publishIn .roomy siteTaken a (.ofText "out")).1 = .error .isDirectory ∧
        (publishIn (upTo 100) siteTaken a (.ofText "out")).1 = .error .full ∧
        (prepareIn (upTo 100) siteTaken a (.ofText "out")).1.isOk = false ∧
        (publishIn .roomy ⟨[], []⟩ a (.ofText "out")).1 = .ok () ∧
        (a.units.map (·.fileName)).Nodup ∧ ∀ u ∈ a.units, '/' ∉ u.fileName.toList)) = true := by
    decide +kernel
  cases hemit : (emptyLevels ["Site"]).emit { layout := .perLevel } with
  | error e =>
      rw [hemit] at hrun
      cases hrun
  | ok artifact =>
      rw [hemit] at hrun
      obtain ⟨htaken, hfull, hprepare, hdone, hnames, hslash⟩ := of_decide_eq_true hrun
      obtain ⟨-, -, hothers, ⟨n, hn, hreplaced, hall⟩, -⟩ :=
        publish_replaces_first_targets hemit
          (Prod.ext htaken rfl : publishIn .roomy siteTaken artifact (.ofText "out") = (_, _))
      obtain ⟨hunprepared, -⟩ := publish_replaces_first_targets hemit
        (Prod.ext hfull rfl : publishIn (upTo 100) siteTaken artifact (.ofText "out") = (_, _))
      obtain ⟨-, -, -, -, hwritten, -⟩ := publish_replaces_first_targets hemit
        (Prod.ext hdone rfl : publishIn .roomy ⟨[], []⟩ artifact (.ofText "out") = (_, _))
      have hnot : n ≠ (targets artifact (.ofText "out")).length := by
        intro hlength
        cases hall.mpr hlength
      have hkept : (publishIn (upTo 100) siteTaken artifact (.ofText "out")).2.file? =
          siteTaken.file? := by
        cases hresult : (prepareIn (upTo 100) siteTaken artifact (.ofText "out")).1 with
        | ok staged =>
            rw [hresult] at hprepare
            cases hprepare
        | error e => exact (hunprepared e _ (Prod.ext hresult rfl)).2
      exact ⟨artifact, _, _, _, rfl, Prod.ext htaken rfl, hothers,
        ⟨n, lt_of_le_of_ne hn hnot, hreplaced⟩, Prod.ext hfull rfl, hkept, Prod.ext hdone rfl,
        hwritten rfl hnames hslash⟩

/-- Two levels whose files have different names and one place: the second replaces the first, and
the publication succeeds with a target that does not hold its unit. -/
theorem dotted_level_shares_file : ∃ artifact t',
    (emptyLevels ["x", "./x"]).emit { layout := .perLevel } = .ok artifact ∧
    artifact.units.map (·.fileName) = ["mod.rs", "x.rs", "./x.rs"] ∧
    (artifact.units.map (·.fileName)).Nodup ∧
    publishIn .roomy ⟨[], []⟩ artifact (.ofText "out") = (.ok (), t') ∧
    ∃ x ∈ targets artifact (.ofText "out"), t'.read x.1 ≠ .ok x.2.toUTF8 := by
  have hrun : ((emptyLevels ["x", "./x"]).emit { layout := .perLevel }).toOption.any (fun a =>
      decide (a.units.map (·.fileName) = ["mod.rs", "x.rs", "./x.rs"] ∧
        (publishIn .roomy ⟨[], []⟩ a (.ofText "out")).1 = .ok () ∧
          ∃ x ∈ targets a (.ofText "out"),
            ((publishIn .roomy ⟨[], []⟩ a (.ofText "out")).2.read x.1).toOption ≠
              some x.2.toUTF8)) = true := by
    decide +kernel
  cases hemit : (emptyLevels ["x", "./x"]).emit { layout := .perLevel } with
  | error e =>
      rw [hemit] at hrun
      cases hrun
  | ok artifact =>
      rw [hemit] at hrun
      obtain ⟨hnames, hdone, x, hx, hlost⟩ := of_decide_eq_true hrun
      refine ⟨artifact, _, rfl, hnames, ?_, Prod.ext hdone rfl, x, hx, fun hread => hlost ?_⟩
      · rw [hnames]
        decide
      · rw [hread]
        rfl

end ResolvedSchema

end LevelSchema
