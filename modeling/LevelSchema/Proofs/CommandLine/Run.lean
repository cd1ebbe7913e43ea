import LevelSchema.CommandLine.Run
import LevelSchema.Proofs.Publication.Changes
import LevelSchema.Proofs.Publication.Replacement

/-!
# What a run changes

Until there is an artifact a run only reads.  So it leaves all files alone if it only checks, and if
anything stops it before publication (`Stops` lists what can).  What publication changes then is
the output and the directories it is in.  None of this depends on what configuration files are
written in, nor on the device.

**Reading.**  The steps of a run are programs over any kind of files.  `Reads` says of such a
program that it leaves every tree as it is, so that it has a result in a tree and nothing else
(`resultIn`); what is put together from such programs is again one.
-/

namespace LevelSchema.CommandLine

open Artifact

variable {α β : Type} {t t' : FileTree}

/-! ## Programs that only read -/

/-- A part of a run in a file tree. -/
abbrev Step (α : Type) := ExceptT Failure (StateM FileTree) α

/-- What a step comes to in a tree. -/
def resultIn (t : FileTree) (x : Step α) : Except Failure α :=
  (x.run t).1

/-- The step leaves every tree as it is. -/
def Reads (x : Step α) : Prop :=
  ∀ t, x.run t = (resultIn t x, t)

lemma reads_pure (a : α) : Reads (pure a : Step α) :=
  fun _ => rfl

lemma reads_throw (e : Failure) : Reads (throw e : Step α) :=
  fun _ => rfl

/-- After a step that only reads, the next one starts from the same tree. -/
lemma Reads.run_bind {x : Step α} (h : Reads x) (f : α → Step β) (t : FileTree) :
    (x >>= f).run t = match resultIn t x with
      | .ok a => (f a).run t
      | .error e => (.error e, t) := by
  show ExceptT.bindCont f (x.run t).1 (x.run t).2 = _
  rw [h t]
  cases resultIn t x <;> rfl

/-- Steps that only read do so together. -/
lemma Reads.bind {x : Step α} {f : α → Step β} (h : Reads x) (hf : ∀ a, Reads (f a)) :
    Reads (x >>= f) := by
  intro t
  unfold resultIn
  rw [h.run_bind]
  cases resultIn t x with
  | error e => rfl
  | ok a => exact hf a t

lemma reads_lift {x : StateM FileTree α} (h : ∀ t, (x t).2 = t) : Reads (ExceptT.lift x) :=
  fun t => Prod.ext rfl (h t)

lemma reads_readText (path : String) : Reads (readText path : Step String) := by
  have hread : ∀ t : FileTree, ((Files.readText (Path.ofText path) :
      StateM FileTree (Except FileError String)) t).2 = t := by
    intro t
    simp only [Files.readText, Files.read, bind, StateT.bind]
    cases t.read (Path.ofText path) with
    | error e => rfl
    | ok bytes =>
        dsimp only
        cases String.fromUTF8? bytes <;> rfl
  refine (reads_lift hread).bind fun answer => ?_
  cases answer with
  | error e => exact reads_throw _
  | ok text => exact reads_pure text

lemma reads_isPresent (path : String) : Reads (isPresent path : Step Bool) :=
  fun _ => rfl

/-- Reading settings changes no file, whichever reader is used. -/
lemma reads_readSettings (reader : SettingsReader) (path : String) :
    Reads (readSettings reader path : Step Settings) := by
  unfold readSettings
  refine (reads_isPresent path).bind fun present => ?_
  split
  · refine (reads_readText path).bind fun text => ?_
    split
    · exact reads_pure _
    · exact reads_throw _
  · exact reads_throw _

lemma reads_findSettings (reader : SettingsReader) (userConfig explicit : Option String) :
    Reads (findSettings reader userConfig explicit : Step Settings) := by
  unfold findSettings
  split
  · exact reads_readSettings _ _
  · refine (reads_isPresent localConfig).bind fun present => ?_
    split
    · exact reads_readSettings _ _
    · split
      · next path =>
          refine (reads_isPresent path).bind fun present => ?_
          split
          · exact reads_readSettings reader path
          · exact reads_pure _
      · exact reads_pure _

/-- Preparing a run changes no file. -/
lemma reads_prepare (reader : SettingsReader) (userConfig : Option String)
    (arguments : Arguments) :
    Reads (prepare reader userConfig arguments : Step (Session × String)) := by
  unfold prepare
  refine (reads_findSettings reader userConfig arguments.config).bind fun settings => ?_
  refine (reads_readText arguments.input).bind fun source => ?_
  cases Session.start settings with
  | error e => exact reads_throw e
  | ok session => exact reads_pure _

/-! ## What stops a run -/

variable {device : FileTree.Device} {reader : SettingsReader} {userConfig : Option String}
  {arguments : Arguments} {settings : Settings}
  {source : String} {loaded : Noted Diagnostic Schema} {artifact : Artifact} {e : Failure}

/-- The settings that a run finds. -/
abbrev settingsIn (reader : SettingsReader) (t : FileTree) (userConfig : Option String)
    (arguments : Arguments) : Except Failure Settings :=
  resultIn t (findSettings reader userConfig arguments.config)

/-- The source that a run reads. -/
abbrev sourceIn (t : FileTree) (arguments : Arguments) : Except Failure String :=
  resultIn t (readText arguments.input)

/-- A run has what it needs: the settings were found and are usable, and the source was read. -/
structure Prepared (reader : SettingsReader) (t : FileTree) (userConfig : Option String)
    (arguments : Arguments) (settings : Settings) (source : String) : Prop where
  found : settingsIn reader t userConfig arguments = .ok settings
  read : sourceIn t arguments = .ok source
  usable : Session.start settings = .ok ⟨settings, .idle, ""⟩

/-- The run comes to an artifact: its source can be loaded, resolved and generated from. -/
inductive Compiles (reader : SettingsReader) (t : FileTree) (userConfig : Option String)
    (arguments : Arguments) (artifact : Artifact) : Prop
  | mk {settings : Settings} {source : String} {loaded : Noted Diagnostic Schema}
      {resolved : ResolvedSchema}
      (hprepared : Prepared reader t userConfig arguments settings source)
      (hload : Schema.ofSource source = .ok loaded)
      (hresolve : loaded.value.resolve settings.primitives = .ok resolved)
      (hemit : resolved.emit settings.emit = .ok artifact)

/-- What stops a run before anything is published, and the failure it then ends with. -/
inductive Stops (reader : SettingsReader) (t : FileTree) (userConfig : Option String)
    (arguments : Arguments) : Failure → Prop
  | settings {e : Failure} (h : settingsIn reader t userConfig arguments = .error e) :
      Stops reader t userConfig arguments e
  | input {settings : Settings} {e : Failure}
      (hfound : settingsIn reader t userConfig arguments = .ok settings)
      (h : sourceIn t arguments = .error e) : Stops reader t userConfig arguments e
  | validation {settings : Settings} {source : String} {e : Failure}
      (hfound : settingsIn reader t userConfig arguments = .ok settings)
      (hread : sourceIn t arguments = .ok source) (h : Session.start settings = .error e) :
      Stops reader t userConfig arguments e
  | load {settings : Settings} {source : String} {r : Rejection}
      (hprepared : Prepared reader t userConfig arguments settings source)
      (h : Schema.ofSource source = .error r) :
      Stops reader t userConfig arguments (.schema r source)
  | resolve {settings : Settings} {source : String} {loaded : Noted Diagnostic Schema}
      {r : Rejection} (hprepared : Prepared reader t userConfig arguments settings source)
      (hload : Schema.ofSource source = .ok loaded)
      (h : loaded.value.resolve settings.primitives = .error r) :
      Stops reader t userConfig arguments (.schema r source)
  | emit {settings : Settings} {source : String} {loaded : Noted Diagnostic Schema}
      {resolved : ResolvedSchema} {f : Code.Fault}
      (hprepared : Prepared reader t userConfig arguments settings source)
      (hload : Schema.ofSource source = .ok loaded)
      (hresolve : loaded.value.resolve settings.primitives = .ok resolved)
      (h : resolved.emit settings.emit = .error f) :
      Stops reader t userConfig arguments (.internal (.inconsistent f))

/-- Every run is stopped by something or comes to an artifact. -/
lemma stops_or_compiles (reader : SettingsReader) (t : FileTree) (userConfig : Option String)
    (arguments : Arguments) :
    (∃ e, Stops reader t userConfig arguments e) ∨
      ∃ artifact, Compiles reader t userConfig arguments artifact := by
  cases hfound : settingsIn reader t userConfig arguments with
  | error e => exact .inl ⟨e, .settings hfound⟩
  | ok settings =>
  cases hread : sourceIn t arguments with
  | error e => exact .inl ⟨e, .input hfound hread⟩
  | ok source =>
  cases hstart : Session.start settings with
  | error e => exact .inl ⟨e, .validation hfound hread hstart⟩
  | ok session =>
  obtain ⟨-, rfl⟩ := Session.start_eq_ok_iff.mp hstart
  have hprepared : Prepared reader t userConfig arguments settings source := ⟨hfound, hread, hstart⟩
  cases hload : Schema.ofSource source with
  | error r => exact .inl ⟨_, .load hprepared hload⟩
  | ok loaded =>
  cases hresolve : loaded.value.resolve settings.primitives with
  | error r => exact .inl ⟨_, .resolve hprepared hload hresolve⟩
  | ok resolved =>
  cases hemit : resolved.emit settings.emit with
  | error f => exact .inl ⟨_, .emit hprepared hload hresolve hemit⟩
  | ok artifact => exact .inr ⟨artifact, .mk hprepared hload hresolve hemit⟩

/-! ## What a run comes to -/

/-- Run in a file tree on a device. -/
abbrev runIn (device : FileTree.Device) (reader : SettingsReader) (t : FileTree)
    (userConfig : Option String) (arguments : Arguments) : Outcome × FileTree :=
  letI := FileTree.files device
  (runWith reader userConfig arguments : StateM FileTree Outcome) t

/-- Preparing reads the settings, then the source, and starts a session. -/
lemma resultIn_prepare (reader : SettingsReader) (t : FileTree) (userConfig : Option String)
    (arguments : Arguments) :
    resultIn t (prepare reader userConfig arguments) = (do
      let settings ← settingsIn reader t userConfig arguments
      let source ← sourceIn t arguments
      let session ← Session.start settings
      pure (session, source)) := by
  rw [settingsIn, sourceIn, resultIn, prepare,
    (reads_findSettings reader userConfig arguments.config).run_bind]
  cases resultIn t (findSettings reader userConfig arguments.config) with
  | error e => rfl
  | ok settings =>
      dsimp only
      rw [(reads_readText arguments.input).run_bind]
      cases resultIn t (readText arguments.input) with
      | error e => rfl
      | ok source =>
          dsimp only
          show _ = (Session.start settings >>= fun session => pure (session, source))
          cases Session.start settings <;> rfl

/-- What a run does once it has a session and a source. -/
def conclude (device : FileTree.Device) (t : FileTree) (arguments : Arguments) (session : Session)
    (source : String) : Outcome × FileTree :=
  if arguments.check then
    (⟨(session.check source).result.map fun _ => (), (session.check source).warnings⟩, t)
  else
    match (session.compile source).result with
    | .error e => (⟨.error e, (session.compile source).warnings⟩, t)
    | .ok artifact =>
        let published := publishIn device t artifact (Path.ofText arguments.output)
        (⟨published.1.mapError .file, (session.compile source).warnings⟩, published.2)

lemma runIn_eq (device : FileTree.Device) (reader : SettingsReader) (t : FileTree)
    (userConfig : Option String) (arguments : Arguments) :
    runIn device reader t userConfig arguments =
      match resultIn t (prepare reader userConfig arguments) with
      | .error e => (⟨.error e, []⟩, t)
      | .ok (session, source) => conclude device t arguments session source := by
  -- reading does not depend on the device
  have hrun : (@prepare Place (StateM FileTree) _ (FileTree.files device) reader userConfig
      arguments).run t = (resultIn t (prepare reader userConfig arguments), t) :=
    reads_prepare reader userConfig arguments t
  simp only [runIn, runWith, bind, StateT.bind, hrun]
  cases resultIn t (prepare reader userConfig arguments) with
  | error e => rfl
  | ok prepared =>
      obtain ⟨session, source⟩ := prepared
      dsimp only [conclude]
      split_ifs with hcheck
      · rfl
      · cases (session.compile source).result with
        | error e => rfl
        | ok artifact => rfl

/-- A run that is prepared is concluded from its session. -/
lemma runIn_of_prepared (h : Prepared reader t userConfig arguments settings source) :
    runIn device reader t userConfig arguments =
      conclude device t arguments ⟨settings, .idle, ""⟩ source := by
  have hprepare : resultIn t (prepare reader userConfig arguments) =
      .ok (⟨settings, .idle, ""⟩, source) := by
    rw [resultIn_prepare, h.found, h.read]
    exact congrArg (· >>= fun session => pure (session, source)) h.usable
  rw [runIn_eq, hprepare]

/-! ## Sessions -/

section Conclude

variable {session : Session}

/-- A run that only checks writes nothing. -/
lemma conclude_of_check (hcheck : arguments.check = true) :
    conclude device t arguments session source =
      (⟨(session.check source).result.map fun _ => (), (session.check source).warnings⟩, t) :=
  if_pos hcheck

/-- A compilation that fails writes nothing. -/
lemma conclude_of_error (hcheck : (session.check source).result = .error e)
    (hcompile : (session.compile source).result = .error e) :
    (conclude device t arguments session source).1.result = .error e ∧
      (conclude device t arguments session source).2 = t := by
  unfold conclude
  split_ifs
  · rw [hcheck]
    exact ⟨rfl, rfl⟩
  · rw [hcompile]
    exact ⟨rfl, rfl⟩

/-- A compilation that succeeds is published. -/
lemma conclude_of_ok (hcheck : arguments.check = false)
    (hcompile : (session.compile source).result = .ok artifact) :
    ∃ published, publishIn device t artifact (Path.ofText arguments.output) =
        (published, (conclude device t arguments session source).2) ∧
      (conclude device t arguments session source).1.result = published.mapError .file := by
  rw [conclude, hcheck, if_neg Bool.false_ne_true, hcompile]
  exact ⟨_, rfl, rfl⟩

end Conclude

/-- What checking a text comes to in a new session. -/
lemma result_check (settings : Settings) (source : String) :
    ((Session.mk settings .idle "").check source).result =
      match Schema.ofSource source with
      | .error r => .error (.schema r source)
      | .ok loaded =>
          match loaded.value.resolve settings.primitives with
          | .error r => .error (.schema r source)
          | .ok resolved => .ok resolved := by
  cases hload : Schema.ofSource source with
  | error r =>
      simp [Session.check, Session.load, Session.enter, Session.atStage, Stage.canMoveTo, hload,
        Session.fail, Reply.andThen]
  | ok loaded =>
      cases hresolve : loaded.value.resolve settings.primitives with
      | error r =>
          simp [Session.check, Session.load, Session.resolve, Session.enter, Session.atStage,
            Stage.canMoveTo, hload, hresolve, Session.finish, Session.fail, Reply.andThen]
      | ok resolved =>
          simp [Session.check, Session.load, Session.resolve, Session.enter, Session.atStage,
            Stage.canMoveTo, hload, hresolve, Session.finish, Reply.andThen]

/-- Compiling in a new session comes to the artifact that is generated. -/
lemma result_compile {resolved : ResolvedSchema} (hload : Schema.ofSource source = .ok loaded)
    (hresolve : loaded.value.resolve settings.primitives = .ok resolved)
    (hemit : resolved.emit settings.emit = .ok artifact) :
    ((Session.mk settings .idle "").compile source).result = .ok artifact := by
  obtain ⟨generated, hgenerated, hcompile⟩ := Session.compile_of_resolve_ok hload hresolve
  rw [hemit] at hgenerated
  cases hgenerated
  rw [hcompile]

/-- **A run that is stopped ends with what stops it, and leaves all files alone.** -/
lemma runIn_of_stops (h : Stops reader t userConfig arguments e) :
    (runIn device reader t userConfig arguments).1.result = .error e ∧
      (runIn device reader t userConfig arguments).2 = t := by
  cases h with
  | settings h =>
      rw [runIn_eq, resultIn_prepare, h]
      exact ⟨rfl, rfl⟩
  | input hfound h =>
      rw [runIn_eq, resultIn_prepare, hfound, h]
      exact ⟨rfl, rfl⟩
  | @validation settings source e hfound hread h =>
      have hprepare : resultIn t (prepare reader userConfig arguments) = .error e := by
        rw [resultIn_prepare, hfound, hread]
        exact congrArg (· >>= fun session => pure (session, source)) h
      rw [runIn_eq, hprepare]
      exact ⟨rfl, rfl⟩
  | load hprepared h =>
      rw [runIn_of_prepared hprepared]
      refine conclude_of_error ?_ ?_
      · rw [result_check, h]
      · rw [Session.compile_of_load_error h]
  | resolve hprepared hload h =>
      rw [runIn_of_prepared hprepared]
      refine conclude_of_error ?_ ?_
      · rw [result_check, hload]
        simp only [h]
      · rw [Session.compile_of_resolve_error hload h]
  | emit hprepared hload hresolve h =>
      -- what was resolved can always be generated from
      obtain ⟨artifact, hemit, -⟩ := Session.compile_of_resolve_ok hload hresolve
      rw [h] at hemit
      exact nomatch hemit

/-- A run that only checks leaves all files alone, whatever it finds. -/
lemma runIn_of_check (hcheck : arguments.check = true) :
    (runIn device reader t userConfig arguments).2 = t := by
  rw [runIn_eq]
  split
  · rfl
  · rw [conclude_of_check hcheck]

/-- A run that comes to an artifact publishes it, unless it only checks. -/
lemma runIn_of_compiles (h : Compiles reader t userConfig arguments artifact) :
    (arguments.check = true → (runIn device reader t userConfig arguments).1.result = .ok ()) ∧
      (arguments.check = false → ∃ published,
        publishIn device t artifact (Path.ofText arguments.output) =
            (published, (runIn device reader t userConfig arguments).2) ∧
          (runIn device reader t userConfig arguments).1.result = published.mapError .file) := by
  obtain ⟨hprepared, hload, hresolve, hemit⟩ := h
  rw [runIn_of_prepared hprepared]
  constructor
  · intro hcheck
    rw [conclude_of_check hcheck, result_check, hload]
    simp only [hresolve]
    rfl
  · intro hcheck
    exact conclude_of_ok hcheck (result_compile hload hresolve hemit)

/-- What publishing the artifact of a run changes. -/
lemma frame_of_compiles (h : Compiles reader t userConfig arguments artifact) {destination : Path}
    {result : Except FileError Unit}
    (hpublish : publishIn device t artifact destination = (result, t')) :
    t'.home = t.home ∧ ∀ p, t'.get? p = t.get? p ∨ Touched t t' artifact destination p := by
  obtain ⟨hprepared, hload, hresolve, hemit⟩ := h
  have hcompile := result_compile hload hresolve hemit
  have hnames := Session.isFileName_of_compile hprepared.usable hcompile
  have hunits : artifact.units ≠ [] := by
    obtain ⟨modules, -, hartifact⟩ := bind_eq_ok_iff.mp hemit
    obtain rfl := pure_eq_ok_iff.mp hartifact
    exact units_ofModules_ne_nil _ modules
  obtain ⟨n, -, hreplaced, -⟩ := publishIn_spec hunits hpublish
  exact ⟨hreplaced.keeps.home, eq_or_touched_of_publishIn hunits hnames hpublish⟩

/-- **A run changes its output and nothing else.**  If it only checks, or if something stops it
while it looks for settings, reads, validates, loads, resolves or generates, the tree after it is
the tree before.  Otherwise it comes to an artifact and publishes it.  Whatever comes of that, every
place is what it was except where the artifact was written (the output itself, or files in it that
are called by the units) and except for new directories on the way there.  This holds for every
device and for every way of reading configuration files, of which `run` has one. -/
theorem run_changes_only_output (device : FileTree.Device) (reader : SettingsReader)
    (t : FileTree) (userConfig : Option String) (arguments : Arguments) {outcome : Outcome}
    {t' : FileTree}
    (h : runIn device reader t userConfig arguments = (outcome, t')) :
    (arguments.check = true → t' = t) ∧
    (∀ e, Stops reader t userConfig arguments e → outcome.result = .error e ∧ t' = t) ∧
    ((∀ e, ¬ Stops reader t userConfig arguments e) →
      ∃ artifact, Compiles reader t userConfig arguments artifact ∧
        (arguments.check = true → outcome.result = .ok ()) ∧
        (arguments.check = false → ∃ published,
          publishIn device t artifact (Path.ofText arguments.output) = (published, t') ∧
            outcome.result = published.mapError .file) ∧
        t'.home = t.home ∧
        ∀ p, t'.get? p = t.get? p ∨
          Touched t t' artifact (Path.ofText arguments.output) p) := by
  obtain rfl : outcome = (runIn device reader t userConfig arguments).1 := congrArg Prod.fst h.symm
  obtain rfl : t' = (runIn device reader t userConfig arguments).2 := congrArg Prod.snd h.symm
  refine ⟨runIn_of_check, fun e => runIn_of_stops, fun hnone => ?_⟩
  rcases stops_or_compiles reader t userConfig arguments with ⟨e, hstops⟩ | ⟨artifact, hcompiles⟩
  · exact absurd hstops (hnone e)
  obtain ⟨hchecked, hpublished⟩ := runIn_of_compiles hcompiles
  refine ⟨artifact, hcompiles, hchecked, hpublished, ?_⟩
  cases hcheck : arguments.check with
  | true =>
      rw [runIn_of_check hcheck]
      exact ⟨rfl, fun p => .inl rfl⟩
  | false =>
      obtain ⟨published, hpublish, -⟩ := hpublished hcheck
      exact frame_of_compiles hcompiles hpublish

/-- A schema, a text that is none, and a configuration that asks for a file for each level. -/
def workshop : FileTree :=
  ⟨["work"], [(["work"], .directory), (["work", "semio"], .directory),
    (["work", "semio", "config.toml"], .file "[emit]\nlayout = \"per-level\"\n".toUTF8),
    (["work", "site"], .file "AbstractionLevel Site\n    Object Plot\n".toUTF8),
    (["work", "notes"], .file "Object Plot\n".toUTF8)]⟩

/-- Compile a file of the workshop. -/
def compileFile (input : String) : Arguments :=
  ⟨input, "out/../gen/", none, "info", false⟩

/-- Where something new is after the schema was compiled. -/
def newPlaces : List Place :=
  [["work", "gen", "mod.rs"], ["work", "gen", "site.rs"], ["work", "gen"], ["work", "out"]]

/-- The notes stop a run, which leaves the workshop as it is.  From the schema a run writes two
files, into a directory that it creates, and creates one more on the way. -/
theorem workshop_run_twice :
    (∃ e, Stops readToml workshop none (compileFile "notes") e ∧
      (runIn .roomy readToml workshop none (compileFile "notes")).1.result = .error e ∧
        (runIn .roomy readToml workshop none (compileFile "notes")).2 = workshop) ∧
    ∃ artifact, Compiles readToml workshop none (compileFile "site") artifact ∧
      ∀ p ∈ newPlaces,
        Touched workshop (runIn .roomy readToml workshop none (compileFile "site")).2 artifact
          (Path.ofText "out/../gen/") p := by
  constructor
  · have hrejected : (runIn .roomy readToml workshop none
        (compileFile "notes")).1.result.mapError Failure.code? = .error none := by
      decide +kernel
    obtain ⟨-, hstopped, hfree⟩ :=
      run_changes_only_output .roomy readToml workshop none (compileFile "notes") Prod.mk.eta.symm
    by_cases hstops : ∃ e, Stops readToml workshop none (compileFile "notes") e
    · obtain ⟨e, he⟩ := hstops
      exact ⟨e, he, hstopped e he⟩
    · obtain ⟨artifact, -, -, hpublish, -⟩ := hfree (not_exists.mp hstops)
      obtain ⟨published, -, hresult⟩ := hpublish rfl
      rw [hresult] at hrejected
      cases published <;> cases hrejected
  · -- One evaluation gives both facts, since a run is what takes the time.
    have hrun : (fun (r : Outcome × FileTree) => r.1.result.isOk && newPlaces.all fun p =>
        (r.2.get? p).isSome && (workshop.get? p).isNone)
          (runIn .roomy readToml workshop none (compileFile "site")) = true := by
      decide +kernel
    obtain ⟨hdone, hnew⟩ := Bool.and_eq_true_iff.mp hrun
    obtain ⟨-, hstopped, hfree⟩ :=
      run_changes_only_output .roomy readToml workshop none (compileFile "site") Prod.mk.eta.symm
    have hnone : ∀ e, ¬ Stops readToml workshop none (compileFile "site") e := by
      intro e he
      rw [(hstopped e he).1] at hdone
      cases hdone
    obtain ⟨artifact, hcompiles, -, -, -, hchanges⟩ := hfree hnone
    refine ⟨artifact, hcompiles, fun p hp => (hchanges p).resolve_left fun heq => ?_⟩
    obtain ⟨hafter, hbefore⟩ := Bool.and_eq_true_iff.mp (List.all_eq_true.mp hnew p hp)
    rw [heq, Option.isNone_iff_eq_none.mp hbefore] at hafter
    cases hafter

end LevelSchema.CommandLine
