import LevelSchema.Proofs.Session

/-!
# Calls on a session

A session is used by calls, in any order and with any arguments: texts to load, check or compile,
and schemas to resolve or emit, which need not come from a call before.  Each call starts at a stage
of its own, and that stage alone decides whether it is admitted
(`Session.Call.canMoveTo_first_iff`).

**One call.**  A call that is not admitted is `Refused` and has changed nothing.  One that is
admitted is `CarriedOut`: it ends where its last stage leads, or has failed.  Checking and compiling
are calls one after the other, and what is carried out can be put together (`CarriedOut.andThen`).

**Many calls.**  Since every call leaves a session at rest and with the settings it had, so does any
number of them (`Session.atRest_after`, `Session.settings_after`).  A run that starts from the text
forgets everything else, so the answer to `compile` and `check` is that of a new session
(`Session.load_eq_of_settings_eq`).
-/

namespace LevelSchema

namespace Session

variable {α β : Type} {s s' : Session} {r : Reply α}

/-! ## Calls -/

/-- A call on a session. -/
inductive Call
  | load (source : String)
  | resolve (schema : Schema)
  | emit (resolved : ResolvedSchema)
  | check (source : String)
  | compile (source : String)

namespace Call

/-- What a call gives if all goes well. -/
abbrev Result : Call → Type
  | .load _ => Schema
  | .resolve _ | .check _ => ResolvedSchema
  | .emit _ | .compile _ => Artifact

/-- The stage that a call has to enter first. -/
def first : Call → Stage
  | .load _ | .check _ | .compile _ => .loading
  | .resolve _ => .resolving
  | .emit _ => .emitting

/-- The stage at which a call ends if all goes well. -/
def goal : Call → Stage
  | .load _ => .loaded
  | .resolve _ | .check _ => .resolved
  | .emit _ | .compile _ => .done

/-- The stages at which a call is admitted. -/
def admittedAt : Call → List Stage
  | .load _ | .check _ | .compile _ => [.idle, .resolved, .done, .failed]
  | .resolve _ => [.loaded]
  | .emit _ => [.resolved]

/-- A call is admitted where its first stage can be entered. -/
lemma canMoveTo_first_iff (c : Call) (stage : Stage) :
    stage.canMoveTo c.first = true ↔ stage ∈ c.admittedAt := by
  cases c <;> cases stage <;> simp [first, admittedAt, Stage.canMoveTo]

end Call

/-- The answer to a call. -/
def reply (s : Session) : (c : Call) → Reply c.Result
  | .load source => s.load source
  | .resolve schema => s.resolve schema
  | .emit resolved => s.emit resolved
  | .check source => s.check source
  | .compile source => s.compile source

/-- The session after some calls. -/
def after (s : Session) (calls : List Call) : Session :=
  calls.foldl (fun s c => (s.reply c).session) s

/-- The stages at which a session is found between calls. -/
def restingStages : List Stage :=
  [.idle, .loaded, .resolved, .done, .failed]

/-! ## What becomes of a call -/

/-- A call that was refused: the failure is an internal one, and nothing has happened. -/
structure Refused (s : Session) (r : Reply α) : Prop where
  internal : ∃ current next, r.result = .error (.internal (.refusedMove current next))
  silent : r.warnings = []
  unchanged : r.session = s

/-- A call that was carried out: there is a result and the session is at the goal, or there is a
failure, which is not that of a refused call, and the session has failed. -/
inductive CarriedOut (goal : Stage) (r : Reply α) : Prop
  | done {a : α} (result : r.result = .ok a) (stage : r.session.stage = goal)
  | failed {e : Failure} (result : r.result = .error e) (stage : r.session.stage = .failed)
      (own : ∀ current next, e ≠ .internal (.refusedMove current next))

/-- A stage that cannot be moved to is refused, and the session stays. -/
lemma refused_enter {stage : Stage} {work : Session → Reply α}
    (h : ¬ s.stage.canMoveTo stage = true) : Refused s (s.enter stage work) := by
  rw [enter, if_neg h]
  exact ⟨⟨_, _, rfl⟩, rfl, rfl⟩

/-- Where loading may start, it is carried out. -/
lemma carriedOut_load (h : s.stage.canMoveTo .loading = true) (source : String) :
    CarriedOut .loaded (s.load source) := by
  rw [load, enter, if_pos h]
  cases Schema.ofSource source with
  | ok loaded => exact .done rfl rfl
  | error r => exact .failed rfl rfl (by simp)

lemma carriedOut_resolve (h : s.stage.canMoveTo .resolving = true) (schema : Schema) :
    CarriedOut .resolved (s.resolve schema) := by
  rw [resolve, enter, if_pos h]
  cases schema.resolve (s.atStage .resolving).settings.primitives with
  | ok resolved => exact .done rfl rfl
  | error r => exact .failed rfl rfl (by simp)

lemma carriedOut_emit (h : s.stage.canMoveTo .emitting = true) (resolved : ResolvedSchema) :
    CarriedOut .done (s.emit resolved) := by
  rw [emit, enter, if_pos h]
  cases resolved.emit (s.atStage .emitting).settings.emit with
  | ok artifact => exact .done rfl rfl
  | error fault => exact .failed rfl rfl (by simp)

/-- Calls one after the other are carried out if each is, from where the one before has ended. -/
lemma CarriedOut.andThen {goal goal' : Stage} {next : Session → α → Reply β} (h : CarriedOut goal r)
    (hnext : ∀ a, r.session.stage = goal → CarriedOut goal' (next r.session a)) :
    CarriedOut goal' (r.andThen next) := by
  unfold Reply.andThen
  cases h with
  | failed result stage own =>
      simp only [result]
      exact .failed rfl stage own
  | @done a result stage =>
      simp only [result]
      cases hnext a stage with
      | done result stage => exact .done result stage
      | failed result stage own => exact .failed result stage own

lemma carriedOut_check (h : s.stage.canMoveTo .loading = true) (source : String) :
    CarriedOut .resolved (s.check source) := by
  refine (carriedOut_load h source).andThen fun schema hstage => carriedOut_resolve ?_ schema
  rw [hstage]
  rfl

/-- Where loading may start, all three stages are carried out. -/
lemma carriedOut_compile (h : s.stage.canMoveTo .loading = true) (source : String) :
    CarriedOut .done (s.compile source) := by
  refine (carriedOut_check h source).andThen fun resolved hstage => carriedOut_emit ?_ resolved
  rw [hstage]
  rfl

/-- What is refused is not followed by anything. -/
lemma Refused.andThen {next : Session → α → Reply β} (h : Refused s r) :
    Refused s (r.andThen next) := by
  obtain ⟨⟨current, target, hresult⟩, hsilent, hunchanged⟩ := h
  unfold Reply.andThen
  simp only [hresult]
  exact ⟨⟨current, target, rfl⟩, hsilent, hunchanged⟩

/-- **What becomes of one call is settled by the stage of the session.** -/
lemma carriedOut_of_admitted (c : Call) (h : s.stage ∈ c.admittedAt) :
    CarriedOut c.goal (s.reply c) := by
  have hfirst := (c.canMoveTo_first_iff s.stage).mpr h
  cases c with
  | load source => exact carriedOut_load hfirst source
  | resolve schema => exact carriedOut_resolve hfirst schema
  | emit resolved => exact carriedOut_emit hfirst resolved
  | check source => exact carriedOut_check hfirst source
  | compile source => exact carriedOut_compile hfirst source

/-- A call that is not admitted at a stage is refused. -/
lemma refused_of_not_admitted (c : Call) (h : s.stage ∉ c.admittedAt) :
    Refused s (s.reply c) := by
  have hfirst := (c.canMoveTo_first_iff s.stage).not.mpr h
  cases c with
  | load source => exact (refused_enter hfirst : Refused s (s.load source))
  | resolve schema => exact (refused_enter hfirst : Refused s (s.resolve schema))
  | emit resolved => exact (refused_enter hfirst : Refused s (s.emit resolved))
  | check source => exact (refused_enter hfirst).andThen
  | compile source => exact (refused_enter hfirst).andThen.andThen

/-! ## Many calls -/

/-- After every call a session at rest is at rest. -/
lemma atRest_reply (c : Call) (h : s.stage ∈ restingStages) :
    (s.reply c).session.stage ∈ restingStages := by
  have hgoal : c.goal ∈ restingStages := by
    cases c <;> simp [Call.goal, restingStages]
  by_cases hadmitted : s.stage ∈ c.admittedAt
  · cases carriedOut_of_admitted c hadmitted with
    | done _ stage => exact stage ▸ hgoal
    | failed _ stage _ => exact stage ▸ (by decide)
  · rw [(refused_of_not_admitted c hadmitted).unchanged]
    exact h

/-- Moving to a stage keeps the settings if its work does. -/
lemma settings_enter {stage : Stage} {work : Session → Reply α}
    (h : (work (s.atStage stage)).session.settings = s.settings) :
    (s.enter stage work).session.settings = s.settings := by
  unfold enter
  split_ifs
  · exact h
  · rfl

lemma settings_load (s : Session) (source : String) :
    (s.load source).session.settings = s.settings := by
  refine settings_enter ?_
  cases Schema.ofSource source <;> rfl

lemma settings_resolve (s : Session) (schema : Schema) :
    (s.resolve schema).session.settings = s.settings := by
  refine settings_enter ?_
  split <;> rfl

lemma settings_emit (s : Session) (resolved : ResolvedSchema) :
    (s.emit resolved).session.settings = s.settings := by
  refine settings_enter ?_
  split <;> rfl

lemma settings_andThen {next : Session → α → Reply β} (h : r.session.settings = s.settings)
    (hnext : ∀ s a, (next s a).session.settings = s.settings) :
    (r.andThen next).session.settings = s.settings := by
  unfold Reply.andThen
  split
  · exact h
  · exact (hnext _ _).trans h

/-- Every call keeps the settings. -/
lemma settings_reply (s : Session) (c : Call) : (s.reply c).session.settings = s.settings := by
  have hcheck : ∀ source, (s.check source).session.settings = s.settings := fun source =>
    settings_andThen (settings_load s source) settings_resolve
  cases c with
  | load source => exact settings_load s source
  | resolve schema => exact settings_resolve s schema
  | emit resolved => exact settings_emit s resolved
  | check source => exact hcheck source
  | compile source => exact settings_andThen (hcheck source) settings_emit

/-- Whatever is called, a session comes to rest again. -/
lemma atRest_after (calls : List Call) (h : s.stage ∈ restingStages) :
    (s.after calls).stage ∈ restingStages := by
  induction calls generalizing s with
  | nil => exact h
  | cons c calls ih => exact ih (atRest_reply c h)

/-- No call changes the settings. -/
lemma settings_after (s : Session) (calls : List Call) : (s.after calls).settings = s.settings := by
  induction calls generalizing s with
  | nil => rfl
  | cons c calls ih => exact (ih _).trans (settings_reply s c)

/-- Loading depends on the settings and the text alone, wherever it is admitted. -/
lemma load_eq_of_settings_eq (h : s.stage.canMoveTo .loading = true)
    (h' : s'.stage.canMoveTo .loading = true) (hsettings : s'.settings = s.settings)
    (source : String) : s'.load source = s.load source := by
  simp only [load, enter, h, h', if_true, atStage, hsettings]

/-- **Every session keeps to its stages.**  After any calls, with whatever texts and schemas, a
session is at rest.  A call is carried out if it is admitted at the stage of the session, and ends
at its goal or has failed; otherwise it is refused, with an internal failure, and the session is
what it was.  The answer to an admitted `compile` or `check` is that of the session as it was at the
start: its result and warnings, and the session afterwards. -/
theorem calls_keep_to_stages {settings : Settings} {session : Session}
    (hstart : Session.start settings = .ok session) (calls : List Call) :
    (session.after calls).stage ∈ [.idle, .loaded, .resolved, .done, .failed] ∧
      (∀ c : Call,
        ((session.after calls).stage ∈ c.admittedAt →
          CarriedOut c.goal ((session.after calls).reply c)) ∧
        ((session.after calls).stage ∉ c.admittedAt →
          Refused (session.after calls) ((session.after calls).reply c))) ∧
      ∀ source, (session.after calls).stage ∈ [.idle, .resolved, .done, .failed] →
        (session.after calls).compile source = session.compile source ∧
          (session.after calls).check source = session.check source := by
  obtain ⟨-, rfl⟩ := start_eq_ok_iff.mp hstart
  refine ⟨atRest_after calls List.mem_cons_self, fun c => ⟨carriedOut_of_admitted c,
    refused_of_not_admitted c⟩, fun source hstage => ?_⟩
  have hload := load_eq_of_settings_eq rfl
    ((Call.canMoveTo_first_iff (.load source) _).mpr hstage) (settings_after _ calls) source
  constructor
  · rw [compile, hload, compile]
  · rw [check, hload, check]

/-- A level with an object type in it. -/
def plotOnSite : String :=
  "AbstractionLevel Site\n    Object Plot\n"

/-- A text that is loaded has to be resolved before it can be compiled, which then gives what it
gives at the start. -/
theorem plotOnSite_refused_then_compiled :
    Session.start {} = .ok ⟨{}, .idle, ""⟩ ∧
      ∃ s s' : Session,
        s = (Session.mk {} .idle "").after [.compile "Plot", .load plotOnSite] ∧
        s.stage = .loaded ∧ Refused s (s.compile plotOnSite) ∧
        s' = (Session.mk {} .idle "").after [.compile "Plot", .load plotOnSite,
          .compile plotOnSite, .resolve ⟨[]⟩] ∧
        s'.stage = .resolved ∧
          s'.compile plotOnSite = (Session.mk {} .idle "").compile plotOnSite := by
  have hstart : Session.start {} = .ok ⟨{}, .idle, ""⟩ := by decide +kernel
  have hloaded : ((Session.mk {} .idle "").after
      [.compile "Plot", .load plotOnSite]).stage = .loaded := by
    decide +kernel
  have hresolved : ((Session.mk {} .idle "").after [.compile "Plot", .load plotOnSite,
      .compile plotOnSite, .resolve ⟨[]⟩]).stage = .resolved := by
    decide +kernel
  refine ⟨hstart, _, _, rfl, hloaded, ?_, rfl, hresolved, ?_⟩
  · refine ((calls_keep_to_stages hstart _).2.1 (.compile plotOnSite)).2 ?_
    rw [hloaded]
    decide
  · refine ((calls_keep_to_stages hstart _).2.2 plotOnSite ?_).1
    rw [hresolved]
    decide

end Session

end LevelSchema
