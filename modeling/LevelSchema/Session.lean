import LevelSchema.Artifact
import LevelSchema.Failure
import LevelSchema.Resolved.Resolve
import LevelSchema.Schema.Load

/-!
# Sessions

A session takes schemas through the compiler: it loads a text, resolves a schema and emits an
artifact, either step by step or all at once.  It knows at which **stage** it is, and refuses a step
that does not follow from there; a refused step changes nothing.

Between steps a session is idle, loaded, resolved, done or failed.  A new run may start whenever
nothing is waiting to be resolved.

The answer to a step holds its result, the warnings that were given along the way, and the session
as it is afterwards.
-/

namespace LevelSchema

/-- A compiler at work: its settings, its stage, and the text that is being compiled. -/
structure Session where
  settings : Settings
  stage : Stage
  source : String
deriving DecidableEq

/-- The answer to a step. -/
structure Reply (α : Type) where
  result : Except Failure α
  warnings : List Diagnostic
  session : Session

namespace Reply

variable {α β : Type}

/-- Go on with the result of a step, if it has one. -/
def andThen (r : Reply α) (next : Session → α → Reply β) : Reply β :=
  match r.result with
  | .error e => ⟨.error e, r.warnings, r.session⟩
  | .ok a =>
      let n := next r.session a
      ⟨n.result, r.warnings ++ n.warnings, n.session⟩

end Reply

namespace Session

variable {α : Type}

/-- A new session.  The settings have to be usable. -/
def start (settings : Settings) : Except Failure Session :=
  match settings.validate with
  | .ok s => .ok ⟨s, .idle, ""⟩
  | .error f => .error (.config (.invalid f))

/-- The session at another stage. -/
def atStage (s : Session) (stage : Stage) : Session :=
  { s with stage }

/-- Enter a stage and work there.  If the stage cannot be entered nothing happens. -/
def enter (s : Session) (stage : Stage) (work : Session → Reply α) : Reply α :=
  if s.stage.canMoveTo stage then work (s.atStage stage)
  else ⟨.error (.internal (.refusedMove s.stage stage)), [], s⟩

/-- Leave a stage with a result, for the stage `next`.  If that cannot be entered there is no
result, but the warnings have been given. -/
def finish (s : Session) (next : Stage) (a : α) (warnings : List Diagnostic) : Reply α :=
  if s.stage.canMoveTo next then ⟨.ok a, warnings, s.atStage next⟩
  else ⟨.error (.internal (.refusedMove s.stage next)), warnings, s⟩

/-- Leave a stage with a failure. -/
def fail (s : Session) (e : Failure) : Reply α :=
  ⟨.error e, [], s.atStage .failed⟩

/-- Read a text as a schema. -/
def load (s : Session) (source : String) : Reply Schema :=
  s.enter .loading fun s =>
    let s := { s with source }
    match Schema.ofSource source with
    | .ok schema => s.finish .loaded schema.value schema.notes
    | .error r => s.fail (.schema r source)

/-- Resolve a schema. -/
def resolve (s : Session) (schema : Schema) : Reply ResolvedSchema :=
  s.enter .resolving fun s =>
    match schema.resolve s.settings.primitives with
    | .ok resolved => s.finish .resolved resolved []
    | .error r => s.fail (.schema r s.source)

/-- Generate the object model of a resolved schema. -/
def emit (s : Session) (resolved : ResolvedSchema) : Reply Artifact :=
  s.enter .emitting fun s =>
    match resolved.emit s.settings.emit with
    | .ok artifact => s.finish .done artifact []
    | .error f => s.fail (.internal (.inconsistent f))

/-- Load and resolve a text. -/
def check (s : Session) (source : String) : Reply ResolvedSchema :=
  (s.load source).andThen resolve

/-- Load, resolve and emit a text. -/
def compile (s : Session) (source : String) : Reply Artifact :=
  ((s.load source).andThen resolve).andThen emit

end Session

end LevelSchema
