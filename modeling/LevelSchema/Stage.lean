/-!
# Stages of a run

A run loads a text, resolves the schema and emits the object model.  While it works on one of these
it is at a stage of its own, from which it goes on to the next or fails.  A new run may start
whenever nothing is waiting to be resolved.
-/

namespace LevelSchema

/-- Where a run of the compiler stands. -/
inductive Stage
  | idle
  | loading
  | loaded
  | resolving
  | resolved
  | emitting
  | done
  | failed
deriving DecidableEq

/-- The name of a stage. -/
def Stage.label : Stage → String
  | .idle => "idle"
  | .loading => "loading"
  | .loaded => "loaded"
  | .resolving => "resolving"
  | .resolved => "resolved"
  | .emitting => "emitting"
  | .done => "done"
  | .failed => "failed"

/-- Whether a run can move from one stage to another. -/
def Stage.canMoveTo : Stage → Stage → Bool
  | .idle, .loading | .resolved, .loading | .done, .loading | .failed, .loading => true
  | .loading, .loaded | .loaded, .resolving | .resolving, .resolved => true
  | .resolved, .emitting | .emitting, .done => true
  | .loading, .failed | .resolving, .failed | .emitting, .failed => true
  | _, _ => false

end LevelSchema
