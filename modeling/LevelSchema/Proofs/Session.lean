import LevelSchema.Proofs.Code.Consistency
import LevelSchema.Session

/-!
# What a run comes to

A session that has just been started can take every step of a run in its order, so what `compile`
answers depends on the three stages alone: the text is rejected by loading, or by resolving, or what
was resolved is generated from (`Session.compile_of_load_error`, `Session.compile_of_resolve_error`,
`Session.compile_of_resolve_ok`).

**No inconsistency.**  The last stage could refuse a model, and the session would report this as a
mistake of its own.  It never does, since what resolving accepts is consistent
(`Schema.WellFormed.consistent_of_resolve`).
-/

namespace LevelSchema

namespace Session

variable {settings : Settings} {session : Session} {source : String}

/-- A session starts when its settings are usable, with nothing done yet. -/
lemma start_eq_ok_iff : Session.start settings = .ok session ↔
    settings.fault? = none ∧ session = ⟨settings, .idle, ""⟩ := by
  unfold Session.start Settings.validate
  cases hfault : settings.fault? <;> simp [eq_comm]

lemma compile_of_load_error {r : Rejection} (hload : Schema.ofSource source = .error r) :
    (Session.mk settings .idle "").compile source =
      ⟨.error (.schema r source), [], ⟨settings, .failed, source⟩⟩ := by
  simp [compile, load, enter, atStage, Stage.canMoveTo, hload, fail, Reply.andThen]

lemma compile_of_resolve_error {loaded : Noted Diagnostic Schema} {r : Rejection}
    (hload : Schema.ofSource source = .ok loaded)
    (hresolve : loaded.value.resolve settings.primitives = .error r) :
    (Session.mk settings .idle "").compile source =
      ⟨.error (.schema r source), loaded.notes, ⟨settings, .failed, source⟩⟩ := by
  simp [compile, load, resolve, enter, atStage, Stage.canMoveTo, hload, hresolve, finish, fail,
    Reply.andThen]

lemma compile_of_resolve_ok {loaded : Noted Diagnostic Schema} {resolved : ResolvedSchema}
    (hload : Schema.ofSource source = .ok loaded)
    (hresolve : loaded.value.resolve settings.primitives = .ok resolved) :
    ∃ artifact, resolved.emit settings.emit = .ok artifact ∧
      (Session.mk settings .idle "").compile source =
        ⟨.ok artifact, loaded.notes, ⟨settings, .done, source⟩⟩ := by
  have hconsistent := (Schema.wellFormed_of_ofSource hload).consistent_of_resolve hresolve
  obtain ⟨artifact, hemit⟩ := ResolvedSchema.exists_emit_iff.mpr hconsistent
  refine ⟨artifact, hemit, ?_⟩
  simp [compile, load, resolve, emit, enter, atStage, Stage.canMoveTo, hload, hresolve, hemit,
    finish, Reply.andThen]

/-- A run that ends with an artifact has gone through all stages. -/
lemma exists_stages_of_compile (hstart : Session.start settings = .ok session)
    {artifact : Artifact} (h : (session.compile source).result = .ok artifact) :
    ∃ loaded resolved, Schema.ofSource source = .ok loaded ∧
      loaded.value.resolve settings.primitives = .ok resolved ∧
        resolved.emit settings.emit = .ok artifact := by
  obtain ⟨-, rfl⟩ := start_eq_ok_iff.mp hstart
  cases hload : Schema.ofSource source with
  | error r =>
      rw [compile_of_load_error hload] at h
      exact nomatch h
  | ok loaded =>
      cases hresolve : loaded.value.resolve settings.primitives with
      | error r =>
          rw [compile_of_resolve_error hload hresolve] at h
          exact nomatch h
      | ok resolved =>
          obtain ⟨artifact', hemit, hcompile⟩ := compile_of_resolve_ok hload hresolve
          rw [hcompile] at h
          cases h
          exact ⟨loaded, resolved, rfl, hresolve, hemit⟩

/-- A run fails where loading or resolving does, whatever is done with the result. -/
lemma compile_eq_error_iff (hstart : Session.start settings = .ok session) {source : String}
    {failure : Failure} : (session.compile source).result = .error failure ↔
      ∃ r, failure = .schema r source ∧ (Schema.ofSource source = .error r ∨
        ∃ loaded, Schema.ofSource source = .ok loaded ∧
          loaded.value.resolve settings.primitives = .error r) := by
  obtain ⟨-, rfl⟩ := start_eq_ok_iff.mp hstart
  cases hload : Schema.ofSource source with
  | error r => simp [compile_of_load_error hload, eq_comm]
  | ok loaded =>
      cases hresolve : loaded.value.resolve settings.primitives with
      | error r => simp [compile_of_resolve_error hload hresolve, hresolve, eq_comm]
      | ok resolved =>
          obtain ⟨artifact, -, hcompile⟩ := compile_of_resolve_ok hload hresolve
          simp [hcompile, hresolve]

/-- **A run from the start ends with an artifact, or with the text rejected.**  The session is done
in the first case and has failed in the second; the rejection is that of loading or of resolving.
Nothing is ever blamed on the compiler itself, because every model that loading and resolving accept
is consistent. -/
theorem compile_done_or_rejected (hstart : Session.start settings = .ok session)
    (source : String) :
    ((∃ artifact, (session.compile source).result = .ok artifact ∧
        (session.compile source).session.stage = .done) ∨
      ∃ r, (session.compile source).result = .error (.schema r source) ∧
        (session.compile source).session.stage = .failed ∧
          (Schema.ofSource source = .error r ∨ ∃ loaded, Schema.ofSource source = .ok loaded ∧
            loaded.value.resolve settings.primitives = .error r)) ∧
    (∀ fault, (session.compile source).result ≠ .error (.internal fault)) ∧
    ∀ loaded resolved, Schema.ofSource source = .ok loaded →
      loaded.value.resolve settings.primitives = .ok resolved → resolved.Consistent := by
  obtain ⟨-, rfl⟩ := start_eq_ok_iff.mp hstart
  refine ⟨?_, ?_, fun loaded resolved hload hresolve =>
    (Schema.wellFormed_of_ofSource hload).consistent_of_resolve hresolve⟩
  all_goals
    cases hload : Schema.ofSource source with
    | error r => simp [compile_of_load_error hload]
    | ok loaded =>
        cases hresolve : loaded.value.resolve settings.primitives with
        | error r => simp [compile_of_resolve_error hload hresolve, hresolve]
        | ok resolved =>
            obtain ⟨artifact, -, hcompile⟩ := compile_of_resolve_ok hload hresolve
            simp [hcompile]

/-- A level whose one object type has a property of the given type. -/
def plotEdge (type : String) : String :=
  "AbstractionLevel Site\n    Object Plot\n        " ++ type ++ " Edge\n"

/-- A property of a primitive type is done, and one of a type that is nowhere declared rejected. -/
theorem curve_done_shape_rejected :
    Session.start {} = .ok ⟨{}, .idle, ""⟩ ∧
      (∃ artifact, ((Session.mk {} .idle "").compile (plotEdge "Curve")).result = .ok artifact ∧
        ((Session.mk {} .idle "").compile (plotEdge "Curve")).session.stage = .done) ∧
      ∃ r, ((Session.mk {} .idle "").compile (plotEdge "Shape")).result =
          .error (.schema r (plotEdge "Shape")) ∧
        ((Session.mk {} .idle "").compile (plotEdge "Shape")).session.stage = .failed := by
  have hstart : Session.start {} = .ok ⟨{}, .idle, ""⟩ := by decide +kernel
  have hcurve : ((Session.mk {} .idle "").compile (plotEdge "Curve")).result.isOk = true := by
    decide +kernel
  have hshape : ((Session.mk {} .idle "").compile (plotEdge "Shape")).result.isOk = false := by
    decide +kernel
  refine ⟨hstart, ?_, ?_⟩
  · refine (compile_done_or_rejected hstart (plotEdge "Curve")).1.resolve_right ?_
    rintro ⟨r, herror, -⟩
    rw [herror] at hcurve
    cases hcurve
  · rcases (compile_done_or_rejected hstart (plotEdge "Shape")).1 with
      ⟨artifact, hok, -⟩ | ⟨r, herror, hfailed, -⟩
    · rw [hok] at hshape
      cases hshape
    · exact ⟨r, herror, hfailed⟩

end Session

end LevelSchema
