import LevelSchema.Proofs.Code.Locality
import LevelSchema.Proofs.Session
import LevelSchema.Proofs.Token.LineStyle

/-!
# Line ends and indentation do not matter

What a text compiles to is settled by what it declares: resolving and generating do not look at
places (`Session.compile_eq_ok_of_declared?_eq`).  And what it declares is settled by its tokens.
So a text can change its line ends, and the tabs it is indented by, without any consequence but for
the places in its diagnostics (`Session.compile_restyled_eq_ok_iff`).
-/

namespace LevelSchema

/-- A text with carriage returns before its line feeds, and with the indentation of the chosen lines
in spaces. -/
def restyled (chosen : Nat → Bool) (source : String) : String :=
  String.ofList (widenedLines chosen (withReturns source.toList))

/-! ## Texts with the same tokens -/

open Grammar in
lemma Schema.declared?_eq_of_tokens? {source source' : String}
    (h : tokens? true source'.toList = tokens? true source.toList) :
    declared? source' = declared? source := by
  have hconveys : ∀ {source source' : String},
      tokens? true source'.toList = tokens? true source.toList →
        ∀ ls, Scans 0 true source.toList ls →
          ∃ ls', Scans 0 true source'.toList ls' ∧ Conveys ls ls' := by
    intro source source' h ls hscan
    obtain ⟨ls', hscan', htokens⟩ := (tokens?_eq_some_iff 0).mp (h.trans hscan.tokens?_eq)
    exact ⟨ls', hscan', conveys_of_tokens htokens⟩
  exact declared?_eq_of_conveys (hconveys h) (hconveys h.symm)

/-! ## Texts that declare the same -/

namespace Session

variable {settings : Settings} {session : Session} {source source' : String} {artifact : Artifact}

/-- **A text compiles to what another one compiles to that declares the same.** -/
lemma compile_eq_ok_of_declared?_eq (hstart : Session.start settings = .ok session)
    (h : Schema.declared? source' = Schema.declared? source)
    (hcompile : (session.compile source).result = .ok artifact) :
    (session.compile source').result = .ok artifact := by
  obtain ⟨loaded, r, hload, hresolve, hemit⟩ := exists_stages_of_compile hstart hcompile
  obtain ⟨-, rfl⟩ := start_eq_ok_iff.mp hstart
  obtain ⟨loaded', hload', hsame⟩ := Schema.declared?_eq_some_iff_ofSource.mp
    (h.trans (Schema.declared?_eq_some_iff_ofSource.mpr ⟨loaded, hload, rfl⟩))
  have hs := Schema.wellFormed_of_ofSource hload
  have hs' := Schema.wellFormed_of_ofSource hload'
  have hresolvable := (Schema.sameLevels_of_unplaced_eq hsame).symm.resolvable hs' hs
    (hs.resolve_eq_ok_iff.mp hresolve).1
  have hresolve' := hs'.resolve_eq_ok_iff.mpr ⟨hresolvable, rfl⟩
  have hresolved := hs.unplaced_eq_of_resolve hsame hs' hresolve hresolve'
  obtain ⟨artifact', hemit', hcompile'⟩ := compile_of_resolve_ok hload' hresolve'
  rw [← ResolvedSchema.emit_unplaced, hresolved, ResolvedSchema.emit_unplaced, hemit] at hemit'
  rw [hcompile', Except.ok.inj hemit']

/-- **Line ends and indentation do not matter.**  A text without carriage returns and the same text
with a carriage return before every line feed, and with tabs as four spaces where some lines begin,
are both accepted or both rejected by loading.  They declare the same up to places, and they compile
to the same artifact or both to none. -/
theorem compile_restyled_eq_ok_iff (chosen : Nat → Bool) (hreturn : '\r' ∉ source.toList)
    (hstart : Session.start settings = .ok session) :
    Schema.declared? (restyled chosen source) = Schema.declared? source ∧
      ∀ artifact, (session.compile (restyled chosen source)).result = .ok artifact ↔
        (session.compile source).result = .ok artifact := by
  have htokens : tokens? true (restyled chosen source).toList = tokens? true source.toList := by
    rw [restyled, String.toList_ofList, tokens?_widenedLines, tokens?_withReturns _ _ hreturn]
  have hdeclared := Schema.declared?_eq_of_tokens? htokens
  exact ⟨hdeclared, fun artifact => ⟨compile_eq_ok_of_declared?_eq hstart hdeclared.symm,
    compile_eq_ok_of_declared?_eq hstart hdeclared⟩⟩

/-- The second line is widened, the third is not. -/
theorem tabbed_plot_compiles_alike : ∃ artifact,
    restyled (· == 1) "AbstractionLevel Site\n\tObject Plot \n\t\tCurve Edge" =
        "AbstractionLevel Site\r\n    Object Plot \r\n\t\tCurve Edge" ∧
      ((Session.mk {} .idle "").compile
          "AbstractionLevel Site\n\tObject Plot \n\t\tCurve Edge").result = .ok artifact ∧
        ((Session.mk {} .idle "").compile
          "AbstractionLevel Site\r\n    Object Plot \r\n\t\tCurve Edge").result = .ok artifact := by
  have hstart : Session.start {} = .ok ⟨{}, .idle, ""⟩ := by decide +kernel
  have hrun : ((Session.mk {} .idle "").compile
      "AbstractionLevel Site\n\tObject Plot \n\t\tCurve Edge").result.isOk = true := by
    decide +kernel
  have hstyle : restyled (· == 1) "AbstractionLevel Site\n\tObject Plot \n\t\tCurve Edge" =
      "AbstractionLevel Site\r\n    Object Plot \r\n\t\tCurve Edge" := by
    decide +kernel
  obtain ⟨artifact, hresult⟩ := exists_of_isOk hrun
  have hrestyled :=
    ((compile_restyled_eq_ok_iff (· == 1) (by decide) hstart).2 artifact).mpr hresult
  rw [hstyle] at hrestyled
  exact ⟨artifact, hstyle, hresult, hrestyled⟩

end Session

end LevelSchema
