import LevelSchema.Proofs.Resolved.Findings
import LevelSchema.Proofs.Token.Places

/-!
# Labels that can be shown

When a text is refused, by loading it or by resolving what was loaded, every diagnostic says where
the mistake is: it has a primary label.  The labels can be cut out of the text, since all stages
label only what was read, in whole tokens.

There is one exception.  A character that is not expected is labelled by its first byte.  If it
takes more than one byte in UTF-8, the label ends inside the character, although reading goes on
behind it.
-/

namespace LevelSchema

namespace Schema

variable {source : String} {primitives : PrimitiveSet} {d : Diagnostic}

/-- The diagnostic is reported about a text that has no schema, or none that can be resolved. -/
def Reported (source : String) (primitives : PrimitiveSet) (d : Diagnostic) : Prop :=
  (∃ r, Schema.ofSource source = .error r ∧ d ∈ r.diagnostics) ∨
    ∃ loaded r, Schema.ofSource source = .ok loaded ∧ loaded.value.resolve primitives = .error r ∧
      (d ∈ loaded.notes ∨ d ∈ r.diagnostics)

/-- The document of a text has places inside the text, and so has the reason why there is none. -/
lemma ofLexemes_within {lexemes : List Lexeme} (h : scan source = .ok lexemes) :
    (∀ d, Document.ofLexemes lexemes = .ok d → d.Every (.placed (Span.Within source))) ∧
      ∀ r, Document.ofLexemes lexemes = .error r →
        ∀ d ∈ r.diagnostics, d.Anchored (Span.Within source) :=
  Document.ofLexemes_confines (fun _ _ hs ht => hs.union ht) (Span.within_atStart source)
    (scan_within h)

/-- What is loaded has places inside the text, and so has all that is noted on the way. -/
lemma load_within {lexemes : List Lexeme} {document : Document} (hscan : scan source = .ok lexemes)
    (hread : Document.ofLexemes lexemes = .ok document) :
    document.load.value.Placed (Span.Within source) ∧
      ∀ d ∈ (document.load.mapNotes LoadFinding.diagnostic).notes,
        d.Anchored (Span.Within source) := by
  have hload := document.load_confines (Span.within_atStart source)
    ((ofLexemes_within hscan).1 document hread)
  refine ⟨hload.value, List.forall_mem_map.mpr fun f hf => ?_⟩
  exact f.anchored_iff.mpr (hload.notes f hf)

/-- What is reported for a source that is rejected is labelled in it. -/
lemma shown_of_ofSource_error {r : Rejection} (h : Schema.ofSource source = .error r) :
    ∀ d ∈ r.diagnostics, d.Shown source := by
  simp only [Schema.ofSource, bind_eq_error_iff] at h
  rcases h with hscan | ⟨lexemes, hscan, hread | ⟨document, hread, hload⟩⟩
  · exact scan_shown hscan
  · exact fun d hd => ((ofLexemes_within hscan).2 r hread d hd).shown
  · unfold Noted.conclude at hload
    split_ifs at hload
    cases hload
    exact fun d hd => ((load_within hscan hread).2 d hd).shown

/-- What is reported while a schema is resolved is anchored in its source. -/
lemma anchored_of_resolve_error {loaded : Noted Diagnostic Schema} {r : Rejection}
    (h : Schema.ofSource source = .ok loaded)
    (hresolve : loaded.value.resolve primitives = .error r) :
    ∀ d, d ∈ loaded.notes ∨ d ∈ r.diagnostics → d.Anchored (Span.Within source) := by
  obtain ⟨lexemes, document, hscan, hread, -, rfl⟩ := ofSource_eq_ok_iff.mp h
  obtain ⟨hschema, hnotes⟩ := load_within hscan hread
  rintro d (hd | hd)
  · exact hnotes d hd
  · unfold Schema.resolve at hresolve
    split at hresolve
    · exact nomatch hresolve
    · next fs hfs =>
        cases hresolve
        obtain ⟨f, hf, rfl⟩ := List.mem_map.mp hd
        exact (placed_of_resolution hschema hfs f hf).anchored

/-- **Every diagnostic has a primary label, and labels mark text**, except that of a longer
unexpected character, which marks a part of it. -/
theorem labels_shown_of_reported (h : Reported source primitives d) :
    (∃ l ∈ d.labels, l.isPrimary = true) ∧ ∀ l ∈ d.labels,
      (l.span.Within source ∧ ∃ text, l.span.Shows source text) ∨
        (d.code = some .unexpectedCharacter ∧ l.span.Halves source ∧ ¬ l.span.Within source) := by
  have hshown : d.Shown source := by
    rcases h with ⟨r, hsource, hd⟩ | ⟨loaded, r, hsource, hresolve, hd⟩
    · exact shown_of_ofSource_error hsource d hd
    · exact (anchored_of_resolve_error hsource hresolve d hd).shown
  refine ⟨hshown.primary, fun l hl => ?_⟩
  rcases hshown.spans l hl with hwithin | ⟨hcode, hhalves⟩
  · exact .inl ⟨hwithin, hwithin.exists_shows⟩
  · exact .inr ⟨hcode, hhalves, hhalves.not_within⟩

/-- The diagnostics with which something was refused. -/
def complaints {α : Type} : Except Rejection α → List Diagnostic
  | .ok _ => []
  | .error r => r.diagnostics

lemma exists_of_mem_complaints {α : Type} {x : Except Rejection α} {d : Diagnostic}
    (h : d ∈ complaints x) : ∃ r, x = .error r ∧ d ∈ r.diagnostics := by
  cases x with
  | ok a => exact absurd h List.not_mem_nil
  | error r => exact ⟨r, rfl, h⟩

/-- Two object types that extend each other, behind a remark with longer characters. -/
def lotAndPlot : String :=
  "AbstractionLevel Site // été\n    Object Plot extends Lot\n    Object Lot extends Plot\n"

theorem lotAndPlot_cycle_labelled : ∃ d, Reported lotAndPlot .builtin d ∧
    d.code = some .inheritanceCycle ∧ d.labels.map (·.span) = [⟨55, 58⟩, ⟨82, 86⟩] ∧
      (∃ l ∈ d.labels, l.isPrimary = true) ∧ ∀ l ∈ d.labels, l.span.Within lotAndPlot := by
  have hrun : (Schema.ofSource lotAndPlot).toOption.map (fun loaded =>
      (complaints (loaded.value.resolve .builtin)).any fun d =>
        decide (d.code = some .inheritanceCycle ∧
          d.labels.map (·.span) = [⟨55, 58⟩, ⟨82, 86⟩])) = some true := by
    decide +kernel
  obtain ⟨loaded, hloaded, hany⟩ := exists_of_toOption_map hrun
  obtain ⟨d, hd, hfound⟩ := List.any_eq_true.mp hany
  obtain ⟨r, hresolve, hmem⟩ := exists_of_mem_complaints hd
  obtain ⟨hcode, hspans⟩ := of_decide_eq_true hfound
  have hreported : Reported lotAndPlot .builtin d :=
    .inr ⟨loaded, r, hloaded, hresolve, .inr hmem⟩
  obtain ⟨hprimary, hlabels⟩ := labels_shown_of_reported hreported
  refine ⟨d, hreported, hcode, hspans, hprimary, fun l hl => ?_⟩
  rcases hlabels l hl with ⟨hwithin, -⟩ | ⟨hother, -⟩
  · exact hwithin
  · rw [hcode] at hother
    cases hother

theorem accented_letter_cut_in_two : ∃ r, Schema.ofSource "é" = .error r ∧ ∃ d ∈ r.diagnostics,
    d.isError = true ∧ ∃ l ∈ d.labels, l.span = ⟨0, 1⟩ ∧ ¬ l.span.Within "é" := by
  have hhalves : (Span.mk 0 1).Halves "é" := ⟨[], 'é', [], rfl, by decide, rfl⟩
  have hrun : ((complaints (Schema.ofSource "é")).any fun d =>
      d.isError && d.labels.any fun l => l.span == ⟨0, 1⟩) = true := by
    decide +kernel
  obtain ⟨d, hd, hfound⟩ := List.any_eq_true.mp hrun
  obtain ⟨r, hrefused, hmem⟩ := exists_of_mem_complaints hd
  obtain ⟨herror, hlabel⟩ := Bool.and_eq_true_iff.mp hfound
  obtain ⟨l, hl, hplace⟩ := List.any_eq_true.mp hlabel
  have hspan : l.span = ⟨0, 1⟩ := eq_of_beq hplace
  exact ⟨r, hrefused, d, hmem, herror, l, hl, hspan, hspan ▸ hhalves.not_within⟩

end Schema

end LevelSchema
