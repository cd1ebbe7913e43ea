import LevelSchema.Proofs.Diagnostic.Labels
import LevelSchema.Proofs.Document.Parts

/-!
# Places in a document and of its mistakes

A document has only places of its tokens.  The mistake by which reading one fails is reported at the
place of a token, or at one that covers several (`GrammarFailure.anchored`).  So if the places of
the tokens have `p`, and `p` is closed under union, then all these places have `p`
(`Document.ofLexemes_confines`).
-/

namespace LevelSchema

variable {p : Span → Prop}

/-- A token at a place with `p`. -/
def Lexeme.Placed (p : Span → Prop) (l : Lexeme) : Prop :=
  p l.span

/-- All parts are asked to be at places with `p`. -/
def Parts.placed (p : Span → Prop) : Parts where
  name n := p n.span
  text n := p n.span
  value n := p n.span

/-- Tokens at places with `p` give parts at such places. -/
lemma Parts.placed_givenBy (p : Span → Prop) : (Parts.placed p).GivenBy (Lexeme.Placed p) := by
  refine ⟨fun t n ht hn => ?_, fun t n ht hn => ?_, fun t n ht hn => ?_⟩
  · obtain ⟨text, -, rfl⟩ := Option.map_eq_some_iff.mp hn
    exact ht
  · unfold Grammar.stringOf at hn
    split at hn
    · cases hn
      exact ht
    · exact nomatch hn
  · unfold Grammar.integerOf at hn
    split at hn
    · cases hn
      exact ht
    · exact nomatch hn

section Report

variable (hunion : ∀ s t, p s → p t → p (s.union t))

include hunion

lemma coverAll_of_forall {s : Span} {others : List Span} (hs : p s) (hothers : ∀ t ∈ others, p t) :
    p (coverAll s others) := by
  induction others generalizing s with
  | nil => exact hs
  | cons t others ih =>
      obtain ⟨ht, hothers⟩ := List.forall_mem_cons.mp hothers
      exact ih (hunion s t hs ht) hothers

variable (hstart : p .atStart) {ts : List Lexeme} (hts : ∀ t ∈ ts, t.Placed p)

include hstart hts

/-- A failure is placed at tokens it remembers, or at the start of the text. -/
lemma GrammarFailure.span_of_among {e : GrammarFailure} (he : e.Among (Lexeme.Placed p)) :
    p (e.span ts) := by
  have hexamined : ∀ s ∈ (e.examined.filter fun l => !l.token.isTrivia).map (·.span), p s :=
    List.forall_mem_map.mpr fun l hl =>
      he.start l ((List.take_subset _ _) (List.mem_of_mem_filter hl))
  unfold GrammarFailure.span
  split
  · next s ss hspans =>
      rw [hspans, List.forall_mem_cons] at hexamined
      exact coverAll_of_forall hunion hexamined.1 hexamined.2
  · split
    · next l hl =>
        rcases hhead : e.rest.head? with - | t
        · rw [hhead] at hl
          exact hts l (List.mem_of_getLast? hl)
        · rw [hhead] at hl
          cases hl
          exact he.rest l (List.mem_of_head? hhead)
    · exact hstart

/-- So its diagnostic is anchored there. -/
lemma GrammarFailure.anchored {e : GrammarFailure} (he : e.Among (Lexeme.Placed p)) :
    (e.diagnostic ts).Anchored p := by
  have hspan := e.span_of_among hunion hstart hts he
  unfold GrammarFailure.diagnostic
  split
  · simpa using hspan
  · next width span hhead =>
      have hindent : p span := he.rest _ (List.mem_of_head? hhead)
      simpa using hindent
  · simpa using hspan

/-- **Reading a document points only at tokens**, whether it succeeds or fails. -/
lemma Document.ofLexemes_confines :
    (∀ d, Document.ofLexemes ts = .ok d → d.Every (.placed p)) ∧
      ∀ r, Document.ofLexemes ts = .error r → ∀ d ∈ r.diagnostics, d.Anchored p := by
  obtain ⟨hread, hfailed⟩ := Grammar.document_confines (Parts.placed_givenBy p) hts
  unfold Document.ofLexemes
  split
  · next d hd => exact ⟨fun d' h => Except.ok.inj h ▸ hread d hd, nofun⟩
  · next e he =>
      refine ⟨nofun, fun r h => ?_⟩
      cases h
      simpa using GrammarFailure.anchored hunion hstart hts (hfailed e he)

end Report

end LevelSchema
