import Mathlib.Tactic.SplitIfs
import LevelSchema.Document.Grammar

/-!
# When a rule matches

One equivalence for each way of building a rule: what has to stand at the front of the tokens for
the rule to match, and what is left then.  A rule built from others is opened by rewriting with
them, and what comes out is a list of the tokens it takes.

**Not matching.**  Where the grammar tries something it does not insist on, it also matters when a
rule does *not* match.  Those lemmas only say enough to see that a rule gives up on the first token;
once it has committed itself it can fail, but no longer be unmatched.
-/

namespace LevelSchema

namespace Rule

variable {α β : Type} {ts rest : List Lexeme}

lemma pure_eq_matched_iff {a b : α} :
    (pure a : Rule α) ts = .matched b rest ↔ a = b ∧ ts = rest := by
  simp [pure]

/-- One rule after another: the first matches, and the second goes on behind what it took. -/
lemma bind_eq_matched_iff {r : Rule α} {f : α → Rule β} {b : β} :
    (r >>= f) ts = .matched b rest ↔
      ∃ a mid, r ts = .matched a mid ∧ f a mid = .matched b rest := by
  simp only [bind]
  cases r ts <;> simp [and_assoc]

lemma here_eq_matched_iff {us : List Lexeme} :
    here ts = .matched us rest ↔ us = ts ∧ ts = rest := by
  simp [here, eq_comm]

/-- A token is accepted if it stands in front and is what is looked for. -/
lemma accept_eq_matched_iff {f : Lexeme → Option α} {a : α} :
    accept f ts = .matched a rest ↔ ∃ t, f t = some a ∧ ts = t :: rest := by
  cases ts with
  | nil => simp [accept]
  | cons t ts =>
      rw [accept]
      cases h : f t with
      | none =>
          refine iff_of_false nofun ?_
          rintro ⟨u, hu, hts⟩
          cases hts
          exact nomatch h.symm.trans hu
      | some b =>
          constructor
          · rintro ⟨⟩
            exact ⟨t, h, rfl⟩
          · rintro ⟨u, hu, hts⟩
            cases hts
            cases h.symm.trans hu
            rfl

/-- What is required matches as if it were accepted; the two differ in what happens otherwise. -/
lemma require_eq_matched_iff {start : List Lexeme} {expected : Expectation}
    {f : Lexeme → Option α} {a : α} :
    require start expected f ts = .matched a rest ↔ ∃ t, f t = some a ∧ ts = t :: rest := by
  rw [← accept_eq_matched_iff, require]
  cases accept f ts <;> simp

/-- An optional part matches what its rule does, or nothing where the rule does not apply. -/
lemma optional_eq_matched_iff {r : Rule α} {o : Option α} :
    optional r ts = .matched o rest ↔
      (∃ a, o = some a ∧ r ts = .matched a rest) ∨ o = none ∧ rest = ts ∧ r ts = .unmatched := by
  rw [optional]
  cases r ts with
  | matched a mid => grind
  | unmatched => simp [eq_comm]
  | failed e => simp

/-- The second of two rules is tried only where the first does not apply. -/
lemma orElse_eq_matched_iff {r s : Rule α} {a : α} :
    orElse r s ts = .matched a rest ↔
      r ts = .matched a rest ∨ r ts = .unmatched ∧ s ts = .matched a rest := by
  rw [orElse]
  cases r ts <;> simp

/-- A repeated rule matches what is read by going on as long as it can. -/
lemma repeated_eq_matched_iff {r : Rule α} {as : List α} :
    repeated r ts = .matched as rest ↔ many r ts = .ok (as, rest) := by
  rw [repeated]
  rcases many r ts with e | ⟨as', rest'⟩ <;> simp

/-! ## Not matching -/

/-- What starts with a rule that does not apply does not apply. -/
lemma bind_eq_unmatched_of_unmatched {r : Rule α} {f : α → Rule β} (h : r ts = .unmatched) :
    (r >>= f) ts = .unmatched := by
  simp only [bind, h]

lemma bind_eq_of_matched {r : Rule α} {f : α → Rule β} {a : α} (h : r ts = .matched a rest) :
    (r >>= f) ts = f a rest := by
  simp only [bind, h]

/-- Nothing is accepted where no such token stands in front. -/
lemma accept_eq_unmatched {f : Lexeme → Option α} (h : ∀ t ∈ ts.head?, f t = none) :
    accept f ts = .unmatched := by
  cases ts with
  | nil => rfl
  | cons t ts => simp [accept, h t rfl]

lemma optional_of_unmatched {r : Rule α} (h : r ts = .unmatched) :
    optional r ts = .matched none ts := by
  rw [optional, h]

lemma orElse_of_unmatched {r s : Rule α} (h : r ts = .unmatched) : orElse r s ts = s ts := by
  rw [orElse, h]

end Rule

/-! ## Tokens that rules take -/

namespace Grammar

variable {l : Lexeme}

/-- A fixed token is recognized by itself, and gives its place. -/
lemma only_eq_some_iff {t : Token} {s : Span} : only t l = some s ↔ l = ⟨t, s⟩ := by
  obtain ⟨token, span⟩ := l
  simp [only]

lemma stringOf_eq_some_iff {s : Located String} :
    stringOf l = some s ↔ l = ⟨.string s.value, s.span⟩ := by
  obtain ⟨token, span⟩ := l
  obtain ⟨value, place⟩ := s
  cases token <;> simp [stringOf]

lemma integerOf_eq_some_iff {n : Located UInt64} :
    integerOf l = some n ↔ l = ⟨.integer n.value, n.span⟩ := by
  obtain ⟨token, span⟩ := l
  obtain ⟨value, place⟩ := n
  cases token <;> simp [integerOf]

/-- Space is skipped if there is any. -/
lemma maybeSpace_eq_matched_iff {ts rest : List Lexeme} {u : Unit} :
    maybeSpace ts = .matched u rest ↔ rest = skipOne isSpaceToken ts := by
  simp [maybeSpace, eq_comm]

/-- Blank lines always match, and are skipped. -/
lemma blankLines_eq_matched_iff {ts rest : List Lexeme} {u : Unit} :
    blankLines ts = .matched u rest ↔ rest = skipBlankLines ts := by
  simp [blankLines, eq_comm]

/-- The end of a line matches with what may stand in front of it. -/
lemma lineEnd_eq_matched_iff {ts rest : List Lexeme} {u : Unit} :
    lineEnd ts = .matched u rest ↔ afterLineEnd? ts = some rest := by
  rw [lineEnd]
  cases afterLineEnd? ts <;> simp

lemma requireLineEnd_eq_matched_iff {start ts rest : List Lexeme} {u : Unit} :
    requireLineEnd start ts = .matched u rest ↔ afterLineEnd? ts = some rest := by
  rw [requireLineEnd]
  cases afterLineEnd? ts <;> simp

end Grammar

end LevelSchema
