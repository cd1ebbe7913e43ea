import LevelSchema.Proofs.Diagnostic.Labels

/-!
# Places of tokens and faults

Reading goes through a text from front to back and always knows what is before it, so a token is at
a place that can be cut out of the text (`scan_within`).  For faults this holds with one exception:
an unexpected character is marked by one byte, whatever its length (`scan_shown`).
-/

namespace LevelSchema

variable {source : String} {cs taken rest before : List Char} {f : ReadFault}

/-! ## Where a fault is noticed -/

/-- A string with an invalid escape is taken up to its backslash, which is the last of it. -/
lemma exists_of_ending_invalidEscape (cs : List Char)
    (h : (readStringBody cs).ending = .invalidEscape) :
    ∃ us, (readStringBody cs).taken = us ++ ['\\'] := by
  fun_induction readStringBody cs with
  | case3 => exact ⟨[], rfl⟩
  | case4 e cs c hc ih =>
      obtain ⟨us, hus⟩ := ih h
      exact ⟨'\\' :: e :: us, by simp [StringBody.cons, hus]⟩
  | case5 e cs hc => exact ⟨[], rfl⟩
  | case7 c cs hquote hback hescape hbreak ih =>
      obtain ⟨us, hus⟩ := ih h
      exact ⟨c :: us, by simp [StringBody.cons, hus]⟩
  | _ => cases h

/-- A bad escape is noticed behind its backslash, and an unexpected character in front of itself. -/
lemma taken_of_readToken_fault (h : readToken cs = .fault f taken rest) :
    (f = .invalidEscape → ∃ us, taken = us ++ ['\\']) ∧
      (f = .unexpectedCharacter → taken = []) := by
  revert h
  fun_cases readToken cs with
  | case1 =>
      rintro ⟨⟩
      simp
  | case3 cs =>
      intro h
      simp only [readString] at h
      split at h
      · cases h
      · cases h
        simp
      · next hending =>
          cases h
          obtain ⟨us, hus⟩ := exists_of_ending_invalidEscape cs hending
          exact ⟨fun _ => ⟨'"' :: us, by simp [hus]⟩, by simp⟩
  | case10 c cs =>
      intro h
      rw [readInteger] at h
      split_ifs at h
      · cases h
        simp
      · cases h
        simp
  | case11 c cs =>
      intro h
      rw [readSpace] at h
      split_ifs at h
      cases h
      simp
  | _ => rintro ⟨⟩

/-- The place of a fault, or of the first byte of what is unexpected. -/
def ScanFault.Shown (source : String) (f : ScanFault) : Prop :=
  f.span.Within source ∨ f.fault = .unexpectedCharacter ∧ f.span.Halves source

/-- A fault is shown where the text could not be read. -/
lemma ScanFault.shown_locate (hsource : source.toList = before ++ cs) (hne : cs ≠ [])
    (h : readToken cs = .fault f taken rest) :
    (ScanFault.locate f (byteLength before) (byteLength before + byteLength taken)).Shown
      source := by
  have hsplit := (readToken_splits cs).append
  rw [h] at hsplit
  replace hsplit : taken ++ rest = cs := hsplit
  obtain ⟨hescape, hunexpected⟩ := taken_of_readToken_fault h
  cases f with
  | unterminatedString => exact .inl (Span.within_of_append (hsplit ▸ hsource))
  | integerOutOfRange => exact .inl (Span.within_of_append (hsplit ▸ hsource))
  | invalidEscape =>
      obtain ⟨us, rfl⟩ := hescape rfl
      have hescaped : source.toList = (before ++ us) ++ (['\\'] ++ rest) := by
        simp [hsource, ← hsplit]
      have hwithin := Span.within_of_append hescaped
      have hone : byteLength ['\\'] = 1 := rfl
      rw [byteLength_append, hone] at hwithin
      left
      rwa [locate, byteLength_append, hone, ← Nat.add_assoc, Nat.add_sub_cancel]
  | unexpectedCharacter =>
      obtain rfl := hunexpected rfl
      obtain ⟨c, us, rfl⟩ := List.exists_cons_of_ne_nil hne
      by_cases hc : c.utf8Size = 1
      · have hsingle : source.toList = before ++ ([c] ++ us) := hsource
        have hwithin := Span.within_of_append hsingle
        simp only [byteLength, hc] at hwithin
        exact .inl hwithin
      · have hpos := c.utf8Size_pos
        exact .inr ⟨rfl, before, c, us, hsource, by omega, rfl⟩

/-! ## The whole text -/

/-- Reading has come behind `before`, and everything it gives from there on is at its place. -/
lemma scanFrom_places (pos : Nat) (lineStart : Bool) (cs : List Char) :
    ∀ before, source.toList = before ++ cs → pos = byteLength before →
      (∀ l ∈ (scanFrom pos lineStart cs).value, l.span.Within source) ∧
        ∀ f ∈ (scanFrom pos lineStart cs).notes, f.Shown source := by
  fun_induction scanFrom pos lineStart cs with
  | case1 => simp
  | case2 pos lineStart c cs hindent taken next ih =>
      rintro before hsource rfl
      have hsplit : taken ++ cs.dropWhile isIndentChar = c :: cs :=
        congrArg (c :: ·) (List.takeWhile_append_dropWhile ..)
      rw [← hsplit] at hsource
      obtain ⟨hlexemes, hfaults⟩ := ih (before ++ taken)
        (by rw [hsource, List.append_assoc]) (byteLength_append before taken).symm
      exact ⟨List.forall_mem_cons.mpr ⟨Span.within_of_append hsource, hlexemes⟩, hfaults⟩
  | case3 pos lineStart c cs hindent t taken rest hread next ih =>
      rintro before hsource rfl
      have hsplit := (readToken_splits (c :: cs)).append
      rw [hread] at hsplit
      rw [← hsplit] at hsource
      obtain ⟨hlexemes, hfaults⟩ := ih (before ++ taken)
        (by rw [hsource, List.append_assoc]; rfl) (byteLength_append before taken).symm
      exact ⟨List.forall_mem_cons.mpr ⟨Span.within_of_append hsource, hlexemes⟩, hfaults⟩
  | case4 pos lineStart c cs hindent f taken rest hread noticed ih =>
      rintro before hsource rfl
      have hshown := ScanFault.shown_locate hsource (List.cons_ne_nil c cs) hread
      have hsplit := (readToken_splits (c :: cs)).append
      rw [hread] at hsplit
      replace hsplit : taken ++ rest = c :: cs := hsplit
      obtain ⟨hlexemes, hfaults⟩ := ih (before ++ taken ++ rest.take 1)
        (by rw [hsource, ← hsplit, List.append_assoc, List.append_assoc, ← List.drop_one,
          List.take_append_drop])
        (by rw [byteLength_append, byteLength_append])
      exact ⟨hlexemes, List.forall_mem_cons.mpr ⟨hshown, hfaults⟩⟩

lemma scan_within {lexemes : List Lexeme} (h : scan source = .ok lexemes) :
    ∀ l ∈ lexemes, l.span.Within source := by
  simp only [scan] at h
  split_ifs at h
  cases h
  exact (scanFrom_places 0 true source.toList [] rfl rfl).1

/-- **Every fault of a text is marked**, by a place in it or by the first byte of a character. -/
lemma scan_shown {r : Rejection} (h : scan source = .error r) :
    ∀ d ∈ r.diagnostics, d.Shown source := by
  simp only [scan] at h
  split_ifs at h
  cases h
  refine List.forall_mem_map.mpr fun f hf => ?_
  have hshown := (scanFrom_places 0 true source.toList [] rfl rfl).2 f hf
  have hcode : f.fault = .unexpectedCharacter → f.code = .unexpectedCharacter := by
    intro hfault
    rw [ScanFault.code, hfault]
  simp only [Diagnostic.Shown, ScanFault.diagnostic, Diagnostic.anchored_hint_iff,
    Diagnostic.anchored_primary_iff, Diagnostic.labels_withCode, Diagnostic.labels_error,
    List.not_mem_nil, false_imp_iff, implies_true, true_and]
  exact hshown.imp_right (And.imp_left fun hfault => congrArg some (hcode hfault))

end LevelSchema
