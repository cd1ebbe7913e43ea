import Mathlib.Tactic.Common
import LevelSchema.Token.Read

/-!
# How tokens are spelled

`Spelling t taken rest` says that the characters `taken` are the token `t` where `rest` follows.
It is a table of the lexical grammar: one line for each kind of token, with what the token may be
made of and where it has to stop.  `readToken_eq_token_iff` says that a token is read exactly when
it is spelled in front.

**Longest runs.**  Words, numbers, spaces and comments are runs of characters of one class that
what follows cannot extend (`Run`).  That is the only place where a token depends on what comes
after it.
-/

namespace LevelSchema

variable {c : Char} {cs run taken rest content : List Char} {t : Token}

/-! ## Runs of characters -/

/-- All of `run` has `p`, and what follows does not go on like that. -/
structure Run (p : Char → Bool) (run rest : List Char) : Prop where
  all : ∀ c ∈ run, p c = true
  stop : ∀ c ∈ rest.head?, p c = false

section Run

variable {p : Char → Bool}

/-- Characters taken as long as `p` holds are a run. -/
lemma run_takeWhile (p : Char → Bool) (cs : List Char) :
    Run p (cs.takeWhile p) (cs.dropWhile p) where
  all c hc := List.all_eq_true.mp List.all_takeWhile c hc
  stop c hc := by
    have hhead := List.head?_dropWhile_not p cs
    rw [hc] at hhead
    simpa using hhead

lemma Run.cons (hc : p c = true) (h : Run p run rest) : Run p (c :: run) rest :=
  ⟨List.forall_mem_cons.mpr ⟨hc, h.all⟩, h.stop⟩

/-- A run is what is taken as long as `p` holds. -/
lemma Run.takeWhile_append (h : Run p run rest) : (run ++ rest).takeWhile p = run := by
  have hrest : rest.takeWhile p = [] := by
    cases rest with
    | nil => rfl
    | cons c cs => rw [List.takeWhile_cons_of_neg (by simp [h.stop c rfl])]
  rw [List.takeWhile_append_of_pos h.all, hrest, List.append_nil]

lemma Run.dropWhile_append (h : Run p run rest) : (run ++ rest).dropWhile p = rest := by
  have hrest : rest.dropWhile p = rest := by
    cases rest with
    | nil => rfl
    | cons c cs => rw [List.dropWhile_cons_of_neg (by simp [h.stop c rfl])]
  rw [List.dropWhile_append_of_pos h.all, hrest]

end Run

/-! ## Characters that words, numbers and spaces start with -/

/-- Letters are those of the two alphabets. -/
lemma isAlpha_iff : c.isAlpha = true ↔ 'A' ≤ c ∧ c ≤ 'Z' ∨ 'a' ≤ c ∧ c ≤ 'z' := by
  have hletters : c.isAlpha =
      (decide ('A' ≤ c ∧ c ≤ 'Z') || decide ('a' ≤ c) && decide (c ≤ 'z')) := rfl
  simp [hletters]

lemma isDigit_iff : c.isDigit = true ↔ '0' ≤ c ∧ c ≤ '9' := by
  have hdigits : c.isDigit = (decide ('0' ≤ c) && decide (c ≤ '9')) := rfl
  simp [hdigits]

/-- A name starts with a letter or an underscore. -/
lemma Name.isStart_iff :
    isStart c = true ↔ 'A' ≤ c ∧ c ≤ 'Z' ∨ 'a' ≤ c ∧ c ≤ 'z' ∨ c = '_' := by
  simp [isStart, isAlpha_iff, or_assoc]

/-- A name goes on with letters, digits and underscores. -/
lemma Name.isPart_iff :
    isPart c = true ↔
      'A' ≤ c ∧ c ≤ 'Z' ∨ 'a' ≤ c ∧ c ≤ 'z' ∨ '0' ≤ c ∧ c ≤ '9' ∨ c = '_' := by
  simp [isPart, Char.isAlphanum, isAlpha_iff, isDigit_iff, or_assoc]

/-- No space can stand in a word. -/
lemma isPart_eq_false_of_isSpace (h : isSpace c = true) : Name.isPart c = false := by
  refine Bool.eq_false_iff.mpr fun hpart => ?_
  have hword := Name.isPart_iff.mp hpart
  simp only [isSpace, Text.isBlank, Text.blankRanges, List.any_cons, List.any_nil, Bool.or_false,
    Bool.and_eq_true, Bool.or_eq_true, decide_eq_true_eq, Char.toNat] at h
  simp only [Char.le_def, Char.ext_iff, ← UInt32.toNat_inj, UInt32.le_iff_toNat_le, Char.reduceVal,
    UInt32.reduceToNat] at hword
  omega

/-- No word starts with a digit. -/
lemma isStart_eq_false_of_isDigit (h : c.isDigit = true) : Name.isStart c = false := by
  refine Bool.eq_false_iff.mpr fun hstart => ?_
  have hdigit := isDigit_iff.mp h
  have hword := Name.isStart_iff.mp hstart
  simp only [Char.le_def, Char.ext_iff, ← UInt32.toNat_inj, UInt32.le_iff_toNat_le, Char.reduceVal,
    UInt32.reduceToNat] at hdigit hword
  omega

lemma isStart_eq_false_of_isPart (h : Name.isPart c = false) : Name.isStart c = false := by
  simp only [Name.isPart, Name.isStart, Char.isAlphanum, Bool.or_eq_false_iff] at h ⊢
  exact ⟨h.1.1, h.2⟩

lemma isDigit_eq_false_of_isPart (h : Name.isPart c = false) : c.isDigit = false := by
  simp only [Name.isPart, Char.isAlphanum, Bool.or_eq_false_iff] at h
  exact h.1.2

lemma isSpace_of_isIndentChar (c : Char) (h : isIndentChar c = true) : isSpace c = true := by
  simp only [isIndentChar, Bool.or_eq_true, beq_iff_eq] at h
  rcases h with rfl | rfl <;> rfl

lemma isSpace_eq_false_of_isPart (h : Name.isPart c = true) : isSpace c = false := by
  cases hspace : isSpace c with
  | false => rfl
  | true => exact nomatch h.symm.trans (isPart_eq_false_of_isSpace hspace)

lemma isPart_of_isStart (h : Name.isStart c = true) : Name.isPart c = true := by
  simp only [Name.isStart, Name.isPart, Char.isAlphanum, Bool.or_eq_true] at h ⊢
  exact h.imp_left .inl

lemma isPart_of_isDigit (h : c.isDigit = true) : Name.isPart c = true := by
  simp [Name.isPart, Char.isAlphanum, h]

/-- Away from the signs, strings, comments and line breaks the first character decides. -/
lemma readToken_of_other (hc : c ∉ ['/', '"', '=', '[', ']', '\n'])
    (hreturn : c = '\r' → cs.head? ≠ some '\n') :
    readToken (c :: cs) =
      if Name.isStart c then readWord c cs
      else if c.isDigit then readInteger c cs
      else readSpace c cs := by
  rw [readToken]
  · rintro us rfl -
    simp at hc
  · rintro rfl
    simp at hc
  · rintro rfl
    simp at hc
  · rintro rfl
    simp at hc
  · rintro rfl
    simp at hc
  · rintro us rfl rfl
    exact hreturn rfl rfl
  · rintro rfl
    simp at hc

/-- The signs have no class of their own. -/
lemma not_mem_signs {p : Char → Bool} (h : p c = true)
    (hp : (['/', '"', '=', '[', ']', '\n'].any p) = false) : c ∉ ['/', '"', '=', '[', ']', '\n'] :=
  fun hc => Bool.eq_false_iff.mp hp (List.any_eq_true.mpr ⟨c, hc, h⟩)

/-- What starts like a name is read as a word. -/
lemma readToken_of_isStart (h : Name.isStart c = true) (cs : List Char) :
    readToken (c :: cs) = readWord c cs := by
  rw [readToken_of_other (not_mem_signs h (by decide)), if_pos h]
  rintro rfl
  exact nomatch h

/-- What starts with a digit is read as a number. -/
lemma readToken_of_isDigit (h : c.isDigit = true) (cs : List Char) :
    readToken (c :: cs) = readInteger c cs := by
  rw [readToken_of_other (not_mem_signs h (by decide)), if_neg, if_pos h]
  · simp [isStart_eq_false_of_isDigit h]
  · rintro rfl
    exact nomatch h

/-- What starts with a blank is read as space, a line break apart. -/
lemma readToken_of_isSpace (h : isSpace c = true) (hreturn : c = '\r' → cs.head? ≠ some '\n') :
    readToken (c :: cs) = readSpace c cs := by
  have hpart := isPart_eq_false_of_isSpace h
  rw [readToken_of_other (not_mem_signs h (by decide)) hreturn, if_neg, if_neg]
  · simp [isDigit_eq_false_of_isPart hpart]
  · simp [isStart_eq_false_of_isPart hpart]

/-! ## Strings -/

/-- The characters `body`, with the closing quote, are the inside of a string with this content. -/
inductive Quoted : List Char → List Char → Prop
  | close : Quoted [] ['"']
  | escape {c e : Char} {content body : List Char} (he : unescape? e = some c)
      (h : Quoted content body) : Quoted (c :: content) ('\\' :: e :: body)
  | plain {c : Char} {content body : List Char} (hc : c ∉ ['"', '\\', '\n', '\r'])
      (h : Quoted content body) : Quoted (c :: content) (c :: body)

/-- A backslash is the last character or has one behind it. -/
lemma ne_backslash_of_cases (hlast : c = '\\' → cs = [] → False)
    (hescape : ∀ e us, c = '\\' → cs = e :: us → False) : c ≠ '\\' := by
  intro hc
  cases cs with
  | nil => exact hlast hc rfl
  | cons e us => exact hescape e us hc rfl

/-- What is neither a quote nor a backslash stands for itself, unless it ends the line. -/
lemma readStringBody_of_plain (hquote : c ≠ '"') (hback : c ≠ '\\') (cs : List Char) :
    readStringBody (c :: cs) =
      if c == '\n' || c == '\r' then ⟨[], [], c :: cs, .unterminated⟩
      else (readStringBody cs).cons c [c] := by
  rw [readStringBody]
  · exact hquote
  · exact fun hc _ => hback hc
  · exact fun _ _ hc _ => hback hc

/-- A string that is read to its end is quoted. -/
lemma quoted_readStringBody (cs : List Char) (h : (readStringBody cs).ending = .closed) :
    Quoted (readStringBody cs).content (readStringBody cs).taken := by
  fun_induction readStringBody cs with
  | case2 cs => exact .close
  | case4 e cs c hc ih => exact .escape hc (ih h)
  | case7 c cs hquote hback hescape hbreak ih =>
      refine .plain ?_ (ih h)
      simpa [ne_backslash_of_cases hback hescape, show c ≠ '"' from hquote] using hbreak
  | _ => cases h

/-- A quoted text is read to its end, whatever follows. -/
lemma Quoted.readStringBody_append (h : Quoted content taken) (rest : List Char) :
    readStringBody (taken ++ rest) = ⟨content, taken, rest, .closed⟩ := by
  induction h with
  | close => rfl
  | escape he h ih => simp [readStringBody, he, ih, StringBody.cons]
  | @plain c content body hc h ih =>
      simp only [List.mem_cons, List.not_mem_nil, or_false, not_or] at hc
      obtain ⟨hquote, hback, hfeed, hreturn⟩ := hc
      rw [List.cons_append, readStringBody_of_plain hquote hback]
      simp [hfeed, hreturn, ih, StringBody.cons]

/-! ## Tokens -/

/-- The characters `taken` are the token `t`, where `rest` follows. -/
inductive Spelling : Token → List Char → List Char → Prop
  | comment {text rest : List Char} (h : Run (· != '\n') text rest) :
      Spelling (.comment (String.ofList (dropReturns text))) ('/' :: '/' :: text) rest
  | string {content body : List Char} (h : Quoted content body) (rest : List Char) :
      Spelling (.string (String.ofList content)) ('"' :: body) rest
  | equals (rest : List Char) : Spelling .equals ['='] rest
  | leftBracket (rest : List Char) : Spelling .leftBracket ['['] rest
  | rightBracket (rest : List Char) : Spelling .rightBracket [']'] rest
  | returned (rest : List Char) : Spelling .newline ['\r', '\n'] rest
  | newline (rest : List Char) : Spelling .newline ['\n'] rest
  | word {c : Char} {cs rest : List Char} (hc : Name.isStart c = true)
      (h : Run Name.isPart cs rest) :
      Spelling (wordToken (String.ofList (c :: cs))) (c :: cs) rest
  | integer {c : Char} {cs rest : List Char} (hc : c.isDigit = true) (h : Run Char.isDigit cs rest)
      (hrest : ∀ d ∈ rest.head?, Name.isPart d = false)
      (hlt : decimalValue (c :: cs) < UInt64.size) :
      Spelling (.integer (UInt64.ofNat (decimalValue (c :: cs)))) (c :: cs) rest
  | space {c : Char} {cs rest : List Char} (hc : isSpace c = true) (h : Run isSpace cs rest)
      (hreturn : c = '\r' → (cs ++ rest).head? ≠ some '\n') : Spelling .space (c :: cs) rest

/-- A spelling is read as the token it spells. -/
lemma Spelling.readToken_append (h : Spelling t taken rest) :
    readToken (taken ++ rest) = .token t taken rest := by
  cases h with
  | comment h =>
      rw [List.cons_append, List.cons_append, readToken, readComment, h.takeWhile_append,
        h.dropWhile_append]
  | string h rest =>
      have hbody := h.readStringBody_append rest
      rw [List.cons_append, readToken, readString, hbody]
  | equals rest => rfl
  | leftBracket rest => rfl
  | rightBracket rest => rfl
  | returned rest => rfl
  | newline rest => rfl
  | word hc h =>
      rw [List.cons_append, readToken_of_isStart hc, readWord, h.takeWhile_append,
        h.dropWhile_append]
  | integer hc h hrest hlt =>
      rw [List.cons_append, readToken_of_isDigit hc, readInteger, h.takeWhile_append,
        h.dropWhile_append, if_neg, if_pos hlt]
      simpa [Option.any_eq_false] using hrest
  | space hc h hreturn =>
      rw [List.cons_append, readToken_of_isSpace hc hreturn, readSpace, if_pos hc,
        h.takeWhile_append, h.dropWhile_append]

/-- A token that is read is spelled by what was taken. -/
lemma spelling_of_readToken (h : readToken cs = .token t taken rest) : Spelling t taken rest := by
  revert h
  fun_cases readToken cs with
  | case1 => rintro ⟨⟩
  | case2 cs =>
      rintro ⟨⟩
      exact .comment (run_takeWhile _ cs)
  | case3 cs =>
      intro h
      simp only [readString] at h
      split at h
      · next hclosed =>
          cases h
          exact .string (quoted_readStringBody cs hclosed) _
      · cases h
      · cases h
  | case4 cs =>
      rintro ⟨⟩
      exact .equals rest
  | case5 cs =>
      rintro ⟨⟩
      exact .leftBracket rest
  | case6 cs =>
      rintro ⟨⟩
      exact .rightBracket rest
  | case7 cs =>
      rintro ⟨⟩
      exact .returned rest
  | case8 cs =>
      rintro ⟨⟩
      exact .newline rest
  | case9 c cs _ _ _ _ _ _ _ hstart =>
      rintro ⟨⟩
      exact .word hstart (run_takeWhile _ cs)
  | case10 c cs _ _ _ _ _ _ _ _ hdigit =>
      intro h
      simp only [readInteger] at h
      split_ifs at h with hpart hlt
      cases h
      rw [Bool.not_eq_true, Option.any_eq_false] at hpart
      exact .integer hdigit (run_takeWhile _ cs) hpart hlt
  | case11 c cs _ _ _ _ _ hbreak _ _ _ =>
      intro h
      simp only [readSpace] at h
      split_ifs at h with hspace
      cases h
      refine .space hspace (run_takeWhile _ cs) fun hc hhead => ?_
      rw [List.takeWhile_append_dropWhile] at hhead
      obtain ⟨us, hus⟩ := List.head?_eq_some_iff.mp hhead
      exact hbreak us hc hus

/-- **A token is read exactly when it is spelled in front.** -/
theorem readToken_eq_token_iff :
    readToken cs = .token t taken rest ↔ cs = taken ++ rest ∧ Spelling t taken rest := by
  constructor
  · intro h
    have happend := (readToken_splits cs).append
    rw [h] at happend
    exact ⟨happend.symm, spelling_of_readToken h⟩
  · rintro ⟨rfl, h⟩
    exact h.readToken_append

end LevelSchema
