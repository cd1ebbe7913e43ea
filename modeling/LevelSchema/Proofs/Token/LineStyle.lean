import Mathlib.Data.List.Forall2
import LevelSchema.Proofs.Token.Scans

/-!
# Line ends and indentation

Two things about a text do not show in its tokens.  A line may end in a line feed or in a carriage
return and a line feed (`tokens?_withReturns`).  And a line may be indented by tabs or by four times
as many spaces (`tokens?_widenedLines`).

**Carriage returns.**  The tokens of a line are the same, but not their spellings: spaces and
comments take the carriage return that follows them, and leave the line feed alone.  So a token is
followed either by what followed it before, with all returns put in, or by the bare line feed.
-/

namespace LevelSchema

variable {pos : Nat} {lineStart : Bool} {c : Char} {cs run taken rest pre post : List Char}
  {t : Token} {ts : List Token} {p : Char → Bool}

/-! ## Tokens without places -/

/-- The tokens of a text in which nothing is a fault. -/
def tokens? (lineStart : Bool) (cs : List Char) : Option (List Token) :=
  if (scanFrom 0 lineStart cs).notes.isEmpty then
    some ((scanFrom 0 lineStart cs).value.map (·.token))
  else
    none

/-- The place at which a text starts makes no difference. -/
lemma tokens?_eq_some_iff (pos : Nat) : tokens? lineStart cs = some ts ↔
    ∃ ls, Scans pos lineStart cs ls ∧ ls.map (·.token) = ts := by
  unfold tokens?
  constructor
  · intro h
    split_ifs at h with hnotes
    obtain ⟨ls, hscan, htokens⟩ :=
      (scans_scanFrom 0 lineStart cs (List.isEmpty_iff.mp hnotes)).shift pos
    exact ⟨ls, hscan, htokens.trans (Option.some.inj h)⟩
  · rintro ⟨ls, hscan, rfl⟩
    obtain ⟨ls', hscan', htokens⟩ := hscan.shift 0
    simp [scanFrom_of_scans hscan', htokens]

/-- What is scanned gives its tokens. -/
lemma Scans.tokens?_eq {ls : List Lexeme} (h : Scans pos lineStart cs ls) :
    tokens? lineStart cs = some (ls.map (·.token)) :=
  (tokens?_eq_some_iff pos).mpr ⟨ls, h, rfl⟩

/-- A token in front is the first of the tokens. -/
lemma tokens?_token (hc : ∀ c ∈ cs.head?, (lineStart && isIndentChar c) = false)
    (hread : readToken cs = .token t taken rest) :
    tokens? lineStart cs = (tokens? (t == .newline) rest).map (t :: ·) := by
  cases cs with
  | nil => exact nomatch hread
  | cons c cs =>
      refine Option.ext fun ts => ?_
      rw [Option.map_eq_some_iff, tokens?_eq_some_iff 0]
      constructor
      · rintro ⟨ls, hscan, rfl⟩
        cases hscan with
        | indent hc' h => simp [hc'] at hc
        | token _ hread' h =>
            cases hread.symm.trans hread'
            exact ⟨_, h.tokens?_eq, rfl⟩
      · rintro ⟨ts, hts, rfl⟩
        obtain ⟨ls, hscan, rfl⟩ := (tokens?_eq_some_iff (0 + byteLength taken)).mp hts
        exact ⟨_, .token (hc c rfl) hread hscan, rfl⟩

/-- Where no token can be read there are none. -/
lemma tokens?_fault (hc : ∀ c ∈ cs.head?, (lineStart && isIndentChar c) = false) (hne : cs ≠ [])
    (hread : ∀ t taken rest, readToken cs ≠ .token t taken rest) : tokens? lineStart cs = none := by
  rw [Option.eq_none_iff_forall_ne_some]
  intro ts h
  obtain ⟨ls, hscan, rfl⟩ := (tokens?_eq_some_iff 0).mp h
  cases hscan with
  | nil => exact hne rfl
  | indent hc' h => simp [hc'] at hc
  | token _ hread' h => exact hread _ _ _ hread'

/-- The blanks that a line starts with are one token. -/
lemma tokens?_run (h : Run isIndentChar run rest) (hne : run ≠ []) :
    tokens? true (run ++ rest) = (tokens? false rest).map (.indent (columns run) :: ·) := by
  obtain ⟨c, cs, rfl⟩ := List.exists_cons_of_ne_nil hne
  obtain ⟨hc, hcs⟩ := List.forall_mem_cons.mp h.all
  have hrun : Run isIndentChar cs rest := ⟨hcs, h.stop⟩
  refine Option.ext fun ts => ?_
  rw [Option.map_eq_some_iff, tokens?_eq_some_iff 0]
  constructor
  · rintro ⟨ls, hscan, rfl⟩
    rw [List.cons_append] at hscan
    cases hscan with
    | token hc' _ _ => simp [hc] at hc'
    | indent _ h =>
        rw [hrun.takeWhile_append, hrun.dropWhile_append] at h
        rw [hrun.takeWhile_append]
        exact ⟨_, h.tokens?_eq, rfl⟩
  · rintro ⟨ts, hts, rfl⟩
    obtain ⟨ls, hscan, rfl⟩ := (tokens?_eq_some_iff (0 + byteLength (c :: cs))).mp hts
    have hindent : Scans (0 + byteLength (c :: (cs ++ rest).takeWhile isIndentChar)) false
        ((cs ++ rest).dropWhile isIndentChar) ls → Scans 0 true (c :: (cs ++ rest)) _ :=
      Scans.indent hc
    rw [hrun.takeWhile_append, hrun.dropWhile_append] at hindent
    exact ⟨_, hindent hscan, rfl⟩

/-- What stands before a line feed does not depend on what stands behind it. -/
lemma tokens?_append_newline {post' : List Char} (h : tokens? true post' = tokens? true post) :
    tokens? lineStart (cs ++ '\n' :: post') = tokens? lineStart (cs ++ '\n' :: post) := by
  have hmono : ∀ {post post'}, tokens? true post' = tokens? true post →
      ∀ ts, tokens? lineStart (cs ++ '\n' :: post) = some ts →
        tokens? lineStart (cs ++ '\n' :: post') = some ts := by
    intro post post' h ts hts
    obtain ⟨ls, hscan, rfl⟩ := (tokens?_eq_some_iff 0).mp hts
    obtain ⟨⟨line, hline⟩, pos', tail, htail⟩ := hscan.exists_of_append_newline
    obtain ⟨head, s, -, hrest⟩ := hline.append_newline
    obtain ⟨tail₁, htail₁, htokens₁⟩ := htail.shift s.stop
    obtain ⟨tail₂, htail₂, htokens₂⟩ :=
      (tokens?_eq_some_iff s.stop).mp (h.trans htail.tokens?_eq)
    rw [hscan.unique (hrest post tail₁ htail₁)]
    exact (tokens?_eq_some_iff 0).mpr ⟨_, hrest post' tail₂ htail₂, by simp [htokens₁, htokens₂]⟩
  exact Option.ext fun ts => ⟨hmono h.symm ts, hmono h ts⟩

/-! ## Carriage returns before line feeds -/

/-- A text with a carriage return before every line feed. -/
def withReturns (cs : List Char) : List Char :=
  cs.flatMap fun c => if c = '\n' then ['\r', '\n'] else [c]

@[simp] lemma withReturns_nil : withReturns [] = [] :=
  rfl

@[simp] lemma withReturns_newline (cs : List Char) :
    withReturns ('\n' :: cs) = '\r' :: '\n' :: withReturns cs :=
  rfl

lemma withReturns_cons (hc : c ≠ '\n') (cs : List Char) :
    withReturns (c :: cs) = c :: withReturns cs := by
  simp [withReturns, hc]

/-- Nothing changes before the first line feed. -/
lemma withReturns_append (h : '\n' ∉ pre) (post : List Char) :
    withReturns (pre ++ post) = pre ++ withReturns post := by
  induction pre with
  | nil => rfl
  | cons c pre ih =>
      rw [List.mem_cons, not_or] at h
      rw [List.cons_append, withReturns_cons (Ne.symm h.1), ih h.2, List.cons_append]

/-- What holds no line break at all stands in front of a text with returns only if it stood there
without them. -/
lemma exists_of_withReturns_eq_append (h : withReturns cs = pre ++ post)
    (hpre : ∀ c ∈ pre, c ≠ '\r' ∧ c ≠ '\n') :
    ∃ rest, cs = pre ++ rest ∧ withReturns rest = post := by
  induction pre generalizing cs with
  | nil => exact ⟨cs, rfl, h⟩
  | cons d pre ih =>
      obtain ⟨⟨hreturn, hfeed⟩, hrest⟩ := List.forall_mem_cons.mp hpre
      cases cs with
      | nil => exact nomatch h
      | cons c cs =>
          by_cases hc : c = '\n'
          · subst hc
            exact absurd (List.cons.inj h).1.symm hreturn
          · rw [withReturns_cons hc, List.cons_append, List.cons.injEq] at h
            obtain ⟨rfl, h⟩ := h
            obtain ⟨rest, rfl, hpost⟩ := ih h hrest
            exact ⟨rest, rfl, hpost⟩

/-- A text with returns begins like the text itself, or else that begins with a line feed. -/
lemma cases_of_withReturns_eq_cons (hreturn : '\r' ∉ cs) (h : withReturns cs = c :: post) :
    (∃ us, cs = '\n' :: us ∧ c = '\r') ∨ ∃ us, cs = c :: us ∧ c ≠ '\r' ∧ c ≠ '\n' := by
  cases cs with
  | nil => exact nomatch h
  | cons d us =>
      by_cases hfeed : d = '\n'
      · subst hfeed
        exact .inl ⟨us, rfl, (List.cons.inj h).1.symm⟩
      · rw [withReturns_cons hfeed] at h
        obtain ⟨rfl, -⟩ := List.cons.inj h
        refine .inr ⟨us, rfl, ?_, hfeed⟩
        rintro rfl
        exact hreturn List.mem_cons_self

/-- A run ends where it did, if it does not take the carriage return. -/
lemma Run.withReturns (h : Run p run rest) (hp : '\n' ∈ rest.head? → p '\r' = false) :
    Run p run (withReturns rest) := by
  refine ⟨h.all, fun c hc => ?_⟩
  cases rest with
  | nil => exact nomatch hc
  | cons d rest =>
      by_cases hd : d = '\n'
      · subst hd
        cases hc
        exact hp rfl
      · rw [withReturns_cons hd] at hc
        exact h.stop c hc

lemma Run.of_withReturns (h : Run p run (LevelSchema.withReturns rest)) (hp : p '\n' = false) :
    Run p run rest := by
  refine ⟨h.all, fun c hc => ?_⟩
  by_cases hfeed : c = '\n'
  · exact hfeed ▸ hp
  · obtain ⟨rest, rfl⟩ := List.head?_eq_some_iff.mp hc
    rw [withReturns_cons hfeed] at h
    exact h.stop c rfl

/-- In front of a line feed a run may take a return in. -/
lemma Run.append_return {post' : List Char} (h : Run p run ('\n' :: post)) (hp : p '\r' = true) :
    Run p (run ++ ['\r']) ('\n' :: post') := by
  refine ⟨List.forall_mem_append.mpr ⟨h.all, List.forall_mem_singleton.mpr hp⟩, ?_⟩
  simpa using h.stop

lemma dropReturns_append (cs : List Char) : dropReturns (cs ++ ['\r']) = dropReturns cs := by
  simp [dropReturns]

lemma Run.not_mem (h : Run p run rest) (hp : p c = false) : c ∉ run := by
  intro hc
  rw [h.all c hc] at hp
  exact nomatch hp

/-- A quoted text stays on its line. -/
lemma Quoted.not_mem {content body : List Char} (h : Quoted content body) :
    ∀ c ∈ body, c ≠ '\r' ∧ c ≠ '\n' := by
  induction h with
  | close => simp
  | @escape c e content body he h ih =>
      have hletter : e ≠ '\r' ∧ e ≠ '\n' := by
        constructor <;>
          · rintro rfl
            exact nomatch he
      simpa [hletter] using ih
  | plain hc h ih =>
      simp only [List.mem_cons, List.not_mem_nil, or_false, not_or] at hc
      exact List.forall_mem_cons.mpr ⟨⟨hc.2.2.2, hc.2.2.1⟩, ih⟩

/-- **A token is spelled the same with returns in the text**, but a space or comment at the end of a
line takes the return with it. -/
lemma Spelling.exists_withReturns (h : Spelling t taken rest) (hreturn : '\r' ∉ taken ++ rest) :
    ∃ taken' rest', withReturns (taken ++ rest) = taken' ++ rest' ∧ Spelling t taken' rest' ∧
      (rest' = withReturns rest ∨
        ∃ post, rest = '\n' :: post ∧ rest' = '\n' :: withReturns post) := by
  cases h with
  | @comment text rest h =>
      have htext : '\n' ∉ '/' :: '/' :: text := by simpa using h.not_mem rfl
      cases rest with
      | nil => exact ⟨_, [], withReturns_append htext [], .comment h, .inl rfl⟩
      | cons d post =>
          obtain rfl : d = '\n' := by simpa using h.stop d rfl
          have hrun : Run (· != '\n') (text ++ ['\r']) ('\n' :: withReturns post) :=
            h.append_return rfl
          have hspelling := Spelling.comment hrun
          rw [dropReturns_append] at hspelling
          refine ⟨_, _, ?_, hspelling, .inr ⟨post, rfl, rfl⟩⟩
          rw [withReturns_append htext]
          simp
  | @string content body h rest =>
      have hbody : '\n' ∉ '"' :: body := by simpa using fun hmem => (h.not_mem _ hmem).2 rfl
      exact ⟨_, _, withReturns_append hbody rest, .string h _, .inl rfl⟩
  | equals rest => exact ⟨_, _, withReturns_append (by decide) rest, .equals _, .inl rfl⟩
  | leftBracket rest => exact ⟨_, _, withReturns_append (by decide) rest, .leftBracket _, .inl rfl⟩
  | rightBracket rest =>
      exact ⟨_, _, withReturns_append (by decide) rest, .rightBracket _, .inl rfl⟩
  | returned rest => exact absurd List.mem_cons_self hreturn
  | newline rest => exact ⟨['\r', '\n'], withReturns rest, rfl, .returned _, .inl rfl⟩
  | @word c cs rest hc h =>
      have hword := h.cons (isPart_of_isStart hc)
      exact ⟨_, _, withReturns_append (hword.not_mem rfl) rest,
        .word hc (h.withReturns fun _ => rfl), .inl rfl⟩
  | @integer c cs rest hc h hrest hlt =>
      have hdigits := h.cons hc
      have hstop : Run Name.isPart [] rest := ⟨by simp, hrest⟩
      exact ⟨_, _, withReturns_append (hdigits.not_mem rfl) rest,
        .integer hc (h.withReturns fun _ => rfl) (hstop.withReturns fun _ => rfl).stop hlt,
        .inl rfl⟩
  | @space c cs rest hc h _ =>
      have hspaces := h.cons hc
      have hfirst : c ≠ '\r' := by
        rintro rfl
        exact hreturn List.mem_cons_self
      have happend := withReturns_append (hspaces.not_mem rfl) rest
      by_cases hfeed : '\n' ∈ rest.head?
      · obtain ⟨post, rfl⟩ := List.head?_eq_some_iff.mp hfeed
        have hrun : Run isSpace (cs ++ ['\r']) ('\n' :: withReturns post) := h.append_return rfl
        refine ⟨_, _, ?_, .space hc hrun fun hr => absurd hr hfirst, .inr ⟨post, rfl, rfl⟩⟩
        rw [happend]
        simp
      · have hrun := h.withReturns fun hmem => absurd hmem hfeed
        exact ⟨_, _, happend, .space hc hrun fun hr => absurd hr hfirst, .inl rfl⟩

/-- Where a token is read with returns in the text, one is read without them. -/
lemma exists_readToken_of_withReturns (hreturn : '\r' ∉ cs)
    (h : readToken (withReturns cs) = .token t taken rest) :
    ∃ t' taken' rest', readToken cs = .token t' taken' rest' := by
  obtain ⟨happend, hspelling⟩ := readToken_eq_token_iff.mp h
  clear h
  cases hspelling with
  | @comment text rest h =>
      have hslashes : withReturns cs = ['/', '/'] ++ (text ++ rest) := happend
      obtain ⟨rest, rfl, -⟩ := exists_of_withReturns_eq_append hslashes (by simp)
      exact ⟨_, _, _, rfl⟩
  | string h rest =>
      obtain ⟨rest, rfl, -⟩ := exists_of_withReturns_eq_append happend
        (List.forall_mem_cons.mpr ⟨by decide, h.not_mem⟩)
      exact ⟨_, _, _, (Spelling.string h rest).readToken_append⟩
  | equals rest =>
      obtain ⟨rest, rfl, -⟩ := exists_of_withReturns_eq_append happend (by simp)
      exact ⟨_, _, _, rfl⟩
  | leftBracket rest =>
      obtain ⟨rest, rfl, -⟩ := exists_of_withReturns_eq_append happend (by simp)
      exact ⟨_, _, _, rfl⟩
  | rightBracket rest =>
      obtain ⟨rest, rfl, -⟩ := exists_of_withReturns_eq_append happend (by simp)
      exact ⟨_, _, _, rfl⟩
  | returned rest =>
      obtain ⟨us, rfl, -⟩ | ⟨us, -, hne, -⟩ := cases_of_withReturns_eq_cons hreturn happend
      · exact ⟨_, _, _, rfl⟩
      · exact absurd rfl hne
  | newline rest =>
      obtain ⟨us, -, hc⟩ | ⟨us, -, -, hne⟩ := cases_of_withReturns_eq_cons hreturn happend
      · exact nomatch hc
      · exact absurd rfl hne
  | @word c run rest hc h =>
      obtain ⟨us, -, rfl⟩ | ⟨us, rfl, -⟩ := cases_of_withReturns_eq_cons hreturn happend
      · exact nomatch hc
      · exact ⟨_, _, _, readToken_of_isStart hc us⟩
  | @integer c run rest hc h hrest hlt =>
      have hdigits := h.cons hc
      obtain ⟨rest, rfl, rfl⟩ := exists_of_withReturns_eq_append happend fun d hd =>
        ⟨fun h => hdigits.not_mem rfl (h ▸ hd), fun h => hdigits.not_mem rfl (h ▸ hd)⟩
      have hstop : Run Name.isPart [] (withReturns rest) := ⟨by simp, hrest⟩
      exact ⟨_, _, _, (Spelling.integer hc (h.of_withReturns rfl) (hstop.of_withReturns rfl).stop
        hlt).readToken_append⟩
  | @space c run rest hc h hnext =>
      obtain ⟨us, rfl, -⟩ | ⟨us, rfl, hne, -⟩ := cases_of_withReturns_eq_cons hreturn happend
      · exact ⟨_, _, _, rfl⟩
      · rw [readToken_of_isSpace hc fun hr => absurd hr hne, readSpace, if_pos hc]
        exact ⟨_, _, _, rfl⟩

/-- Behind a space or comment that has taken the return, reading goes on as without returns. -/
lemma tokens?_newline (lineStart : Bool) (cs : List Char) :
    tokens? lineStart ('\r' :: '\n' :: cs) = tokens? lineStart ('\n' :: cs) := by
  have hreturned : tokens? lineStart ('\r' :: '\n' :: cs) = _ :=
    tokens?_token (by simp [isIndentChar]) rfl
  have hnewline : tokens? lineStart ('\n' :: cs) = _ := tokens?_token (by simp [isIndentChar]) rfl
  rw [hreturned, hnewline]

lemma head?_withReturns (h : ∀ c ∈ cs.head?, (lineStart && isIndentChar c) = false) :
    ∀ c ∈ (withReturns cs).head?, (lineStart && isIndentChar c) = false := by
  have hrun : Run (fun c => lineStart && isIndentChar c) [] cs := ⟨by simp, h⟩
  exact (hrun.withReturns fun _ => by simp [isIndentChar]).stop

/-- **Returns before line feeds make no difference.** -/
lemma tokens?_withReturns (lineStart : Bool) (cs : List Char) (hreturn : '\r' ∉ cs) :
    tokens? lineStart (withReturns cs) = tokens? lineStart cs := by
  -- along the recursion of reading; the place plays no part
  have hread : ∀ pos : Nat, tokens? lineStart (withReturns cs) = tokens? lineStart cs := by
    intro pos
    fun_induction scanFrom pos lineStart cs with
    | case1 => rfl
    | case2 pos lineStart c cs hindent taken next ih =>
        obtain ⟨rfl, hc⟩ := Bool.and_eq_true_iff.mp hindent
        have hrun : Run isIndentChar taken (cs.dropWhile isIndentChar) :=
          (run_takeWhile isIndentChar cs).cons hc
        have hsplit : c :: cs = taken ++ cs.dropWhile isIndentChar :=
          congrArg (c :: ·) (List.takeWhile_append_dropWhile ..).symm
        rw [hsplit] at hreturn ⊢
        rw [withReturns_append (hrun.not_mem rfl), tokens?_run hrun (List.cons_ne_nil _ _),
          tokens?_run (hrun.withReturns fun _ => rfl) (List.cons_ne_nil _ _),
          ih fun h => hreturn (List.mem_append_right _ h)]
    | case3 pos lineStart c cs hindent t taken rest hread next ih =>
        have hhead : ∀ d ∈ (c :: cs).head?, (lineStart && isIndentChar d) = false := by
          simpa using hindent
        obtain ⟨hsplit, hspelling⟩ := readToken_eq_token_iff.mp hread
        rw [hsplit] at hreturn
        obtain ⟨taken', rest', hsplit', hspelling', hrest'⟩ := hspelling.exists_withReturns hreturn
        rw [← hsplit] at hsplit'
        have hread' := readToken_eq_token_iff.mpr ⟨hsplit', hspelling'⟩
        have hbehind : tokens? (t == .newline) rest' = tokens? (t == .newline) rest := by
          have ih := ih fun h => hreturn (List.mem_append_right _ h)
          rcases hrest' with rfl | ⟨post, rfl, rfl⟩
          · exact ih
          · rwa [withReturns_newline, tokens?_newline] at ih
        rw [tokens?_token hhead hread, tokens?_token (head?_withReturns hhead) hread', hbehind]
    | case4 pos lineStart c cs hindent f taken rest hread noticed ih =>
        have hhead : ∀ d ∈ (c :: cs).head?, (lineStart && isIndentChar d) = false := by
          simpa using hindent
        rw [tokens?_fault hhead (List.cons_ne_nil _ _) fun _ _ _ h => by cases hread.symm.trans h]
        refine tokens?_fault (head?_withReturns hhead) ?_ fun t taken rest h => ?_
        · rw [withReturns, List.flatMap_cons]
          split_ifs <;> simp
        · obtain ⟨t', taken', rest', h'⟩ := exists_readToken_of_withReturns hreturn h
          cases hread.symm.trans h'
  exact hread 0

/-! ## Tabs as spaces -/

/-- The characters that stand for an indenting one. -/
def spread (c : Char) : List Char :=
  if c = '\t' then List.replicate indentWidth ' ' else [c]

/-- A text whose first line is indented by spaces only. -/
def widened (cs : List Char) : List Char :=
  (cs.takeWhile isIndentChar).flatMap spread ++ cs.dropWhile isIndentChar

lemma columns_append (cs post : List Char) : columns (cs ++ post) = columns cs + columns post := by
  induction cs with
  | nil => simp [columns]
  | cons c cs ih => rw [List.cons_append, columns, columns, ih, Nat.add_assoc]

/-- A tab and the blanks it stands for take the same columns. -/
lemma columns_spread (c : Char) : columns (spread c) = columns [c] := by
  unfold spread
  split_ifs with hc
  · subst hc
    rfl
  · rfl

/-- Spaces are as wide as the tabs they stand for. -/
lemma columns_flatMap_spread (cs : List Char) : columns (cs.flatMap spread) = columns cs := by
  induction cs with
  | nil => rfl
  | cons c cs ih =>
      rw [List.flatMap_cons, columns_append, columns_spread, ih, ← columns_append,
        List.singleton_append]

lemma Run.flatMap_spread (h : Run isIndentChar run rest) :
    Run isIndentChar (run.flatMap spread) rest := by
  refine ⟨fun c hc => ?_, h.stop⟩
  obtain ⟨d, hd, hc⟩ := List.mem_flatMap.mp hc
  unfold spread at hc
  split_ifs at hc
  · rw [List.eq_of_mem_replicate hc]
    rfl
  · rw [List.mem_singleton.mp hc]
    exact h.all d hd

/-- Tabs in the margin may be written as blanks. -/
lemma tokens?_widened (cs : List Char) : tokens? true (widened cs) = tokens? true cs := by
  have hrun := run_takeWhile isIndentChar cs
  have hsplit := List.takeWhile_append_dropWhile (p := isIndentChar) (l := cs)
  by_cases hne : cs.takeWhile isIndentChar = []
  · rw [widened, hne, List.flatMap_nil, ← hne, hsplit]
  · have hspread : (cs.takeWhile isIndentChar).flatMap spread ≠ [] := by
      obtain ⟨c, us, hus⟩ := List.exists_cons_of_ne_nil hne
      rw [hus, List.flatMap_cons, spread]
      split_ifs <;> simp [indentWidth]
    rw [widened, tokens?_run hrun.flatMap_spread hspread, columns_flatMap_spread,
      ← tokens?_run hrun hne, hsplit]

lemma widened_append_newline (cs post : List Char) :
    widened (cs ++ '\n' :: post) = widened cs ++ '\n' :: post := by
  rw [widened, takeWhile_append_newline (p := isIndentChar) rfl,
    dropWhile_append_newline (p := isIndentChar) rfl, ← List.append_assoc, widened]

/-- The lines of a text, those that are chosen with their indentation in spaces. -/
def widenedLines (chosen : Nat → Bool) (cs : List Char) : List Char :=
  List.intercalate ['\n'] ((cs.splitOn '\n').mapIdx fun i line =>
    if chosen i then widened line else line)

/-- The tabs may be replaced line by line, in some lines or in all. -/
lemma tokens?_intercalate {lines lines' : List (List Char)}
    (h : List.Forall₂ (fun line line' => line' = line ∨ line' = widened line) lines lines') :
    tokens? true (List.intercalate ['\n'] lines') =
      tokens? true (List.intercalate ['\n'] lines) := by
  induction h with
  | nil => rfl
  | @cons line line' lines lines' hline hlines ih =>
      cases hlines with
      | nil =>
          rw [List.intercalate_singleton, List.intercalate_singleton]
          rcases hline with rfl | rfl
          · rfl
          · exact tokens?_widened line
      | cons _ _ =>
          rw [List.intercalate_cons_cons, List.intercalate_cons_cons, List.append_assoc,
            List.append_assoc, List.singleton_append, List.singleton_append]
          rcases hline with rfl | rfl
          · exact tokens?_append_newline ih
          · rw [← widened_append_newline, tokens?_widened]
            exact tokens?_append_newline ih

/-- **Tabs may be written as spaces**, on some lines or on all. -/
lemma tokens?_widenedLines (chosen : Nat → Bool) (cs : List Char) :
    tokens? true (widenedLines chosen cs) = tokens? true cs := by
  have hlines : List.Forall₂ (fun line line' => line' = line ∨ line' = widened line)
      (cs.splitOn '\n') ((cs.splitOn '\n').mapIdx fun i line =>
        if chosen i then widened line else line) := by
    refine List.forall₂_iff_get.mpr ⟨by simp, fun i _ _ => ?_⟩
    simp only [List.get_eq_getElem, List.getElem_mapIdx]
    split_ifs
    · exact .inr rfl
    · exact .inl rfl
  rw [widenedLines, tokens?_intercalate hlines, List.intercalate_splitOn]

end LevelSchema
