import LevelSchema.Proofs.Token.Spelling
import LevelSchema.Token.Scan

/-!
# Text that is read without a fault

`Scans pos lineStart cs ls` says that the characters `cs`, which start at byte `pos`, are read as
the lexemes `ls` and that nothing in them is a fault.  It is the recursion of `scanFrom` with the
faulty branch left out, so it determines the lexemes, and statements about accepted texts are
proved along it.

**Line by line.**  A line feed is always a token of its own, together with a carriage return right
before it, so a text is read line by line: what stands on a line is read as if the text ended there
(`Scans.append_newline`, `Scans.exists_of_append_newline`).  The one thing that depends on the line
feed is a carriage return with nothing blank before it.  At the end of the text it is a space, and
before a line feed it is part of the line break.
-/

namespace LevelSchema

/-- The characters `cs`, from byte `pos` on, are read as `ls` without a fault. -/
inductive Scans : Nat → Bool → List Char → List Lexeme → Prop
  | nil (pos : Nat) (lineStart : Bool) : Scans pos lineStart [] []
  | indent {pos : Nat} {c : Char} {cs : List Char} {ls : List Lexeme} (hc : isIndentChar c = true)
      (h : Scans (pos + byteLength (c :: cs.takeWhile isIndentChar)) false
        (cs.dropWhile isIndentChar) ls) :
      Scans pos true (c :: cs)
        (⟨.indent (columns (c :: cs.takeWhile isIndentChar)),
          ⟨pos, pos + byteLength (c :: cs.takeWhile isIndentChar)⟩⟩ :: ls)
  | token {pos : Nat} {lineStart : Bool} {c : Char} {cs taken rest : List Char} {t : Token}
      {ls : List Lexeme} (hc : (lineStart && isIndentChar c) = false)
      (hread : readToken (c :: cs) = .token t taken rest)
      (h : Scans (pos + byteLength taken) (t == .newline) rest ls) :
      Scans pos lineStart (c :: cs) (⟨t, ⟨pos, pos + byteLength taken⟩⟩ :: ls)

/-- The text ends where a line starts. -/
def AtLineStart (cs : List Char) : Prop :=
  cs = [] ∨ ∃ us, cs = us ++ ['\n']

variable {pos : Nat} {lineStart : Bool} {c : Char} {cs taken rest post : List Char} {t : Token}
  {l : Lexeme} {ls : List Lexeme}

/-! ## The relation and the function -/

/-- What is scanned without a report is cut into spellings. -/
lemma scans_scanFrom (pos : Nat) (lineStart : Bool) (cs : List Char) :
    (scanFrom pos lineStart cs).notes = [] →
      Scans pos lineStart cs (scanFrom pos lineStart cs).value := by
  fun_induction scanFrom pos lineStart cs with
  | case1 pos lineStart => exact fun _ => .nil pos lineStart
  | case2 pos lineStart c cs hindent taken next ih =>
      obtain ⟨rfl, hc⟩ := Bool.and_eq_true_iff.mp hindent
      exact fun h => .indent hc (ih h)
  | case3 pos lineStart c cs hindent t taken rest hread next ih =>
      exact fun h => .token (Bool.eq_false_iff.mpr hindent) hread (ih h)
  | case4 pos lineStart c cs hindent f taken rest hread noticed ih => exact nofun

/-- What is cut into spellings is scanned without a report. -/
lemma scanFrom_of_scans (h : Scans pos lineStart cs ls) :
    scanFrom pos lineStart cs = ⟨ls, []⟩ := by
  induction h with
  | nil pos lineStart => rw [scanFrom]
  | indent hc h ih =>
      rw [scanFrom, if_pos (by simp [hc])]
      simp only [ih, consLexeme]
  | token hc hread h ih =>
      rw [scanFrom, if_neg (by simp [hc])]
      split
      · next hread' =>
          cases hread.symm.trans hread'
          simp only [ih, consLexeme]
      · next hread' => cases hread.symm.trans hread'

/-- Scanning succeeds exactly on texts that are cut into spellings. -/
lemma scan_eq_ok_iff {source : String} :
    scan source = .ok ls ↔ Scans 0 true source.toList ls := by
  constructor
  · intro h
    simp only [scan] at h
    split_ifs at h with hnotes
    cases h
    exact scans_scanFrom 0 true source.toList (List.isEmpty_iff.mp hnotes)
  · intro h
    simp [scan, scanFrom_of_scans h]

/-- What a text is read as is determined. -/
lemma Scans.unique {ls' : List Lexeme} (h : Scans pos lineStart cs ls)
    (h' : Scans pos lineStart cs ls') : ls = ls' := by
  have heq := (scanFrom_of_scans h).symm.trans (scanFrom_of_scans h')
  simpa using heq

/-! ## Reading a token before a line feed

No token reaches over a line feed, so a token is read in the same way whether the text ends or a
line feed follows.  A carriage return that is all there is on the line is the exception. -/

section Newline

lemma takeWhile_append_newline {p : Char → Bool} (hp : p '\n' = false) (cs post : List Char) :
    (cs ++ '\n' :: post).takeWhile p = cs.takeWhile p := by
  induction cs with
  | nil => simp [hp]
  | cons c cs ih => by_cases hc : p c = true <;> simp [hc, ih]

lemma dropWhile_append_newline {p : Char → Bool} (hp : p '\n' = false) (cs post : List Char) :
    (cs ++ '\n' :: post).dropWhile p = cs.dropWhile p ++ '\n' :: post := by
  induction cs with
  | nil => simp [hp]
  | cons c cs ih => by_cases hc : p c = true <;> simp [hc, ih]

/-- A reading with `post` behind the text that is left. -/
def Reading.append (post : List Char) : Reading → Reading
  | .token t taken rest => .token t taken (rest ++ post)
  | .fault f taken rest => .fault f taken (rest ++ post)

lemma readComment_append_newline (cs post : List Char) :
    readComment (cs ++ '\n' :: post) = (readComment cs).append ('\n' :: post) := by
  simp only [readComment, Reading.append, takeWhile_append_newline (p := (· != '\n')) rfl,
    dropWhile_append_newline (p := (· != '\n')) rfl]

lemma readWord_append_newline (c : Char) (cs post : List Char) :
    readWord c (cs ++ '\n' :: post) = (readWord c cs).append ('\n' :: post) := by
  simp only [readWord, Reading.append, takeWhile_append_newline (p := Name.isPart) rfl,
    dropWhile_append_newline (p := Name.isPart) rfl]

lemma readSpace_append_newline (c : Char) (cs post : List Char) :
    readSpace c (cs ++ '\n' :: post) = (readSpace c cs).append ('\n' :: post) := by
  have hp : isSpace '\n' = false := by decide
  simp only [readSpace, takeWhile_append_newline hp, dropWhile_append_newline hp]
  split <;> rfl

lemma readInteger_append_newline (c : Char) (cs post : List Char) :
    readInteger c (cs ++ '\n' :: post) = (readInteger c cs).append ('\n' :: post) := by
  have hhead : ((cs.dropWhile Char.isDigit ++ '\n' :: post).head?.any Name.isPart) =
      (cs.dropWhile Char.isDigit).head?.any Name.isPart := by
    cases cs.dropWhile Char.isDigit with
    | nil => rfl
    | cons d ds => rfl
  simp only [readInteger, takeWhile_append_newline (p := Char.isDigit) rfl,
    dropWhile_append_newline (p := Char.isDigit) rfl, hhead]
  split_ifs <;> rfl

/-- The inside of a string with `post` behind the text that is left. -/
def StringBody.append (post : List Char) (b : StringBody) : StringBody :=
  { b with rest := b.rest ++ post }

/-- A string does not reach past the end of its line. -/
lemma readStringBody_append_newline (cs post : List Char) :
    readStringBody (cs ++ '\n' :: post) = (readStringBody cs).append ('\n' :: post) := by
  fun_induction readStringBody cs with
  | case1 => rw [List.nil_append, readStringBody] <;> simp [StringBody.append]
  | case2 cs => rfl
  | case3 => rfl
  | case4 e cs c hc ih => simp [readStringBody, hc, ih, StringBody.cons, StringBody.append]
  | case5 e cs hc => simp [readStringBody, hc, StringBody.append]
  | case6 c cs hquote hback hescape hbreak =>
      rw [List.cons_append,
        readStringBody_of_plain hquote (ne_backslash_of_cases hback hescape)]
      simp [hbreak, StringBody.append]
  | case7 c cs hquote hback hescape hbreak ih =>
      rw [List.cons_append,
        readStringBody_of_plain hquote (ne_backslash_of_cases hback hescape)]
      simp [hbreak, ih, StringBody.cons, StringBody.append]

lemma readString_append_newline (cs post : List Char) :
    readString (cs ++ '\n' :: post) = (readString cs).append ('\n' :: post) := by
  simp only [readString, readStringBody_append_newline, StringBody.append]
  split <;> rfl

/-- **No token reaches over a line feed.** -/
lemma readToken_append_newline (hne : cs ≠ []) (hreturn : cs ≠ ['\r']) (post : List Char) :
    readToken (cs ++ '\n' :: post) = (readToken cs).append ('\n' :: post) := by
  fun_cases readToken cs with
  | case1 => exact absurd rfl hne
  | case2 cs => exact readComment_append_newline cs post
  | case3 cs => exact readString_append_newline cs post
  | case9 c cs _ _ _ _ _ _ _ hstart =>
      rw [List.cons_append, readToken_of_isStart hstart]
      exact readWord_append_newline c cs post
  | case10 c cs _ _ _ _ _ _ _ _ hdigit =>
      rw [List.cons_append, readToken_of_isDigit hdigit]
      exact readInteger_append_newline c cs post
  | case11 c cs hcomment hquote hequals hleft hright hbreak hfeed hstart hdigit =>
      rw [List.cons_append, readToken, if_neg hstart, if_neg hdigit]
      · exact readSpace_append_newline c cs post
      · rintro us rfl hus
        cases cs with
        | nil => cases hus
        | cons d ds =>
            cases hus
            exact hcomment ds rfl rfl
      · exact hquote
      · exact hequals
      · exact hleft
      · exact hright
      · rintro us rfl hus
        cases cs with
        | nil => exact hreturn rfl
        | cons d ds =>
            cases hus
            exact hbreak ds rfl rfl
      · exact hfeed
  | _ => rfl

end Newline

/-! ## Reading a line -/

/-- **A line is read as if the text ended behind it**, and then comes the line break.  If the line
ends in a carriage return that was a space by itself, the carriage return joins the line break. -/
lemma Scans.append_newline (h : Scans pos lineStart cs ls) :
    ∃ head s, (ls = head ∨ ∃ s', ls = head ++ [⟨.space, s'⟩]) ∧
      ∀ post tail, Scans s.stop true post tail →
        Scans pos lineStart (cs ++ '\n' :: post) (head ++ ⟨.newline, s⟩ :: tail) := by
  induction h with
  | nil pos lineStart =>
      refine ⟨[], ⟨pos, pos + 1⟩, .inl rfl, fun post tail htail => ?_⟩
      have hread : readToken ('\n' :: post) = .token .newline ['\n'] post := rfl
      exact .token (by simp [isIndentChar]) hread htail
  | @indent pos c cs ls hc h ih =>
      obtain ⟨head, s, hhead, hrest⟩ := ih
      refine ⟨⟨.indent (columns (c :: cs.takeWhile isIndentChar)),
        ⟨pos, pos + byteLength (c :: cs.takeWhile isIndentChar)⟩⟩ :: head, s, ?_,
        fun post tail htail => ?_⟩
      · exact hhead.imp (congrArg _) (Exists.imp fun s' hs' => congrArg _ hs')
      · have htake := takeWhile_append_newline (p := isIndentChar) rfl cs post
        have hdrop := dropWhile_append_newline (p := isIndentChar) rfl cs post
        have hline := hrest post tail htail
        rw [← hdrop, ← htake] at hline
        rw [← htake]
        exact .indent hc hline
  | @token pos lineStart c cs taken rest t ls hc hread h ih =>
      by_cases hreturn : c :: cs = ['\r']
      · cases hreturn
        cases hread
        cases h
        refine ⟨[], ⟨pos, pos + 2⟩, .inr ⟨_, rfl⟩, fun post tail htail => ?_⟩
        have hread : readToken ('\r' :: '\n' :: post) = .token .newline ['\r', '\n'] post := rfl
        exact .token hc hread htail
      · obtain ⟨head, s, hhead, hrest⟩ := ih
        refine ⟨⟨t, ⟨pos, pos + byteLength taken⟩⟩ :: head, s, ?_, fun post tail htail => ?_⟩
        · exact hhead.imp (congrArg _) (Exists.imp fun s' hs' => congrArg _ hs')
        · have hread' := readToken_append_newline (List.cons_ne_nil c cs) hreturn post
          rw [hread] at hread'
          exact .token hc hread' (hrest post tail htail)

/-- A text that is read without a fault has only lines that are. -/
lemma Scans.exists_of_append_newline {all : List Lexeme}
    (h : Scans pos lineStart (cs ++ '\n' :: post) all) :
    (∃ ls, Scans pos lineStart cs ls) ∧ ∃ pos' tail, Scans pos' true post tail := by
  generalize hall : cs ++ '\n' :: post = text at h
  induction h generalizing cs with
  | nil pos lineStart => exact absurd hall (by simp)
  | @indent pos c text ls hc h ih =>
      cases cs with
      | nil =>
          cases hall
          exact nomatch hc
      | cons d cs =>
          rw [List.cons_append, List.cons.injEq] at hall
          obtain ⟨rfl, rfl⟩ := hall
          rw [dropWhile_append_newline (p := isIndentChar) rfl,
            takeWhile_append_newline (p := isIndentChar) rfl] at ih
          obtain ⟨⟨ls, hls⟩, htail⟩ := ih rfl
          exact ⟨⟨_, .indent hc hls⟩, htail⟩
  | @token pos lineStart c text taken rest t ls hc hread h ih =>
      cases cs with
      | nil =>
          cases hall
          cases hread
          exact ⟨⟨[], .nil pos lineStart⟩, _, _, h⟩
      | cons d cs =>
          rw [List.cons_append, List.cons.injEq] at hall
          obtain ⟨rfl, rfl⟩ := hall
          by_cases hreturn : d :: cs = ['\r']
          · cases hreturn
            cases hread
            exact ⟨⟨_, .token hc rfl (.nil _ _)⟩, _, _, h⟩
          · have hread' := readToken_append_newline (List.cons_ne_nil d cs) hreturn post
            rw [List.cons_append, hread] at hread'
            cases hline : readToken (d :: cs) with
            | fault f taken' rest' =>
                rw [hline] at hread'
                exact nomatch hread'
            | token t' taken' rest' =>
                rw [hline] at hread'
                cases hread'
                obtain ⟨⟨ls, hls⟩, htail⟩ := ih rfl
                exact ⟨⟨_, .token hc hline hls⟩, htail⟩

/-! ## Tokens next to each other -/

/-- A word is no trivia, keyword or not. -/
lemma isTrivia_wordToken (word : String) : (wordToken word).isTrivia = false := by
  unfold wordToken
  split <;> rfl

lemma Spelling.ne_word {word : String} (ht : t.isTrivia = true) : t ≠ wordToken word := by
  rintro rfl
  exact nomatch ht.symm.trans (isTrivia_wordToken word)

/-- No token is spelled by nothing. -/
lemma Spelling.exists_cons (h : Spelling t taken rest) : ∃ c cs, taken = c :: cs := by
  cases h <;> exact ⟨_, _, rfl⟩

/-- A token that does not only separate begins with no blank. -/
lemma Spelling.isSpace_eq_false (h : Spelling t taken rest) (ht : t.isTrivia = false) :
    ∀ c ∈ taken.head?, isSpace c = false := by
  intro c hc
  cases h with
  | word hc' h =>
      cases hc
      exact isSpace_eq_false_of_isPart (isPart_of_isStart hc')
  | integer hc' h hrest hlt =>
      cases hc
      exact isSpace_eq_false_of_isPart (isPart_of_isDigit hc')
  | string h rest =>
      cases hc
      rfl
  | equals rest =>
      cases hc
      rfl
  | leftBracket rest =>
      cases hc
      rfl
  | rightBracket rest =>
      cases hc
      rfl
  | _ => exact nomatch ht

/-- A space begins with a blank. -/
lemma Spelling.exists_isSpace (h : Spelling .space taken rest) :
    ∃ c cs, taken = c :: cs ∧ isSpace c = true := by
  generalize ht : Token.space = t at h
  cases h with
  | word hc h => exact absurd ht (Spelling.ne_word rfl)
  | space hc h hreturn => exact ⟨_, _, rfl, hc⟩
  | _ => exact nomatch ht

/-- A line break contains a line feed. -/
lemma Spelling.mem_newline (h : Spelling .newline taken rest) : '\n' ∈ taken := by
  generalize ht : Token.newline = t at h
  cases h with
  | returned rest => simp
  | newline rest => simp
  | word hc h => exact absurd ht (Spelling.ne_word rfl)
  | _ => exact nomatch ht

lemma Spelling.exists_comment {text : String} (h : Spelling (.comment text) taken rest) :
    ∃ us, taken = '/' :: '/' :: us := by
  generalize ht : Token.comment text = t at h
  cases h with
  | comment h => exact ⟨_, rfl⟩
  | word hc h => exact absurd ht (Spelling.ne_word rfl)
  | _ => exact nomatch ht

/-- An indent is no token by itself: it is the blanks that a line begins with. -/
lemma Spelling.not_indent {width : Nat} : ¬ Spelling (.indent width) taken rest := by
  intro h
  generalize ht : Token.indent width = t at h
  cases h with
  | word hc h => exact absurd ht (Spelling.ne_word rfl)
  | _ => exact nomatch ht

/-- Neither a space nor a comment: what a space can follow. -/
def Settled (l : Lexeme) : Prop :=
  l.token ≠ .space ∧ ∀ text, l.token ≠ .comment text

/-- Spaces and comments take all blanks that follow. -/
lemma Spelling.settled (h : Spelling t taken rest) (hrest : ∃ c ∈ rest.head?, isSpace c = true)
    (s : Span) : Settled ⟨t, s⟩ := by
  obtain ⟨c, hc, hspace⟩ := hrest
  cases h with
  | comment h =>
      have hstop : c = '\n' := by simpa using h.stop c hc
      subst hstop
      exact nomatch hspace
  | space hc' h hreturn =>
      rw [h.stop c hc] at hspace
      exact nomatch hspace
  | word hc' h =>
      exact ⟨(Spelling.ne_word rfl).symm, fun text => (Spelling.ne_word rfl).symm⟩
  | _ => exact ⟨nofun, nofun⟩

/-- Before a last space stands neither a space nor a comment. -/
lemma Scans.settled_of_space {head : List Lexeme} {s : Span}
    (h : Scans pos lineStart cs (head ++ [⟨.space, s⟩])) : ∀ l ∈ head.getLast?, Settled l := by
  generalize hall : head ++ [⟨.space, s⟩] = all at h
  induction h generalizing head with
  | nil pos lineStart => exact absurd hall (by simp)
  | indent hc h ih =>
      rcases head with - | ⟨l, - | ⟨l', head⟩⟩
      · simp
      · cases hall
        rintro _ ⟨⟩
        exact ⟨nofun, nofun⟩
      · obtain ⟨-, hall⟩ := List.cons.inj hall
        simpa using ih hall
  | @token pos lineStart c cs taken rest t ls hc hread h ih =>
      rcases head with - | ⟨l, - | ⟨l', head⟩⟩
      · simp
      · cases hall
        rintro _ ⟨⟩
        obtain ⟨-, hspelling⟩ := readToken_eq_token_iff.mp hread
        refine hspelling.settled ?_ _
        -- the space that follows is read from the text behind this token
        generalize (t == .newline) = start at h
        generalize hls : [(⟨.space, s⟩ : Lexeme)] = ls at h
        cases h with
        | nil => exact nomatch hls
        | indent => exact nomatch hls
        | token hc hread' h =>
            cases hls
            obtain ⟨happend, hspelling'⟩ := readToken_eq_token_iff.mp hread'
            obtain ⟨d, ds, rfl, hd⟩ := hspelling'.exists_isSpace
            cases happend
            exact ⟨_, rfl, hd⟩
      · obtain ⟨-, hall⟩ := List.cons.inj hall
        simpa using ih hall

/-- Whether a lexeme is a line break. -/
def Lexeme.isNewline (l : Lexeme) : Bool :=
  l.token == .newline

/-- Without a line feed there is no line break. -/
lemma Scans.isNewline_eq (h : Scans pos lineStart cs ls) (hcs : ∀ c ∈ cs, (c == '\n') = false) :
    ∀ l ∈ ls, l.isNewline = false := by
  induction h with
  | nil pos lineStart => simp
  | @indent pos c cs ls hc h ih =>
      have hrest := ih fun d hd =>
        hcs d (List.mem_cons_of_mem c ((List.dropWhile_sublist isIndentChar).subset hd))
      exact List.forall_mem_cons.mpr ⟨rfl, hrest⟩
  | @token pos lineStart c cs taken rest t ls hc hread h ih =>
      obtain ⟨happend, hspelling⟩ := readToken_eq_token_iff.mp hread
      rw [happend] at hcs
      have hrest := ih fun d hd => hcs d (List.mem_append_right taken hd)
      refine List.forall_mem_cons.mpr ⟨?_, hrest⟩
      rw [Lexeme.isNewline, beq_eq_false_iff_ne]
      rintro rfl
      exact nomatch hcs _ (List.mem_append_left rest hspelling.mem_newline)

/-! ## Places -/

/-- Where a text starts does not matter for its tokens. -/
lemma Scans.shift (h : Scans pos lineStart cs ls) (pos' : Nat) :
    ∃ ls', Scans pos' lineStart cs ls' ∧ ls'.map (·.token) = ls.map (·.token) := by
  induction h generalizing pos' with
  | nil pos lineStart => exact ⟨[], .nil pos' lineStart, rfl⟩
  | indent hc h ih =>
      obtain ⟨ls', hls', htokens⟩ := ih (pos' + byteLength _)
      exact ⟨_, .indent hc hls', by simp [htokens]⟩
  | token hc hread h ih =>
      obtain ⟨ls', hls', htokens⟩ := ih (pos' + byteLength _)
      exact ⟨_, .token hc hread hls', by simp [htokens]⟩

/-- Where no indentation is in front, the start of a line is like the middle of one. -/
lemma Scans.at_lineStart (h : Scans pos false cs ls)
    (hstop : ∀ c ∈ cs.head?, isIndentChar c = false) : Scans pos true cs ls := by
  cases h with
  | nil => exact .nil pos true
  | token hc hread h => exact .token (by simpa using hstop) hread h

/-! ## The last line -/

section LastLine

variable {α : Type} {p : α → Bool} {x : α} {xs ys : List α}

/-- What stands behind the last element with `p`. -/
def behindLast (p : α → Bool) (xs : List α) : List α :=
  (xs.splitOnP p).getLastD []

lemma behindLast_of_forall (h : ∀ x ∈ xs, p x = false) : behindLast p xs = xs := by
  rw [behindLast, List.splitOnP_eq_singleton h]
  rfl

/-- What lies behind the last one does not depend on what came before it. -/
lemma behindLast_append_cons (hx : p x = true) :
    behindLast p (xs ++ x :: ys) = behindLast p ys := by
  rw [behindLast, behindLast, List.splitOnP_append_cons xs ys hx, List.getLastD_eq_getLast?,
    List.getLastD_eq_getLast?, List.getLast?_append,
    List.getLast?_eq_some_getLast (List.splitOnP_ne_nil p ys), Option.some_or]

/-- Either no element has `p`, or there is a last one. -/
lemma exists_last_or (p : α → Bool) (xs : List α) :
    (∀ x ∈ xs, p x = false) ∨
      ∃ pre x post, xs = pre ++ x :: post ∧ p x = true ∧ ∀ y ∈ post, p y = false := by
  induction xs with
  | nil => exact .inl (by simp)
  | cons a xs ih =>
      rcases ih with hnone | ⟨pre, x, post, rfl, hx, hpost⟩
      · cases ha : p a with
        | false => exact .inl (List.forall_mem_cons.mpr ⟨ha, hnone⟩)
        | true => exact .inr ⟨[], a, xs, rfl, ha, hnone⟩
      · exact .inr ⟨a :: pre, x, post, rfl, hx, hpost⟩

lemma eq_false_of_mem_behindLast (h : x ∈ behindLast p xs) : p x = false := by
  rcases exists_last_or p xs with hnone | ⟨pre, y, post, rfl, hy, hpost⟩
  · rw [behindLast_of_forall hnone] at h
    exact hnone x h
  · rw [behindLast_append_cons hy, behindLast_of_forall hpost] at h
    exact hpost x h

end LastLine

/-- The last line of a text. -/
def lastLine (cs : List Char) : List Char :=
  behindLast (· == '\n') cs

/-- The last line of a text is read as the last line of its tokens. -/
lemma Scans.lastLine (h : Scans pos true cs ls) :
    ∃ pos', Scans pos' true (lastLine cs) (behindLast Lexeme.isNewline ls) := by
  rcases exists_last_or (· == '\n') cs with hnone | ⟨pre, c, post, rfl, hc, hpost⟩
  · rw [LevelSchema.lastLine, behindLast_of_forall hnone,
      behindLast_of_forall (h.isNewline_eq hnone)]
    exact ⟨pos, h⟩
  · have hfeed : c = '\n' := by simpa using hc
    subst hfeed
    rw [LevelSchema.lastLine, behindLast_append_cons (p := (· == '\n')) hc,
      behindLast_of_forall hpost]
    obtain ⟨⟨line, hline⟩, pos', tail', htail'⟩ := h.exists_of_append_newline
    obtain ⟨head, s, -, hrest⟩ := hline.append_newline
    obtain ⟨tail, htail, -⟩ := htail'.shift s.stop
    rw [h.unique (hrest post tail htail), behindLast_append_cons rfl,
      behindLast_of_forall (htail.isNewline_eq hpost)]
    exact ⟨s.stop, htail⟩

end LevelSchema
