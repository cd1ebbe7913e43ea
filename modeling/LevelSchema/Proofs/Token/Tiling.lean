import Mathlib.Data.List.Chain
import Mathlib.Data.Nat.Digits.Defs
import LevelSchema.Proofs.Diagnostic.Labels
import LevelSchema.Proofs.Document.Names
import LevelSchema.Proofs.Token.LineStyle

/-!
# A text is cut into its tokens

Nothing of an accepted text is left out and nothing is read twice: its tokens stand side by side,
from the first byte to the last, and what stands at the place of a token is a text of its kind
(`Token.WrittenAs`).  `Cut` says this of the characters that are still to be read, and follows from
how tokens are spelled (`Scans.exists_cut`).

**Indents.**  A line starts behind a line feed, and a line feed only stands at the end of a token,
which is then a line break.  So no line starts inside a token, and the indents are exactly where a
line starts with a space or tab (`Scans.indents_iff`).

**Rounds.**  Each round of the loop gives a token or a fault, and takes at least one character.  So
there are at most as many rounds as characters (`length_scanFrom_le`), whatever the text is.
-/

namespace LevelSchema

variable {pos : Nat} {lineStart : Bool} {cs taken rest before piece : List Char} {t : Token}
  {ls : List Lexeme} {pieces : List (List Char)} {source : String}

/-! ## Texts of a kind -/

/-- The number that decimal digits write. -/
def Token.decimal (text : String) : Nat :=
  Nat.ofDigits 10 (text.toList.reverse.map fun c => c.toNat - '0'.toNat)

/-- The text is one that is read as the token. -/
def Token.WrittenAs : Token → String → Prop
  | .keyword word, text => text = word.spelling
  | .name n, text => text = n ∧ Name.isIdentifier text = true ∧
      ∀ word : Keyword, text ≠ word.spelling
  | .string content, text => ∃ body, text.toList = '"' :: body ∧ Quoted content.toList body
  | .integer value, text => text ≠ "" ∧ (∀ c ∈ text.toList, c.isDigit = true) ∧
      value.toNat = decimal text
  | .equals, text => text = "="
  | .leftBracket, text => text = "["
  | .rightBracket, text => text = "]"
  | .indent width, text => text ≠ "" ∧ (∀ c ∈ text.toList, c = ' ' ∨ c = '\t') ∧
      width = text.toList.count ' ' + 4 * text.toList.count '\t'
  | .space, text => text ≠ "" ∧ ∀ c ∈ text.toList, Text.isBlank c = true ∧ c ≠ '\n'
  | .newline, text => text = "\n" ∨ text = "\r\n"
  | .comment content, text => '\n' ∉ text.toList ∧ content.toList.getLast? ≠ some '\r' ∧
      ∃ n, text = "//" ++ content ++ String.ofList (List.replicate n '\r')

lemma decimalValue_eq (cs : List Char) : decimalValue cs = Token.decimal (String.ofList cs) := by
  rw [decimalValue, Token.decimal, String.toList_ofList, Nat.ofDigits_eq_foldr, List.foldr_map,
    List.foldr_reverse]
  congr 1
  funext n c
  exact Nat.add_comm _ _

/-- A tab counts as four blanks. -/
lemma columns_eq (h : ∀ c ∈ cs, c = ' ' ∨ c = '\t') :
    columns cs = cs.count ' ' + 4 * cs.count '\t' := by
  induction cs with
  | nil => rfl
  | cons c cs ih =>
      obtain ⟨hc, hcs⟩ := List.forall_mem_cons.mp h
      rw [columns, ih hcs]
      rcases hc with rfl | rfl <;> simp [indentWidth] <;> omega

/-- The carriage returns that are dropped all stand at the end. -/
lemma exists_dropReturns (cs : List Char) :
    (∃ n, cs = dropReturns cs ++ List.replicate n '\r') ∧
      (dropReturns cs).getLast? ≠ some '\r' := by
  have hsplit := congrArg List.reverse
    (List.takeWhile_append_dropWhile (p := (· == '\r')) (l := cs.reverse))
  rw [List.reverse_append, List.reverse_reverse] at hsplit
  constructor
  · refine ⟨(cs.reverse.takeWhile (· == '\r')).length, ?_⟩
    have hreturns : cs.reverse.takeWhile (· == '\r') =
        List.replicate (cs.reverse.takeWhile (· == '\r')).length '\r' := by
      refine List.eq_replicate_iff.mpr ⟨rfl, fun c hc => ?_⟩
      simpa using (run_takeWhile (· == '\r') cs.reverse).all c hc
    rw [dropReturns, ← List.reverse_replicate, ← hreturns, hsplit]
  · intro hlast
    rw [dropReturns, List.getLast?_reverse] at hlast
    cases (run_takeWhile (· == '\r') cs.reverse).stop '\r' hlast

lemma writtenAs_wordToken {word : String} (h : Name.isIdentifier word = true) :
    (wordToken word).WrittenAs word := by
  unfold wordToken
  split
  · next k hk => exact (Keyword.spelling_of_ofSpelling? hk).symm
  · next hnone =>
      refine ⟨rfl, h, fun k hk => ?_⟩
      have hall : k ∈ Keyword.all := by cases k <;> decide
      exact List.find?_eq_none.mp hnone k hall (by simp [hk])

/-- What a token takes is a text of its kind. -/
lemma Spelling.writtenAs (h : Spelling t taken rest) : t.WrittenAs (String.ofList taken) := by
  cases h with
  | @comment text rest h =>
      obtain ⟨⟨n, hn⟩, hlast⟩ := exists_dropReturns text
      refine ⟨?_, by simpa using hlast, n, ?_⟩
      · simpa using h.not_mem rfl
      · rw [String.append_assoc, ← String.ofList_append, ← hn]
        exact @String.ofList_append ['/', '/'] _
  | @string content body h rest => exact ⟨body, by simp, by simpa using h⟩
  | equals rest => rfl
  | leftBracket rest => rfl
  | rightBracket rest => rfl
  | returned rest => exact .inr rfl
  | newline rest => exact .inl rfl
  | word hc h =>
      refine writtenAs_wordToken ?_
      rw [Name.isIdentifier, String.toList_ofList, Name.isIdentifierChars, hc, Bool.true_and]
      exact List.all_eq_true.mpr h.all
  | integer hc h hrest hlt =>
      refine ⟨by simp, ?_, ?_⟩
      · simpa using ⟨hc, h.all⟩
      · rw [UInt64.toNat_ofNat', Nat.mod_eq_of_lt hlt, decimalValue_eq]
  | space hc h hreturn =>
      have hblank : ∀ c, isSpace c = true → Text.isBlank c = true ∧ c ≠ '\n' := by
        simp [isSpace]
      refine ⟨by simp, ?_⟩
      simpa using ⟨hblank _ hc, fun c hmem => hblank c (h.all c hmem)⟩

lemma isIndentChar_iff {c : Char} : isIndentChar c = true ↔ c = ' ' ∨ c = '\t' := by
  simp [isIndentChar]

/-- The spaces and tabs that a line starts with are an indent. -/
lemma writtenAs_indent (hne : taken ≠ []) (h : ∀ c ∈ taken, isIndentChar c = true) :
    (Token.indent (columns taken)).WrittenAs (String.ofList taken) := by
  have hchars : ∀ c ∈ taken, c = ' ' ∨ c = '\t' := fun c hc => isIndentChar_iff.mp (h c hc)
  refine ⟨by simpa using hne, by simpa using hchars, ?_⟩
  rw [String.toList_ofList]
  exact columns_eq hchars

/-! ## Pieces -/

/-- Characters in pieces, from byte `pos` on, with a lexeme for each piece: it stands at the place
of the piece, which is not empty and a text of the token's kind. -/
inductive Cut : Nat → List (List Char) → List Lexeme → Prop
  | nil (pos : Nat) : Cut pos [] []
  | cons {pos : Nat} {piece : List Char} {pieces : List (List Char)} {t : Token} {ls : List Lexeme}
      (hne : piece ≠ []) (hkind : t.WrittenAs (String.ofList piece))
      (h : Cut (pos + byteLength piece) pieces ls) :
      Cut pos (piece :: pieces) (⟨t, ⟨pos, pos + byteLength piece⟩⟩ :: ls)

/-- The indentation in front of a line, as it is read. -/
lemma run_indent {c : Char} (hc : isIndentChar c = true) (cs : List Char) :
    ∀ d ∈ c :: cs.takeWhile isIndentChar, isIndentChar d = true :=
  ((run_takeWhile isIndentChar cs).cons hc).all

/-- **Reading cuts the text into pieces**, and loses nothing. -/
lemma Scans.exists_cut (h : Scans pos lineStart cs ls) :
    ∃ pieces, pieces.flatten = cs ∧ Cut pos pieces ls := by
  induction h with
  | nil pos lineStart => exact ⟨[], rfl, .nil pos⟩
  | @indent pos c cs ls hc h ih =>
      obtain ⟨pieces, hpieces, hcut⟩ := ih
      refine ⟨(c :: cs.takeWhile isIndentChar) :: pieces, ?_, .cons (List.cons_ne_nil _ _) ?_ hcut⟩
      · rw [List.flatten_cons, hpieces, List.cons_append, List.takeWhile_append_dropWhile]
      · exact writtenAs_indent (List.cons_ne_nil _ _) (run_indent hc cs)
  | @token pos lineStart c cs taken rest t ls hc hread h ih =>
      obtain ⟨pieces, hpieces, hcut⟩ := ih
      obtain ⟨happend, hspelling⟩ := readToken_eq_token_iff.mp hread
      obtain ⟨d, ds, hcons⟩ := hspelling.exists_cons
      refine ⟨taken :: pieces, ?_, .cons (hcons ▸ List.cons_ne_nil d ds) hspelling.writtenAs hcut⟩
      rw [List.flatten_cons, hpieces, happend]

namespace Cut

lemma byteLength_pos (hne : piece ≠ []) : 0 < byteLength piece := by
  obtain ⟨c, cs, rfl⟩ := List.exists_cons_of_ne_nil hne
  have hpos := c.utf8Size_pos
  rw [byteLength]
  omega

/-- No token is empty. -/
lemma start_lt_stop (h : Cut pos pieces ls) : ∀ l ∈ ls, l.span.start < l.span.stop := by
  induction h with
  | nil pos => simp
  | cons hne hkind h ih =>
      exact List.forall_mem_cons.mpr ⟨Nat.lt_add_of_pos_right (byteLength_pos hne), ih⟩

lemma start_eq (h : Cut pos pieces ls) : ∀ l ∈ ls.head?, l.span.start = pos := by
  cases h with
  | nil => simp
  | cons hne hkind h =>
      rintro _ ⟨⟩
      rfl

/-- Each token starts where the one before it stops. -/
lemma contiguous (h : Cut pos pieces ls) :
    ls.IsChain fun l l' => l'.span.start = l.span.stop := by
  induction h with
  | nil pos => exact .nil
  | cons hne hkind h ih => exact List.isChain_cons.mpr ⟨h.start_eq, ih⟩

/-- The last token ends with the text. -/
lemma stop_eq (h : Cut pos pieces ls) :
    ∀ l ∈ ls.getLast?, l.span.stop = pos + byteLength pieces.flatten := by
  induction h with
  | nil pos => simp
  | @cons pos piece pieces t ls hne hkind h ih =>
      rw [List.flatten_cons, byteLength_append, ← Nat.add_assoc]
      cases h with
      | nil =>
          rintro _ ⟨⟩
          rfl
      | cons hne' hkind' h' =>
          intro l hl
          exact ih l (by simpa using hl)

/-- What stands at the places of the lexemes are the pieces. -/
lemma shows (h : Cut pos pieces ls) :
    ∀ before, source.toList = before ++ pieces.flatten → pos = byteLength before →
      List.Forall₂ (fun l text => l.span.Shows source text ∧ l.token.WrittenAs text) ls
        (pieces.map String.ofList) := by
  induction h with
  | nil pos => exact fun _ _ _ => .nil
  | @cons pos piece pieces t ls hne hkind h ih =>
      rintro before hsource rfl
      rw [List.flatten_cons] at hsource
      refine .cons ⟨⟨String.ofList before, String.ofList pieces.flatten, ?_, ?_⟩, hkind⟩
        (ih (before ++ piece) (by rw [hsource, List.append_assoc]) (byteLength_append ..).symm)
      · rw [← String.ofList_append, ← String.ofList_append, List.append_assoc, ← hsource,
          String.ofList_toList]
      · rw [utf8ByteSize_ofList, utf8ByteSize_ofList]

/-- Lexemes stand one behind the other. -/
lemma pairwise (h : Cut pos pieces ls) :
    (∀ l ∈ ls, pos ≤ l.span.start) ∧ ls.Pairwise fun l l' => l.span.stop ≤ l'.span.start := by
  induction h with
  | nil pos => exact ⟨by simp, .nil⟩
  | @cons pos piece pieces t ls hne hkind h ih =>
      obtain ⟨hbehind, hpairwise⟩ := ih
      refine ⟨List.forall_mem_cons.mpr ⟨Nat.le_refl pos, fun l hl => ?_⟩, .cons hbehind hpairwise⟩
      exact Nat.le_trans (Nat.le_add_right _ _) (hbehind l hl)

end Cut

/-! ## Where lines start -/

/-- Behind `before`, at byte `p`, a line of the text `cs` starts with a space or tab. -/
def IndentedAt (before cs : List Char) (p : Nat) : Prop :=
  ∃ mid c after, cs = mid ++ c :: after ∧ (c = ' ' ∨ c = '\t') ∧ AtLineStart (before ++ mid) ∧
    p = byteLength (before ++ mid)

lemma atLineStart_append_iff (hne : taken ≠ []) :
    AtLineStart (before ++ taken) ↔ taken.getLast? = some '\n' := by
  rw [AtLineStart, ← List.getLast?_eq_some_iff, List.getLast?_append_of_ne_nil _ hne]
  exact or_iff_right (List.append_ne_nil_of_right_ne_nil _ hne)

/-- The only line that can start in a token starts where the token does. -/
lemma indentedAt_append_iff {c : Char} {p : Nat} (hinner : '\n' ∉ (c :: taken).dropLast) :
    IndentedAt before (c :: taken ++ rest) p ↔
      (isIndentChar c = true ∧ AtLineStart before ∧ p = byteLength before) ∨
        IndentedAt (before ++ c :: taken) rest p := by
  constructor
  · rintro ⟨mid, d, after, hcs, hd, hstart, rfl⟩
    rcases List.append_eq_append_iff.mp hcs with ⟨mid', rfl, hrest⟩ | ⟨inside, hinside, hrest⟩
    · refine .inr ⟨mid', d, after, hrest, hd, ?_, ?_⟩ <;> rw [List.append_assoc]
      exact hstart
    · rcases inside with - | ⟨e, inside⟩
      · rw [List.append_nil] at hinside
        subst hinside
        exact .inr ⟨[], d, after, hrest.symm, hd, by simpa using hstart, by simp⟩
      · obtain ⟨rfl, -⟩ := List.cons.inj hrest
        rcases mid with - | ⟨b, mid⟩
        · obtain ⟨rfl, -⟩ := List.cons.inj hinside
          exact .inl ⟨isIndentChar_iff.mpr hd, by simpa using hstart, by simp⟩
        · -- the line would start behind a character of the token that is not its last
          have hfeed : '\n' ∈ b :: mid :=
            List.mem_of_getLast? ((atLineStart_append_iff (List.cons_ne_nil b mid)).mp hstart)
          rw [hinside, List.dropLast_append_of_ne_nil (List.cons_ne_nil _ _)] at hinner
          exact absurd (List.mem_append_left _ hfeed) hinner
  · rintro (⟨hc, hstart, rfl⟩ | ⟨mid, d, after, rfl, hd, hstart, rfl⟩)
    · exact ⟨[], c, taken ++ rest, rfl, isIndentChar_iff.mp hc, by simpa using hstart, by simp⟩
    · exact ⟨c :: taken ++ mid, d, after, by simp, hd, by simpa using hstart, by simp⟩

/-- A line feed stands at the end of a line break and nowhere else. -/
lemma Spelling.lineFeed (h : Spelling t taken rest) :
    '\n' ∉ taken.dropLast ∧ (taken.getLast? = some '\n' ↔ t = .newline) := by
  have hother : '\n' ∉ taken → t ≠ .newline →
      '\n' ∉ taken.dropLast ∧ (taken.getLast? = some '\n' ↔ t = .newline) := fun hnot ht =>
    ⟨fun hmem => hnot (List.dropLast_subset _ hmem),
      iff_of_false (fun hlast => hnot (List.mem_of_getLast? hlast)) ht⟩
  cases h with
  | comment h => exact hother (by simpa using h.not_mem rfl) nofun
  | string h rest => exact hother (by simpa using fun hmem => (h.not_mem _ hmem).2 rfl) nofun
  | equals rest => exact hother (by simp) nofun
  | leftBracket rest => exact hother (by simp) nofun
  | rightBracket rest => exact hother (by simp) nofun
  | returned rest => exact ⟨by simp, by simp⟩
  | newline rest => exact ⟨by simp, by simp⟩
  | word hc h =>
      refine hother (List.not_mem_cons_of_ne_of_not_mem ?_ (h.not_mem rfl))
        (Spelling.ne_word rfl).symm
      rintro rfl
      exact nomatch hc
  | integer hc h hrest hlt =>
      refine hother (List.not_mem_cons_of_ne_of_not_mem ?_ (h.not_mem rfl)) nofun
      rintro rfl
      exact nomatch hc
  | space hc h hreturn =>
      refine hother (List.not_mem_cons_of_ne_of_not_mem ?_ (h.not_mem (by decide))) nofun
      rintro rfl
      exact nomatch hc

/-- **Indents are where a line starts with a space or tab**, and nowhere else.  What has been read
so far decides whether a line starts here. -/
lemma Scans.indents_iff (h : Scans pos lineStart cs ls) :
    ∀ before, pos = byteLength before → (lineStart = true ↔ AtLineStart before) →
      ∀ p, (∃ width stop, (⟨.indent width, ⟨p, stop⟩⟩ : Lexeme) ∈ ls) ↔ IndentedAt before cs p := by
  induction h with
  | nil pos lineStart =>
      intro before hpos hstart p
      exact iff_of_false (by simp) (by simp [IndentedAt])
  | @indent pos c cs ls hc h ih =>
      rintro before rfl hstart p
      have hrun := run_indent hc cs
      have hfeed : '\n' ∉ c :: cs.takeWhile isIndentChar := fun hmem => nomatch hrun _ hmem
      have hnext : false = true ↔ AtLineStart (before ++ c :: cs.takeWhile isIndentChar) := by
        rw [atLineStart_append_iff (List.cons_ne_nil _ _)]
        exact iff_of_false nofun fun hlast => hfeed (List.mem_of_getLast? hlast)
      have hcs : c :: cs = c :: cs.takeWhile isIndentChar ++ cs.dropWhile isIndentChar := by
        rw [List.cons_append, List.takeWhile_append_dropWhile]
      rw [hcs, indentedAt_append_iff fun hmem => hfeed (List.dropLast_subset _ hmem),
        ← ih _ (byteLength_append ..).symm hnext p]
      simp [hc, hstart.mp rfl, exists_or]
  | @token pos lineStart c cs taken rest t ls hc hread h ih =>
      rintro before rfl hstart p
      obtain ⟨happend, hspelling⟩ := readToken_eq_token_iff.mp hread
      obtain ⟨hinner, hlast⟩ := hspelling.lineFeed
      obtain ⟨d, ds, rfl⟩ := hspelling.exists_cons
      have hnext : (t == .newline) = true ↔ AtLineStart (before ++ d :: ds) := by
        rw [atLineStart_append_iff (List.cons_ne_nil _ _), hlast, beq_iff_eq]
      have hfirst : ¬ (isIndentChar d = true ∧ AtLineStart before ∧ p = byteLength before) := by
        rintro ⟨hd, hline, -⟩
        obtain ⟨rfl, -⟩ := List.cons.inj happend
        simp [hstart.mpr hline, hd] at hc
      have hindent : ∀ width, t ≠ .indent width := by
        rintro width rfl
        exact hspelling.not_indent
      rw [happend, indentedAt_append_iff hinner, or_iff_right hfirst,
        ← ih _ (byteLength_append ..).symm hnext p]
      simp [fun width => (hindent width).symm]

/-! ## The whole text -/

/-- Each round takes a character at least, and gives a token or a fault. -/
lemma length_scanFrom_le (pos : Nat) (lineStart : Bool) (cs : List Char) :
    (scanFrom pos lineStart cs).value.length + (scanFrom pos lineStart cs).notes.length ≤
      cs.length := by
  fun_induction scanFrom pos lineStart cs with
  | case1 => simp
  | case2 pos lineStart c cs hindent taken next ih =>
      have hlen := (List.dropWhile_suffix (l := cs) isIndentChar).length_le
      simp only [consLexeme, List.length_cons]
      omega
  | case3 pos lineStart c cs hindent t taken rest hread next ih =>
      have hlen := length_rest_of_token hread
      simp only [consLexeme, List.length_cons] at hlen ⊢
      omega
  | case4 pos lineStart c cs hindent f taken rest hread noticed ih =>
      have hlen := length_tail_rest_of_fault (List.cons_ne_nil c cs) hread
      simp only [consFault, List.length_cons] at hlen ⊢
      omega

/-- Lexemes that cover a text. -/
structure Tiles (source : String) (ls : List Lexeme) : Prop where
  /-- No place is empty. -/
  nonempty : ∀ l ∈ ls, l.span.start < l.span.stop
  /-- The first place is at the start of the text. -/
  start : ∀ l ∈ ls.head?, l.span.start = 0
  /-- Each place starts where the one before it ends. -/
  contiguous : ls.IsChain fun l l' => l'.span.start = l.span.stop
  /-- The last place ends at the end of the text. -/
  stop : ∀ l ∈ ls.getLast?, l.span.stop = source.utf8ByteSize
  /-- What stands at the places makes up the text, and is written as the tokens are. -/
  texts : ∃ texts, String.join texts = source ∧
    List.Forall₂ (fun l text => l.span.Shows source text ∧ l.token.WrittenAs text) ls texts
  /-- Indents are where a line starts with a space or tab. -/
  indents : ∀ p, (∃ width stop, (⟨.indent width, ⟨p, stop⟩⟩ : Lexeme) ∈ ls) ↔
    IndentedAt [] source.toList p

/-- The tokens that are scanned tile the text. -/
lemma Scans.tiles (h : Scans 0 true source.toList ls) : Tiles source ls := by
  obtain ⟨pieces, hpieces, hcut⟩ := h.exists_cut
  have hsize : source.utf8ByteSize = byteLength source.toList := by
    rw [← utf8ByteSize_ofList, String.ofList_toList]
  refine ⟨hcut.start_lt_stop, hcut.start_eq, hcut.contiguous, fun l hl => ?_,
    ⟨pieces.map String.ofList, ?_, hcut.shows [] hpieces.symm rfl⟩,
    h.indents_iff [] rfl (iff_of_true rfl (.inl rfl))⟩
  · rw [hcut.stop_eq l hl, hpieces, hsize, Nat.zero_add]
  · rw [← String.toList_inj, String.toList_join, List.flatMap_map, ← hpieces]
    simp [List.flatMap_id']

/-- **A text is cut into its tokens.**  Reading gives tokens and faults, in at most as many rounds
as there are characters.  It fails exactly if there is a fault, and then reports all of them.
Otherwise the tokens tile the text. -/
theorem scan_tiles_or_reports (source : String) : ∃ ls faults,
    scanFrom 0 true source.toList = ⟨ls, faults⟩ ∧ ls.length + faults.length ≤ source.length ∧
      (scan source = .error ⟨faults.map ScanFault.diagnostic⟩ ↔ faults ≠ []) ∧
      (scan source = .ok ls ↔ faults = []) ∧ (scan source = .ok ls → Tiles source ls) := by
  refine ⟨_, _, rfl, length_scanFrom_le 0 true source.toList, ?_, ?_,
    fun h => (scan_eq_ok_iff.mp h).tiles⟩
  · by_cases h : (scanFrom 0 true source.toList).notes = [] <;> simp [scan, h]
  · by_cases h : (scanFrom 0 true source.toList).notes = [] <;> simp [scan, h]

/-- A line that is indented by a tab and a space and holds a string, and a line with a comment.  The
string has a letter of two bytes and an escape in it, and both lines end in carriage returns. -/
def mixedText : String :=
  "\t \"é\\\"\"\r\nA1 =\t42// no\r\r\n"

/-- Five columns of indentation, a string of two characters, and a comment without its returns. -/
def mixedLexemes : List Lexeme :=
  [⟨.indent 5, ⟨0, 2⟩⟩, ⟨.string "é\"", ⟨2, 8⟩⟩, ⟨.newline, ⟨8, 10⟩⟩, ⟨.name "A1", ⟨10, 12⟩⟩,
    ⟨.space, ⟨12, 13⟩⟩, ⟨.equals, ⟨13, 14⟩⟩, ⟨.space, ⟨14, 15⟩⟩, ⟨.integer 42, ⟨15, 17⟩⟩,
    ⟨.comment " no", ⟨17, 24⟩⟩, ⟨.newline, ⟨24, 25⟩⟩]

theorem mixedText_tiled : scan mixedText = .ok mixedLexemes ∧ Tiles mixedText mixedLexemes := by
  obtain ⟨ls, faults, hread, -, -, hok, htiles⟩ := scan_tiles_or_reports mixedText
  have hfaults : (scanFrom 0 true mixedText.toList).notes = [] := by decide +kernel
  have hvalue : (scanFrom 0 true mixedText.toList).value = mixedLexemes := by decide +kernel
  rw [hread] at hfaults hvalue
  replace hvalue : ls = mixedLexemes := hvalue
  subst hvalue
  exact ⟨hok.mpr hfaults, htiles (hok.mpr hfaults)⟩

end LevelSchema
