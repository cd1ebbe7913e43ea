import LevelSchema.Proofs.Document.RoundTrip
import LevelSchema.Proofs.Document.Words
import LevelSchema.Proofs.Name

/-!
# What is read as a name

Two places say what a name is.  `Name.isIdentifier` looks at a text as a whole, and the lexer takes
words off the front of a text that may go on.  Both mean the same: a text is read as one token that
stands for a name exactly if it is an identifier (`readsAsName_iff`).  Which texts these are is said
once more character by character, as a form that grows at its end (`Name.Formed`).

**Rules in order.**  A word is read by taking the longest run of characters and looking it up among
the keywords.  It could also be read by trying rules one after the other: a keyword, if the word
ends behind it; a number, if no word goes on behind it; any other word (`wordRules`).  This comes to
the same (`readToken_of_wordRules`), since no keyword begins another: the first one that fits is the
only one.
-/

namespace LevelSchema

open Grammar

variable {k k' : Keyword} {c : Char} {cs : List Char} {r : Reading} {s : String}

/-! ## Identifiers -/

/-- Texts of the form `[A-Za-z_][A-Za-z0-9_]*`. -/
inductive Name.Formed : List Char → Prop
  | first {c : Char} (hc : 'A' ≤ c ∧ c ≤ 'Z' ∨ 'a' ≤ c ∧ c ≤ 'z' ∨ c = '_') : Formed [c]
  | next {cs : List Char} {c : Char} (h : Formed cs)
      (hc : 'A' ≤ c ∧ c ≤ 'Z' ∨ 'a' ≤ c ∧ c ≤ 'z' ∨ '0' ≤ c ∧ c ≤ '9' ∨ c = '_') :
      Formed (cs ++ [c])

lemma Name.Formed.isIdentifierChars_eq (h : Formed cs) : isIdentifierChars cs = true := by
  induction h with
  | first hc => exact isIdentifierChars_cons.mpr ⟨isStart_iff.mpr hc, by simp⟩
  | next h hc ih => exact isIdentifierChars_append ih (by simpa using isPart_iff.mpr hc)

/-- The induction takes characters off the end, where the form adds them. -/
lemma Name.formed_of_isStart (hc : isStart c = true) (hcs : ∀ d ∈ cs, isPart d = true) :
    Formed (c :: cs) := by
  induction cs using List.reverseRecOn with
  | nil => exact .first (isStart_iff.mp hc)
  | append_singleton cs d ih =>
      obtain ⟨hinit, hlast⟩ := List.forall_mem_append.mp hcs
      exact .next (ih hinit) (isPart_iff.mp (hlast d List.mem_cons_self))

lemma Name.isIdentifier_iff_formed : isIdentifier s = true ↔ Formed s.toList := by
  refine ⟨fun h => ?_, Formed.isIdentifierChars_eq⟩
  obtain ⟨c, cs, hs, hstart, hparts⟩ := exists_cons_of_isIdentifier h
  rw [hs]
  exact formed_of_isStart hstart hparts

/-! ## Keywords -/

/-- No keyword begins another. -/
lemma Keyword.eq_of_begins (h : k.spelling.toList <+: k'.spelling.toList) : k = k' := by
  revert h
  cases k <;> cases k' <;> decide

/-- The first keyword that a text begins with. -/
def Keyword.inFront? (cs : List Char) : Option Keyword :=
  all.find? fun k => k.spelling.toList.isPrefixOf cs

/-- Of two keywords that a text begins with, one would begin the other: whichever is tried first,
the same one is found. -/
lemma Keyword.inFront?_eq_some_iff : inFront? cs = some k ↔ k.spelling.toList <+: cs := by
  have hbegins : ∀ {k}, inFront? cs = some k → k.spelling.toList <+: cs := fun h => by
    simpa using List.find?_some h
  refine ⟨hbegins, fun h => ?_⟩
  have hall : k ∈ all := by cases k <;> decide
  have hfound : (inFront? cs).isSome = true :=
    List.find?_isSome.mpr ⟨k, hall, List.isPrefixOf_iff_prefix.mpr h⟩
  obtain ⟨k', hk'⟩ := Option.isSome_iff_exists.mp hfound
  rw [hk', Option.some.injEq]
  rcases List.prefix_or_prefix_of_prefix (hbegins hk') h with hle | hle
  · exact eq_of_begins hle
  · exact (eq_of_begins hle).symm

lemma wordToken_eq_name (h : ∀ k : Keyword, s ≠ k.spelling) : wordToken s = .name s := by
  unfold wordToken
  split
  · next k hk => exact absurd (Keyword.spelling_of_ofSpelling? hk).symm (h k)
  · rfl

/-! ## Rules in order -/

/-- The keyword that a text begins with, if the word ends behind it. -/
def keywordRule (cs : List Char) : Option Reading :=
  match Keyword.inFront? cs with
  | some k =>
      let rest := cs.drop k.spelling.toList.length
      if rest.head?.any Name.isPart then none
      else some (.token (.keyword k) k.spelling.toList rest)
  | none => none

/-- The number that a text begins with, if no word goes on behind it. -/
def integerRule : List Char → Option Reading
  | [] => none
  | c :: cs =>
      if c.isDigit && !(cs.dropWhile Char.isDigit).head?.any Name.isPart then
        some (readInteger c cs)
      else none

/-- The word that a text begins with, as a name. -/
def nameRule : List Char → Option Reading
  | [] => none
  | c :: cs =>
      if Name.isStart c then
        let word := c :: cs.takeWhile Name.isPart
        some (.token (.name (String.ofList word)) word (cs.dropWhile Name.isPart))
      else none

/-- The first of the rules for words and numbers that fits. -/
def wordRules (cs : List Char) : Option Reading :=
  keywordRule cs <|> integerRule cs <|> nameRule cs

/-- A keyword fits exactly where it stands and the word ends behind it. -/
lemma keywordRule_eq_some_iff : keywordRule cs = some r ↔
    ∃ (k : Keyword) (rest : List Char), cs = k.spelling.toList ++ rest ∧ Parted rest ∧
      r = .token (.keyword k) k.spelling.toList rest := by
  constructor
  · intro h
    unfold keywordRule at h
    split at h
    · next k hk =>
        obtain ⟨rest, rfl⟩ := Keyword.inFront?_eq_some_iff.mp hk
        simp only [List.drop_left] at h
        split_ifs at h with hpart
        exact ⟨k, rest, rfl, (Option.any_eq_false ..).mp (Bool.eq_false_iff.mpr hpart),
          (Option.some.inj h).symm⟩
    · exact nomatch h
  · rintro ⟨k, rest, rfl, hrest, rfl⟩
    have hpart : rest.head?.any Name.isPart = false := (Option.any_eq_false ..).mpr hrest
    have hfound := Keyword.inFront?_eq_some_iff.mpr (List.prefix_append k.spelling.toList rest)
    simp [keywordRule, hfound, hpart]

lemma readToken_of_keywordRule (h : keywordRule cs = some r) : readToken cs = r := by
  obtain ⟨k, rest, rfl, hrest, rfl⟩ := keywordRule_eq_some_iff.mp h
  exact (spelling_keyword k hrest).readToken_append

lemma readToken_of_integerRule (h : integerRule cs = some r) : readToken cs = r := by
  cases cs with
  | nil => exact nomatch h
  | cons c cs =>
      rw [integerRule] at h
      split_ifs at h with hdigit
      rw [readToken_of_isDigit (Bool.and_eq_true_iff.mp hdigit).1]
      exact Option.some.inj h

/-- A word that is left for the last rule is no keyword: the word ends where its run of characters
does, so as a keyword it would have fitted before. -/
lemma readToken_of_nameRule (hkeyword : keywordRule cs = none) (h : nameRule cs = some r) :
    readToken cs = r := by
  cases cs with
  | nil => cases h
  | cons c cs =>
      rw [nameRule] at h
      split_ifs at h with hstart
      cases h
      have hname : ∀ k : Keyword, String.ofList (c :: cs.takeWhile Name.isPart) ≠ k.spelling := by
        intro k hk
        have hcs : c :: cs = k.spelling.toList ++ cs.dropWhile Name.isPart := by
          rw [← hk, String.toList_ofList, List.cons_append, List.takeWhile_append_dropWhile]
        have hfits := keywordRule_eq_some_iff.mpr
          ⟨k, _, hcs, (run_takeWhile Name.isPart cs).stop, rfl⟩
        cases hkeyword.symm.trans hfits
      rw [readToken_of_isStart hstart, readWord, wordToken_eq_name hname]

/-- **The rules read what the longest run gives.** -/
theorem readToken_of_wordRules (h : wordRules cs = some r) : readToken cs = r := by
  rw [wordRules, Option.orElse_eq_orElse] at h
  cases hkeyword : keywordRule cs with
  | some r' =>
      rw [hkeyword] at h
      exact (readToken_of_keywordRule hkeyword).trans (Option.some.inj h)
  | none =>
      rw [hkeyword] at h
      cases hinteger : integerRule cs with
      | some r' =>
          rw [hinteger] at h
          exact (readToken_of_integerRule hinteger).trans (Option.some.inj h)
      | none =>
          rw [hinteger] at h
          exact readToken_of_nameRule hkeyword h

/-- Some rule fits where a word starts. -/
lemma wordRules_eq_readToken (h : Name.isStart c = true) (cs : List Char) :
    wordRules (c :: cs) = some (readToken (c :: cs)) := by
  have hsome : (wordRules (c :: cs)).isSome = true := by
    simp [wordRules, nameRule, h]
  obtain ⟨r, hr⟩ := Option.isSome_iff_exists.mp hsome
  rw [hr, readToken_of_wordRules hr]

/-! ## Texts that are one word -/

/-- The text is read as one token, and where a name is expected that token is the name `n`. -/
def ReadsAsName (source : String) (n : Located String) : Prop :=
  ∃ l, scan source = .ok [l] ∧ Rule.accept nameOf [l] = .matched n []

/-- The place of a whole text. -/
def Span.whole (source : String) : Span :=
  ⟨0, source.utf8ByteSize⟩

lemma readToken_of_isIdentifier (h : Name.isIdentifier s = true) :
    readToken s.toList = .token (wordToken s) s.toList [] := by
  simpa using (spelling_name h parted_nil).readToken_append

lemma scan_of_isIdentifier (h : Name.isIdentifier s = true) :
    scan s = .ok [⟨wordToken s, .whole s⟩] := by
  obtain ⟨c, cs, hs, hstart, -⟩ := Name.exists_cons_of_isIdentifier h
  have hindent : isIndentChar c = false := by
    rw [Bool.eq_false_iff]
    intro hc
    have hspace := isSpace_eq_false_of_isPart (isPart_of_isStart hstart)
    exact nomatch hspace.symm.trans (isSpace_of_isIndentChar c hc)
  have hsize : s.utf8ByteSize = 0 + byteLength (c :: cs) := by
    rw [Nat.zero_add, ← hs, ← utf8ByteSize_ofList, String.ofList_toList]
  have hread := readToken_of_isIdentifier h
  rw [hs] at hread
  rw [scan_eq_ok_iff, hs, Span.whole, hsize]
  exact .token (by simp [hindent]) hread (.nil _ _)

/-- **A text is read as a name exactly if it is an identifier**, and then as the name it is. -/
lemma readsAsName_iff {n : Located String} :
    ReadsAsName s n ↔ Name.isIdentifier s = true ∧ n = ⟨s, .whole s⟩ := by
  constructor
  · rintro ⟨l, hscan, hmatched⟩
    obtain ⟨_, hname, hl⟩ := Rule.accept_eq_matched_iff.mp hmatched
    cases hl
    have htiles := (scan_eq_ok_iff.mp hscan).tiles
    -- the one piece of the text is all of it
    obtain ⟨texts, hjoin, htexts⟩ := htiles.texts
    obtain ⟨text, _, ⟨-, hwritten⟩, hnil, rfl⟩ := List.forall₂_cons_left_iff.mp htexts
    cases hnil
    obtain ⟨value, hvalue, rfl⟩ := Option.map_eq_some_iff.mp hname
    have hjoined : String.join [text] = text := by simp [String.join]
    have htext : value = s :=
      (eq_of_writtenAs hname hwritten).symm.trans (hjoined.symm.trans hjoin)
    have hspan : l.span = .whole s :=
      congrArg₂ Span.mk (htiles.start l rfl) (htiles.stop l rfl)
    subst htext
    exact ⟨scan_named hscan l List.mem_cons_self value hvalue, by rw [hspan]⟩
  · rintro ⟨h, rfl⟩
    exact ⟨_, scan_of_isIdentifier h,
      Rule.accept_eq_matched_iff.mpr ⟨_, nameOf_wordToken s _, rfl⟩⟩

/-! ## The two notions of a name -/

/-- A name that merely begins with a keyword is no keyword. -/
lemma wordToken_of_begins (h : k.spelling.toList <+: s.toList) (hne : s ≠ k.spelling) :
    wordToken s = .name s := by
  refine wordToken_eq_name fun k' hk' => ?_
  rw [hk'] at h hne
  rw [Keyword.eq_of_begins h] at hne
  exact hne rfl

/-- The rules for words take all of an identifier, and of no other text. -/
lemma wordRules_iff_isIdentifier :
    (∃ t, wordRules s.toList = some (.token t s.toList []) ∧ t.asName? = some s) ↔
      Name.isIdentifier s = true := by
  constructor
  · rintro ⟨t, hrules, hname⟩
    exact isIdentifier_of_readToken (readToken_of_wordRules hrules) hname
  · intro h
    obtain ⟨c, cs, hs, hstart, -⟩ := Name.exists_cons_of_isIdentifier h
    refine ⟨wordToken s, ?_, asName?_wordToken s⟩
    have hread := readToken_of_isIdentifier h
    rw [hs] at hread ⊢
    rw [wordRules_eq_readToken hstart, hread]

/-- **The lexer and the naming rules agree on names.**  A text is read as one token that is the text
itself where a name is expected, exactly if it is an identifier; no other name is ever read from it.
A name that merely begins with a keyword is one name, and a keyword is recovered as a name with its
own text. -/
theorem lexer_agrees_on_names (s : String) :
    ((∃ place, ReadsAsName s ⟨s, place⟩) ↔ Name.isIdentifier s = true) ∧
      ((∃ t, wordRules s.toList = some (.token t s.toList []) ∧ t.asName? = some s) ↔
        Name.isIdentifier s = true) ∧
      (Name.isIdentifier s = true ↔ Name.Formed s.toList) ∧
      (∀ n, ReadsAsName s n → n = ⟨s, .whole s⟩) ∧
      (∀ k : Keyword, k.spelling.toList <+: s.toList → s ≠ k.spelling →
        Name.isIdentifier s = true → scan s = .ok [⟨.name s, .whole s⟩]) ∧
      (∀ k : Keyword, s = k.spelling →
        scan s = .ok [⟨.keyword k, .whole s⟩] ∧ ReadsAsName s ⟨k.spelling, .whole s⟩) := by
  refine ⟨?_, wordRules_iff_isIdentifier, Name.isIdentifier_iff_formed,
    fun n hn => (readsAsName_iff.mp hn).2, ?_, ?_⟩
  · constructor
    · rintro ⟨place, hreads⟩
      exact (readsAsName_iff.mp hreads).1
    · intro h
      exact ⟨.whole s, readsAsName_iff.mpr ⟨h, rfl⟩⟩
  · intro k hbegins hne h
    rw [scan_of_isIdentifier h, wordToken_of_begins hbegins hne]
  · rintro k rfl
    have hk := isIdentifier_spelling k
    refine ⟨?_, readsAsName_iff.mpr ⟨hk, rfl⟩⟩
    rw [scan_of_isIdentifier hk, wordToken_spelling]

/-- `Objects` is a name although `Object` is a keyword, and `extends` is both. -/
theorem objects_and_extends_read :
    ("Object".toList <+: "Objects".toList ∧ "Objects" ≠ "Object" ∧
      Name.isIdentifier "Objects" = true ∧ scan "Objects" = .ok [⟨.name "Objects", ⟨0, 7⟩⟩]) ∧
      scan "extends" = .ok [⟨.keyword .extends, ⟨0, 7⟩⟩] ∧
      ReadsAsName "extends" ⟨"extends", ⟨0, 7⟩⟩ := by
  have hbegins : "Object".toList <+: "Objects".toList := by decide
  have hne : "Objects" ≠ "Object" := by decide
  obtain ⟨-, -, -, -, hlonger, -⟩ := lexer_agrees_on_names "Objects"
  obtain ⟨-, -, -, -, -, hkeyword⟩ := lexer_agrees_on_names "extends"
  exact ⟨⟨hbegins, hne, rfl, hlonger .object hbegins hne rfl⟩, hkeyword .extends rfl⟩

end LevelSchema
