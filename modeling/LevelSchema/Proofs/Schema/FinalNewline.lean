import LevelSchema.Proofs.Document.Lines
import LevelSchema.Proofs.Schema.Loadable

/-!
# The last line break

A text may end without a line break, and it is meant to make no difference whether it does.  It
makes none for what is read, down to every place, and only one for whether it is read: a last line
that is blank and indented like a member or property is taken for one, unless a line break follows.
`ofSource_eq_ok_iff_append_newline` says exactly this, and `blank_member_line_refused` shows the
exception at work.

**Which texts are concerned** is said of the characters (`endsDeep`): the text behind the last line
feed is blank, or blank up to a comment, and the spaces and tabs in front are as wide as the
indentation of a member.
-/

namespace LevelSchema

variable {pos : Nat} {c : Char} {cs : List Char} {ls : List Lexeme}

/-! ## Blank lines as characters -/

/-- Whether a line holds nothing, or nothing but a comment. -/
def isBlankLine (cs : List Char) : Bool :=
  match cs.dropWhile isSpace with
  | [] => true
  | '/' :: '/' :: _ => true
  | _ => false

/-- How many columns a line is indented. -/
def indentation (cs : List Char) : Nat :=
  columns (cs.takeWhile isIndentChar)

/-- Whether the text ends in a line that is blank and indented like a member or property. -/
def endsDeep (source : String) : Bool :=
  isBlankLine (lastLine source.toList) && indentation (lastLine source.toList) == 2 * indentWidth

section BlankLine

open Grammar

lemma dropWhile_dropWhile_of_imp {p q : Char → Bool} (h : ∀ c, q c = true → p c = true)
    (cs : List Char) : (cs.dropWhile q).dropWhile p = cs.dropWhile p := by
  induction cs with
  | nil => rfl
  | cons c cs ih =>
      by_cases hc : q c = true
      · rw [List.dropWhile_cons_of_pos hc, List.dropWhile_cons_of_pos (h c hc), ih]
      · rw [List.dropWhile_cons_of_neg hc]

lemma isBlankLine_dropWhile {q : Char → Bool} (h : ∀ c, q c = true → isSpace c = true)
    (cs : List Char) : isBlankLine (cs.dropWhile q) = isBlankLine cs := by
  rw [isBlankLine, isBlankLine, dropWhile_dropWhile_of_imp h]

lemma isBlankLine_iff_of_stop (h : ∀ c ∈ cs.head?, isSpace c = false) :
    isBlankLine cs = true ↔ cs = [] ∨ ∃ us, cs = '/' :: '/' :: us := by
  have hdrop : cs.dropWhile isSpace = cs := by
    cases cs with
    | nil => rfl
    | cons c cs => rw [List.dropWhile_cons_of_neg (by simp [h c rfl])]
  rw [isBlankLine, hdrop]
  constructor
  · split
    · exact fun _ => .inl rfl
    · exact fun _ => .inr ⟨_, rfl⟩
    · exact nofun
  · rintro (rfl | ⟨us, rfl⟩) <;> rfl

lemma Scans.token_ne_space {lineStart : Bool} (h : Scans pos lineStart cs ls)
    (hstop : ∀ c ∈ cs.head?, isSpace c = false) : ∀ l ∈ ls.head?, l.token ≠ .space := by
  cases h with
  | nil => simp
  | indent hc h =>
      rintro _ ⟨⟩
      exact nofun
  | token hc hread h =>
      rintro _ ⟨⟩ rfl
      obtain ⟨happend, hspelling⟩ := readToken_eq_token_iff.mp hread
      obtain ⟨d, ds, rfl, hd⟩ := hspelling.exists_isSpace
      cases happend
      exact nomatch hd.symm.trans (hstop _ rfl)

/-- A comment takes the rest of its line. -/
lemma dropWhile_eq_nil_of_feedless (hfeed : ∀ c ∈ cs, (c == '\n') = false) :
    cs.dropWhile (· != '\n') = [] := by
  have hrun : Run (· != '\n') cs [] := ⟨fun c hc => by simpa using hfeed c hc, nofun⟩
  simpa using hrun.dropWhile_append

/-- Where no blank is in front, a line that holds nothing is at its end or at a comment. -/
lemma Scans.trail_iff_of_stop (h : Scans pos false cs ls) (hfeed : ∀ c ∈ cs, (c == '\n') = false)
    (hstop : ∀ c ∈ cs.head?, isSpace c = false) : Trail ls ↔ isBlankLine cs = true := by
  have hspace := h.token_ne_space hstop
  rw [isBlankLine_iff_of_stop hstop]
  cases h with
  | nil => exact ⟨fun _ => .inl rfl, fun _ => .none⟩
  | @token _ _ c cs taken rest t ls hc hread h =>
      constructor
      · intro htrail
        obtain ⟨happend, hspelling⟩ := readToken_eq_token_iff.mp hread
        cases htrail with
        | space s => exact absurd rfl (hspace _ rfl)
        | both s text s' => exact absurd rfl (hspace _ rfl)
        | comment text s =>
            obtain ⟨us, rfl⟩ := hspelling.exists_comment
            exact .inr ⟨us ++ rest, happend⟩
      · rintro (hnil | ⟨us, hus⟩)
        · exact nomatch hnil
        · cases hus
          cases hread
          have hrest := dropWhile_eq_nil_of_feedless fun c hc =>
            hfeed c (List.mem_cons_of_mem _ (List.mem_cons_of_mem _ hc))
          rw [hrest] at h
          cases h
          exact .comment _ _

/-- Behind the indent, a line is read as nothing but a space and a comment if it is blank. -/
lemma Scans.trail_iff (h : Scans pos false cs ls) (hfeed : ∀ c ∈ cs, (c == '\n') = false) :
    Trail ls ↔ isBlankLine cs = true := by
  by_cases hstop : ∀ c ∈ cs.head?, isSpace c = false
  · exact h.trail_iff_of_stop hfeed hstop
  cases h with
  | nil => exact absurd nofun hstop
  | @token _ _ c cs taken rest t ls hc hread h =>
      have hspace : isSpace c = true := by simpa using hstop
      have hreturn : c = '\r' → cs.head? ≠ some '\n' := by
        rintro - hhead
        exact nomatch hfeed '\n' (List.mem_cons_of_mem _ (List.mem_of_mem_head? hhead))
      rw [readToken_of_isSpace hspace hreturn, readSpace, if_pos hspace] at hread
      cases hread
      -- the space is the longest, so none follows it
      have hrun := (run_takeWhile isSpace cs).stop
      have hmore : ∀ d ∈ cs.dropWhile isSpace, (d == '\n') = false := fun d hd =>
        hfeed d (List.mem_cons_of_mem _ ((List.dropWhile_sublist isSpace).subset hd))
      have hne := h.token_ne_space hrun
      have hblank : isBlankLine (c :: cs) = isBlankLine (cs.dropWhile isSpace) := by
        rw [← List.dropWhile_cons_of_pos hspace, isBlankLine_dropWhile fun _ => id]
      rw [hblank, ← Scans.trail_iff_of_stop h hmore hrun]
      constructor
      · rintro ⟨⟩
        · exact .none
        · exact .comment _ _
      · rintro ⟨⟩
        · exact .space _
        · exact absurd rfl (hne _ rfl)
        · exact .both _ _ _
        · exact absurd rfl (hne _ rfl)

/-- A line is read as blank and deep exactly if its characters are. -/
lemma Scans.blank_deep_iff (h : Scans pos true cs ls) (hfeed : ∀ c ∈ cs, (c == '\n') = false) :
    Blank ls ∧ Deep ls ↔ isBlankLine cs = true ∧ indentation cs = 2 * indentWidth := by
  cases h with
  | nil => exact iff_of_false (fun h => h.2.ne_nil rfl) nofun
  | @indent _ c cs ls hc h =>
      have hmore : ∀ d ∈ cs.dropWhile isIndentChar, (d == '\n') = false := fun d hd =>
        hfeed d (List.mem_cons_of_mem _ ((List.dropWhile_sublist isIndentChar).subset hd))
      have hblank : isBlankLine (c :: cs) = isBlankLine (cs.dropWhile isIndentChar) := by
        rw [← List.dropWhile_cons_of_pos hc, isBlankLine_dropWhile isSpace_of_isIndentChar]
      rw [hblank, ← h.trail_iff hmore, indentation, List.takeWhile_cons_of_pos hc]
      refine and_congr ⟨trail_of_skipTrailing, fun htrail => htrail.skipTrailing_eq⟩ ⟨?_, ?_⟩
      · rintro ⟨s, us, hus⟩
        exact Token.indent.inj (congrArg Lexeme.token (List.cons.inj hus).1)
      · intro hwidth
        rw [hwidth]
        exact ⟨_, _, rfl⟩
  | @token _ _ c cs taken rest t ls hc hread h =>
      have hshallow : indentation (c :: cs) = 0 := by
        rw [indentation, List.takeWhile_cons_of_neg (by simpa using hc)]
        rfl
      rw [hshallow]
      refine iff_of_false ?_ nofun
      rintro ⟨-, s, us, hus⟩
      cases hus
      exact Spelling.not_indent (readToken_eq_token_iff.mp hread).2

lemma endsDeep_iff {source : String} (h : Scans pos true source.toList ls) :
    endsDeep source = true ↔ EndsDeep ls := by
  obtain ⟨pos', hline⟩ := h.lastLine
  rw [EndsDeep, hline.blank_deep_iff fun c hc => eq_false_of_mem_behindLast (p := (· == '\n')) hc,
    endsDeep, Bool.and_eq_true, beq_iff_eq]

end BlankLine

/-! ## The text with a line break behind it -/

section Newline

open Grammar

/-- **A line break at the end changes nothing in what the lines say**, and behind it nothing is
deep. -/
lemma Scans.exists_append_newline {lineStart : Bool} (h : Scans pos lineStart cs ls) :
    ∃ us, Scans pos lineStart (cs ++ ['\n']) us ∧ ¬ EndsDeep us ∧
      ∀ rows, LinesSay (lines us) rows ↔ LinesSay (lines ls) rows := by
  obtain ⟨head, s, hhead, hrest⟩ := h.append_newline
  refine ⟨head ++ [⟨.newline, s⟩], hrest [] [] (.nil _ _), ?_, fun rows => ?_⟩
  · rintro ⟨-, hdeep⟩
    rw [behindLast_append_cons rfl] at hdeep
    exact hdeep.ne_nil rfl
  · rw [linesSay_append_newline_iff]
    rcases hhead with rfl | ⟨s', rfl⟩
    · rfl
    · exact (linesSay_append_space_iff h.settled_of_space).symm

/-- The same documents are read with a line break behind the text, and then no last line stands in
the way. -/
lemma document_append_newline_iff {us : List Lexeme} {d : Document} (hlevels : d.levels ≠ [])
    (hitems : ∀ l ∈ d.levels, l.items ≠ []) (hends : ¬ EndsDeep us)
    (hsay : ∀ rows, LinesSay (lines us) rows ↔ LinesSay (lines ls) rows) :
    document ls = .ok d ↔ document us = .ok d ∧ ¬ EndsDeep ls := by
  rw [document_eq_ok_iff hlevels hitems, document_eq_ok_iff hlevels hitems]
  simp only [hsay, hends, not_false_eq_true, and_true]

end Newline

lemma Document.Loadable.items_ne_nil {d : Document} (h : d.Loadable) :
    ∀ l ∈ d.levels, l.items ≠ [] := by
  intro l hl
  obtain ⟨o, ho⟩ := (h.levels l hl).exists_object
  exact List.ne_nil_of_mem ho

namespace Schema

/-- **The line break at the end.**  A text has a schema exactly if it has that schema with a line
break behind it, with the same warnings and every place the same, and it does not end in a line
that is blank and as deep as a member. -/
theorem ofSource_eq_ok_iff_append_newline (source : String) (loaded : Noted Diagnostic Schema) :
    ofSource source = .ok loaded ↔
      ofSource (source ++ "\n") = .ok loaded ∧ endsDeep source = false := by
  have hfeed : (source ++ "\n").toList = source.toList ++ ['\n'] := by simp
  simp only [ofSource_eq_ok_iff, scan_eq_ok_iff, Document.ofLexemes_eq_ok_iff,
    Document.passes_load_iff_loadable, hfeed]
  constructor
  · rintro ⟨ls, d, hscan, hread, hload, rfl⟩
    obtain ⟨us, hscan', hends, hsay⟩ := hscan.exists_append_newline
    rw [document_append_newline_iff hload.levels_ne_nil hload.items_ne_nil hends hsay] at hread
    refine ⟨⟨us, d, hscan', hread.1, hload, rfl⟩, ?_⟩
    rw [Bool.eq_false_iff, Ne, endsDeep_iff hscan]
    exact hread.2
  · rintro ⟨⟨us, d, hscan', hread, hload, rfl⟩, hdeep⟩
    obtain ⟨ls, hscan⟩ := hscan'.exists_of_append_newline.1
    obtain ⟨us', hscan'', hends, hsay⟩ := hscan.exists_append_newline
    obtain rfl := hscan'.unique hscan''
    refine ⟨ls, d, hscan, ?_, hload, rfl⟩
    rw [document_append_newline_iff hload.levels_ne_nil hload.items_ne_nil hends hsay]
    rw [Bool.eq_false_iff, Ne, endsDeep_iff hscan] at hdeep
    exact ⟨hread, hdeep⟩

/-- A last line of eight spaces: with a line break behind it, it is blank, and without one it is a
property that does not come. -/
theorem blank_member_line_refused :
    (ofSource "AbstractionLevel Site\n    Object Plot\n        ").isOk = false ∧
      (ofSource "AbstractionLevel Site\n    Object Plot\n        \n").isOk = true := by
  decide +kernel

end Schema

end LevelSchema
