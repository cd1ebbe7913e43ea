import LevelSchema.Proofs.Schema.Places

/-!
# Blank lines

A line that holds nothing but blanks and perhaps a comment can be put in front of any line of a
text, or behind the last line break, and nothing changes in what the text declares
(`Schema.declared?_insert_blank_line`).  This holds in both directions, so such lines can be taken
out as well, and a text that declares nothing does not come to declare something.

Everything behind the new line moves, so the two texts agree only up to places.  The part in front
is read as before because a line is read as if the text ended behind it, and the part behind is
read as before because it starts a line in both texts.
-/

namespace LevelSchema

open Grammar

variable {pos : Nat} {cs pre post line : List Char} {ls ls' : List Lexeme}

/-! ## A blank line by itself -/

/-- Where no blank is in front, nothing or a comment is read. -/
lemma exists_scans_of_stop (hstop : ∀ c ∈ cs.head?, isSpace c = false)
    (hfeed : ∀ c ∈ cs, (c == '\n') = false) (hblank : isBlankLine cs = true) (pos : Nat) :
    ∃ ls, Scans pos false cs ls := by
  rcases (isBlankLine_iff_of_stop hstop).mp hblank with rfl | ⟨us, rfl⟩
  · exact ⟨[], .nil pos false⟩
  · have hrest := dropWhile_eq_nil_of_feedless fun c hc =>
      hfeed c (List.mem_cons_of_mem _ (List.mem_cons_of_mem _ hc))
    have hread : readToken ('/' :: '/' :: us) = readComment us := rfl
    rw [readComment, hrest] at hread
    exact ⟨_, .token rfl hread (.nil _ _)⟩

lemma feedless_dropWhile (p : Char → Bool) (hfeed : ∀ c ∈ cs, (c == '\n') = false) :
    ∀ c ∈ cs.dropWhile p, (c == '\n') = false :=
  fun c hc => hfeed c ((List.dropWhile_sublist p).subset hc)

/-- Inside a line, blanks and a comment are read without a fault. -/
lemma exists_scans_trail (hfeed : ∀ c ∈ cs, (c == '\n') = false) (hblank : isBlankLine cs = true)
    (pos : Nat) : ∃ ls, Scans pos false cs ls := by
  by_cases hstop : ∀ c ∈ cs.head?, isSpace c = false
  · exact exists_scans_of_stop hstop hfeed hblank pos
  rcases cs with - | ⟨c, cs⟩
  · exact absurd nofun hstop
  have hspace : isSpace c = true := by simpa using hstop
  have hreturn : c = '\r' → cs.head? ≠ some '\n' := by
    rintro - hhead
    exact nomatch hfeed '\n' (List.mem_cons_of_mem _ (List.mem_of_mem_head? hhead))
  have hread := readToken_of_isSpace hspace hreturn
  rw [readSpace, if_pos hspace] at hread
  rw [← isBlankLine_dropWhile fun _ => id, List.dropWhile_cons_of_pos hspace] at hblank
  have hmore := feedless_dropWhile isSpace (List.forall_mem_cons.mp hfeed).2
  obtain ⟨ls, hls⟩ := exists_scans_of_stop (run_takeWhile isSpace cs).stop hmore hblank
    (pos + byteLength (c :: cs.takeWhile isSpace))
  exact ⟨_, .token rfl hread hls⟩

/-- A blank line is read without a fault, and as blank. -/
lemma exists_scans_blank (hfeed : ∀ c ∈ cs, (c == '\n') = false) (hblank : isBlankLine cs = true)
    (pos : Nat) : ∃ ls, Scans pos true cs ls ∧ Blank ls := by
  by_cases hindent : ∃ c us, cs = c :: us ∧ isIndentChar c = true
  · obtain ⟨c, us, rfl, hc⟩ := hindent
    rw [← isBlankLine_dropWhile isSpace_of_isIndentChar, List.dropWhile_cons_of_pos hc] at hblank
    have hmore := feedless_dropWhile isIndentChar (List.forall_mem_cons.mp hfeed).2
    obtain ⟨ls, hls⟩ := exists_scans_trail hmore hblank
      (pos + byteLength (c :: us.takeWhile isIndentChar))
    exact ⟨_, .indent hc hls, ((hls.trail_iff hmore).mpr hblank).skipTrailing_eq⟩
  · have hstop : ∀ c ∈ cs.head?, isIndentChar c = false := by
      intro c hc
      obtain ⟨us, rfl⟩ := List.head?_eq_some_iff.mp hc
      exact Bool.eq_false_iff.mpr fun h => hindent ⟨c, us, rfl, h⟩
    obtain ⟨ls, hls⟩ := exists_scans_trail hfeed hblank pos
    exact ⟨ls, hls.at_lineStart hstop, blank_iff.mpr (.inl ((hls.trail_iff hfeed).mpr hblank))⟩

lemma isBlankLine_append {blanks comment : List Char} (hblanks : ∀ c ∈ blanks, isSpace c = true)
    (hcomment : comment = [] ∨ ∃ text, comment = '/' :: '/' :: text) :
    isBlankLine (blanks ++ comment) = true := by
  have hdrop : (blanks ++ comment).dropWhile isSpace = comment := by
    rw [List.dropWhile_append_of_pos hblanks]
    rcases hcomment with rfl | ⟨text, rfl⟩ <;> rfl
  rw [isBlankLine, hdrop]
  rcases hcomment with rfl | ⟨text, rfl⟩ <;> rfl

/-! ## A text around the start of a line -/

/-- **At the start of a line a text falls apart**: what follows is read by itself, and anything else
could follow as well. -/
lemma Scans.exists_at_lineStart (hpre : AtLineStart pre) (h : Scans pos true (pre ++ post) ls) :
    ∃ front pos' tail, Scans pos' true post tail ∧ lines ls = front ++ lines tail ∧
      ∀ post' tail', Scans pos' true post' tail' →
        ∃ ls', Scans pos true (pre ++ post') ls' ∧ lines ls' = front ++ lines tail' := by
  rcases hpre with rfl | ⟨us, rfl⟩
  · exact ⟨[], pos, ls, h, rfl, fun post' tail' h' => ⟨tail', h', rfl⟩⟩
  · rw [List.append_assoc] at h
    obtain ⟨⟨line, hline⟩, pos', tail', htail'⟩ := h.exists_of_append_newline
    obtain ⟨head, s, -, hrest⟩ := hline.append_newline
    obtain ⟨tail, htail, -⟩ := htail'.shift s.stop
    refine ⟨lines head, s.stop, tail, htail, ?_, fun post' tail' h' => ?_⟩
    · rw [h.unique (hrest post tail htail), lines_append_newline]
    · rw [List.append_assoc]
      exact ⟨_, hrest post' tail' h', lines_append_newline head tail'⟩

/-! ## One blank line more -/

/-- The tokens of `ls'` are those of `ls` with a blank line put between two lines. -/
def BlankInserted (ls ls' : List Lexeme) : Prop :=
  ∃ front blank tail tail', lines ls = front ++ lines tail ∧ Blank blank ∧
    lines ls' = front ++ blank :: lines tail' ∧ tail'.map (·.token) = tail.map (·.token)

lemma behindLast_of_lines {tail : List Lexeme} {front : List (List Lexeme)}
    (h : lines ls = front ++ lines tail) :
    behindLast Lexeme.isNewline ls = behindLast Lexeme.isNewline tail := by
  have hne : lines tail ≠ [] := List.splitOnP_ne_nil _ _
  change (lines ls).getLastD [] = (lines tail).getLastD []
  rw [h, List.getLastD_eq_getLast?, List.getLastD_eq_getLast?, List.getLast?_append,
    List.getLast?_eq_some_getLast hne, Option.some_or]

/-- A blank line says nothing. -/
lemma Grammar.LineSays.eq_none_of_blank {line : List Lexeme} {o : Option Row} (h : LineSays line o)
    (hblank : Blank line) : o = none := by
  cases h with
  | blank => rfl
  | row hwords hmargin htrail =>
      exact absurd hblank (Line.mk hwords hmargin htrail.afterLineEnd?_eq).not_blank

lemma BlankInserted.endsDeep_iff (h : BlankInserted ls ls') : EndsDeep ls' ↔ EndsDeep ls := by
  obtain ⟨front, blank, tail, tail', hls, -, hls', ht⟩ := h
  rw [← List.singleton_append, ← List.append_assoc] at hls'
  rw [EndsDeep, EndsDeep, behindLast_of_lines hls, behindLast_of_lines hls', ← EndsDeep, ← EndsDeep]
  exact ⟨fun h => h.of_tokens ht.symm, fun h => h.of_tokens ht⟩

lemma BlankInserted.conveys (h : BlankInserted ls ls') : Conveys ls ls' where
  exists_rows rows hsay := by
    obtain ⟨front, blank, tail, tail', hls, hblank, hls', ht⟩ := h
    rw [hls] at hsay
    obtain ⟨above, below, rfl, habove, hbelow⟩ := exists_of_linesSay_append hsay
    obtain ⟨below', hbelow', hrows⟩ := hbelow.exists_of_tokens (map_lines_of_tokens ht)
    refine ⟨above ++ below', ?_, by rw [List.map_append, List.map_append, hrows]⟩
    rw [hls']
    exact habove.append (.cons (.blank hblank) hbelow')
  endsDeep := h.endsDeep_iff.mp

lemma BlankInserted.conveys_back (h : BlankInserted ls ls') : Conveys ls' ls where
  exists_rows rows hsay := by
    obtain ⟨front, blank, tail, tail', hls, hblank, hls', ht⟩ := h
    rw [hls'] at hsay
    obtain ⟨above, _, rfl, habove, hmore⟩ := exists_of_linesSay_append hsay
    cases hmore with
    | cons hline hbelow =>
        obtain rfl := hline.eq_none_of_blank hblank
        obtain ⟨below', hbelow', hrows⟩ := hbelow.exists_of_tokens (map_lines_of_tokens ht.symm)
        refine ⟨above ++ below', ?_, by simp [hrows]⟩
        rw [hls]
        exact habove.append hbelow'
  endsDeep := h.endsDeep_iff.mpr

section Insert

variable (hpre : AtLineStart pre) (hfeed : ∀ c ∈ line, (c == '\n') = false)
  (hblank : isBlankLine line = true)

include hpre hfeed hblank

/-- With a blank line put in, a text is read as before but for that line. -/
lemma Scans.exists_insert_blank (h : Scans pos true (pre ++ post) ls) :
    ∃ ls', Scans pos true (pre ++ (line ++ '\n' :: post)) ls' ∧ BlankInserted ls ls' := by
  obtain ⟨front, pos', tail, htail, hls, hrest⟩ := h.exists_at_lineStart hpre
  obtain ⟨bl, hbl, hblankline⟩ := exists_scans_blank hfeed hblank pos'
  obtain ⟨head, s, hhead, hline⟩ := hbl.append_newline
  obtain ⟨tail', htail', ht⟩ := htail.shift s.stop
  obtain ⟨ls', hscan', hls'⟩ := hrest _ _ (hline post tail' htail')
  -- a carriage return at the end may have left the line for the line break
  have hhead' : Blank head := by
    rcases hhead with rfl | ⟨s', rfl⟩
    · exact hblankline
    · exact hblankline.of_append_space
  rw [lines_append_newline, lines_of_forall hhead'.isNewline_eq] at hls'
  exact ⟨ls', hscan', front, head, tail, tail', hls, hhead', hls', ht⟩

/-- With a blank line taken out, a text is read as before but for that line. -/
lemma Scans.exists_remove_blank (h : Scans pos true (pre ++ (line ++ '\n' :: post)) ls') :
    ∃ ls, Scans pos true (pre ++ post) ls ∧ BlankInserted ls ls' := by
  obtain ⟨front, pos', tail, htail, -, hrest⟩ := h.exists_at_lineStart hpre
  obtain ⟨-, pos'', tail', htail'⟩ := htail.exists_of_append_newline
  obtain ⟨tail'', htail'', -⟩ := htail'.shift pos'
  obtain ⟨ls, hscan, -⟩ := hrest post tail'' htail''
  obtain ⟨ls'', hscan'', hinserted⟩ := hscan.exists_insert_blank hpre hfeed hblank
  rw [h.unique hscan'']
  exact ⟨ls, hscan, hinserted⟩

end Insert

namespace Schema

/-- **Blank lines and comment lines are invisible.**  Put at the start of the text or behind a line
break, a line of blanks, perhaps with a comment behind them, changes nothing in what is declared. -/
theorem declared?_insert_blank_line (before blanks comment after : String)
    (hbefore : before = "" ∨ ∃ text, before = text ++ "\n")
    (hblanks : ∀ c ∈ blanks.toList, isSpace c = true)
    (hcomment : comment = "" ∨ ∃ text, comment = "//" ++ text ∧ '\n' ∉ text.toList) :
    declared? (before ++ (blanks ++ comment ++ "\n") ++ after) = declared? (before ++ after) := by
  have hpre : AtLineStart before.toList := by
    rcases hbefore with rfl | ⟨text, rfl⟩
    · exact .inl (by simp)
    · exact .inr ⟨text.toList, by simp⟩
  have hblank : isBlankLine (blanks.toList ++ comment.toList) = true := by
    refine isBlankLine_append hblanks ?_
    rcases hcomment with rfl | ⟨text, rfl, -⟩
    · exact .inl (by simp)
    · exact .inr ⟨text.toList, by simp⟩
  have hfeed : ∀ c ∈ blanks.toList ++ comment.toList, (c == '\n') = false := by
    refine List.forall_mem_append.mpr ⟨fun c hc => ?_, fun c hc => ?_⟩
    · rw [beq_eq_false_iff_ne]
      rintro rfl
      exact nomatch hblanks _ hc
    · rw [beq_eq_false_iff_ne]
      rintro rfl
      rcases hcomment with rfl | ⟨text, rfl, htext⟩ <;> simp_all
  have htext : (before ++ (blanks ++ comment ++ "\n") ++ after).toList =
      before.toList ++ ((blanks.toList ++ comment.toList) ++ '\n' :: after.toList) := by
    simp
  refine declared?_eq_of_conveys (fun ls h => ?_) fun ls h => ?_
  · rw [String.toList_append] at h
    obtain ⟨ls', hscan, hinserted⟩ := h.exists_insert_blank hpre hfeed hblank
    exact ⟨ls', htext ▸ hscan, hinserted.conveys⟩
  · rw [htext] at h
    obtain ⟨ls', hscan, hinserted⟩ := h.exists_remove_blank hpre hfeed hblank
    exact ⟨ls', by rwa [String.toList_append], hinserted.conveys_back⟩

/-- A comment behind a tab, between the head of a level and its only object type. -/
theorem comment_line_inside_level :
    declared? ("AbstractionLevel Site\n" ++ (" \t" ++ "// Lot → plot" ++ "\n") ++
        "    Object Plot\n") = declared? ("AbstractionLevel Site\n" ++ "    Object Plot\n") ∧
      (declared? ("AbstractionLevel Site\n" ++ "    Object Plot\n")).isSome = true :=
  ⟨declared?_insert_blank_line _ _ _ _ (.inr ⟨"AbstractionLevel Site", rfl⟩)
    (List.all_eq_true.mp (by decide)) (.inr ⟨" Lot → plot", rfl, by decide⟩), by decide +kernel⟩

end Schema

end LevelSchema
