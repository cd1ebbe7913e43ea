import LevelSchema.Proofs.Document.Reading
import LevelSchema.Proofs.Token.Scans

/-!
# The lines of a text

`Rows` follows the grammar, which asks again and again whether a line ends here.  This file looks at
the same tokens as a whole: cut at the line breaks they are a list of lines (`lines`), each line
says something or nothing by itself (`LineSays`), and what the text says is what its lines say in
turn (`LinesSay`).  In that form a line can be added, taken away or changed without looking at any
other.

`document_eq_ok_iff` puts this and the grammar together: apart from a last line that is blank and
indented like a member, a document is read exactly if the lines say it.
-/

namespace LevelSchema

namespace Grammar

open Rule

variable {ts mid rest last line trail words : List Lexeme} {l : Lexeme} {s : Span} {row : Row}
  {rows more : List Row} {o : Option Row}

/-! ## What stands behind the words of a line -/

/-- Nothing but a space and a comment. -/
inductive Trail : List Lexeme → Prop
  | none : Trail []
  | space (s : Span) : Trail [⟨.space, s⟩]
  | comment (text : String) (s : Span) : Trail [⟨.comment text, s⟩]
  | both (s : Span) (text : String) (s' : Span) : Trail [⟨.space, s⟩, ⟨.comment text, s'⟩]

/-- What is skipped at the end of a line, with nothing behind it, is a trail. -/
lemma trail_of_skipTrailing (h : skipTrailing ts = []) : Trail ts := by
  rcases ts with - | ⟨⟨t, s⟩, - | ⟨⟨t', s'⟩, us⟩⟩
  · exact .none
  · cases t <;> simp [skipTrailing, skipOne, isSpaceToken, isComment] at h
    · exact .space s
    · exact .comment _ s
  · cases t <;> simp [skipTrailing, skipOne, isSpaceToken, isComment] at h
    cases t' <;> simp at h
    subst h
    exact .both s _ s'

lemma Trail.skipTrailing_eq (h : Trail ts) : skipTrailing ts = [] := by
  cases h <;> rfl

lemma Trail.isNewline_eq (h : Trail ts) : ∀ t ∈ ts, t.isNewline = false := by
  cases h <;> simp [Lexeme.isNewline]

/-- A blank line: a trail, with an indent before it or not. -/
lemma blank_iff :
    Blank ts ↔ Trail ts ∨ ∃ width s us, ts = ⟨.indent width, s⟩ :: us ∧ Trail us := by
  constructor
  · intro h
    rcases ts with - | ⟨⟨t, s⟩, us⟩
    · exact .inl .none
    · cases t with
      | indent width => exact .inr ⟨width, s, us, rfl, trail_of_skipTrailing h⟩
      | _ => exact .inl (trail_of_skipTrailing h)
  · rintro (h | ⟨width, s, us, rfl, h⟩)
    · cases h <;> rfl
    · exact h.skipTrailing_eq

lemma Blank.isNewline_eq (h : Blank ts) : ∀ t ∈ ts, t.isNewline = false := by
  rcases blank_iff.mp h with htrail | ⟨width, s, us, rfl, htrail⟩
  · exact htrail.isNewline_eq
  · exact List.forall_mem_cons.mpr ⟨rfl, htrail.isNewline_eq⟩

/-! ## Where a line ends -/

/-- Skipping does not reach past a line break. -/
lemma skipOne_append_newline {p : Lexeme → Bool} (hp : p ⟨.newline, s⟩ = false)
    (ts rest : List Lexeme) :
    skipOne p (ts ++ ⟨.newline, s⟩ :: rest) = skipOne p ts ++ ⟨.newline, s⟩ :: rest := by
  cases ts with
  | nil => exact skipOne_cons_of_false hp
  | cons t ts =>
      simp only [List.cons_append, skipOne]
      split <;> rfl

lemma skipTrailing_append_newline (ts rest : List Lexeme) :
    skipTrailing (ts ++ ⟨.newline, s⟩ :: rest) = skipTrailing ts ++ ⟨.newline, s⟩ :: rest := by
  rw [skipTrailing, skipOne_append_newline rfl, skipOne_append_newline rfl, skipTrailing]

/-- Behind a trail and a line break the next line begins. -/
lemma Trail.afterLineEnd?_append (h : Trail trail) (rest : List Lexeme) :
    afterLineEnd? (trail ++ ⟨.newline, s⟩ :: rest) = some rest := by
  rw [afterLineEnd?, skipTrailing_append_newline, h.skipTrailing_eq]
  rfl

lemma Trail.afterLineEnd?_eq (h : Trail trail) : afterLineEnd? trail = some [] := by
  rw [afterLineEnd?, h.skipTrailing_eq]

/-- Behind a blank line the next line begins. -/
lemma Blank.afterBlankLine?_append (h : Blank line) (rest : List Lexeme) :
    afterBlankLine? (line ++ ⟨.newline, s⟩ :: rest) = some rest := by
  rw [Blank] at h
  rw [afterBlankLine?, skipOne_append_newline rfl, skipTrailing_append_newline, h]
  rfl

lemma exists_trail (ts : List Lexeme) : ∃ trail, Trail trail ∧ ts = trail ++ skipTrailing ts := by
  rcases ts with - | ⟨⟨t, s⟩, us⟩
  · exact ⟨[], .none, rfl⟩
  · cases t with
    | space =>
        rcases us with - | ⟨⟨t', s'⟩, us⟩
        · exact ⟨_, .space s, rfl⟩
        · cases t' with
          | comment text => exact ⟨_, .both s text s', rfl⟩
          | _ => exact ⟨_, .space s, rfl⟩
    | comment text => exact ⟨_, .comment text s, rfl⟩
    | _ => exact ⟨[], .none, rfl⟩

/-- Where a line ends there is a trail, and then a line break or the end of the text. -/
lemma exists_trail_of_afterLineEnd? (h : afterLineEnd? ts = some rest) :
    ∃ trail, Trail trail ∧
      (ts = trail ∧ rest = [] ∨ ∃ s, ts = trail ++ ⟨.newline, s⟩ :: rest) := by
  obtain ⟨trail, htrail, hts⟩ := exists_trail ts
  refine ⟨trail, htrail, ?_⟩
  rw [afterLineEnd?] at h
  split at h
  · next hnil =>
      rw [hnil, List.append_nil] at hts
      cases h
      exact .inl ⟨hts, rfl⟩
  · next t us hus =>
      obtain ⟨token, s⟩ := t
      split_ifs at h with htoken
      cases h
      subst htoken
      exact .inr ⟨s, hus ▸ hts⟩

/-- A blank line that is skipped ends with a line break. -/
lemma exists_blank_of_afterBlankLine? (h : afterBlankLine? ts = some rest) :
    ∃ line s, Blank line ∧ ts = line ++ ⟨.newline, s⟩ :: rest := by
  rw [afterBlankLine?] at h
  split at h
  · cases h
  · next t us hus =>
      obtain ⟨token, s⟩ := t
      split_ifs at h with htoken
      cases h
      subst htoken
      obtain ⟨trail, htrail, htail⟩ := exists_trail (skipOne isIndent ts)
      rw [hus] at htail
      rcases ts with - | ⟨⟨t, s'⟩, ts⟩
      · exact ⟨trail, s, blank_iff.mpr (.inl htrail), htail⟩
      · cases t with
        | indent width =>
            exact ⟨⟨.indent width, s'⟩ :: trail, s, blank_iff.mpr (.inr ⟨_, _, _, rfl, htrail⟩),
              congrArg _ htail⟩
        | _ => exact ⟨trail, s, blank_iff.mpr (.inl htrail), htail⟩

/-! ## What lines say -/

/-- The lines of a text. -/
def lines (ts : List Lexeme) : List (List Lexeme) :=
  ts.splitOnP Lexeme.isNewline

/-- What a line says: nothing if it is blank, and otherwise a row. -/
inductive LineSays : List Lexeme → Option Row → Prop
  | blank {line : List Lexeme} (h : Blank line) : LineSays line none
  | row {row : Row} {margin words trail : List Lexeme} (hwords : row.Spelled words)
      (hmargin : Margin row.depth margin) (htrail : Trail trail) :
      LineSays (margin ++ (words ++ trail)) (some row)

/-- What lines say, one after the other. -/
inductive LinesSay : List (List Lexeme) → List Row → Prop
  | nil : LinesSay [] []
  | cons {line : List Lexeme} {o : Option Row} {ls : List (List Lexeme)} {rows : List Row}
      (h : LineSays line o) (hmore : LinesSay ls rows) : LinesSay (line :: ls) (o.toList ++ rows)

lemma LinesSay.append {ls ls' : List (List Lexeme)} (h : LinesSay ls rows)
    (h' : LinesSay ls' more) : LinesSay (ls ++ ls') (rows ++ more) := by
  induction h with
  | nil => exact h'
  | cons hline hmore ih =>
      rw [List.append_assoc]
      exact .cons hline ih

/-- What lines in two parts say comes in two parts. -/
lemma exists_of_linesSay_append {ls ls' : List (List Lexeme)} (h : LinesSay (ls ++ ls') rows) :
    ∃ rows₁ rows₂, rows = rows₁ ++ rows₂ ∧ LinesSay ls rows₁ ∧ LinesSay ls' rows₂ := by
  induction ls generalizing rows with
  | nil => exact ⟨[], rows, rfl, .nil, h⟩
  | cons line ls ih =>
      cases h with
      | cons hline hmore =>
          obtain ⟨rows₁, rows₂, rfl, h₁, h₂⟩ := ih hmore
          exact ⟨_, rows₂, (List.append_assoc ..).symm, .cons hline h₁, h₂⟩

lemma linesSay_singleton (h : LineSays line o) : LinesSay [line] o.toList := by
  have hline := LinesSay.cons h .nil
  rwa [List.append_nil] at hline

/-- One line says one row or none. -/
lemma linesSay_singleton_iff : LinesSay [line] rows ↔ ∃ o, LineSays line o ∧ rows = o.toList := by
  constructor
  · intro h
    cases h with
    | cons hsaid hmore =>
        cases hmore
        exact ⟨_, hsaid, List.append_nil _⟩
  · rintro ⟨o, hsaid, rfl⟩
    exact linesSay_singleton hsaid

lemma lines_of_forall (h : ∀ t ∈ ts, t.isNewline = false) : lines ts = [ts] :=
  List.splitOnP_eq_singleton h

/-- A line break separates what is before it from what follows. -/
lemma lines_append_newline (ts rest : List Lexeme) :
    lines (ts ++ ⟨.newline, s⟩ :: rest) = lines ts ++ lines rest :=
  List.splitOnP_append_cons ts rest rfl

/-- No line break, and a word at the end. -/
structure Worded (words : List Lexeme) : Prop where
  isNewline_eq : ∀ w ∈ words, w.isNewline = false
  isWord_getLast : ∀ w ∈ words.getLast?, IsWord w

lemma IsWord.isNewline_eq (h : IsWord l) : l.isNewline = false :=
  beq_eq_false_iff_ne.mpr h.ne_newline

/-- Something on the line in front of words, or a word alone. -/
lemma Worded.cons (h : Worded words) (hl : l.isNewline = false) (hword : IsWord l ∨ words ≠ []) :
    Worded (l :: words) where
  isNewline_eq := List.forall_mem_cons.mpr ⟨hl, h.isNewline_eq⟩
  isWord_getLast w hw := by
    rcases words with - | ⟨w', words⟩
    · cases hw
      simpa using hword
    · exact h.isWord_getLast w (by simpa using hw)

/-- A clause that may be left out is worded if it is when it stands. -/
lemma worded_of_maybe {α : Type} {Words : α → List Lexeme → Prop} {given : Option α}
    (hWords : ∀ a words, Words a words → Worded words) (h : Maybe Words given words) :
    Worded words := by
  cases h with
  | none => exact ⟨by simp, by simp⟩
  | some h => exact hWords _ _ h

lemma Extending.worded {parent : Located String} (h : Extending parent words) : Worded words := by
  obtain ⟨s, k, s', hname⟩ := h
  have hword := isWord_of_nameOf hname
  exact ⟨by simp [Lexeme.isNewline, hword.ne_newline], by simpa using hword⟩

lemma Marking.worded {u : Unit} (h : Marking u words) : Worded words := by
  obtain ⟨b, m, b', hg, hg', hg''⟩ := h
  constructor
  · cases hg <;> cases hg' <;> cases hg'' <;> simp [Lexeme.isNewline]
  · intro w hw
    simp only [← List.cons_append, ← List.append_assoc, List.getLast?_concat] at hw
    cases hw
    rfl

lemma Valuing.worded {value : Located UInt64} (h : Valuing value words) : Worded words := by
  obtain ⟨e, hg, hg'⟩ := h
  constructor
  · cases hg <;> cases hg' <;> simp [Lexeme.isNewline]
  · intro w hw
    simp only [← List.cons_append, ← List.append_assoc, List.getLast?_concat] at hw
    cases hw
    rfl

/-- A keyword, a space and a name make a line worded. -/
lemma worded_head {word : Keyword} {k s : Span} {name : Located String}
    (hname : nameOf l = some name) (h : Worded words) :
    Worded (⟨.keyword word, k⟩ :: ⟨.space, s⟩ :: l :: words) := by
  have hword := isWord_of_nameOf hname
  exact ((h.cons hword.isNewline_eq (.inl hword)).cons rfl (.inr (List.cons_ne_nil _ _))).cons rfl
    (.inl rfl)

/-- The words of a row contain no line break, and a word is the last of them. -/
lemma Row.Spelled.worded (h : row.Spelled words) : Worded words := by
  cases h with
  | description depth text => exact ⟨by simp [Lexeme.isNewline], by simp [IsWord, Token.isTrivia]⟩
  | level k s hname hclause =>
      exact worded_head hname (worded_of_maybe (fun _ _ => Extending.worded) hclause)
  | parameter k s hname hclause =>
      exact worded_head hname (worded_of_maybe (fun _ _ => Marking.worded) hclause)
  | object k s hname hclause =>
      exact worded_head hname (worded_of_maybe (fun _ _ => Extending.worded) hclause)
  | member hname hclause =>
      have hword := isWord_of_nameOf hname
      exact (worded_of_maybe (fun _ _ => Valuing.worded) hclause).cons hword.isNewline_eq
        (.inl hword)
  | property s htype hname =>
      have htype' := isWord_of_nameOf htype
      have hname' := isWord_of_nameOf hname
      exact ⟨by simp [Lexeme.isNewline, htype'.ne_newline, hname'.ne_newline],
        by simpa using hname'⟩

lemma Margin.isNewline_eq {depth : Nat} {margin : List Lexeme} (h : Margin depth margin) :
    ∀ t ∈ margin, t.isNewline = false := by
  cases h <;> simp [Lexeme.isNewline]

/-- What a line says is on one line. -/
lemma LineSays.isNewline_eq (h : LineSays line o) : ∀ t ∈ line, t.isNewline = false := by
  cases h with
  | blank h => exact h.isNewline_eq
  | row hwords hmargin htrail =>
      exact List.forall_mem_append.mpr ⟨hmargin.isNewline_eq,
        List.forall_mem_append.mpr ⟨hwords.worded.isNewline_eq, htrail.isNewline_eq⟩⟩

/-! ## Lines and rows -/

/-- A row stands on a line of its own: with a line break behind it, or at the end of the text. -/
lemma Line.exists_lineSays (h : Line row ts rest) :
    ∃ line, LineSays line (some row) ∧
      (ts = line ∧ rest = [] ∨ ∃ s, ts = line ++ ⟨.newline, s⟩ :: rest) := by
  obtain ⟨hwords, hmargin, hend⟩ := h
  obtain ⟨trail, htrail, hcases⟩ := exists_trail_of_afterLineEnd? hend
  refine ⟨_, .row hwords hmargin htrail, ?_⟩
  rcases hcases with ⟨rfl, rfl⟩ | ⟨s, rfl⟩
  · exact .inl ⟨rfl, rfl⟩
  · exact .inr ⟨s, by simp⟩

lemma not_rows_nil (h : Rows [] rows rest) : rows = [] ∧ rest = [] := by
  cases h with
  | refl => exact ⟨rfl, rfl⟩
  | blank h hrows => exact nomatch h
  | line h hrows => exact absurd h.length_lt (Nat.not_lt_zero _)

/-- The last line is what is left, or it is a row itself. -/
lemma Rows.linesSay (h : Rows ts rows last) (hblank : Blank last) :
    LinesSay (lines ts) rows ∧
      (behindLast Lexeme.isNewline ts = last ∨
        last = [] ∧ ¬ Blank (behindLast Lexeme.isNewline ts)) := by
  induction h with
  | refl ts =>
      rw [lines_of_forall hblank.isNewline_eq, behindLast_of_forall hblank.isNewline_eq]
      exact ⟨linesSay_singleton (.blank hblank), .inl rfl⟩
  | blank hline hrows ih =>
      obtain ⟨line, s, hblankline, rfl⟩ := exists_blank_of_afterBlankLine? hline
      obtain ⟨hsay, hlast⟩ := ih hblank
      rw [lines_append_newline, lines_of_forall hblankline.isNewline_eq,
        behindLast_append_cons rfl]
      exact ⟨(linesSay_singleton (.blank hblankline)).append hsay, hlast⟩
  | line hline hrows ih =>
      obtain ⟨line, hsaid, ⟨rfl, rfl⟩ | ⟨s, rfl⟩⟩ := hline.exists_lineSays
      · obtain ⟨rfl, rfl⟩ := not_rows_nil hrows
        rw [lines_of_forall hsaid.isNewline_eq, behindLast_of_forall hsaid.isNewline_eq]
        exact ⟨linesSay_singleton hsaid, .inr ⟨rfl, hline.not_blank⟩⟩
      · obtain ⟨hsay, hlast⟩ := ih hblank
        rw [lines_append_newline, lines_of_forall hsaid.isNewline_eq, behindLast_append_cons rfl]
        exact ⟨(linesSay_singleton hsaid).append hsay, hlast⟩

/-- Either there is no line break, or there is a first one. -/
lemma exists_firstLine_or (ts : List Lexeme) :
    (∀ t ∈ ts, t.isNewline = false) ∨
      ∃ line s rest, ts = line ++ ⟨.newline, s⟩ :: rest ∧ ∀ t ∈ line, t.isNewline = false := by
  induction ts with
  | nil => exact .inl (by simp)
  | cons t ts ih =>
      obtain ⟨token, s⟩ := t
      by_cases htoken : token = .newline
      · subst htoken
        exact .inr ⟨[], s, ts, rfl, by simp⟩
      · have ht : Lexeme.isNewline ⟨token, s⟩ = false := beq_eq_false_iff_ne.mpr htoken
        rcases ih with hnone | ⟨line, s', rest, rfl, hline⟩
        · exact .inl (List.forall_mem_cons.mpr ⟨ht, hnone⟩)
        · exact .inr ⟨_ :: line, s', rest, rfl, List.forall_mem_cons.mpr ⟨ht, hline⟩⟩

/-- Lines that say rows are read as these rows, up to a blank last line. -/
lemma rows_of_linesSay (h : LinesSay (lines ts) rows) : ∃ last, Rows ts rows last ∧ Blank last := by
  -- line by line; what follows the first line break is shorter
  induction hlen : ts.length using Nat.strongRecOn generalizing ts rows with
  | _ n ih =>
      rcases exists_firstLine_or ts with hnone | ⟨line, s, rest, rfl, hline⟩
      · rw [lines_of_forall hnone] at h
        cases h with
        | cons hsaid hmore =>
            cases hmore
            cases hsaid with
            | blank hblank => exact ⟨ts, .refl ts, hblank⟩
            | row hwords hmargin htrail =>
                exact ⟨[], .line (.mk hwords hmargin htrail.afterLineEnd?_eq) (.refl []), rfl⟩
      · rw [lines_append_newline, lines_of_forall hline] at h
        cases h with
        | cons hsaid hmore =>
            have hshort : rest.length < n := by
              rw [← hlen]
              simp only [List.length_append, List.length_cons]
              omega
            obtain ⟨last, hrows, hblank⟩ := ih rest.length hshort hmore rfl
            refine ⟨last, ?_, hblank⟩
            cases hsaid with
            | blank hblankline => exact .blank (hblankline.afterBlankLine?_append rest) hrows
            | @row row margin words trail hwords hmargin htrail =>
                have hend := htrail.afterLineEnd?_append (s := s) rest
                rw [List.append_assoc, List.append_assoc]
                exact .line (.mk hwords hmargin hend) hrows

/-- The last line is blank and indented like a member or property. -/
def EndsDeep (ts : List Lexeme) : Prop :=
  Blank (behindLast Lexeme.isNewline ts) ∧ Deep (behindLast Lexeme.isNewline ts)

lemma Deep.ne_nil (h : Deep ts) : ts ≠ [] := by
  rintro rfl
  obtain ⟨s, us, hus⟩ := h
  exact nomatch hus

/-- **When a document is read.**  Its lines say it, and the last of them is not one that a rule for
members stumbles over.  All levels of the document declare something. -/
theorem document_eq_ok_iff {d : Document} (hlevels : d.levels ≠ [])
    (hitems : ∀ l ∈ d.levels, l.items ≠ []) :
    document ts = .ok d ↔
      (∃ rows, LinesSay (lines ts) rows ∧ SaysDocument d rows) ∧ ¬ EndsDeep ts := by
  constructor
  · intro h
    obtain ⟨rows, last, hrows, hblank, hsaid, hdeep⟩ := document_sound h
    obtain ⟨hlines, hlast⟩ := hrows.linesSay hblank
    refine ⟨⟨rows, hlines, hsaid⟩, ?_⟩
    rintro ⟨hblank', hdeep'⟩
    rcases hlast with hlast | ⟨-, hnot⟩
    · exact hdeep hlevels hitems (hlast ▸ hdeep')
    · exact hnot hblank'
  · rintro ⟨⟨rows, hlines, hsaid⟩, hends⟩
    obtain ⟨last, hrows, hblank⟩ := rows_of_linesSay hlines
    refine document_complete hrows ⟨hblank, fun hdeep => hends ?_⟩ hsaid
    rcases (hrows.linesSay hblank).2 with hlast | ⟨hnil, -⟩
    · exact ⟨hlast ▸ hblank, hlast ▸ hdeep⟩
    · exact absurd hnil hdeep.ne_nil

/-! ## A line break or a space at the end -/

/-- An empty line says nothing. -/
lemma lineSays_nil_iff : LineSays [] o ↔ o = none := by
  constructor
  · intro h
    generalize hline : ([] : List Lexeme) = line at h
    cases h with
    | blank h => rfl
    | row hwords hmargin htrail =>
        obtain ⟨w, ws, rfl, -⟩ := hwords.exists_cons
        simp at hline
  · rintro rfl
    exact .blank rfl

lemma linesSay_nil_iff : LinesSay [[]] rows ↔ rows = [] := by
  simp [linesSay_singleton_iff, lineSays_nil_iff]

/-- A line break at the end only adds an empty line. -/
lemma linesSay_append_newline_iff :
    LinesSay (lines (ts ++ [⟨.newline, s⟩])) rows ↔ LinesSay (lines ts) rows := by
  have hnil : lines [] = [[]] := lines_of_forall (by simp)
  rw [lines_append_newline, hnil]
  constructor
  · intro h
    obtain ⟨rows₁, rows₂, rfl, h₁, h₂⟩ := exists_of_linesSay_append h
    rw [linesSay_nil_iff.mp h₂, List.append_nil]
    exact h₁
  · intro h
    have hline := h.append (linesSay_nil_iff.mpr rfl)
    rwa [List.append_nil] at hline

/-- A trail does not end with something settled. -/
lemma Trail.eq_nil_of_settled (h : Trail trail) (hsettled : ∀ t ∈ trail.getLast?, Settled t) :
    trail = [] := by
  cases h with
  | none => rfl
  | space s => exact absurd rfl (hsettled _ rfl).1
  | comment text s => exact absurd rfl ((hsettled _ rfl).2 text)
  | both s text s' => exact absurd rfl ((hsettled _ rfl).2 text)

lemma Trail.eq_nil_of_append_space (h : Trail (ts ++ [⟨.space, s⟩])) : ts = [] := by
  generalize hall : ts ++ [⟨.space, s⟩] = all at h
  rcases ts with - | ⟨t, - | ⟨t', ts⟩⟩
  · rfl
  · cases h <;> cases hall
  · cases h <;> simp at hall

/-- A line that is blank with a space at its end is blank without it. -/
lemma Blank.of_append_space (h : Blank (line ++ [⟨.space, s⟩])) : Blank line := by
  rcases blank_iff.mp h with htrail | ⟨width, s', us, hus, htrail⟩
  · rw [htrail.eq_nil_of_append_space]
    rfl
  · rcases line with - | ⟨t, line⟩
    · rfl
    · cases hus
      rw [htrail.eq_nil_of_append_space]
      rfl

lemma mem_getLast?_append (ts : List Lexeme) {us : List Lexeme} (h : l ∈ us.getLast?) :
    l ∈ (ts ++ us).getLast? := by
  rw [Option.mem_def] at h
  rw [Option.mem_def, List.getLast?_append, h, Option.some_or]

/-- A line says the same with a space behind it, unless a space or a comment stands there. -/
lemma lineSays_append_space_iff (hsettled : ∀ t ∈ line.getLast?, Settled t) :
    LineSays (line ++ [⟨.space, s⟩]) o ↔ LineSays line o := by
  constructor
  · intro h
    generalize hline : line ++ [⟨.space, s⟩] = line' at h
    cases h with
    | blank h => exact .blank (hline ▸ h).of_append_space
    | @row row margin words trail hwords hmargin htrail =>
        rcases List.eq_nil_or_concat trail with rfl | ⟨trail, t, rfl⟩
        · rcases List.eq_nil_or_concat words with rfl | ⟨words, w, rfl⟩
          · obtain ⟨w, ws, hnil, -⟩ := hwords.exists_cons
            exact nomatch hnil
          · have hword := hwords.worded.isWord_getLast w (by simp)
            simp only [List.append_nil, ← List.append_assoc, List.concat_eq_append] at hline
            obtain ⟨-, hspace⟩ := List.append_inj' hline rfl
            cases hspace
            exact nomatch hword
        · simp only [← List.append_assoc, List.concat_eq_append] at hline htrail
          obtain ⟨rfl, hspace⟩ := List.append_inj' hline rfl
          cases hspace
          rw [htrail.eq_nil_of_append_space, List.append_assoc]
          exact .row hwords hmargin .none
  · intro h
    cases h with
    | blank h =>
        refine .blank ?_
        rcases blank_iff.mp h with htrail | ⟨width, s', us, rfl, htrail⟩
        · rw [htrail.eq_nil_of_settled hsettled]
          rfl
        · have hus := htrail.eq_nil_of_settled fun t ht => hsettled t (mem_getLast?_append [_] ht)
          rw [hus]
          rfl
    | @row row margin words trail hwords hmargin htrail =>
        obtain rfl := htrail.eq_nil_of_settled fun t ht =>
          hsettled t (mem_getLast?_append _ (mem_getLast?_append _ ht))
        have hspace := LineSays.row hwords hmargin (.space s)
        simpa using hspace

lemma linesSay_append_space_iff_of_forall (hnone : ∀ t ∈ line, t.isNewline = false)
    (hsettled : ∀ t ∈ line.getLast?, Settled t) :
    LinesSay (lines (line ++ [⟨.space, s⟩])) rows ↔ LinesSay (lines line) rows := by
  have hnone' : ∀ t ∈ line ++ [⟨.space, s⟩], t.isNewline = false :=
    List.forall_mem_append.mpr ⟨hnone, by simp [Lexeme.isNewline]⟩
  rw [lines_of_forall hnone, lines_of_forall hnone']
  simp only [linesSay_singleton_iff, lineSays_append_space_iff hsettled]

/-- A space at the end changes nothing, unless a space or a comment stands there. -/
lemma linesSay_append_space_iff (hsettled : ∀ t ∈ ts.getLast?, Settled t) :
    LinesSay (lines (ts ++ [⟨.space, s⟩])) rows ↔ LinesSay (lines ts) rows := by
  rcases exists_last_or Lexeme.isNewline ts with hnone | ⟨pre, t, post, rfl, ht, hpost⟩
  · exact linesSay_append_space_iff_of_forall hnone hsettled
  · -- only the last line changes
    obtain ⟨token, s'⟩ := t
    obtain rfl : token = .newline := by simpa [Lexeme.isNewline] using ht
    have hpost' : ∀ t ∈ post.getLast?, Settled t := fun t ht' =>
      hsettled t (mem_getLast?_append _ (mem_getLast?_append [_] ht'))
    rw [List.append_assoc, List.cons_append, lines_append_newline, lines_append_newline]
    constructor
    · intro h
      obtain ⟨rows₁, rows₂, rfl, h₁, h₂⟩ := exists_of_linesSay_append h
      exact h₁.append ((linesSay_append_space_iff_of_forall hpost hpost').mp h₂)
    · intro h
      obtain ⟨rows₁, rows₂, rfl, h₁, h₂⟩ := exists_of_linesSay_append h
      exact h₁.append ((linesSay_append_space_iff_of_forall hpost hpost').mpr h₂)

end Grammar

end LevelSchema
