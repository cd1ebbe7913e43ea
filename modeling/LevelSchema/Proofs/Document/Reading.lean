import LevelSchema.Proofs.Document.Rows

/-!
# Which rows make up a document

Behind the lines of a text stands a second grammar, and a much simpler one: `SaysDocument d rows`
lists the rows that a document consists of, each declaration as its description, its head and its
parts.  There is no choice in it and nothing to look ahead for.

**The grammar reads exactly that.**  If a document is read from tokens, the tokens are lines whose
rows the document says (`document_sound`).  If they are such lines, the document is read
(`document_complete`).  What a rule leaves to the next one is never part of its own rows: a row that
is nested less deep ends every list of deeper ones, which is all that `Below` says.

**The last line.**  It needs no line break, and it may be blank.  Only one case goes wrong: a last
line that is blank, without a line break, and indented like a member or property (`Deep`).  The rule
for members has committed itself by then.
-/

namespace LevelSchema

namespace Grammar

open Rule

variable {ts mid rest last : List Lexeme} {l : Lexeme} {row : Row} {rows more : List Row}

/-! ## What declarations say -/

section Says

variable {α β γ : Type}

/-- The row of a description, if there is one. -/
def descriptionRows (depth : Nat) : Option Description → List Row
  | none => []
  | some text => [.description depth text]

/-- The rows of a list: those of its elements, one after the other. -/
inductive Listed (Says : α → List Row → Prop) : List α → List Row → Prop
  | nil : Listed Says [] []
  | cons {a : α} {as : List α} {rows more : List Row} (h : Says a rows)
      (hmore : Listed Says as more) : Listed Says (a :: as) (rows ++ more)

/-- The rows of a declaration: its description, its head and its parts. -/
inductive Form.Says (f : Form α β γ) (SaysPart : β → List Row → Prop) : α → List Row → Prop
  | mk (description : Option Description) (k : Span) (name : Located String) (given : Option γ)
      {parts : List β} {rows : List Row} (hparts : Listed SaysPart parts rows) :
      f.Says SaysPart (f.build description k name given parts)
        (descriptionRows f.depth description ++ f.row k name given :: rows)

end Says

/-- The rows of a member. -/
def SaysMember (m : MemberDecl) (rows : List Row) : Prop :=
  rows = descriptionRows 2 m.description ++ [.member m.name m.value]

/-- The rows of a property. -/
def SaysProperty (p : PropertyDecl) (rows : List Row) : Prop :=
  rows = descriptionRows 2 p.description ++ [.property p.typeName p.name]

/-- The rows of a declaration inside a level. -/
def SaysItem : LevelItem → List Row → Prop
  | .parameter p => parameterForm.Says SaysMember p
  | .object o => objectForm.Says SaysProperty o

/-- The rows of a level. -/
def SaysLevel : LevelDecl → List Row → Prop :=
  levelForm.Says SaysItem

/-- The rows of a document. -/
def SaysDocument (d : Document) (rows : List Row) : Prop :=
  Listed SaysLevel d.levels rows

/-! ## Rules that read what is said -/

/-- What comes next is nested less deep than `depth`, or there is nothing more. -/
def Below (depth : Nat) (rows : List Row) : Prop :=
  ∀ row ∈ rows.head?, row.depth < depth

/-- The tokens begin with the indentation of a member or property. -/
def Deep (ts : List Lexeme) : Prop :=
  ∃ s us, ts = ⟨.indent (2 * indentWidth), s⟩ :: us

/-- The end of a text that every rule leaves alone. -/
def Ends (ts : List Lexeme) : Prop :=
  Blank ts ∧ ¬ Deep ts

/-- At the given depth, and behind blank lines, the rule reads exactly what is said. -/
structure Reads {α : Type} (r : Rule α) (Says : α → List Row → Prop) (depth : Nat) : Prop where
  opens : ∀ {a rows}, Says a rows → ∃ row more, rows = row :: more ∧ row.depth = depth
  sound : ∀ {ts a rest}, r ts = .matched a rest → ∃ rows, Says a rows ∧ Rows ts rows rest
  complete : ∀ {ts a rows more last}, Ends last → Says a rows → Below (depth + 1) more →
    Rows ts (rows ++ more) last →
      ∃ mid, r (skipBlankLines ts) = .matched a mid ∧ Rows mid more last
  stops : ∀ {ts more last}, Ends last → Below depth more → Rows ts more last →
    r (skipBlankLines ts) = .unmatched

section Many

variable {α : Type} {r : Rule α} {Says : α → List Row → Prop} {depth : Nat} {as : List α}

/-- A rule that reads rows takes tokens away. -/
lemma Reads.length_lt (hr : Reads r Says depth) {a : α} (h : r ts = .matched a rest) :
    rest.length < ts.length := by
  obtain ⟨rows, hsaid, hrows⟩ := hr.sound h
  obtain ⟨row, more, rfl, -⟩ := hr.opens hsaid
  exact hrows.length_lt (List.cons_ne_nil _ _)

/-- Repeating a rule reads a list, and stops where the rule does not match. -/
lemma Reads.many_sound (hr : Reads r Says depth)
    (h : many (do blankLines; r) ts = .ok (as, rest)) :
    r (skipBlankLines rest) = .unmatched ∧ ∃ rows, Listed Says as rows ∧ Rows ts rows rest := by
  fun_induction many (do blankLines; r) ts generalizing as with
  | case1 ts hmatch =>
      cases h
      exact ⟨hmatch, [], .nil, .refl _⟩
  | case2 ts e hmatch => exact nomatch h
  | case3 ts a mid hmatch hlt as' last hmany ih =>
      cases h
      obtain ⟨hstop, more, hmore, hrest⟩ := ih hmany
      obtain ⟨rows, hsaid, hrows⟩ := hr.sound hmatch
      exact ⟨hstop, rows ++ more, .cons hsaid hmore,
        ((rows_skipBlankLines ts).trans hrows).trans hrest⟩
  | case4 ts a mid hmatch hlt e hmany ih => exact nomatch h
  | case5 ts a mid hmatch hlt =>
      have hskip := (rows_skipBlankLines ts).length_le
      exact absurd (Nat.lt_of_lt_of_le (hr.length_lt hmatch) hskip) hlt

lemma Below.succ (h : Below depth rows) : Below (depth + 1) rows :=
  fun row hrow => Nat.lt_succ_of_lt (h row hrow)

/-- Behind an element of a list comes the next element, or what comes behind the list. -/
lemma Reads.below_append (hr : Reads r Says depth) (has : Listed Says as rows)
    (hmore : Below depth more) : Below (depth + 1) (rows ++ more) := by
  cases has with
  | nil => exact hmore.succ
  | cons h has =>
      obtain ⟨row, rows, rfl, hdepth⟩ := hr.opens h
      rintro _ ⟨⟩
      exact Nat.lt_succ_of_le (Nat.le_of_eq hdepth)

/-- Where a list is said, repeating the rule reads it. -/
lemma Reads.many_complete (hr : Reads r Says depth) (hends : Ends last) (has : Listed Says as rows)
    (hmore : Below depth more) (h : Rows ts (rows ++ more) last) :
    ∃ mid, many (do blankLines; r) ts = .ok (as, mid) ∧ Rows mid more last := by
  induction has generalizing ts with
  | nil =>
      have hstop : (do blankLines; r) ts = .unmatched := hr.stops hends hmore h
      refine ⟨ts, ?_, h⟩
      rw [many.eq_def, hstop]
  | @cons a as rows rows' hsaid has ih =>
      rw [List.append_assoc] at h
      obtain ⟨mid, hmatch, hmid⟩ := hr.complete hends hsaid (hr.below_append has hmore) h
      obtain ⟨left, hmany, hleft⟩ := ih hmid
      have hlt : mid.length < ts.length :=
        Nat.lt_of_lt_of_le (hr.length_lt hmatch) (rows_skipBlankLines ts).length_le
      have hfirst : (do blankLines; r) ts = .matched a mid := hmatch
      refine ⟨left, ?_, hleft⟩
      rw [many.eq_def, hfirst]
      simp [hlt, hmany]

end Many

/-! ## Descriptions -/

/-- An optional description is read as its row, or as none. -/
lemma rows_of_optional_description {depth : Nat} {o : Option Description}
    (h : optional (description depth) ts = .matched o mid) :
    Rows ts (descriptionRows depth o) mid := by
  rcases optional_eq_matched_iff.mp h with ⟨text, rfl, htext⟩ | ⟨rfl, rfl, -⟩
  · obtain ⟨after, hline, rfl⟩ := description_eq_matched_iff.mp htext
    exact hline.toRows.trans (rows_skipBlankLines after)
  · exact .refl _

/-- A row that is no description does not begin with a string. -/
lemma stringOf_eq_none {w : Lexeme} {ws : List Lexeme} (h : row.Spelled (w :: ws))
    (hrow : ∀ depth text, row ≠ .description depth text) : stringOf w = none := by
  rw [Option.eq_none_iff_forall_ne_some]
  rintro ⟨value, span⟩ htext
  rw [stringOf_eq_some_iff] at htext
  subst htext
  generalize hrow' : row = row' at h
  cases h with
  | description depth text => exact hrow depth text hrow'
  | member hname hclause => exact nomatch hname
  | property s htype hname => exact nomatch htype

/-- Another row is not taken for a description. -/
lemma Line.description_eq_unmatched (h : Line row ts rest)
    (hrow : ∀ depth text, row ≠ .description depth text) :
    description row.depth ts = .unmatched := by
  obtain ⟨hwords, hmargin, -⟩ := h
  obtain ⟨w, ws, rfl, hw⟩ := hwords.exists_cons
  refine (bind_eq_of_matched (hmargin.indented_append hw)).trans ?_
  refine bind_eq_unmatched_of_unmatched (accept_eq_unmatched ?_)
  rintro _ ⟨⟩
  exact stringOf_eq_none hwords hrow

/-- A described row is read as its description and its line. -/
lemma Rows.exists_described (row : Row) {o : Option Description}
    (h : Rows ts (descriptionRows row.depth o ++ row :: more) last)
    (hrow : ∀ depth text, row ≠ .description depth text) :
    ∃ mid rest, optional (description row.depth) (skipBlankLines ts) = .matched o mid ∧
      Line row mid rest ∧ Rows rest more last := by
  cases o with
  | none =>
      obtain ⟨rest, hline, hrest⟩ := Rows.exists_line h
      exact ⟨_, rest, optional_of_unmatched (hline.description_eq_unmatched hrow), hline, hrest⟩
  | some text =>
      obtain ⟨after, htext, hafter⟩ := Rows.exists_line h
      obtain ⟨rest, hline, hrest⟩ := hafter.exists_line
      have hmatch := description_eq_matched_iff.mpr ⟨after, htext, rfl⟩
      exact ⟨_, rest, optional_eq_matched_iff.mpr (.inl ⟨text, rfl, hmatch⟩), hline, hrest⟩

/-! ## Where rules stop -/

/-- Indentation does not match where another token is in front. -/
lemma indented_eq_unmatched {depth : Nat}
    (h : ∀ l ∈ ts.head?, l.token ≠ .indent ((depth + 1) * indentWidth)) :
    indented (depth + 1) ts = .unmatched :=
  accept_eq_unmatched fun l hl => if_neg (h l hl)

lemma description_eq_unmatched_of_indented {depth : Nat} (h : indented depth ts = .unmatched) :
    description depth ts = .unmatched :=
  bind_eq_unmatched_of_unmatched h

/-- Both rules for parts begin with a description and the indentation. -/
lemma optional_description_bind_eq_unmatched {α : Type} {depth : Nat}
    {f : Option Description → Rule α} (h : indented depth ts = .unmatched)
    (hf : f none ts = .unmatched) : (optional (description depth) >>= f) ts = .unmatched :=
  (bind_eq_of_matched (optional_of_unmatched (description_eq_unmatched_of_indented h))).trans hf

/-- A member needs its indentation. -/
lemma member_eq_unmatched (h : indented 2 ts = .unmatched) : member ts = .unmatched :=
  optional_description_bind_eq_unmatched h (bind_eq_unmatched_of_unmatched h)

lemma property_eq_unmatched (h : indented 2 ts = .unmatched) : property ts = .unmatched :=
  optional_description_bind_eq_unmatched h (bind_eq_unmatched_of_unmatched h)

/-- A row that is nested less deep does not have the indentation. -/
lemma Line.indented_eq_unmatched {depth : Nat} (h : Line row ts rest) (hdepth : row.depth ≤ depth) :
    indented (depth + 1) ts = .unmatched := by
  obtain ⟨margin, w, us, hmargin, hw, rfl⟩ := h.exists_margin
  refine Grammar.indented_eq_unmatched fun l hl hindent => ?_
  generalize row.depth = depth' at hmargin hdepth
  cases hmargin with
  | none =>
      cases hl
      simp [IsWord, hindent, Token.isTrivia] at hw
  | indent depth' s =>
      cases hl
      simp only [Token.indent.injEq, indentWidth] at hindent
      omega

/-- Behind the indentation of a blank line stands no word. -/
lemma Blank.indented (h : Blank ts) (depth : Nat) :
    indented depth ts = .unmatched ∨
      ∃ us, indented depth ts = .matched () us ∧ ∀ l ∈ us.head?, ¬ IsWord l := by
  have hword : ∀ us, skipTrailing us = [] → ∀ l ∈ us.head?, ¬ IsWord l := by
    intro us hus l hl hword
    obtain ⟨vs, rfl⟩ := List.head?_eq_some_iff.mp hl
    simp [hword.skipTrailing_cons] at hus
  rcases ts with - | ⟨t, us⟩
  · cases depth with
    | zero => exact .inr ⟨[], rfl, by simp⟩
    | succ depth => exact .inl rfl
  · by_cases ht : isIndent t = true
    · have hus : skipTrailing us = [] := by
        simpa [Blank, skipOne, ht] using h
      cases depth with
      | zero => exact .inl (by simp [Grammar.indented, ht])
      | succ depth =>
          by_cases hwidth : t.token = .indent ((depth + 1) * indentWidth)
          · exact .inr ⟨us, by simp [Grammar.indented, accept, hwidth], hword us hus⟩
          · exact .inl (indented_eq_unmatched (by simpa using hwidth))
    · have hts : skipTrailing (t :: us) = [] := by
        simpa [Blank, skipOne, ht] using h
      cases depth with
      | zero => exact .inr ⟨t :: us, by simp [Grammar.indented, ht], hword _ hts⟩
      | succ depth =>
          refine .inl (indented_eq_unmatched ?_)
          rintro _ ⟨⟩ hindent
          exact ht (by simp [isIndent, hindent])

/-- Where less deep rows follow, either the text is at its end or the indentation is missing. -/
lemma Rows.eq_or_indented_eq_unmatched {depth : Nat} (hends : Ends last) (hmore : Below depth more)
    (h : Rows ts more last) :
    skipBlankLines ts = last ∨ indented depth (skipBlankLines ts) = .unmatched := by
  rcases more with - | ⟨row, more⟩
  · exact .inl (h.skipBlankLines_eq hends.1)
  · obtain ⟨mid, hline, -⟩ := h.exists_line
    have hdepth : row.depth < depth := hmore row rfl
    cases depth with
    | zero => omega
    | succ depth => exact .inr (hline.indented_eq_unmatched (by omega))

lemma Ends.indented_eq_unmatched (h : Ends ts) : indented 2 ts = .unmatched := by
  refine Grammar.indented_eq_unmatched fun l hl hindent => h.2 ?_
  obtain ⟨us, rfl⟩ := List.head?_eq_some_iff.mp hl
  obtain ⟨token, s⟩ := l
  cases hindent
  exact ⟨s, us, rfl⟩

/-- Nothing that deep follows where the next row is further out or the text ends. -/
lemma indented_two_eq_unmatched (hends : Ends last) (hmore : Below 2 more)
    (h : Rows ts more last) : indented 2 (skipBlankLines ts) = .unmatched := by
  rcases h.eq_or_indented_eq_unmatched hends hmore with heq | hnone
  · exact heq ▸ hends.indented_eq_unmatched
  · exact hnone

lemma stringOf_eq_none_of_not_isWord {us : List Lexeme} (h : ∀ l ∈ us.head?, ¬ IsWord l) :
    ∀ l ∈ us.head?, stringOf l = none := by
  intro l hl
  rw [Option.eq_none_iff_forall_ne_some]
  intro text htext
  rw [stringOf_eq_some_iff] at htext
  subst htext
  exact h _ hl rfl

namespace Form

variable {α β γ : Type} {f : Form α β γ}

/-- A declaration needs its indentation. -/
lemma rule_eq_unmatched_of_indented (h : indented f.depth ts = .unmatched) :
    f.rule ts = .unmatched :=
  optional_description_bind_eq_unmatched h (bind_eq_unmatched_of_unmatched h)

/-- A declaration needs its keyword. -/
lemma rule_eq_unmatched_of_keyword {o : Option Description} {us : List Lexeme}
    (hdescription : optional (description f.depth) ts = .matched o mid)
    (hindent : indented f.depth mid = .matched () us)
    (hword : ∀ l ∈ us.head?, l.token ≠ .keyword f.word) : f.rule ts = .unmatched := by
  refine (bind_eq_of_matched hdescription).trans ((bind_eq_of_matched hindent).trans ?_)
  exact bind_eq_unmatched_of_unmatched (accept_eq_unmatched fun l hl => if_neg (hword l hl))

lemma rule_eq_unmatched_of_blank (h : Blank ts) : f.rule ts = .unmatched := by
  rcases h.indented f.depth with hnone | ⟨us, hindent, hword⟩
  · exact rule_eq_unmatched_of_indented hnone
  · have hdescription : description f.depth ts = .unmatched :=
      (bind_eq_of_matched hindent).trans (bind_eq_unmatched_of_unmatched
        (accept_eq_unmatched (stringOf_eq_none_of_not_isWord hword)))
    refine rule_eq_unmatched_of_keyword (optional_of_unmatched hdescription) hindent ?_
    intro l hl hkeyword
    exact hword l hl (by simp [IsWord, hkeyword, Token.isTrivia])

lemma row_ne_description (k : Span) (name : Located String) (given : Option γ) (depth : Nat)
    (text : Located String) : f.row k name given ≠ .description depth text := by
  intro h
  have hspelled := h ▸ Row.Spelled.description depth text
  obtain ⟨s, l, clause, -, -, hwords⟩ := f.spelled_row_iff.mp hspelled
  exact nomatch hwords

/-- Repeating the rule of a declaration stops where the next row is further out. -/
lemma rule_stops (hends : Ends last) (hmore : Below f.depth more) (h : Rows ts more last) :
    f.rule (skipBlankLines ts) = .unmatched := by
  rcases h.eq_or_indented_eq_unmatched hends hmore with heq | hnone
  · exact heq ▸ rule_eq_unmatched_of_blank hends.1
  · exact rule_eq_unmatched_of_indented hnone

end Form

/-! ## Declarations -/

lemma exists_descriptionRows_append {depth : Nat} (o : Option Description)
    (hdepth : row.depth = depth) :
    ∃ first others, descriptionRows depth o ++ row :: more = first :: others ∧
      first.depth = depth := by
  cases o with
  | none => exact ⟨row, more, rfl, hdepth⟩
  | some text => exact ⟨.description depth text, row :: more, rfl, rfl⟩

/-- The rule for members reads exactly what says a member. -/
lemma reads_member : Reads member SaysMember 2 where
  opens h := h ▸ exists_descriptionRows_append _ rfl
  sound h := by
    obtain ⟨mid, hdescription, hline⟩ := member_eq_matched_iff.mp h
    exact ⟨_, rfl, (rows_of_optional_description hdescription).trans hline.toRows⟩
  complete := by
    rintro ts m _ more last hends rfl hmore h
    rw [List.append_assoc] at h
    obtain ⟨mid, rest, hdescription, hline, hrest⟩ :=
      Rows.exists_described (.member m.name m.value) h (fun _ _ => nofun)
    exact ⟨rest, member_eq_matched_iff.mpr ⟨mid, hdescription, hline⟩, hrest⟩
  stops hends hmore h := member_eq_unmatched (indented_two_eq_unmatched hends hmore h)

lemma reads_property : Reads property SaysProperty 2 where
  opens h := h ▸ exists_descriptionRows_append _ rfl
  sound h := by
    obtain ⟨mid, hdescription, hline⟩ := property_eq_matched_iff.mp h
    exact ⟨_, rfl, (rows_of_optional_description hdescription).trans hline.toRows⟩
  complete := by
    rintro ts p _ more last hends rfl hmore h
    rw [List.append_assoc] at h
    obtain ⟨mid, rest, hdescription, hline, hrest⟩ :=
      Rows.exists_described (.property p.typeName p.name) h (fun _ _ => nofun)
    exact ⟨rest, property_eq_matched_iff.mpr ⟨mid, hdescription, hline⟩, hrest⟩
  stops hends hmore h := property_eq_unmatched (indented_two_eq_unmatched hends hmore h)

namespace Form

variable {α β γ : Type} {f : Form α β γ} {SaysPart : β → List Row → Prop}

/-- A form of declaration is read if its parts are. -/
lemma reads_rule (hpart : Reads f.part SaysPart (f.depth + 1)) :
    Reads f.rule (f.Says SaysPart) f.depth where
  opens h := by
    cases h
    exact exists_descriptionRows_append _ (f.depth_row _ _ _)
  sound h := by
    obtain ⟨description, mid, k, name, given, body, parts, hdescription, hline, hmany, rfl⟩ :=
      f.rule_eq_matched_iff.mp h
    obtain ⟨-, rows, hparts, hrows⟩ := hpart.many_sound hmany
    exact ⟨_, .mk description k name given hparts,
      (rows_of_optional_description hdescription).trans (.line hline hrows)⟩
  complete := by
    rintro ts a _ more last hends ⟨description, k, name, given, hparts⟩ hmore h
    rw [List.append_assoc, List.cons_append, ← f.depth_row k name given] at h
    obtain ⟨mid, body, hdescription, hline, hbody⟩ :=
      h.exists_described _ (f.row_ne_description _ _ _)
    obtain ⟨rest, hmany, hrest⟩ := hpart.many_complete hends hparts hmore hbody
    rw [f.depth_row k name given] at hdescription
    exact ⟨rest, f.rule_eq_matched_iff.mpr ⟨description, mid, k, name, given, body, _,
      hdescription, hline, hmany, rfl⟩, hrest⟩
  stops hends hmore h := rule_stops hends hmore h

end Form

lemma reads_parameterDecl : Reads parameterDecl (parameterForm.Says SaysMember) 1 := by
  rw [← rule_parameterForm]
  exact Form.reads_rule reads_member

lemma reads_objectDecl : Reads objectDecl (objectForm.Says SaysProperty) 1 := by
  rw [← rule_objectForm]
  exact Form.reads_rule reads_property

/-- The rows of an object type are no parameter type: the keywords differ. -/
lemma parameterDecl_eq_unmatched {o : ObjectDecl} (hobject : objectForm.Says SaysProperty o rows)
    (h : Rows ts (rows ++ more) last) : parameterDecl (skipBlankLines ts) = .unmatched := by
  obtain ⟨description, k, name, parent, hparts⟩ := hobject
  rw [List.append_assoc, List.cons_append] at h
  obtain ⟨mid, rest, hdescription, hline, -⟩ :=
    Rows.exists_described (.object k name parent) h (fun _ _ => nofun)
  obtain ⟨hwords, hmargin, -⟩ := hline
  obtain ⟨s, l, clause, -, -, rfl⟩ := objectForm.spelled_row_iff.mp hwords
  refine parameterForm.rule_eq_unmatched_of_keyword hdescription
    (hmargin.indented_append rfl) ?_
  rintro _ ⟨⟩
  exact nofun

/-- The rule for items reads exactly what says one of the two kinds. -/
lemma reads_levelItem : Reads levelItem SaysItem 1 where
  opens {i _} h := by
    cases i with
    | parameter p => exact reads_parameterDecl.opens h
    | object o => exact reads_objectDecl.opens h
  sound h := by
    simp only [levelItem, orElse_eq_matched_iff, bind_eq_matched_iff, pure_eq_matched_iff] at h
    rcases h with ⟨p, _, hp, rfl, rfl⟩ | ⟨-, o, _, ho, rfl, rfl⟩
    · exact reads_parameterDecl.sound hp
    · exact reads_objectDecl.sound ho
  complete {ts i _ _ _} hends hsaid hmore h := by
    cases i with
    | parameter p =>
        obtain ⟨mid, hmatch, hmid⟩ := reads_parameterDecl.complete hends hsaid hmore h
        refine ⟨mid, orElse_eq_matched_iff.mpr (.inl ?_), hmid⟩
        exact bind_eq_of_matched hmatch
    | object o =>
        obtain ⟨mid, hmatch, hmid⟩ := reads_objectDecl.complete hends hsaid hmore h
        have hnone := parameterDecl_eq_unmatched hsaid h
        refine ⟨mid, orElse_eq_matched_iff.mpr (.inr ⟨?_, ?_⟩), hmid⟩
        · exact bind_eq_unmatched_of_unmatched hnone
        · exact bind_eq_of_matched hmatch
  stops hends hmore h := by
    refine (orElse_of_unmatched ?_).trans ?_
    · exact bind_eq_unmatched_of_unmatched (reads_parameterDecl.stops hends hmore h)
    · exact bind_eq_unmatched_of_unmatched (reads_objectDecl.stops hends hmore h)

/-- The rule for levels reads exactly what says a level. -/
lemma reads_levelDecl : Reads levelDecl SaysLevel 0 := by
  rw [← rule_levelForm]
  exact Form.reads_rule reads_levelItem

/-! ## Documents -/

/-- Wherever a blank last line of that indentation stands, a rule for parts has committed itself. -/
lemma parts_eq_failed (hblank : Blank ts) (hdeep : Deep ts) :
    (∃ e, member ts = .failed e) ∧ ∃ e, property ts = .failed e := by
  obtain ⟨s, us, rfl⟩ := hdeep
  have hindent : indented 2 (⟨.indent (2 * indentWidth), s⟩ :: us) = .matched () us := rfl
  have hword : ∀ l ∈ us.head?, ¬ IsWord l := by
    rcases hblank.indented 2 with hnone | ⟨vs, hvs, hword⟩
    · exact nomatch hindent.symm.trans hnone
    · cases hindent.symm.trans hvs
      exact hword
  have hdescription : description 2 (⟨.indent (2 * indentWidth), s⟩ :: us) = .unmatched :=
    (bind_eq_of_matched hindent).trans (bind_eq_unmatched_of_unmatched
      (accept_eq_unmatched (stringOf_eq_none_of_not_isWord hword)))
  have hname : accept nameOf us = .unmatched := by
    refine accept_eq_unmatched fun l hl => ?_
    rw [Option.eq_none_iff_forall_ne_some]
    exact fun n hn => hword l hl (isWord_of_nameOf hn)
  constructor
  · refine ⟨⟨.memberName, us, us⟩, ?_⟩
    refine (bind_eq_of_matched (optional_of_unmatched hdescription)).trans ?_
    refine (bind_eq_of_matched hindent).trans ?_
    simp [bind, here, require, hname]
  · refine ⟨⟨.propertyType, us, us⟩, ?_⟩
    refine (bind_eq_of_matched (optional_of_unmatched hdescription)).trans ?_
    refine (bind_eq_of_matched hindent).trans ?_
    simp [bind, here, require, hname]

/-- What follows is not a last line on which the rules for parts fail. -/
def Shallow (ts : List Lexeme) : Prop :=
  Blank (skipBlankLines ts) → ¬ Deep (skipBlankLines ts)

/-- No member or property is left behind a declaration. -/
lemma shallow_of_levelItem {i : LevelItem} (h : levelItem ts = .matched i rest) :
    Shallow rest := by
  intro hblank hdeep
  obtain ⟨⟨e, hmember⟩, e', hproperty⟩ := parts_eq_failed hblank hdeep
  simp only [levelItem, orElse_eq_matched_iff, bind_eq_matched_iff, pure_eq_matched_iff] at h
  rcases h with ⟨p, _, hp, rfl, rfl⟩ | ⟨-, o, _, ho, rfl, rfl⟩
  · obtain ⟨_, _, _, _, _, _, _, -, -, hmany, -⟩ := parameterForm.rule_eq_matched_iff.mp hp
    have hstop := (reads_member.many_sound hmany).1
    exact nomatch hmember.symm.trans hstop
  · obtain ⟨_, _, _, _, _, _, _, -, -, hmany, -⟩ := objectForm.rule_eq_matched_iff.mp ho
    have hstop := (reads_property.many_sound hmany).1
    exact nomatch hproperty.symm.trans hstop

lemma eq_of_many_nil {α : Type} {r : Rule α} (h : many r ts = .ok ([], rest)) : rest = ts := by
  rw [many.eq_def] at h
  split at h
  · cases h
    rfl
  · cases h
  · split_ifs at h
    · split at h <;> cases h
    · cases h

/-- What is left after a list that is not empty is what its last element left. -/
lemma exists_mem_of_many {α : Type} {r : Rule α} {P : α → List Lexeme → Prop} {as : List α}
    (hr : ∀ ts a rest, r ts = .matched a rest → P a rest) (h : many r ts = .ok (as, rest))
    (hne : as ≠ []) : ∃ a ∈ as, P a rest := by
  fun_induction many r ts generalizing as with
  | case1 ts hmatch =>
      cases h
      exact absurd rfl hne
  | case2 ts e hmatch => exact nomatch h
  | case3 ts a mid hmatch hlt as' last hmany ih =>
      cases h
      rcases as' with - | ⟨a', as'⟩
      · exact ⟨a, List.mem_cons_self, eq_of_many_nil hmany ▸ hr ts a mid hmatch⟩
      · obtain ⟨b, hb, hP⟩ := ih hmany (List.cons_ne_nil _ _)
        exact ⟨b, List.mem_cons_of_mem a hb, hP⟩
  | case4 ts a mid hmatch hlt e hmany ih => exact nomatch h
  | case5 ts a mid hmatch hlt =>
      cases h
      exact ⟨a, List.mem_singleton_self a, hr ts a _ hmatch⟩

lemma shallow_of_levelDecl {d : LevelDecl} (h : levelDecl ts = .matched d rest) :
    d.items ≠ [] → Shallow rest := by
  intro hne
  obtain ⟨_, _, _, _, _, _, items, -, -, hmany, rfl⟩ := levelForm.rule_eq_matched_iff.mp h
  obtain ⟨i, -, hshallow⟩ := exists_mem_of_many (P := fun _ => Shallow)
    (fun _ _ _ => shallow_of_levelItem) hmany hne
  exact hshallow

/-- **What is read is what the lines say.**  And if every level declares something, the text does
not end in a blank line that is indented like a member. -/
theorem document_sound {d : Document} (h : document ts = .ok d) :
    ∃ rows last, Rows ts rows last ∧ Blank last ∧ SaysDocument d rows ∧
      (d.levels ≠ [] → (∀ l ∈ d.levels, l.items ≠ []) → ¬ Deep last) := by
  unfold document at h
  split at h
  · exact nomatch h
  · next levels rest hmany =>
      simp only at h
      split_ifs at h with hlast
      cases h
      obtain ⟨-, rows, hlevels, hrows⟩ := reads_levelDecl.many_sound hmany
      have hblank : Blank (skipBlankLines rest) := List.isEmpty_iff.mp hlast
      have hall := hrows.trans (rows_skipBlankLines rest)
      rw [List.append_nil] at hall
      refine ⟨rows, skipBlankLines rest, hall, hblank, hlevels, fun hne hitems => ?_⟩
      obtain ⟨d, hd, hshallow⟩ := exists_mem_of_many
        (P := fun (d : LevelDecl) rest => d.items ≠ [] → Shallow rest)
        (fun _ _ _ => shallow_of_levelDecl) hmany hne
      exact hshallow (hitems d hd) hblank

/-- **What the lines say is what is read**, unless the text ends in a blank line that is indented
like a member. -/
theorem document_complete {d : Document} (h : Rows ts rows last) (hends : Ends last)
    (hsaid : SaysDocument d rows) : document ts = .ok d := by
  have hbelow : Below 0 [] := fun _ => nofun
  rw [← List.append_nil rows] at h
  obtain ⟨rest, hmany, hrest⟩ := reads_levelDecl.many_complete hends hsaid hbelow h
  have hlast : (skipTrailing (skipOne isIndent (skipBlankLines rest))).isEmpty = true := by
    rw [hrest.skipBlankLines_eq hends.1]
    exact List.isEmpty_iff.mpr hends.1
  rw [document, hmany]
  simp only [hlast, if_true]

end Grammar

/-- A document is accepted if the grammar accepts it. -/
lemma Document.ofLexemes_eq_ok_iff {ls : List Lexeme} {d : Document} :
    Document.ofLexemes ls = .ok d ↔ Grammar.document ls = .ok d := by
  rw [Document.ofLexemes]
  cases Grammar.document ls <;> simp

end LevelSchema
