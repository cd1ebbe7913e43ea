import LevelSchema.Proofs.Document.Matching

/-!
# Rows

Schema text is a list of lines, and every line that is not blank says one thing: a description, the
head of a declaration, a member or a property.  A `Row` is what such a line says, with the places of
its words; `Row.Spelled` lists the words it is written with, and `Line` adds the indentation in
front and the end of the line behind.

**Reading lines.**  `Rows ts rows rest` says that the tokens `ts` are lines that say `rows`, with
blank lines anywhere between them, and then `rest`.  It knows nothing of declarations: which rows
make up a document is said elsewhere.

**Rules that read one line.**  Each rule of the grammar, up to the end of its first line, matches
exactly a `Line` of its row behind the description, if there is one.
-/

namespace LevelSchema

namespace Grammar

open Rule

/-- What a line says that is not blank.  Heads of declarations know the place of their keyword,
where the span of the declaration begins. -/
inductive Row
  | description (depth : Nat) (text : Located String)
  | level (keyword : Span) (name : Located String) (parent : Option (Located String))
  | parameter (keyword : Span) (name : Located String) (multiple : Bool)
  | object (keyword : Span) (name : Located String) (parent : Option (Located String))
  | member (name : Located String) (value : Option (Located UInt64))
  | property (typeName name : Located String)

/-- How deep a line is nested. -/
def Row.depth : Row → Nat
  | .description depth _ => depth
  | .level .. => 0
  | .parameter .. | .object .. => 1
  | .member .. | .property .. => 2

/-! ## Words -/

/-- A space or nothing. -/
inductive Gap : List Lexeme → Prop
  | none : Gap []
  | space (s : Span) : Gap [⟨.space, s⟩]

/-- The indentation of a line at the given depth. -/
inductive Margin : Nat → List Lexeme → Prop
  | none : Margin 0 []
  | indent (depth : Nat) (s : Span) :
      Margin (depth + 1) [⟨.indent ((depth + 1) * indentWidth), s⟩]

/-- The words of a clause that names what is extended. -/
inductive Extending (parent : Located String) : List Lexeme → Prop
  | mk {l : Lexeme} (s k s' : Span) (hname : nameOf l = some parent) :
      Extending parent [⟨.space, s⟩, ⟨.keyword .extends, k⟩, ⟨.space, s'⟩, l]

/-- The words of the mark of a flag set. -/
inductive Marking (u : Unit) : List Lexeme → Prop
  | mk {g g' g'' : List Lexeme} (b m b' : Span) (hg : Gap g) (hg' : Gap g') (hg'' : Gap g'') :
      Marking u (g ++ ⟨.leftBracket, b⟩ ::
        (g' ++ ⟨.keyword .multiple, m⟩ :: (g'' ++ [⟨.rightBracket, b'⟩])))

/-- The words of the value of a member. -/
inductive Valuing (value : Located UInt64) : List Lexeme → Prop
  | mk {g g' : List Lexeme} (e : Span) (hg : Gap g) (hg' : Gap g') :
      Valuing value (g ++ ⟨.equals, e⟩ :: (g' ++ [⟨.integer value.value, value.span⟩]))

/-- The words of a clause that may be missing. -/
inductive Maybe {α : Type} (Words : α → List Lexeme → Prop) : Option α → List Lexeme → Prop
  | none : Maybe Words none []
  | some {a : α} {words : List Lexeme} (h : Words a words) : Maybe Words (some a) words

/-- The words of a line, without its indentation and without what stands behind them. -/
inductive Row.Spelled : Row → List Lexeme → Prop
  | description (depth : Nat) (text : Located String) :
      Spelled (.description depth text) [⟨.string text.value, text.span⟩]
  | level {name : Located String} {parent : Option (Located String)} {l : Lexeme}
      {clause : List Lexeme} (k s : Span) (hname : nameOf l = some name)
      (hclause : Maybe Extending parent clause) :
      Spelled (.level k name parent)
        (⟨.keyword .abstractionLevel, k⟩ :: ⟨.space, s⟩ :: l :: clause)
  | parameter {name : Located String} {mark : Option Unit} {l : Lexeme}
      {clause : List Lexeme} (k s : Span) (hname : nameOf l = some name)
      (hclause : Maybe Marking mark clause) :
      Spelled (.parameter k name mark.isSome)
        (⟨.keyword .parameter, k⟩ :: ⟨.space, s⟩ :: l :: clause)
  | object {name : Located String} {parent : Option (Located String)} {l : Lexeme}
      {clause : List Lexeme} (k s : Span) (hname : nameOf l = some name)
      (hclause : Maybe Extending parent clause) :
      Spelled (.object k name parent)
        (⟨.keyword .object, k⟩ :: ⟨.space, s⟩ :: l :: clause)
  | member {name : Located String} {value : Option (Located UInt64)} {l : Lexeme}
      {clause : List Lexeme} (hname : nameOf l = some name)
      (hclause : Maybe Valuing value clause) :
      Spelled (.member name value) (l :: clause)
  | property {typeName name : Located String} {l l' : Lexeme} (s : Span)
      (htype : nameOf l = some typeName) (hname : nameOf l' = some name) :
      Spelled (.property typeName name) [l, ⟨.space, s⟩, l']

/-- A line that says `row`, with `rest` after its end. -/
inductive Line (row : Row) : List Lexeme → List Lexeme → Prop
  | mk {margin words mid rest : List Lexeme} (hwords : row.Spelled words)
      (hmargin : Margin row.depth margin) (hend : afterLineEnd? mid = some rest) :
      Line row (margin ++ (words ++ mid)) rest

/-- Lines that say `rows`, blank lines among them, and then `rest`. -/
inductive Rows : List Lexeme → List Row → List Lexeme → Prop
  | refl (ts : List Lexeme) : Rows ts [] ts
  | blank {ts mid rest : List Lexeme} {rows : List Row} (h : afterBlankLine? ts = some mid)
      (hrows : Rows mid rows rest) : Rows ts rows rest
  | line {row : Row} {ts mid rest : List Lexeme} {rows : List Row} (h : Line row ts mid)
      (hrows : Rows mid rows rest) : Rows ts (row :: rows) rest

/-- Nothing but an indent, a space and a comment: a blank line without its line break. -/
def Blank (ts : List Lexeme) : Prop :=
  skipTrailing (skipOne isIndent ts) = []

/-! ## Tokens that are skipped -/

variable {ts mid rest : List Lexeme} {l : Lexeme} {row : Row} {words : List Lexeme}

/-- A word is skipped nowhere. -/
def IsWord (l : Lexeme) : Prop :=
  l.token.isTrivia = false

lemma skipOne_cons_of_false {p : Lexeme → Bool} (h : p l = false) :
    skipOne p (l :: ts) = l :: ts := by
  simp [skipOne, h]

lemma IsWord.isIndent_eq (h : IsWord l) : isIndent l = false := by
  obtain ⟨token, span⟩ := l
  cases token <;> simp_all [IsWord, Token.isTrivia, isIndent]

lemma IsWord.isSpaceToken_eq (h : IsWord l) : isSpaceToken l = false := by
  obtain ⟨token, span⟩ := l
  cases token <;> simp_all [IsWord, Token.isTrivia, isSpaceToken]

lemma IsWord.isComment_eq (h : IsWord l) : isComment l = false := by
  obtain ⟨token, span⟩ := l
  cases token <;> simp_all [IsWord, Token.isTrivia, isComment]

lemma IsWord.ne_newline (h : IsWord l) : l.token ≠ .newline := by
  intro hl
  simp [IsWord, hl, Token.isTrivia] at h

/-- Nothing is skipped in front of a word. -/
lemma IsWord.skipTrailing_cons (h : IsWord l) : skipTrailing (l :: ts) = l :: ts := by
  rw [skipTrailing, skipOne_cons_of_false h.isSpaceToken_eq, skipOne_cons_of_false h.isComment_eq]

/-- What can be read as a name is a word. -/
lemma isWord_of_nameOf {n : Located String} (h : nameOf l = some n) : IsWord l := by
  obtain ⟨token, span⟩ := l
  cases token <;> simp_all [IsWord, Token.isTrivia, nameOf, Token.asName?]

/-- A row is written with at least one word, and starts with a word. -/
lemma Row.Spelled.exists_cons (h : row.Spelled words) :
    ∃ w ws, words = w :: ws ∧ IsWord w := by
  cases h with
  | member hname hclause => exact ⟨_, _, rfl, isWord_of_nameOf hname⟩
  | property s htype hname => exact ⟨_, _, rfl, isWord_of_nameOf htype⟩
  | _ => exact ⟨_, _, rfl, rfl⟩

/-- A margin in front of a word is skipped as a whole. -/
lemma Margin.skipOne_append {depth : Nat} {margin : List Lexeme} (h : Margin depth margin)
    (hl : IsWord l) : skipOne isIndent (margin ++ l :: ts) = l :: ts := by
  cases h with
  | none => exact skipOne_cons_of_false hl.isIndent_eq
  | indent depth s => rfl

/-! ## Indentation -/

/-- Where indentation matches, a margin of that depth was taken. -/
lemma margin_of_indented {depth : Nat} {u : Unit} (h : indented depth ts = .matched u rest) :
    ∃ margin, Margin depth margin ∧ ts = margin ++ rest := by
  cases depth with
  | zero =>
      refine ⟨[], .none, ?_⟩
      rcases ts with - | ⟨t, ts⟩
      · cases h
        rfl
      · simp only [indented] at h
        split_ifs at h
        cases h
        rfl
  | succ depth =>
      obtain ⟨⟨token, span⟩, ht, rfl⟩ := accept_eq_matched_iff.mp h
      simp only [Option.ite_none_right_eq_some, and_true] at ht
      subst ht
      exact ⟨_, .indent depth span, rfl⟩

/-- Conversely, a margin in front of a word matches indentation of its depth. -/
lemma Margin.indented_append {depth : Nat} {margin : List Lexeme} (h : Margin depth margin)
    (hl : IsWord l) : indented depth (margin ++ l :: ts) = .matched () (l :: ts) := by
  cases h with
  | none => simp [indented, hl.isIndent_eq]
  | indent depth s => simp [indented, accept]

/-! ## Clauses -/

/-- Where space may stand, a gap was taken. -/
lemma gap_of_maybeSpace {u : Unit} (h : maybeSpace ts = .matched u rest) :
    ∃ g, Gap g ∧ ts = g ++ rest := by
  rw [maybeSpace_eq_matched_iff] at h
  rcases ts with - | ⟨⟨token, span⟩, ts⟩
  · exact ⟨[], .none, h.symm⟩
  · by_cases ht : token = .space
    · subst ht
      subst h
      exact ⟨_, .space span, rfl⟩
    · rw [skipOne_cons_of_false (by simpa [isSpaceToken] using ht)] at h
      exact ⟨[], .none, h.symm⟩

/-- Conversely, a gap in front of a word matches where space may stand. -/
lemma Gap.maybeSpace_append {g : List Lexeme} (h : Gap g) (hl : IsWord l) :
    maybeSpace (g ++ l :: ts) = .matched () (l :: ts) := by
  rw [maybeSpace_eq_matched_iff]
  cases h with
  | none => exact (skipOne_cons_of_false hl.isSpaceToken_eq).symm
  | space s => rfl

/-- The rule of an `extends` clause matches the words that spell one. -/
lemma extendsClause_eq_matched_iff {parent : Located String} :
    extendsClause ts = .matched parent rest ↔
      ∃ words, Extending parent words ∧ ts = words ++ rest := by
  simp only [extendsClause, bind_eq_matched_iff, accept_eq_matched_iff, require_eq_matched_iff,
    here_eq_matched_iff, only_eq_some_iff]
  constructor
  · rintro ⟨s, _, ⟨_, rfl, rfl⟩, k, _, ⟨_, rfl, rfl⟩, _, _, ⟨rfl, rfl⟩, s', _, ⟨_, rfl, rfl⟩,
      l, hl, rfl⟩
    exact ⟨_, .mk s k s' hl, rfl⟩
  · rintro ⟨_, ⟨s, k, s', hl⟩, rfl⟩
    exact ⟨s, _, ⟨_, rfl, rfl⟩, k, _, ⟨_, rfl, rfl⟩, _, _, ⟨rfl, rfl⟩, s', _, ⟨_, rfl, rfl⟩,
      _, hl, rfl⟩

lemma multipleMark_eq_matched_iff {u : Unit} :
    multipleMark ts = .matched u rest ↔ ∃ words, Marking u words ∧ ts = words ++ rest := by
  simp only [multipleMark, bind_eq_matched_iff, accept_eq_matched_iff, require_eq_matched_iff,
    here_eq_matched_iff, only_eq_some_iff, pure_eq_matched_iff]
  constructor
  · rintro ⟨_, _, hgap, b, _, ⟨_, rfl, rfl⟩, _, _, ⟨rfl, rfl⟩, _, _, hgap', m, _, ⟨_, rfl, rfl⟩,
      _, _, hgap'', b', _, ⟨_, rfl, rfl⟩, -, rfl⟩
    obtain ⟨g, hg, rfl⟩ := gap_of_maybeSpace hgap
    obtain ⟨g', hg', rfl⟩ := gap_of_maybeSpace hgap'
    obtain ⟨g'', hg'', rfl⟩ := gap_of_maybeSpace hgap''
    exact ⟨_, .mk b m b' hg hg' hg'', by simp⟩
  · rintro ⟨_, ⟨b, m, b', hg, hg', hg''⟩, rfl⟩
    simp only [List.append_assoc, List.cons_append, List.nil_append]
    exact ⟨_, _, hg.maybeSpace_append rfl, b, _, ⟨_, rfl, rfl⟩, _, _, ⟨rfl, rfl⟩,
      _, _, hg'.maybeSpace_append rfl, m, _, ⟨_, rfl, rfl⟩,
      _, _, hg''.maybeSpace_append rfl, b', _, ⟨_, rfl, rfl⟩, trivial, rfl⟩

lemma valueClause_eq_matched_iff {value : Located UInt64} :
    valueClause ts = .matched value rest ↔ ∃ words, Valuing value words ∧ ts = words ++ rest := by
  simp only [valueClause, bind_eq_matched_iff, accept_eq_matched_iff, require_eq_matched_iff,
    here_eq_matched_iff, only_eq_some_iff, integerOf_eq_some_iff]
  constructor
  · rintro ⟨_, _, hgap, e, _, ⟨_, rfl, rfl⟩, _, _, ⟨rfl, rfl⟩, _, _, hgap', _, rfl, rfl⟩
    obtain ⟨g, hg, rfl⟩ := gap_of_maybeSpace hgap
    obtain ⟨g', hg', rfl⟩ := gap_of_maybeSpace hgap'
    exact ⟨_, .mk e hg hg', by simp⟩
  · rintro ⟨_, ⟨e, hg, hg'⟩, rfl⟩
    simp only [List.append_assoc, List.cons_append, List.nil_append]
    exact ⟨_, _, hg.maybeSpace_append rfl, e, _, ⟨_, rfl, rfl⟩, _, _, ⟨rfl, rfl⟩,
      _, _, hg'.maybeSpace_append rfl, _, rfl, rfl⟩

/-- Where a line ends, no word stands behind the space. -/
lemma not_isWord_of_afterLineEnd? (h : afterLineEnd? ts = some rest) :
    ∀ t ∈ (skipOne isSpaceToken ts).head?, ¬ IsWord t := by
  intro t ht hword
  obtain ⟨us, hus⟩ := List.head?_eq_some_iff.mp ht
  rw [afterLineEnd?, skipTrailing, hus, skipOne_cons_of_false hword.isComment_eq] at h
  simp [hword.ne_newline] at h

/-- A token that is no trivia is not accepted where no word is in front. -/
lemma accept_only_eq_unmatched {t : Token} (ht : t.isTrivia = false)
    (h : ∀ l ∈ ts.head?, ¬ IsWord l) : accept (only t) ts = .unmatched := by
  refine accept_eq_unmatched fun l hl => ?_
  rw [only, if_neg]
  rintro rfl
  exact h l hl ht

/-- A clause does not start where a line ends. -/
lemma extendsClause_eq_unmatched (h : afterLineEnd? ts = some rest) :
    extendsClause ts = .unmatched := by
  have hword := not_isWord_of_afterLineEnd? h
  rcases ts with - | ⟨⟨token, s⟩, ts⟩
  · rfl
  · by_cases ht : token = .space
    · subst ht
      exact (bind_eq_of_matched rfl).trans
        (bind_eq_unmatched_of_unmatched (accept_only_eq_unmatched rfl hword))
    · exact bind_eq_unmatched_of_unmatched (accept_eq_unmatched (by simp [only, ht]))

lemma multipleMark_eq_unmatched (h : afterLineEnd? ts = some rest) :
    multipleMark ts = .unmatched :=
  (bind_eq_of_matched rfl).trans
    (bind_eq_unmatched_of_unmatched (accept_only_eq_unmatched rfl (not_isWord_of_afterLineEnd? h)))

lemma valueClause_eq_unmatched (h : afterLineEnd? ts = some rest) :
    valueClause ts = .unmatched :=
  (bind_eq_of_matched rfl).trans
    (bind_eq_unmatched_of_unmatched (accept_only_eq_unmatched rfl (not_isWord_of_afterLineEnd? h)))

/-- An optional clause at the end of a line takes the words of the clause or nothing. -/
lemma optional_clause_iff {α : Type} {r : Rule α} {Words : α → List Lexeme → Prop}
    (hr : ∀ ts a rest, r ts = .matched a rest ↔ ∃ words, Words a words ∧ ts = words ++ rest)
    (hstop : ∀ ts rest, afterLineEnd? ts = some rest → r ts = .unmatched) {o : Option α}
    (hend : afterLineEnd? mid = some rest) :
    optional r ts = .matched o mid ↔ ∃ words, Maybe Words o words ∧ ts = words ++ mid := by
  rw [optional_eq_matched_iff]
  constructor
  · rintro (⟨a, rfl, ha⟩ | ⟨rfl, rfl, -⟩)
    · obtain ⟨words, hwords, rfl⟩ := (hr _ _ _).mp ha
      exact ⟨words, .some hwords, rfl⟩
    · exact ⟨[], .none, rfl⟩
  · rintro ⟨words, hwords, rfl⟩
    cases hwords with
    | none => exact .inr ⟨rfl, rfl, hstop _ _ hend⟩
    | some hwords => exact .inl ⟨_, rfl, (hr _ _ _).mpr ⟨_, hwords, rfl⟩⟩

/-- In front of the end of a line, what an optional clause matches is spelled, or it is left out. -/
lemma optional_extendsClause_iff {parent : Option (Located String)}
    (hend : afterLineEnd? mid = some rest) :
    optional extendsClause ts = .matched parent mid ↔
      ∃ words, Maybe Extending parent words ∧ ts = words ++ mid :=
  optional_clause_iff (fun _ _ _ => extendsClause_eq_matched_iff)
    (fun _ _ => extendsClause_eq_unmatched) hend

lemma optional_multipleMark_iff {mark : Option Unit} (hend : afterLineEnd? mid = some rest) :
    optional multipleMark ts = .matched mark mid ↔
      ∃ words, Maybe Marking mark words ∧ ts = words ++ mid :=
  optional_clause_iff (fun _ _ _ => multipleMark_eq_matched_iff)
    (fun _ _ => multipleMark_eq_unmatched) hend

lemma optional_valueClause_iff {value : Option (Located UInt64)}
    (hend : afterLineEnd? mid = some rest) :
    optional valueClause ts = .matched value mid ↔
      ∃ words, Maybe Valuing value words ∧ ts = words ++ mid :=
  optional_clause_iff (fun _ _ _ => valueClause_eq_matched_iff)
    (fun _ _ => valueClause_eq_unmatched) hend

/-! ## Rules that read one line -/

/-- A description is a line of its own, with the blank lines behind it. -/
lemma description_eq_matched_iff {depth : Nat} {text : Located String} :
    description depth ts = .matched text rest ↔
      ∃ mid, Line (.description depth text) ts mid ∧ rest = skipBlankLines mid := by
  simp only [description, bind_eq_matched_iff, accept_eq_matched_iff, stringOf_eq_some_iff,
    lineEnd_eq_matched_iff, blankLines_eq_matched_iff, pure_eq_matched_iff]
  constructor
  · rintro ⟨_, _, hindent, _, _, ⟨_, rfl, rfl⟩, _, mid, hend, _, _, rfl, rfl, rfl⟩
    obtain ⟨margin, hmargin, rfl⟩ := margin_of_indented hindent
    exact ⟨mid, .mk (.description depth _) hmargin hend, rfl⟩
  · rintro ⟨mid, ⟨hwords, hmargin, hend⟩, rfl⟩
    cases hwords
    exact ⟨_, _, hmargin.indented_append rfl, _, _, ⟨_, rfl, rfl⟩, (), mid, hend, (), _, rfl, rfl,
      rfl⟩

/-- A member is an optional description and the line that declares it. -/
lemma member_eq_matched_iff {m : MemberDecl} :
    member ts = .matched m rest ↔
      ∃ mid, optional (description 2) ts = .matched m.description mid ∧
        Line (.member m.name m.value) mid rest := by
  simp only [member, bind_eq_matched_iff, require_eq_matched_iff, here_eq_matched_iff,
    requireLineEnd_eq_matched_iff, pure_eq_matched_iff]
  constructor
  · rintro ⟨_, _, hdescription, _, _, hindent, _, _, ⟨rfl, rfl⟩, name, _, ⟨l, hname, rfl⟩,
      value, _, hclause, _, _, hend, rfl, rfl⟩
    obtain ⟨margin, hmargin, rfl⟩ := margin_of_indented hindent
    obtain ⟨clause, hwords, rfl⟩ := (optional_valueClause_iff hend).mp hclause
    exact ⟨_, hdescription, .mk (.member hname hwords) hmargin hend⟩
  · rintro ⟨_, hdescription, ⟨hwords, hmargin, hend⟩⟩
    cases hwords with
    | member hname hclause =>
        have hclause := (optional_valueClause_iff hend).mpr ⟨_, hclause, rfl⟩
        exact ⟨_, _, hdescription, _, _, hmargin.indented_append (isWord_of_nameOf hname), _, _,
          ⟨rfl, rfl⟩, _, _, ⟨_, hname, rfl⟩, _, _, hclause, (), _, hend, rfl, rfl⟩

/-- A property is an optional description and the line that declares it. -/
lemma property_eq_matched_iff {p : PropertyDecl} :
    property ts = .matched p rest ↔
      ∃ mid, optional (description 2) ts = .matched p.description mid ∧
        Line (.property p.typeName p.name) mid rest := by
  simp only [property, bind_eq_matched_iff, require_eq_matched_iff, here_eq_matched_iff,
    only_eq_some_iff, requireLineEnd_eq_matched_iff, pure_eq_matched_iff]
  constructor
  · rintro ⟨_, _, hdescription, _, _, hindent, _, _, ⟨rfl, rfl⟩, typeName, _, ⟨l, htype, rfl⟩,
      s, _, ⟨_, rfl, rfl⟩, name, _, ⟨l', hname, rfl⟩, _, _, hend, rfl, rfl⟩
    obtain ⟨margin, hmargin, rfl⟩ := margin_of_indented hindent
    exact ⟨_, hdescription, .mk (.property s htype hname) hmargin hend⟩
  · rintro ⟨_, hdescription, ⟨hwords, hmargin, hend⟩⟩
    cases hwords with
    | property s htype hname =>
        exact ⟨_, _, hdescription, _, _, hmargin.indented_append (isWord_of_nameOf htype), _, _,
          ⟨rfl, rfl⟩, _, _, ⟨_, htype, rfl⟩, s, _, ⟨_, rfl, rfl⟩, _, _, ⟨_, hname, rfl⟩, (), _,
          hend, rfl, rfl⟩

/-! ## Rules that read a head and a body

The three rules for declarations are one rule: a description, a line that starts with a keyword, and
a rule for the parts that is repeated on what follows. -/

/-- A form of declaration: its rule, part by part, and the row that its head is. -/
structure Form (α β γ : Type) where
  depth : Nat
  word : Keyword
  expected : Expectation
  clause : Rule γ
  part : Rule β
  build : Option Description → Span → Located String → Option γ → List β → α
  /-- The words of the clause. -/
  Words : γ → List Lexeme → Prop
  /-- The row of the head. -/
  row : Span → Located String → Option γ → Row
  optional_clause_iff : ∀ {ts mid rest given}, afterLineEnd? mid = some rest →
    (optional clause ts = .matched given mid ↔ ∃ words, Maybe Words given words ∧ ts = words ++ mid)
  depth_row : ∀ k name given, (row k name given).depth = depth
  spelled_row_iff : ∀ {k name given words}, (row k name given).Spelled words ↔
    ∃ s l clause, nameOf l = some name ∧ Maybe Words given clause ∧
      words = ⟨.keyword word, k⟩ :: ⟨.space, s⟩ :: l :: clause

namespace Form

variable {α β γ : Type}

/-- The rule of a form of declaration. -/
def rule (f : Form α β γ) : Rule α := do
  let description ← optional (description f.depth)
  indented f.depth
  let keyword ← accept (only (.keyword f.word))
  let start ← here
  let _ ← require start (.spaceAfter f.word) (only .space)
  let name ← require start f.expected nameOf
  let given ← optional f.clause
  requireLineEnd start
  let parts ← repeated (do blankLines; f.part)
  return f.build description keyword name given parts

/-- A declaration is an optional description, the line that opens it, and its parts one
after the other. -/
lemma rule_eq_matched_iff (f : Form α β γ) {a : α} :
    f.rule ts = .matched a rest ↔
      ∃ description mid k name given body parts,
        optional (Grammar.description f.depth) ts = .matched description mid ∧
        Line (f.row k name given) mid body ∧ many (do blankLines; f.part) body = .ok (parts, rest) ∧
        f.build description k name given parts = a := by
  simp only [rule, bind_eq_matched_iff, accept_eq_matched_iff, require_eq_matched_iff,
    here_eq_matched_iff, only_eq_some_iff, requireLineEnd_eq_matched_iff, repeated_eq_matched_iff,
    pure_eq_matched_iff]
  constructor
  · rintro ⟨description, _, hdescription, _, _, hindent, k, _, ⟨_, rfl, rfl⟩, _, _, ⟨rfl, rfl⟩,
      s, _, ⟨_, rfl, rfl⟩, name, _, ⟨l, hname, rfl⟩, given, _, hgiven, _, body, hend,
      parts, _, hmany, rfl, rfl⟩
    obtain ⟨margin, hmargin, rfl⟩ := margin_of_indented hindent
    obtain ⟨clause, hclause, rfl⟩ := (f.optional_clause_iff hend).mp hgiven
    have hwords := (f.spelled_row_iff (k := k)).mpr ⟨s, l, clause, hname, hclause, rfl⟩
    rw [← f.depth_row k name given] at hmargin
    exact ⟨description, _, k, name, given, body, parts, hdescription, .mk hwords hmargin hend,
      hmany, rfl⟩
  · rintro ⟨description, _, k, name, given, body, parts, hdescription, ⟨hwords, hmargin, hend⟩,
      hmany, rfl⟩
    obtain ⟨s, l, clause, hname, hclause, rfl⟩ := f.spelled_row_iff.mp hwords
    have hgiven := (f.optional_clause_iff hend).mpr ⟨_, hclause, rfl⟩
    rw [f.depth_row k name given] at hmargin
    exact ⟨description, _, hdescription, _, _, hmargin.indented_append rfl, k, _, ⟨_, rfl, rfl⟩,
      _, _, ⟨rfl, rfl⟩, s, _, ⟨_, rfl, rfl⟩, name, _, ⟨l, hname, rfl⟩, given, _, hgiven, (), body,
      hend, parts, rest, hmany, rfl, rfl⟩

end Form

/-- The mark of a parameter line is a clause like those of other lines. -/
lemma spelled_parameter_iff {k : Span} {name : Located String} {mark : Option Unit} :
    (Row.parameter k name mark.isSome).Spelled words ↔
      ∃ s l clause, nameOf l = some name ∧ Maybe Marking mark clause ∧
        words = ⟨.keyword .parameter, k⟩ :: ⟨.space, s⟩ :: l :: clause := by
  constructor
  · intro h
    generalize hm : mark.isSome = multiple at h
    cases h with
    | @parameter _ mark' l clause _ s hname hclause =>
        have hmark : mark' = mark := by
          cases mark <;> cases mark' <;> simp_all
        exact ⟨s, l, clause, hname, hmark ▸ hclause, rfl⟩
  · rintro ⟨s, l, clause, hname, hclause, rfl⟩
    exact .parameter k s hname hclause

/-- Parameter types. -/
def parameterForm : Form ParameterDecl MemberDecl Unit where
  depth := 1
  word := .parameter
  expected := .parameterName
  clause := multipleMark
  part := member
  build description k name mark members := ⟨description, name, mark.isSome, members,
    coverAll (k.union name.span) (members.map (·.name.span))⟩
  Words := Marking
  row k name mark := .parameter k name mark.isSome
  optional_clause_iff := optional_multipleMark_iff
  depth_row _ _ _ := rfl
  spelled_row_iff := spelled_parameter_iff

/-- Object types. -/
def objectForm : Form ObjectDecl PropertyDecl (Located String) where
  depth := 1
  word := .object
  expected := .objectName
  clause := extendsClause
  part := property
  build description k name parent properties := ⟨description, name, parent, properties,
    coverAll (k.union name.span) (properties.map (·.name.span))⟩
  Words := Extending
  row := .object
  optional_clause_iff := optional_extendsClause_iff
  depth_row _ _ _ := rfl
  spelled_row_iff := by
    refine ⟨fun h => ?_, ?_⟩
    · cases h with
      | object k s hname hclause => exact ⟨s, _, _, hname, hclause, rfl⟩
    · rintro ⟨s, l, clause, hname, hclause, rfl⟩
      exact .object _ s hname hclause

/-- Abstraction levels. -/
def levelForm : Form LevelDecl LevelItem (Located String) where
  depth := 0
  word := .abstractionLevel
  expected := .levelName
  clause := extendsClause
  part := levelItem
  build description k name parent items := ⟨description, name, parent, items,
    coverAll (k.union name.span) (items.map LevelItem.span)⟩
  Words := Extending
  row := .level
  optional_clause_iff := optional_extendsClause_iff
  depth_row _ _ _ := rfl
  spelled_row_iff := by
    refine ⟨fun h => ?_, ?_⟩
    · cases h with
      | level k s hname hclause => exact ⟨s, _, _, hname, hclause, rfl⟩
    · rintro ⟨s, l, clause, hname, hclause, rfl⟩
      exact .level _ s hname hclause

lemma rule_parameterForm : parameterForm.rule = parameterDecl := rfl

lemma rule_objectForm : objectForm.rule = objectDecl := rfl

lemma rule_levelForm : levelForm.rule = levelDecl := rfl

/-! ## Blank lines between rows -/

/-- A blank line in front is skipped, and then those behind it. -/
lemma skipBlankLines_of_blank (h : afterBlankLine? ts = some rest) :
    skipBlankLines ts = skipBlankLines rest := by
  rw [skipBlankLines.eq_def]
  split
  · next mid hmid =>
      rw [h] at hmid
      cases hmid
      rfl
  · next hnone =>
      rw [h] at hnone
      cases hnone

/-- Skipping stops where no blank line follows. -/
lemma skipBlankLines_of_none (h : afterBlankLine? ts = none) : skipBlankLines ts = ts := by
  rw [skipBlankLines.eq_def]
  split
  · next mid hmid =>
      rw [h] at hmid
      cases hmid
  · rfl

/-- A line begins with its indentation and a word. -/
lemma Line.exists_margin (h : Line row ts rest) :
    ∃ margin w us, Margin row.depth margin ∧ IsWord w ∧ ts = margin ++ w :: us := by
  obtain ⟨hwords, hmargin, -⟩ := h
  obtain ⟨w, ws, rfl, hw⟩ := hwords.exists_cons
  exact ⟨_, w, _, hmargin, hw, rfl⟩

/-- Behind its margin a line of the grammar has a word. -/
lemma Line.skip_eq (h : Line row ts rest) :
    ∃ w us, IsWord w ∧ skipTrailing (skipOne isIndent ts) = w :: us := by
  obtain ⟨margin, w, us, hmargin, hw, rfl⟩ := h.exists_margin
  exact ⟨w, us, hw, by rw [hmargin.skipOne_append hw, hw.skipTrailing_cons]⟩

lemma Line.afterBlankLine?_eq (h : Line row ts rest) : afterBlankLine? ts = none := by
  obtain ⟨w, us, hw, hskip⟩ := h.skip_eq
  simp [afterBlankLine?, hskip, hw.ne_newline]

/-- So no line of the grammar counts as blank. -/
lemma Line.not_blank (h : Line row ts rest) : ¬ Blank ts := by
  obtain ⟨w, us, hw, hskip⟩ := h.skip_eq
  simp [Blank, hskip]

lemma length_of_afterLineEnd? (h : afterLineEnd? ts = some rest) : rest.length ≤ ts.length := by
  unfold afterLineEnd? at h
  split at h
  · cases h
    exact Nat.zero_le _
  · next t us hus =>
      split_ifs at h
      cases h
      have hlen := length_skipTrailing_le ts
      rw [hus, List.length_cons] at hlen
      omega

/-- Reading a line takes tokens away. -/
lemma Line.length_lt (h : Line row ts rest) : rest.length < ts.length := by
  obtain ⟨hwords, hmargin, hend⟩ := h
  obtain ⟨w, ws, rfl, hw⟩ := hwords.exists_cons
  have hlen := length_of_afterLineEnd? hend
  simp only [List.length_append, List.length_cons]
  omega

/-! ## Rows -/

variable {rows more : List Row}

/-- What is read in two runs is read in one. -/
lemma Rows.trans (h : Rows ts rows mid) (h' : Rows mid more rest) :
    Rows ts (rows ++ more) rest := by
  induction h with
  | refl ts => exact h'
  | blank hblank hrows ih => exact .blank hblank (ih h')
  | line hline hrows ih => exact .line hline (ih h')

/-- Blank lines are read without a row. -/
lemma rows_skipBlankLines (ts : List Lexeme) : Rows ts [] (skipBlankLines ts) := by
  fun_induction skipBlankLines ts with
  | case1 ts rest hrest ih => exact .blank hrest ih
  | case2 ts hnone => exact .refl ts

lemma Line.toRows (h : Line row ts rest) : Rows ts [row] rest :=
  .line h (.refl rest)

lemma Rows.length_le (h : Rows ts rows rest) : rest.length ≤ ts.length := by
  induction h with
  | refl ts => exact Nat.le_refl _
  | blank hblank hrows ih =>
      exact Nat.le_trans ih (Nat.le_of_lt (length_of_afterBlankLine? hblank))
  | line hline hrows ih => exact Nat.le_trans ih (Nat.le_of_lt hline.length_lt)

/-- Reading rows takes tokens away, which is why a repetition ends. -/
lemma Rows.length_lt (h : Rows ts rows rest) (hne : rows ≠ []) : rest.length < ts.length := by
  induction h with
  | refl ts => exact absurd rfl hne
  | blank hblank hrows ih => exact Nat.lt_trans (ih hne) (length_of_afterBlankLine? hblank)
  | line hline hrows ih => exact Nat.lt_of_le_of_lt hrows.length_le hline.length_lt

/-- The first row stands behind all blank lines. -/
lemma Rows.exists_line (h : Rows ts (row :: rows) rest) :
    ∃ mid, Line row (skipBlankLines ts) mid ∧ Rows mid rows rest := by
  generalize hall : row :: rows = all at h
  induction h with
  | refl ts => exact nomatch hall
  | blank hblank hrows ih =>
      rw [skipBlankLines_of_blank hblank]
      exact ih hall
  | line hline hrows ih =>
      cases hall
      rw [skipBlankLines_of_none hline.afterBlankLine?_eq]
      exact ⟨_, hline, hrows⟩

lemma Blank.afterBlankLine?_eq (h : Blank ts) : afterBlankLine? ts = none := by
  rw [Blank] at h
  rw [afterBlankLine?, h]

/-- Where there are no rows, only blank lines stand before a last one. -/
lemma Rows.skipBlankLines_eq (h : Rows ts [] rest) (hblank : Blank rest) :
    skipBlankLines ts = rest := by
  generalize hall : ([] : List Row) = all at h
  induction h with
  | refl ts => exact skipBlankLines_of_none hblank.afterBlankLine?_eq
  | blank hline hrows ih =>
      rw [skipBlankLines_of_blank hline]
      exact ih hblank hall
  | line hline hrows ih => exact nomatch hall

end Grammar

end LevelSchema
