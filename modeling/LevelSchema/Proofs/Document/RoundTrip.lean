import LevelSchema.Document.Print
import LevelSchema.Proofs.Document.Names
import LevelSchema.Proofs.Document.Tokens
import LevelSchema.Proofs.Name

/-!
# Reading undoes writing

The canonical text of a document is read back as the document, up to places
(`Document.exists_ofLexemes_print`).  It takes two things: names have to be identifiers, and
descriptions may not contain a carriage return, for which strings have no escape.  A keyword is an
identifier like any other.

**Three steps.**  The canonical text is written row by row (`Document.print_eq`).  The text of a row
is the text of its tokens, each followed by something that does not extend it
(`Row.Printable.written`), so it is scanned as these tokens wherever it stands.  Lexemes with the
tokens of a row spell that row, up to places (`Row.exists_spelled`), and rows that agree with those
of a document are read as a document that agrees with it.
-/

namespace LevelSchema

open Document

variable {pos : Nat} {c : Char} {cs taken rest : List Char} {t : Token} {ts : List Token}
  {ls : List Lexeme}

/-! ## Words and signs as they are written -/

/-- What may follow a word or a number. -/
def Parted (rest : List Char) : Prop :=
  ∀ c ∈ rest.head?, Name.isPart c = false

/-- An identifier is the spelling of its token, if nothing follows that would extend it. -/
lemma spelling_name {name : String} (hname : Name.isIdentifier name = true)
    (hrest : Parted rest) : Spelling (wordToken name) name.toList rest := by
  obtain ⟨c, cs, hchars, hstart, hparts⟩ := Name.exists_cons_of_isIdentifier hname
  have hword := Spelling.word hstart ⟨hparts, hrest⟩
  rwa [← hchars, String.ofList_toList] at hword

/-- The spelling of a keyword gives the keyword. -/
lemma wordToken_spelling (k : Keyword) : wordToken k.spelling = .keyword k := by
  cases k <;> rfl

lemma isIdentifier_spelling (k : Keyword) : Name.isIdentifier k.spelling = true := by
  cases k <;> rfl

lemma spelling_keyword (k : Keyword) (hrest : Parted rest) :
    Spelling (.keyword k) k.spelling.toList rest :=
  wordToken_spelling k ▸ spelling_name (isIdentifier_spelling k) hrest

/-- A text with its special characters escaped is read back, unless it has a carriage return. -/
lemma quoted_escaped {text : List Char} (h : '\r' ∉ text) :
    Quoted text (text.flatMap escaped ++ ['"']) := by
  induction text with
  | nil => exact .close
  | cons c text ih =>
      have hmore := ih fun hmem => h (List.mem_cons_of_mem c hmem)
      rw [List.flatMap_cons, List.append_assoc]
      fun_cases escaped c with
      | case1 => exact .escape rfl hmore
      | case2 => exact .escape rfl hmore
      | case3 => exact .escape rfl hmore
      | case4 c hfeed hback hquote =>
          refine .plain ?_ hmore
          have hreturn : c ≠ '\r' := by
            rintro rfl
            exact h List.mem_cons_self
          simp [hreturn, show c ≠ '\n' from hfeed, show c ≠ '\\' from hback,
            show c ≠ '"' from hquote]

/-- A number is spelled by its decimal digits. -/
lemma spelling_integer (value : UInt64) (hrest : Parted rest) :
    Spelling (.integer value) (Nat.toDigits 10 value.toNat) rest := by
  have hdigit : ∀ c ∈ Nat.toDigits 10 value.toNat, c.isDigit = true := fun c hc =>
    Nat.isDigit_of_mem_toDigits (by decide) (by decide) hc
  have hvalue : decimalValue (Nat.toDigits 10 value.toNat) = value.toNat :=
    Nat.ofDigitChars_toDigits (by decide) (by decide)
  have hne : Nat.toDigits 10 value.toNat ≠ [] := Nat.toDigits_ne_nil
  obtain ⟨c, cs, hcs⟩ := List.exists_cons_of_ne_nil hne
  rw [hcs] at hdigit hvalue ⊢
  obtain ⟨hc, hmore⟩ := List.forall_mem_cons.mp hdigit
  have hstop : ∀ d ∈ rest.head?, d.isDigit = false := fun d hd =>
    isDigit_eq_false_of_isPart (hrest d hd)
  have hlt : decimalValue (c :: cs) < UInt64.size := hvalue ▸ value.toNat_lt
  have hspelling := Spelling.integer hc ⟨hmore, hstop⟩ hrest hlt
  rwa [hvalue, UInt64.ofNat_toNat] at hspelling

/-! ## Tokens one after the other -/

/-- The characters are these tokens, each followed by something that does not extend it, and all on
one line. -/
inductive Written : List Token → List Char → Prop
  | nil : Written [] []
  | cons {t : Token} {ts : List Token} {taken rest : List Char} (h : Spelling t taken rest)
      (ht : t ≠ .newline) (hrest : Written ts rest) : Written (t :: ts) (taken ++ rest)

lemma Written.isSpace_eq_false (h : Written (t :: ts) cs) (ht : t.isTrivia = false) :
    ∀ c ∈ cs.head?, isSpace c = false := by
  cases h with
  | cons hspelling hne hrest =>
      obtain ⟨c, cs, rfl⟩ := hspelling.exists_cons
      exact hspelling.isSpace_eq_false ht

/-- A space in front of a word. -/
lemma Written.space (h : Written (t :: ts) cs) (ht : t.isTrivia = false) :
    Written (.space :: t :: ts) (' ' :: cs) := by
  have hspace : Spelling .space [' '] cs := .space rfl ⟨by simp, h.isSpace_eq_false ht⟩ nofun
  exact .cons hspace nofun h

lemma Written.name {name : String} (hname : Name.isIdentifier name = true) (hrest : Parted rest)
    (h : Written ts rest) : Written (wordToken name :: ts) (name.toList ++ rest) :=
  .cons (spelling_name hname hrest) (Spelling.ne_word rfl).symm h

/-- What is written is scanned as the tokens it is made of. -/
lemma Written.exists_scans (h : Written ts cs) (pos : Nat) :
    ∃ ls, Scans pos false cs ls ∧ ls.map (·.token) = ts := by
  induction h generalizing pos with
  | nil => exact ⟨[], .nil pos false, rfl⟩
  | @cons t ts taken rest h ht hrest ih =>
      obtain ⟨ls, hscan, htokens⟩ := ih (pos + byteLength taken)
      rw [← beq_eq_false_iff_ne.mpr ht] at hscan
      have hread := h.readToken_append
      obtain ⟨c, cs, rfl⟩ := h.exists_cons
      exact ⟨_, .token rfl hread hscan, by simp [htokens]⟩

/-- Blanks count one column each. -/
lemma columns_replicate (n : Nat) : columns (List.replicate n ' ') = n := by
  induction n with
  | zero => rfl
  | succ n ih =>
      rw [List.replicate_succ, columns, ih]
      exact Nat.add_comm 1 n

namespace Grammar

/-- A line that is indented by spaces is read as its indentation and its tokens. -/
lemma exists_scans_indented (h : Written ts cs) (hstop : ∀ c ∈ cs.head?, isIndentChar c = false)
    (depth pos : Nat) :
    ∃ margin words, Scans pos true (List.replicate (depth * indentWidth) ' ' ++ cs)
      (margin ++ words) ∧ Margin depth margin ∧ words.map (·.token) = ts := by
  cases depth with
  | zero =>
      obtain ⟨words, hscan, htokens⟩ := h.exists_scans pos
      rw [Nat.zero_mul, List.replicate_zero, List.nil_append]
      exact ⟨[], words, hscan.at_lineStart hstop, .none, htokens⟩
  | succ depth =>
      obtain ⟨n, hn⟩ : ∃ n, (depth + 1) * indentWidth = n + 1 :=
        ⟨depth * indentWidth + 3, by simp only [indentWidth]; omega⟩
      have hrun : Run isIndentChar (List.replicate n ' ') cs :=
        ⟨fun c hc => List.eq_of_mem_replicate hc ▸ rfl, hstop⟩
      obtain ⟨words, hscan, htokens⟩ :=
        h.exists_scans (pos + byteLength (' ' :: List.replicate n ' '))
      have hline : Scans pos true (' ' :: (List.replicate n ' ' ++ cs)) (⟨.indent (columns
          (' ' :: (List.replicate n ' ' ++ cs).takeWhile isIndentChar)), ⟨pos, pos + byteLength
            (' ' :: (List.replicate n ' ' ++ cs).takeWhile isIndentChar)⟩⟩ :: words) := by
        refine .indent rfl ?_
        rwa [hrun.takeWhile_append, hrun.dropWhile_append]
      rw [hrun.takeWhile_append, ← List.replicate_succ, columns_replicate, ← hn] at hline
      rw [hn, List.replicate_succ, List.cons_append]
      exact ⟨_, words, hline, .indent depth _, htokens⟩

/-! ## Rows as tokens and as text -/

variable {row : Row} {rows : List Row} {clause words : List Lexeme}

/-- The tokens of the clause that names what is extended. -/
def extendsTokens : Option (Located String) → List Token
  | none => []
  | some parent => [.space, .keyword .extends, .space, wordToken parent.value]

/-- The tokens of the mark of a flag set. -/
def markTokens : Bool → List Token
  | false => []
  | true => [.space, .leftBracket, .keyword .multiple, .rightBracket]

/-- The tokens of the value of a member. -/
def valueTokens : Option (Located UInt64) → List Token
  | none => []
  | some value => [.space, .equals, .space, .integer value.value]

/-- The tokens that a row is written with, behind its indentation. -/
def Row.tokens : Row → List Token
  | .description _ text => [.string text.value]
  | .level _ name parent =>
      .keyword .abstractionLevel :: .space :: wordToken name.value :: extendsTokens parent
  | .parameter _ name multiple =>
      .keyword .parameter :: .space :: wordToken name.value :: markTokens multiple
  | .object _ name parent =>
      .keyword .object :: .space :: wordToken name.value :: extendsTokens parent
  | .member name value => wordToken name.value :: valueTokens value
  | .property typeName name => [wordToken typeName.value, .space, wordToken name.value]

/-- The text of a row, behind its indentation. -/
def Row.text : Row → List Char
  | .description _ text => quoted text.value
  | .level _ name parent => introduced .abstractionLevel name ++ extendsText parent
  | .parameter _ name multiple => introduced .parameter name ++ markText multiple
  | .object _ name parent => introduced .object name ++ extendsText parent
  | .member name value => name.value.toList ++ valueText value
  | .property typeName name => typeName.value.toList ++ ' ' :: name.value.toList

/-- The line of a row. -/
def Row.print (row : Row) : List Char :=
  line row.depth row.text

/-- What can be written: names that are identifiers, and descriptions without a carriage return. -/
def Row.Printable : Row → Prop
  | .description _ text => '\r' ∉ text.value.toList
  | .level _ name parent | .object _ name parent =>
      Name.isIdentifier name.value = true ∧ ∀ q ∈ parent, Name.isIdentifier q.value = true
  | .parameter _ name _ => Name.isIdentifier name.value = true
  | .member name _ => Name.isIdentifier name.value = true
  | .property typeName name =>
      Name.isIdentifier typeName.value = true ∧ Name.isIdentifier name.value = true

/-! ## The text of a row is the text of its tokens -/

lemma parted_space (cs : List Char) : Parted (' ' :: cs) := by
  rintro _ ⟨⟩
  rfl

lemma parted_nil : Parted [] :=
  nofun

/-- A keyword and the name it introduces. -/
lemma written_introduced (k : Keyword) {name : Located String}
    (hname : Name.isIdentifier name.value = true) (hrest : Parted rest) (h : Written ts rest) :
    Written (.keyword k :: .space :: wordToken name.value :: ts) (introduced k name ++ rest) := by
  rw [introduced, List.append_assoc]
  refine .cons (spelling_keyword k (parted_space _)) nofun ?_
  exact (Written.name hname hrest h).space (isTrivia_wordToken _)

/-- The text of an `extends` clause is written as its tokens. -/
lemma written_extends {parent : Option (Located String)}
    (h : ∀ q ∈ parent, Name.isIdentifier q.value = true) :
    Written (extendsTokens parent) (extendsText parent) ∧ Parted (extendsText parent) := by
  cases parent with
  | none => exact ⟨.nil, parted_nil⟩
  | some q =>
      have hclause := written_introduced .extends (h q rfl) parted_nil .nil
      rw [List.append_nil] at hclause
      exact ⟨hclause.space rfl, parted_space _⟩

lemma written_mark (multiple : Bool) :
    Written (markTokens multiple) (markText multiple) ∧ Parted (markText multiple) := by
  cases multiple with
  | false => exact ⟨.nil, parted_nil⟩
  | true =>
      have hbracket : Written [.rightBracket] [']'] := .cons (.rightBracket []) nofun .nil
      have hparted : Parted [']'] := by
        rintro _ ⟨⟩
        rfl
      have hword := Written.cons (spelling_keyword .multiple hparted) nofun hbracket
      have hmark := Written.cons (.leftBracket _) nofun hword
      exact ⟨hmark.space rfl, parted_space _⟩

lemma written_value (value : Option (Located UInt64)) :
    Written (valueTokens value) (valueText value) ∧ Parted (valueText value) := by
  cases value with
  | none => exact ⟨.nil, parted_nil⟩
  | some value =>
      have hinteger := Written.cons (spelling_integer value.value parted_nil) nofun .nil
      rw [List.append_nil] at hinteger
      have hclause := Written.cons (.equals _) nofun (hinteger.space rfl)
      exact ⟨hclause.space rfl, parted_space _⟩

/-- **A row is written as its tokens.** -/
lemma Row.Printable.written (h : row.Printable) : Written row.tokens row.text := by
  cases row with
  | description depth text =>
      have hstring := Spelling.string (quoted_escaped h) []
      rw [String.ofList_toList] at hstring
      have hline := Written.cons hstring nofun .nil
      rwa [List.append_nil] at hline
  | level k name parent =>
      obtain ⟨hclause, hparted⟩ := written_extends h.2
      exact written_introduced .abstractionLevel h.1 hparted hclause
  | parameter k name multiple =>
      obtain ⟨hclause, hparted⟩ := written_mark multiple
      exact written_introduced .parameter h hparted hclause
  | object k name parent =>
      obtain ⟨hclause, hparted⟩ := written_extends h.2
      exact written_introduced .object h.1 hparted hclause
  | member name value =>
      obtain ⟨hclause, hparted⟩ := written_value value
      exact .name h hparted hclause
  | property typeName name =>
      have hname := Written.name h.2 parted_nil .nil
      rw [List.append_nil] at hname
      exact .name h.1 (parted_space _) (hname.space (isTrivia_wordToken _))

/-! ## Lexemes with the tokens of a row spell the row -/

/-- The token of a word gives the word as a name, a keyword or not. -/
lemma nameOf_wordToken (name : String) (s : Span) :
    nameOf ⟨wordToken name, s⟩ = some ⟨name, s⟩ := by
  rw [nameOf, asName?_wordToken]
  rfl

/-- The tokens of an `extends` clause spell the clause, up to places. -/
lemma exists_extending {parent : Option (Located String)}
    (h : clause.map (·.token) = extendsTokens parent) :
    ∃ parent', Maybe Extending parent' clause ∧
      parent'.map Located.unplaced = parent.map Located.unplaced := by
  cases parent with
  | none =>
      obtain rfl := List.map_eq_nil_iff.mp h
      exact ⟨none, .none, rfl⟩
  | some q =>
      simp only [extendsTokens, map_token_eq_cons_iff, List.map_eq_nil_iff] at h
      obtain ⟨s, _, rfl, k, _, rfl, s', _, rfl, place, _, rfl, rfl⟩ := h
      exact ⟨some ⟨q.value, place⟩, .some (.mk s k s' (nameOf_wordToken q.value place)), rfl⟩

lemma exists_marking {multiple : Bool} (h : clause.map (·.token) = markTokens multiple) :
    ∃ mark : Option Unit, Maybe Marking mark clause ∧ mark.isSome = multiple := by
  cases multiple with
  | false =>
      obtain rfl := List.map_eq_nil_iff.mp h
      exact ⟨none, .none, rfl⟩
  | true =>
      simp only [markTokens, map_token_eq_cons_iff, List.map_eq_nil_iff] at h
      obtain ⟨s, _, rfl, b, _, rfl, m, _, rfl, b', _, rfl, rfl⟩ := h
      exact ⟨some (), .some (.mk b m b' (.space s) .none .none), rfl⟩

lemma exists_valuing {value : Option (Located UInt64)}
    (h : clause.map (·.token) = valueTokens value) :
    ∃ value', Maybe Valuing value' clause ∧
      value'.map Located.unplaced = value.map Located.unplaced := by
  cases value with
  | none =>
      obtain rfl := List.map_eq_nil_iff.mp h
      exact ⟨none, .none, rfl⟩
  | some v =>
      simp only [valueTokens, map_token_eq_cons_iff, List.map_eq_nil_iff] at h
      obtain ⟨s, _, rfl, e, _, rfl, s', _, rfl, place, _, rfl, rfl⟩ := h
      exact ⟨some ⟨v.value, place⟩, .some (.mk e (.space s) (.space s')), rfl⟩

/-- Lexemes with the tokens of a row spell it, at other places. -/
lemma Row.exists_spelled (h : words.map (·.token) = row.tokens) :
    ∃ row' : Row, row'.Spelled words ∧ row'.unplaced = row.unplaced := by
  cases row with
  | description depth text =>
      simp only [Row.tokens, map_token_eq_cons_iff, List.map_eq_nil_iff] at h
      obtain ⟨s, _, rfl, rfl⟩ := h
      exact ⟨_, .description depth ⟨text.value, s⟩, rfl⟩
  | level k name parent =>
      simp only [Row.tokens, map_token_eq_cons_iff] at h
      obtain ⟨k, _, rfl, s, _, rfl, s', _, rfl, hclause⟩ := h
      obtain ⟨parent', hwords, hparent⟩ := exists_extending hclause
      exact ⟨_, .level k s (nameOf_wordToken name.value s') hwords,
        congrArg (Row.level .atStart name.unplaced) hparent⟩
  | parameter k name multiple =>
      simp only [Row.tokens, map_token_eq_cons_iff] at h
      obtain ⟨k, _, rfl, s, _, rfl, s', _, rfl, hclause⟩ := h
      obtain ⟨mark, hwords, rfl⟩ := exists_marking hclause
      exact ⟨_, .parameter k s (nameOf_wordToken name.value s') hwords, rfl⟩
  | object k name parent =>
      simp only [Row.tokens, map_token_eq_cons_iff] at h
      obtain ⟨k, _, rfl, s, _, rfl, s', _, rfl, hclause⟩ := h
      obtain ⟨parent', hwords, hparent⟩ := exists_extending hclause
      exact ⟨_, .object k s (nameOf_wordToken name.value s') hwords,
        congrArg (Row.object .atStart name.unplaced) hparent⟩
  | member name value =>
      simp only [Row.tokens, map_token_eq_cons_iff] at h
      obtain ⟨s, _, rfl, hclause⟩ := h
      obtain ⟨value', hwords, hvalue⟩ := exists_valuing hclause
      exact ⟨_, .member (nameOf_wordToken name.value s) hwords,
        congrArg (Row.member name.unplaced) hvalue⟩
  | property typeName name =>
      simp only [Row.tokens, map_token_eq_cons_iff, List.map_eq_nil_iff] at h
      obtain ⟨s, _, rfl, s', _, rfl, s'', _, rfl, rfl⟩ := h
      exact ⟨_, .property s' (nameOf_wordToken typeName.value s)
        (nameOf_wordToken name.value s''), rfl⟩

/-! ## Reading what is written -/

/-- A row begins with a word. -/
lemma Row.exists_tokens (row : Row) : ∃ t ts, row.tokens = t :: ts ∧ t.isTrivia = false := by
  cases row with
  | member name value => exact ⟨_, _, rfl, isTrivia_wordToken _⟩
  | property typeName name => exact ⟨_, _, rfl, isTrivia_wordToken _⟩
  | _ => exact ⟨_, _, rfl, rfl⟩

/-- The text of a row does not begin with more indentation. -/
lemma Row.Printable.isIndentChar_eq_false (h : row.Printable) :
    ∀ c ∈ row.text.head?, isIndentChar c = false := by
  intro c hc
  obtain ⟨t, ts, htokens, ht⟩ := row.exists_tokens
  have hwritten := h.written
  rw [htokens] at hwritten
  have hspace := hwritten.isSpace_eq_false ht c hc
  rw [Bool.eq_false_iff] at hspace ⊢
  exact fun hindent => hspace (isSpace_of_isIndentChar c hindent)

/-- The words of a row do not end in a space. -/
lemma Row.Spelled.append_ne_space (h : row.Spelled words) (margin line : List Lexeme) (s : Span) :
    margin ++ words ≠ line ++ [⟨.space, s⟩] := by
  intro heq
  obtain ⟨w, ws, hne, -⟩ := h.exists_cons
  have hlast : words.getLast? = some (words.getLast (by simp [hne])) :=
    List.getLast?_eq_some_getLast _
  have hword := h.worded.isWord_getLast _ hlast
  have hspace := mem_getLast?_append margin hlast
  rw [heq, List.getLast?_concat, Option.mem_some] at hspace
  rw [← hspace] at hword
  exact nomatch hword

/-- A printed row is read as a line that says it. -/
lemma Row.Printable.exists_line (h : row.Printable) (pos : Nat) :
    ∃ line s row', row'.unplaced = row.unplaced ∧
      (∀ tail, Line row' (line ++ ⟨.newline, s⟩ :: tail) tail) ∧
      ∀ post tail, Scans s.stop true post tail →
        Scans pos true (row.print ++ post) (line ++ ⟨.newline, s⟩ :: tail) := by
  obtain ⟨margin, words, hscan, hmargin, htokens⟩ :=
    exists_scans_indented h.written h.isIndentChar_eq_false row.depth pos
  obtain ⟨row', hspelled, hrow⟩ := Row.exists_spelled htokens
  rw [← row.depth_unplaced, ← hrow, row'.depth_unplaced] at hmargin
  obtain ⟨line, s, hline | ⟨s', hspace⟩, hrest⟩ := hscan.append_newline
  · subst hline
    refine ⟨margin ++ words, s, row', hrow, fun tail => ?_, fun post tail htail => ?_⟩
    · rw [List.append_assoc]
      exact .mk hspelled hmargin rfl
    · rw [Row.print, Document.line, List.append_assoc]
      exact hrest post tail htail
  · exact absurd hspace (hspelled.append_ne_space margin line s')

/-- Printed rows are read as rows, the same up to places. -/
lemma exists_rows (h : ∀ row ∈ rows, row.Printable) (pos : Nat) :
    ∃ ls rows', Scans pos true (rows.flatMap Row.print) ls ∧ Rows ls rows' [] ∧
      rows'.map Row.unplaced = rows.map Row.unplaced := by
  induction rows generalizing pos with
  | nil => exact ⟨[], [], .nil pos true, .refl [], rfl⟩
  | cons row rows ih =>
      obtain ⟨hrow, hrows⟩ := List.forall_mem_cons.mp h
      obtain ⟨line, s, row', heq, hline, hscan⟩ := hrow.exists_line pos
      obtain ⟨ls, rows', hscan', hsaid, heqs⟩ := ih hrows s.stop
      refine ⟨_, row' :: rows', hscan _ ls hscan', .line (hline ls) hsaid, ?_⟩
      rw [List.map_cons, List.map_cons, heq, heqs]

end Grammar

open Grammar

/-! ## The canonical text, row by row -/

/-- A description is printed as its rows are. -/
lemma descriptionLine_eq (depth : Nat) (o : Option Description) :
    descriptionLine depth o = (descriptionRows depth o).flatMap Row.print := by
  cases o with
  | none => rfl
  | some text => exact (List.append_nil _).symm

/-- A declaration is written as its description, its head and its parts. -/
lemma print_described {β : Type} (row : Row) (o : Option Description) (parts : List β)
    {printPart : β → List Char} {partRows : β → List Row}
    (hparts : ∀ b, printPart b = (partRows b).flatMap Row.print) :
    descriptionLine row.depth o ++ row.print ++ parts.flatMap printPart =
      (descriptionRows row.depth o ++ row :: parts.flatMap partRows).flatMap Row.print := by
  rw [List.flatMap_append, List.flatMap_cons, List.flatMap_assoc, descriptionLine_eq,
    List.append_assoc, funext hparts]

lemma MemberDecl.print_eq (m : MemberDecl) : m.print = m.rows.flatMap Row.print := by
  rw [MemberDecl.print, MemberDecl.rows, List.flatMap_append, descriptionLine_eq,
    List.flatMap_singleton]
  rfl

lemma PropertyDecl.print_eq (p : PropertyDecl) : p.print = p.rows.flatMap Row.print := by
  rw [PropertyDecl.print, PropertyDecl.rows, List.flatMap_append, descriptionLine_eq,
    List.flatMap_singleton]
  rfl

lemma ParameterDecl.print_eq (p : ParameterDecl) : p.print = p.rows.flatMap Row.print :=
  print_described (.parameter .atStart p.name p.multiple) p.description p.members
    MemberDecl.print_eq

lemma ObjectDecl.print_eq (o : ObjectDecl) : o.print = o.rows.flatMap Row.print :=
  print_described (.object .atStart o.name o.parent) o.description o.properties
    PropertyDecl.print_eq

lemma LevelItem.print_eq (i : LevelItem) : i.print = i.rows.flatMap Row.print := by
  cases i with
  | parameter p => exact p.print_eq
  | object o => exact o.print_eq

/-- A level is printed as its rows are. -/
lemma LevelDecl.print_eq (l : LevelDecl) : l.print = l.rows.flatMap Row.print :=
  print_described (.level .atStart l.name l.parent) l.description l.items LevelItem.print_eq

lemma Document.print_eq (d : Document) : d.print = String.ofList (d.rows.flatMap Row.print) := by
  rw [Document.print, Document.rows, List.flatMap_assoc, funext LevelDecl.print_eq]

/-! ## Documents that can be written -/

section EveryDescription

variable (p : String → Prop)

/-- Every description in a parameter declaration has `p`. -/
def ParameterDecl.EveryDescription (d : ParameterDecl) : Prop :=
  (∀ text ∈ d.description, p text.value) ∧ ∀ m ∈ d.members, ∀ text ∈ m.description, p text.value

/-- Every description in an object declaration has `p`. -/
def ObjectDecl.EveryDescription (d : ObjectDecl) : Prop :=
  (∀ text ∈ d.description, p text.value) ∧
    ∀ q ∈ d.properties, ∀ text ∈ q.description, p text.value

/-- Every description in a declaration inside a level has `p`. -/
def LevelItem.EveryDescription : LevelItem → Prop
  | .parameter d => d.EveryDescription p
  | .object d => d.EveryDescription p

/-- Every description in a level has `p`. -/
def LevelDecl.EveryDescription (d : LevelDecl) : Prop :=
  (∀ text ∈ d.description, p text.value) ∧ ∀ i ∈ d.items, i.EveryDescription p

/-- Every description in a document has `p`. -/
def Document.EveryDescription (d : Document) : Prop :=
  ∀ l ∈ d.levels, l.EveryDescription p

end EveryDescription

/-- A text without a carriage return. -/
def Unreturned (text : String) : Prop :=
  '\r' ∉ text.toList

/-- A described declaration is printable if its description and its other rows are. -/
lemma printable_described {depth : Nat} {o : Option Description} (row : Row) {more : List Row}
    (ho : ∀ text ∈ o, Unreturned text.value) (hrow : row.Printable)
    (hmore : ∀ r ∈ more, r.Printable) :
    ∀ r ∈ descriptionRows depth o ++ row :: more, r.Printable := by
  refine List.forall_mem_append.mpr ⟨?_, List.forall_mem_cons.mpr ⟨hrow, hmore⟩⟩
  cases o with
  | none => exact nofun
  | some text => exact List.forall_mem_singleton.mpr (ho text rfl)

lemma ParameterDecl.printable_rows {d : ParameterDecl}
    (hnames : d.EveryName (Name.isIdentifier · = true)) (htexts : d.EveryDescription Unreturned) :
    ∀ row ∈ d.rows, row.Printable := by
  obtain ⟨hname, hmembers⟩ := hnames
  obtain ⟨htext, hmore⟩ := htexts
  refine printable_described _ htext hname (List.forall_mem_flatMap.mpr fun m hm => ?_)
  exact printable_described (.member m.name m.value) (hmore m hm) (hmembers m hm) nofun

lemma ObjectDecl.printable_rows {d : ObjectDecl}
    (hnames : d.EveryName (Name.isIdentifier · = true)) (htexts : d.EveryDescription Unreturned) :
    ∀ row ∈ d.rows, row.Printable := by
  obtain ⟨hname, hparent, hproperties⟩ := hnames
  obtain ⟨htext, hmore⟩ := htexts
  refine printable_described _ htext ⟨hname, hparent⟩ (List.forall_mem_flatMap.mpr fun q hq => ?_)
  exact printable_described (.property q.typeName q.name) (hmore q hq) (hproperties q hq) nofun

/-- A level of identifiers, without carriage returns in descriptions, is printable. -/
lemma LevelDecl.printable_rows {d : LevelDecl}
    (hnames : d.EveryName (Name.isIdentifier · = true)) (htexts : d.EveryDescription Unreturned) :
    ∀ row ∈ d.rows, row.Printable := by
  obtain ⟨hname, hparent, hitems⟩ := hnames
  obtain ⟨htext, hmore⟩ := htexts
  refine printable_described _ htext ⟨hname, hparent⟩ (List.forall_mem_flatMap.mpr fun i hi => ?_)
  cases i with
  | parameter p => exact ParameterDecl.printable_rows (hitems _ hi) (hmore _ hi)
  | object o => exact ObjectDecl.printable_rows (hitems _ hi) (hmore _ hi)

namespace Document

/-- **Reading undoes writing.**  If all names of a document are identifiers and no description
contains a carriage return, its canonical text is read, and as the same document up to places. -/
theorem exists_ofLexemes_print (d : Document) (hnames : d.EveryName (Name.isIdentifier · = true))
    (htexts : d.EveryDescription Unreturned) :
    ∃ lexemes d', scan d.print = .ok lexemes ∧ ofLexemes lexemes = .ok d' ∧
      d'.unplaced = d.unplaced := by
  have hprintable : ∀ row ∈ d.rows, row.Printable :=
    List.forall_mem_flatMap.mpr fun l hl => LevelDecl.printable_rows (hnames l hl) (htexts l hl)
  obtain ⟨ls, rows, hscan, hrows, heq⟩ := exists_rows hprintable 0
  obtain ⟨d', hsaid, hd'⟩ := recovers_document d rows heq
  refine ⟨ls, d', ?_, ?_, hd'⟩
  · rw [scan_eq_ok_iff, print_eq, String.toList_ofList]
    exact hscan
  · rw [ofLexemes_eq_ok_iff]
    exact document_complete hrows ⟨rfl, fun hdeep => hdeep.ne_nil rfl⟩ hsaid

/-- Two levels with every clause there is, keywords as names, and a description that needs escapes.
All places are at the start. -/
def keywordsOnSite : Document where
  levels := [
    { description := some ⟨"All of the \"land\",\nand a \\", .atStart⟩
      name := ⟨"Site", .atStart⟩
      parent := none
      items := [
        .parameter
          { description := none
            name := ⟨"Multiple", .atStart⟩
            multiple := true
            members := [
              ⟨some ⟨"the first", .atStart⟩, ⟨"Object", .atStart⟩, some ⟨1, .atStart⟩⟩,
              ⟨none, ⟨"Parameter", .atStart⟩, none⟩]
            span := .atStart },
        .object
          { description := some ⟨"", .atStart⟩
            name := ⟨"extends", .atStart⟩
            parent := some ⟨"extends", .atStart⟩
            properties := [⟨none, ⟨"Object", .atStart⟩, ⟨"AbstractionLevel", .atStart⟩⟩]
            span := .atStart }]
      span := .atStart },
    ⟨none, ⟨"City", .atStart⟩, some ⟨"Site", .atStart⟩, [], .atStart⟩]

theorem keywordsOnSite_reads_back :
    keywordsOnSite.EveryName (Name.isIdentifier · = true) ∧
      keywordsOnSite.EveryDescription Unreturned ∧
        ∃ lexemes d', scan keywordsOnSite.print = .ok lexemes ∧ ofLexemes lexemes = .ok d' ∧
          d'.unplaced = keywordsOnSite.unplaced := by
  have hnames : keywordsOnSite.EveryName (Name.isIdentifier · = true) := by
    simp [EveryName, keywordsOnSite, LevelDecl.EveryName, LevelItem.EveryName,
      ParameterDecl.EveryName, ObjectDecl.EveryName, Name.isIdentifier, Name.isIdentifierChars,
      Name.isStart, Name.isPart]
  have htexts : keywordsOnSite.EveryDescription Unreturned := by
    simp [EveryDescription, keywordsOnSite, LevelDecl.EveryDescription,
      LevelItem.EveryDescription, ParameterDecl.EveryDescription, ObjectDecl.EveryDescription,
      Unreturned]
  exact ⟨hnames, htexts, exists_ofLexemes_print keywordsOnSite hnames htexts⟩

end Document

end LevelSchema
