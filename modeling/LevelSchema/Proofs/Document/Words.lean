import LevelSchema.Proofs.Document.Lines
import LevelSchema.Proofs.Token.Tiling
import Mathlib.Data.List.Flatten
import Mathlib.Data.List.Pairwise

/-!
# The words of a document

The names in a document are tokens of the text, at the places of the tokens.  They are used in the
order in which they stand, and none is used twice: line by line, the names of a document are among
the words of the text (`Grammar.sublist_wordsOf_document`).

**Keywords are words.**  A declaration takes its place from its keyword, so the words of a row begin
with it.  Where a name is asked for a keyword is a name too, so both kinds of tokens are words.
-/

namespace LevelSchema

/-! ## Words in order -/

/-- Words at places that are not empty, each behind the one before. -/
structure InOrder (words : List (Located String)) : Prop where
  nonempty : ∀ w ∈ words, w.span.start < w.span.stop
  pairwise : words.Pairwise fun w w' => w.span.stop ≤ w'.span.start

/-- All of the first words stand in front of all of the others. -/
def Precede (words words' : List (Located String)) : Prop :=
  ∀ w ∈ words, ∀ w' ∈ words', w.span.stop ≤ w'.span.start

namespace InOrder

variable {words words' : List (Located String)}

/-- Some of the words in order are in order. -/
lemma sublist (h : InOrder words') (hsub : words.Sublist words') : InOrder words :=
  ⟨fun w hw => h.nonempty w (hsub.subset hw), h.pairwise.sublist hsub⟩

end InOrder

/-- Words in two parts are in order if both parts are and the first precedes the second. -/
lemma inOrder_append_iff {words words' : List (Located String)} :
    InOrder (words ++ words') ↔ InOrder words ∧ InOrder words' ∧ Precede words words' := by
  constructor
  · rintro ⟨hnonempty, hpairwise⟩
    rw [List.forall_mem_append] at hnonempty
    rw [List.pairwise_append] at hpairwise
    exact ⟨⟨hnonempty.1, hpairwise.1⟩, ⟨hnonempty.2, hpairwise.2.1⟩, hpairwise.2.2⟩
  · rintro ⟨h, h', hprecede⟩
    exact ⟨List.forall_mem_append.mpr ⟨h.nonempty, h'.nonempty⟩,
      List.pairwise_append.mpr ⟨h.pairwise, h'.pairwise, hprecede⟩⟩

lemma inOrder_flatMap_iff {α : Type} {as : List α} {f : α → List (Located String)} :
    InOrder (as.flatMap f) ↔
      (∀ a ∈ as, InOrder (f a)) ∧ as.Pairwise fun a b => Precede (f a) (f b) := by
  constructor
  · rintro ⟨hnonempty, hpairwise⟩
    rw [List.pairwise_flatMap] at hpairwise
    exact ⟨fun a ha => ⟨fun w hw => hnonempty w (List.mem_flatMap_of_mem ha hw),
      hpairwise.1 a ha⟩, hpairwise.2⟩
  · rintro ⟨h, hpairwise⟩
    refine ⟨fun w hw => ?_, List.pairwise_flatMap.mpr ⟨fun a ha => (h a ha).pairwise, hpairwise⟩⟩
    obtain ⟨a, ha, hw⟩ := List.mem_flatMap.mp hw
    exact (h a ha).nonempty w hw

/-- Of two elements of a list one comes first. -/
lemma rel_or_rel_of_pairwise {α : Type} {R : α → α → Prop} {as : List α} (h : as.Pairwise R)
    {a b : α} (ha : a ∈ as) (hb : b ∈ as) (hne : a ≠ b) : R a b ∨ R b a := by
  have hsymm : Std.Symm fun x y => R x y ∨ R y x := ⟨fun _ _ => Or.symm⟩
  have heither : as.Pairwise fun x y => R x y ∨ R y x := h.imp .inl
  exact heither.forall ha hb hne

/-! ## Words of a text -/

open Grammar

variable {source : String} {ls : List Lexeme}

/-- The names and keywords among tokens, at their places. -/
def wordsIn (ls : List Lexeme) : List (Located String) :=
  ls.filterMap nameOf

lemma span_of_nameOf {l : Lexeme} {n : Located String} (h : nameOf l = some n) :
    n.span = l.span := by
  obtain ⟨text, -, rfl⟩ := Option.map_eq_some_iff.mp h
  rfl

/-- A word is written as it is called. -/
lemma eq_of_writtenAs {l : Lexeme} {n : Located String} {text : String} (h : nameOf l = some n)
    (htext : l.token.WrittenAs text) : text = n.value := by
  obtain ⟨value, hvalue, rfl⟩ := Option.map_eq_some_iff.mp h
  obtain ⟨token, span⟩ := l
  cases token with
  | name name =>
      cases hvalue
      exact htext.1
  | keyword word =>
      cases hvalue
      exact htext
  | _ => exact nomatch hvalue

/-- Scanning gives the words in the order of the text. -/
lemma Scans.inOrder (h : Scans 0 true source.toList ls) : InOrder (wordsIn ls) := by
  obtain ⟨pieces, -, hcut⟩ := h.exists_cut
  constructor
  · intro n hn
    obtain ⟨l, hl, hname⟩ := List.mem_filterMap.mp hn
    rw [span_of_nameOf hname]
    exact hcut.start_lt_stop l hl
  · refine List.pairwise_filterMap.mpr (hcut.pairwise.2.imp ?_)
    intro l l' hle n hn n' hn'
    rwa [span_of_nameOf hn, span_of_nameOf hn']

/-- Each word stands in the text where its place says. -/
lemma Scans.shows_of_mem (h : Scans 0 true source.toList ls) {n : Located String}
    (hn : n ∈ wordsIn ls) : n.span.Shows source n.value := by
  obtain ⟨texts, -, htexts⟩ := h.tiles.texts
  obtain ⟨l, hl, hname⟩ := List.mem_filterMap.mp hn
  obtain ⟨text, -, hshows, hwritten⟩ := exists_of_forall₂_of_mem htexts.flip hl
  rw [span_of_nameOf hname, ← eq_of_writtenAs hname hwritten]
  exact hshows

/-! ## Words of rows -/

namespace Grammar

/-- The keyword and the names on a line. -/
def Row.words : Row → List (Located String)
  | .description .. => []
  | .level k name parent => ⟨Keyword.abstractionLevel.spelling, k⟩ :: name :: parent.toList
  | .parameter k name _ => [⟨Keyword.parameter.spelling, k⟩, name]
  | .object k name parent => ⟨Keyword.object.spelling, k⟩ :: name :: parent.toList
  | .member name _ => [name]
  | .property typeName name => [typeName, name]

/-- The words of rows, one row after the other. -/
def wordsOf (rows : List Row) : List (Located String) :=
  rows.flatMap Row.words

variable {ts rest words : List Lexeme} {row : Row} {rows : List Row}

lemma wordsIn_cons_of_name {l : Lexeme} {n : Located String} (h : nameOf l = some n) :
    wordsIn (l :: ts) = n :: wordsIn ts :=
  List.filterMap_cons_some h

lemma sublist_wordsIn_extending {parent : Option (Located String)}
    (h : Maybe Extending parent words) : parent.toList.Sublist (wordsIn words) := by
  cases h with
  | none => exact List.nil_sublist _
  | some h =>
      obtain ⟨s, k, s', hname⟩ := h
      show [_].Sublist (⟨Keyword.extends.spelling, k⟩ :: wordsIn [_])
      rw [wordsIn_cons_of_name hname]
      exact List.sublist_cons_self _ _

/-- The keyword and the name of a head, and what its clause names. -/
lemma sublist_wordsIn_head {l : Lexeme} {word : Keyword} {k s : Span} {name : Located String}
    {clause : List Lexeme} {given : List (Located String)} (hname : nameOf l = some name)
    (hgiven : given.Sublist (wordsIn clause)) :
    (⟨word.spelling, k⟩ :: name :: given).Sublist
      (wordsIn (⟨.keyword word, k⟩ :: ⟨.space, s⟩ :: l :: clause)) := by
  refine List.Sublist.cons_cons _ ?_
  show (name :: given).Sublist (wordsIn (l :: clause))
  rw [wordsIn_cons_of_name hname]
  exact hgiven.cons_cons name

/-- The words of a row are among those that spell it, in order. -/
lemma Row.Spelled.words_sublist (h : row.Spelled words) : row.words.Sublist (wordsIn words) := by
  cases h with
  | description depth text => exact List.nil_sublist _
  | level k s hname hclause => exact sublist_wordsIn_head hname (sublist_wordsIn_extending hclause)
  | parameter k s hname hclause => exact sublist_wordsIn_head hname (List.nil_sublist _)
  | object k s hname hclause => exact sublist_wordsIn_head hname (sublist_wordsIn_extending hclause)
  | member hname hclause =>
      rw [wordsIn_cons_of_name hname]
      exact (List.nil_sublist _).cons_cons _
  | property s htype hname =>
      rw [wordsIn_cons_of_name htype]
      refine List.Sublist.cons_cons _ ?_
      show [_].Sublist (wordsIn [_])
      rw [wordsIn_cons_of_name hname]
      exact (List.nil_sublist _).cons_cons _

lemma sublist_of_afterLineEnd? (h : afterLineEnd? ts = some rest) : rest.Sublist ts := by
  obtain ⟨trail, -, ⟨rfl, rfl⟩ | ⟨s, rfl⟩⟩ := exists_trail_of_afterLineEnd? h
  · exact List.nil_sublist _
  · exact (List.sublist_cons_self _ _).trans (List.sublist_append_right _ _)

/-- The words of lines are words of the tokens, in their order. -/
lemma Rows.words_sublist (h : Rows ts rows rest) : (wordsOf rows).Sublist (wordsIn ts) := by
  induction h with
  | refl ts => exact List.nil_sublist _
  | blank h hrows ih =>
      obtain ⟨line, s, -, rfl⟩ := exists_blank_of_afterBlankLine? h
      refine ih.trans (List.Sublist.filterMap nameOf ?_)
      exact (List.sublist_cons_self _ _).trans (List.sublist_append_right _ _)
  | @line row ts mid rest rows h hrows ih =>
      obtain ⟨hwords, hmargin, hend⟩ := h
      simp only [wordsOf, wordsIn, List.flatMap_cons, List.filterMap_append]
      refine List.sublist_append_of_sublist_right (hwords.words_sublist.append (ih.trans ?_))
      exact (sublist_of_afterLineEnd? hend).filterMap nameOf

end Grammar

/-! ## Words of declarations -/

/-- The two names of a property, as they stand. -/
def PropertyDecl.names (p : PropertyDecl) : List (Located String) :=
  [p.typeName, p.name]

namespace LevelItem

/-- The keyword of a declaration. -/
def word : LevelItem → Keyword
  | .parameter _ => .parameter
  | .object _ => .object

/-- What the declared type extends. -/
def parent : LevelItem → Option (Located String)
  | .parameter _ => none
  | .object o => o.parent

/-- The names in the body of a declaration. -/
def inner : LevelItem → List (Located String)
  | .parameter p => p.members.map (·.name)
  | .object o => o.properties.flatMap PropertyDecl.names

/-- The places of what is declared in the body. -/
def parts : LevelItem → List Span
  | .parameter p => p.members.map (·.name.span)
  | .object o => o.properties.map (·.name.span)

/-- All names of a declaration in their order. -/
def names (i : LevelItem) : List (Located String) :=
  i.name :: (i.parent.toList ++ i.inner)

end LevelItem

/-- All names of a level in their order. -/
def LevelDecl.names (l : LevelDecl) : List (Located String) :=
  l.name :: (l.parent.toList ++ l.items.flatMap LevelItem.names)

/-- All names of a document in their order. -/
def Document.names (d : Document) : List (Located String) :=
  d.levels.flatMap LevelDecl.names

namespace Grammar

variable {rows : List Row}

lemma wordsOf_append (rows more : List Row) :
    wordsOf (rows ++ more) = wordsOf rows ++ wordsOf more :=
  List.flatMap_append

/-- A description has no words of the grammar. -/
lemma wordsOf_described (depth : Nat) (o : Option Description) (row : Row) (rows : List Row) :
    wordsOf (descriptionRows depth o ++ row :: rows) = row.words ++ wordsOf rows := by
  cases o <;> rfl

section Listed

variable {α : Type} {Says : α → List Row → Prop} {as : List α} {f : α → List (Located String)}

/-- The words of what is listed are those of its elements, in order. -/
lemma Listed.wordsOf_eq (h : Listed Says as rows)
    (hsaid : ∀ a rows, Says a rows → wordsOf rows = f a) : wordsOf rows = as.flatMap f := by
  induction h with
  | nil => rfl
  | cons h hmore ih => rw [wordsOf_append, hsaid _ _ h, ih, List.flatMap_cons]

lemma Listed.sublist_wordsOf (h : Listed Says as rows)
    (hsaid : ∀ a rows, Says a rows → (f a).Sublist (wordsOf rows)) :
    (as.flatMap f).Sublist (wordsOf rows) := by
  induction h with
  | nil => exact List.nil_sublist _
  | cons h hmore ih =>
      rw [wordsOf_append, List.flatMap_cons]
      exact (hsaid _ _ h).append ih

end Listed

lemma wordsOf_member {m : MemberDecl} (h : SaysMember m rows) : wordsOf rows = [m.name] := by
  rw [h, wordsOf_described]
  rfl

lemma wordsOf_property {p : PropertyDecl} (h : SaysProperty p rows) : wordsOf rows = p.names := by
  rw [h, wordsOf_described]
  rfl

/-- The words of a declaration are its keyword and its names. -/
lemma exists_wordsOf_item {i : LevelItem} (h : SaysItem i rows) :
    ∃ k, wordsOf rows = ⟨i.word.spelling, k⟩ :: i.names ∧
      i.span = coverAll (k.union i.name.span) i.parts := by
  cases i with
  | parameter p =>
      obtain ⟨description, k, name, mark, hmembers⟩ := h
      refine ⟨k, ?_, rfl⟩
      rw [wordsOf_described, hmembers.wordsOf_eq fun _ _ => wordsOf_member, ← List.map_eq_flatMap]
      rfl
  | object o =>
      obtain ⟨description, k, name, parent, hproperties⟩ := h
      refine ⟨k, ?_, rfl⟩
      rw [wordsOf_described, hproperties.wordsOf_eq fun _ _ => wordsOf_property]
      rfl

/-- The words of a level are its keyword, the names of its head, and the words of its items. -/
lemma exists_wordsOf_level {l : LevelDecl} (h : SaysLevel l rows) :
    ∃ k inner, Listed SaysItem l.items inner ∧
      wordsOf rows = ⟨Keyword.abstractionLevel.spelling, k⟩ :: l.name ::
        (l.parent.toList ++ wordsOf inner) ∧
      l.span = coverAll (k.union l.name.span) (l.items.map LevelItem.span) := by
  obtain ⟨description, k, name, parent, hitems⟩ := h
  refine ⟨k, _, hitems, ?_, rfl⟩
  rw [wordsOf_described]
  rfl

/-- The names of a level are among the words of its rows, in order. -/
lemma sublist_wordsOf_level {l : LevelDecl} (h : SaysLevel l rows) :
    l.names.Sublist (wordsOf rows) := by
  obtain ⟨k, inner, hitems, hwords, -⟩ := exists_wordsOf_level h
  rw [hwords]
  refine List.Sublist.cons _ (List.Sublist.cons_cons _ ((List.Sublist.refl _).append ?_))
  refine hitems.sublist_wordsOf fun i rows hi => ?_
  obtain ⟨k, hwords, -⟩ := exists_wordsOf_item hi
  rw [hwords]
  exact List.sublist_cons_self _ _

/-- The names of a document are among the words of its rows, in order. -/
lemma sublist_wordsOf_document {d : Document} (h : SaysDocument d rows) :
    d.names.Sublist (wordsOf rows) :=
  h.sublist_wordsOf fun _ _ => sublist_wordsOf_level

end Grammar

/-- **A document is said in words of the text.** -/
lemma Document.exists_rows {d : Document} (hscan : scan source = .ok ls)
    (hread : Document.ofLexemes ls = .ok d) :
    ∃ rows, SaysDocument d rows ∧ InOrder (wordsOf rows) ∧
      ∀ w ∈ wordsOf rows, w.span.Shows source w.value := by
  obtain ⟨rows, last, hrows, -, hsaid, -⟩ :=
    document_sound (Document.ofLexemes_eq_ok_iff.mp hread)
  have hscans := scan_eq_ok_iff.mp hscan
  exact ⟨rows, hsaid, hscans.inOrder.sublist hrows.words_sublist,
    fun w hw => hscans.shows_of_mem (hrows.words_sublist.subset hw)⟩

end LevelSchema
