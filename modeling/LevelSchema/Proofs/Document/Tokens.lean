import LevelSchema.Proofs.Document.Lines
import LevelSchema.Proofs.Document.Places

/-!
# Only the tokens of a line count

Lexemes carry the places they were read at.  What a line says does not depend on them: lines with
the same tokens say the same up to places (`exists_linesSay`), and the documents that rows make up
agree up to places where the rows do (`exists_saysDocument`).

`Conveys ls ls'` puts together what a change of a text has to keep for its document to be read
again.  It speaks of whole texts, and it does not ask that the lines of the two texts correspond.
-/

namespace LevelSchema

namespace Grammar

variable {ls ls' line line' words words' : List Lexeme} {l l' : Lexeme} {t : Token}
  {ts : List Token} {row : Row} {rows rows' : List Row} {o : Option Row}

/-! ## Words -/

/-- Lexemes with a given first token, at some place. -/
lemma map_token_eq_cons_iff :
    words.map (·.token) = t :: ts ↔ ∃ s ws, words = ⟨t, s⟩ :: ws ∧ ws.map (·.token) = ts := by
  rw [List.map_eq_cons_iff]
  constructor
  · rintro ⟨⟨_, s⟩, ws, rfl, rfl, htokens⟩
    exact ⟨s, ws, rfl, htokens⟩
  · rintro ⟨s, ws, rfl, htokens⟩
    exact ⟨⟨t, s⟩, ws, rfl, rfl, htokens⟩

/-- Lexemes whose tokens come in two parts come in two parts. -/
lemma map_token_eq_append_iff {us : List Token} :
    words.map (·.token) = ts ++ us ↔
      ∃ ws ws', words = ws ++ ws' ∧ ws.map (·.token) = ts ∧ ws'.map (·.token) = us :=
  List.map_eq_append_iff

/-- What name a token gives does not depend on where it stands. -/
lemma nameOf_at {name : Located String} (h : nameOf l = some name) (s : Span) :
    nameOf ⟨l.token, s⟩ = some ⟨name.value, s⟩ := by
  obtain ⟨text, htext, rfl⟩ := Option.map_eq_some_iff.mp h
  simp [nameOf, htext]

/-- Whether tokens make a gap does not depend on where they stand. -/
lemma Gap.of_tokens (h : Gap words) (ht : words'.map (·.token) = words.map (·.token)) :
    Gap words' := by
  cases h with
  | none =>
      obtain rfl := List.map_eq_nil_iff.mp ht
      exact .none
  | space s =>
      simp only [List.map_cons, List.map_nil, map_token_eq_cons_iff, List.map_eq_nil_iff] at ht
      obtain ⟨s', _, rfl, rfl⟩ := ht
      exact .space s'

lemma Margin.of_tokens {depth : Nat} (h : Margin depth words)
    (ht : words'.map (·.token) = words.map (·.token)) : Margin depth words' := by
  cases h with
  | none =>
      obtain rfl := List.map_eq_nil_iff.mp ht
      exact .none
  | indent depth s =>
      simp only [List.map_cons, List.map_nil, map_token_eq_cons_iff, List.map_eq_nil_iff] at ht
      obtain ⟨s', _, rfl, rfl⟩ := ht
      exact .indent depth s'

lemma Trail.of_tokens (h : Trail words) (ht : words'.map (·.token) = words.map (·.token)) :
    Trail words' := by
  cases h with
  | none =>
      obtain rfl := List.map_eq_nil_iff.mp ht
      exact .none
  | space s =>
      simp only [List.map_cons, List.map_nil, map_token_eq_cons_iff, List.map_eq_nil_iff] at ht
      obtain ⟨s', _, rfl, rfl⟩ := ht
      exact .space s'
  | comment text s =>
      simp only [List.map_cons, List.map_nil, map_token_eq_cons_iff, List.map_eq_nil_iff] at ht
      obtain ⟨s', _, rfl, rfl⟩ := ht
      exact .comment text s'
  | both s text s' =>
      simp only [List.map_cons, List.map_nil, map_token_eq_cons_iff, List.map_eq_nil_iff] at ht
      obtain ⟨u, _, rfl, u', _, rfl, rfl⟩ := ht
      exact .both u text u'

/-- Whether a line is blank does not depend on where its tokens stand. -/
lemma Blank.of_tokens (h : Blank line) (ht : line'.map (·.token) = line.map (·.token)) :
    Blank line' := by
  rw [blank_iff] at h ⊢
  rcases h with htrail | ⟨width, s, us, rfl, htrail⟩
  · exact .inl (htrail.of_tokens ht)
  · obtain ⟨s', us', rfl, hus⟩ := map_token_eq_cons_iff.mp ht
    exact .inr ⟨width, s', us', rfl, htrail.of_tokens hus⟩

/-! ## Clauses -/

/-- Words with the tokens of a clause are such a clause, the same up to places. -/
lemma exists_maybe {α : Type} {Words : α → List Lexeme → Prop} {unplaced : α → α} {given : Option α}
    (hWords : ∀ a words words', Words a words → words'.map (·.token) = words.map (·.token) →
      ∃ a', Words a' words' ∧ unplaced a' = unplaced a)
    (h : Maybe Words given words) (ht : words'.map (·.token) = words.map (·.token)) :
    ∃ given', Maybe Words given' words' ∧ given'.map unplaced = given.map unplaced := by
  cases h with
  | none =>
      obtain rfl := List.map_eq_nil_iff.mp ht
      exact ⟨none, .none, rfl⟩
  | some h =>
      obtain ⟨a', ha', heq⟩ := hWords _ _ _ h ht
      exact ⟨some a', .some ha', congrArg some heq⟩

/-- The same tokens elsewhere spell the same `extends` clause, up to places. -/
lemma exists_extending_of_tokens {parent : Located String} (h : Extending parent words)
    (ht : words'.map (·.token) = words.map (·.token)) :
    ∃ parent', Extending parent' words' ∧ parent'.unplaced = parent.unplaced := by
  obtain ⟨s, k, s', hname⟩ := h
  simp only [List.map_cons, List.map_nil, map_token_eq_cons_iff, List.map_eq_nil_iff] at ht
  obtain ⟨s, _, rfl, k, _, rfl, s', _, rfl, place, _, rfl, rfl⟩ := ht
  exact ⟨⟨parent.value, place⟩, .mk s k s' (nameOf_at hname place), rfl⟩

lemma exists_marking_of_tokens {u : Unit} (h : Marking u words)
    (ht : words'.map (·.token) = words.map (·.token)) :
    ∃ u', Marking u' words' ∧ id u' = id u := by
  obtain ⟨b, m, b', hg, hg', hg''⟩ := h
  simp only [List.map_append, List.map_cons, List.map_nil, map_token_eq_append_iff,
    map_token_eq_cons_iff, List.map_eq_nil_iff] at ht
  obtain ⟨g, _, rfl, ht, b, _, rfl, g', _, rfl, ht', m, _, rfl, g'', _, rfl, ht'', b', _, rfl,
    rfl⟩ := ht
  exact ⟨u, .mk b m b' (hg.of_tokens ht) (hg'.of_tokens ht') (hg''.of_tokens ht''), rfl⟩

lemma exists_valuing_of_tokens {value : Located UInt64} (h : Valuing value words)
    (ht : words'.map (·.token) = words.map (·.token)) :
    ∃ value', Valuing value' words' ∧ value'.unplaced = value.unplaced := by
  obtain ⟨e, hg, hg'⟩ := h
  simp only [List.map_append, List.map_cons, List.map_nil, map_token_eq_append_iff,
    map_token_eq_cons_iff, List.map_eq_nil_iff] at ht
  obtain ⟨g, _, rfl, ht, e, _, rfl, g', _, rfl, ht', place, _, rfl, rfl⟩ := ht
  exact ⟨⟨value.value, place⟩, .mk e (hg.of_tokens ht) (hg'.of_tokens ht'), rfl⟩

/-! ## Lines -/

/-- The depth of a row is no matter of places. -/
lemma Row.depth_unplaced (row : Row) : row.unplaced.depth = row.depth := by
  cases row <;> rfl

/-- Words with the tokens of a row spell that row, at other places. -/
lemma Row.Spelled.exists_of_tokens (h : row.Spelled words)
    (ht : words'.map (·.token) = words.map (·.token)) :
    ∃ row' : Row, row'.Spelled words' ∧ row'.unplaced = row.unplaced := by
  cases h with
  | description depth text =>
      simp only [List.map_cons, List.map_nil, map_token_eq_cons_iff, List.map_eq_nil_iff] at ht
      obtain ⟨s, _, rfl, rfl⟩ := ht
      exact ⟨_, .description depth ⟨text.value, s⟩, rfl⟩
  | @level name parent l clause k s hname hclause =>
      simp only [List.map_cons, map_token_eq_cons_iff] at ht
      obtain ⟨k, _, rfl, s, _, rfl, place, _, rfl, ht⟩ := ht
      obtain ⟨parent', hwords, hparent⟩ :=
        exists_maybe (fun _ _ _ => exists_extending_of_tokens) hclause ht
      exact ⟨_, .level k s (nameOf_at hname place) hwords,
        congrArg (Row.level .atStart name.unplaced) hparent⟩
  | @parameter name mark l clause k s hname hclause =>
      simp only [List.map_cons, map_token_eq_cons_iff] at ht
      obtain ⟨k, _, rfl, s, _, rfl, place, _, rfl, ht⟩ := ht
      obtain ⟨mark', hwords, hmark⟩ :=
        exists_maybe (fun _ _ _ => exists_marking_of_tokens) hclause ht
      obtain rfl : mark' = mark := by simpa using hmark
      exact ⟨_, .parameter k s (nameOf_at hname place) hwords, rfl⟩
  | @object name parent l clause k s hname hclause =>
      simp only [List.map_cons, map_token_eq_cons_iff] at ht
      obtain ⟨k, _, rfl, s, _, rfl, place, _, rfl, ht⟩ := ht
      obtain ⟨parent', hwords, hparent⟩ :=
        exists_maybe (fun _ _ _ => exists_extending_of_tokens) hclause ht
      exact ⟨_, .object k s (nameOf_at hname place) hwords,
        congrArg (Row.object .atStart name.unplaced) hparent⟩
  | @member name value l clause hname hclause =>
      simp only [List.map_cons, map_token_eq_cons_iff] at ht
      obtain ⟨place, _, rfl, ht⟩ := ht
      obtain ⟨value', hwords, hvalue⟩ :=
        exists_maybe (fun _ _ _ => exists_valuing_of_tokens) hclause ht
      exact ⟨_, .member (nameOf_at hname place) hwords,
        congrArg (Row.member name.unplaced) hvalue⟩
  | property s htype hname =>
      simp only [List.map_cons, List.map_nil, map_token_eq_cons_iff, List.map_eq_nil_iff] at ht
      obtain ⟨place, _, rfl, s, _, rfl, place', _, rfl, rfl⟩ := ht
      exact ⟨_, .property s (nameOf_at htype place) (nameOf_at hname place'), rfl⟩

/-- The same tokens elsewhere say the same line, up to places. -/
lemma LineSays.exists_of_tokens (h : LineSays line o)
    (ht : line'.map (·.token) = line.map (·.token)) :
    ∃ o', LineSays line' o' ∧ o'.map Row.unplaced = o.map Row.unplaced := by
  cases h with
  | blank h => exact ⟨none, .blank (h.of_tokens ht), rfl⟩
  | @row row margin words trail hwords hmargin htrail =>
      simp only [List.map_append, map_token_eq_append_iff] at ht
      obtain ⟨margin, _, rfl, hmargin', words, trail, rfl, hwords', htrail'⟩ := ht
      obtain ⟨row', hspelled, hrow⟩ := hwords.exists_of_tokens hwords'
      rw [← row.depth_unplaced, ← hrow, row'.depth_unplaced] at hmargin
      exact ⟨some row', .row hspelled (hmargin.of_tokens hmargin') (htrail.of_tokens htrail'),
        congrArg some hrow⟩

/-- Splitting into lines looks at tokens only. -/
lemma map_lines (ls : List Lexeme) :
    (lines ls).map (List.map (·.token)) = (ls.map (·.token)).splitOnP (· == .newline) := by
  induction ls with
  | nil => rfl
  | cons l ls ih =>
      rw [lines, List.map_cons, List.splitOnP_cons_eq_if_modifyHead,
        List.splitOnP_cons_eq_if_modifyHead, ← ih, lines]
      by_cases hl : l.isNewline = true
      · rw [if_pos hl, if_pos (show (l.token == .newline) = true from hl)]
        rfl
      · rw [if_neg hl, if_neg (show ¬ (l.token == .newline) = true from hl)]
        cases List.splitOnP Lexeme.isNewline ls <;> rfl

lemma map_lines_of_tokens (ht : ls'.map (·.token) = ls.map (·.token)) :
    (lines ls').map (List.map (·.token)) = (lines ls).map (List.map (·.token)) := by
  rw [map_lines, map_lines, ht]

/-- The tokens behind the last line break are those of the last line. -/
lemma map_behindLast (ls : List Lexeme) : (behindLast Lexeme.isNewline ls).map (·.token) =
    ((lines ls).map (List.map (·.token))).getLastD [] := by
  rw [behindLast, List.getLastD_eq_getLast?, List.getLastD_eq_getLast?, List.getLast?_map, lines]
  cases (List.splitOnP Lexeme.isNewline ls).getLast? <;> rfl

/-- **Lines with the same tokens say the same**, up to places. -/
lemma LinesSay.exists_of_tokens {lss lss' : List (List Lexeme)} (h : LinesSay lss rows)
    (ht : lss'.map (List.map (·.token)) = lss.map (List.map (·.token))) :
    ∃ rows', LinesSay lss' rows' ∧ rows'.map Row.unplaced = rows.map Row.unplaced := by
  induction h generalizing lss' with
  | nil =>
      obtain rfl := List.map_eq_nil_iff.mp ht
      exact ⟨[], .nil, rfl⟩
  | cons hline hmore ih =>
      obtain ⟨line', more', rfl, hline', hmore'⟩ := List.map_eq_cons_iff.mp ht
      obtain ⟨o', hsaid, ho⟩ := hline.exists_of_tokens hline'
      obtain ⟨rows', hsay, hrows⟩ := ih hmore'
      refine ⟨_, .cons hsaid hsay, ?_⟩
      rw [List.map_append, List.map_append, hrows, ← Option.toList_map, ← Option.toList_map, ho]

/-- Whether the last line is blank and deep is a matter of tokens. -/
lemma EndsDeep.of_tokens (h : EndsDeep ls) (ht : ls'.map (·.token) = ls.map (·.token)) :
    EndsDeep ls' := by
  have hlast : (behindLast Lexeme.isNewline ls').map (·.token) =
      (behindLast Lexeme.isNewline ls).map (·.token) := by
    rw [map_behindLast, map_behindLast, map_lines_of_tokens ht]
  obtain ⟨hblank, s, us, hdeep⟩ := h
  refine ⟨hblank.of_tokens hlast, ?_⟩
  rw [hdeep, List.map_cons, map_token_eq_cons_iff] at hlast
  obtain ⟨s', us', hus', -⟩ := hlast
  exact ⟨s', us', hus'⟩

/-! ## Rows -/

/-- The rows that something says are its rows, up to places. -/
def Spells {α : Type} (Says : α → List Row → Prop) (rowsOf : α → List Row) : Prop :=
  ∀ a rows, Says a rows → rows.map Row.unplaced = (rowsOf a).map Row.unplaced

/-- What holds for one declaration holds for a list of them. -/
lemma spells_list {α : Type} {Says : α → List Row → Prop} {rowsOf : α → List Row}
    (h : Spells Says rowsOf) : Spells (Listed Says) (List.flatMap rowsOf) := by
  intro as rows hlisted
  induction hlisted with
  | nil => rfl
  | cons hsaid hmore ih => rw [List.flatMap_cons, List.map_append, List.map_append, ih, h _ _ hsaid]

lemma spells_member : Spells SaysMember MemberDecl.rows := by
  rintro m _ rfl
  rfl

lemma spells_property : Spells SaysProperty PropertyDecl.rows := by
  rintro p _ rfl
  rfl

lemma spells_parameter : Spells (parameterForm.Says SaysMember) ParameterDecl.rows := by
  rintro _ _ ⟨o, k, name, mark, hparts⟩
  have hmore := spells_list spells_member _ _ hparts
  simp only [ParameterDecl.rows, List.map_append, List.map_cons, parameterForm, hmore]
  rfl

lemma spells_object : Spells (objectForm.Says SaysProperty) ObjectDecl.rows := by
  rintro _ _ ⟨o, k, name, parent, hparts⟩
  have hmore := spells_list spells_property _ _ hparts
  simp only [ObjectDecl.rows, List.map_append, List.map_cons, objectForm, hmore]
  rfl

lemma spells_item : Spells SaysItem LevelItem.rows := by
  rintro (p | o) rows h
  · exact spells_parameter p rows h
  · exact spells_object o rows h

/-- A level is spelled by its rows, by the statements for each of its parts. -/
lemma spells_level : Spells SaysLevel LevelDecl.rows := by
  rintro _ _ ⟨o, k, name, parent, hparts⟩
  have hmore := spells_list spells_item _ _ hparts
  simp only [LevelDecl.rows, List.map_append, List.map_cons, levelForm, hmore]
  rfl

/-- **Rows that agree up to places make up documents that do.** -/
lemma exists_saysDocument {d : Document} (h : SaysDocument d rows)
    (hrows : rows'.map Row.unplaced = rows.map Row.unplaced) :
    ∃ d', SaysDocument d' rows' ∧ d'.unplaced = d.unplaced :=
  recovers_document d rows' (hrows.trans (spells_list spells_level _ _ h))

/-! ## Texts -/

/-- All that `ls` says up to places is said by `ls'`, and nothing new gets in the way at the end. -/
structure Conveys (ls ls' : List Lexeme) : Prop where
  exists_rows : ∀ rows, LinesSay (lines ls) rows →
    ∃ rows', LinesSay (lines ls') rows' ∧ rows'.map Row.unplaced = rows.map Row.unplaced
  endsDeep : EndsDeep ls' → EndsDeep ls

/-- **The same tokens elsewhere convey the same document**, up to places. -/
lemma conveys_of_tokens (ht : ls'.map (·.token) = ls.map (·.token)) : Conveys ls ls' where
  exists_rows _ h := h.exists_of_tokens (map_lines_of_tokens ht)
  endsDeep h := h.of_tokens ht.symm

end Grammar

end LevelSchema
