import LevelSchema.Proofs.Document.Parts
import LevelSchema.Token.Scan

/-!
# Names in a document are identifiers

Whatever stands in a document as a name was read as a word, so it is an identifier: this is what the
generated code later relies on, and nothing after the lexer checks it again.

**Tokens.**  A word token is made of the characters it took from the text, whether it became a
keyword or a name; so the name that a token stands for is an identifier (`scan_named`).

**Declarations.**  The grammar passes on the names that its tokens stand for, so what holds of all
these names holds of every name of the document (`Grammar.everyName_of_document`).
-/

namespace LevelSchema

/-! ## Words -/

/-- Where a token stands for a name, the name has `p`. -/
def Lexeme.Named (p : String → Prop) (l : Lexeme) : Prop :=
  ∀ n, l.token.asName? = some n → p n

lemma Keyword.spelling_of_ofSpelling? {word : String} {k : Keyword}
    (h : Keyword.ofSpelling? word = some k) : k.spelling = word := by
  simpa using List.find?_some h

/-- A word stands for the name it is written as, keyword or not. -/
lemma asName?_wordToken (word : String) : (wordToken word).asName? = some word := by
  unfold wordToken
  split
  · next k hk => rw [Token.asName?, Keyword.spelling_of_ofSpelling? hk]
  · rfl

/-- A word that starts like a name is an identifier. -/
lemma readWord_isIdentifier {c : Char} {cs : List Char} (hc : Name.isStart c = true) :
    Name.isIdentifier (String.ofList (c :: cs.takeWhile Name.isPart)) = true := by
  simp only [Name.isIdentifier, String.toList_ofList, Name.isIdentifierChars, hc, Bool.true_and]
  exact List.all_takeWhile

lemma asName?_of_readString {cs taken rest : List Char} {t : Token}
    (h : readString cs = .token t taken rest) : t.asName? = none := by
  unfold readString at h
  simp only at h
  split at h
  · cases h
    rfl
  · exact nomatch h
  · exact nomatch h

lemma asName?_of_readInteger {c : Char} {cs taken rest : List Char} {t : Token}
    (h : readInteger c cs = .token t taken rest) : t.asName? = none := by
  unfold readInteger at h
  split_ifs at h
  cases h
  rfl

lemma asName?_of_readSpace {c : Char} {cs taken rest : List Char} {t : Token}
    (h : readSpace c cs = .token t taken rest) : t.asName? = none := by
  unfold readSpace at h
  split_ifs at h
  cases h
  rfl

/-- Of all tokens only words stand for names. -/
lemma isIdentifier_of_readToken {cs taken rest : List Char} {t : Token} {n : String}
    (h : readToken cs = .token t taken rest) (hn : t.asName? = some n) :
    Name.isIdentifier n = true := by
  revert h
  fun_cases readToken cs with
  | case1 => rintro ⟨⟩
  | case3 cs =>
      intro h
      rw [asName?_of_readString h] at hn
      cases hn
  | case9 c cs _ _ _ _ _ _ _ hstart =>
      intro h
      rw [readWord, Reading.token.injEq] at h
      obtain ⟨rfl, -, -⟩ := h
      rw [asName?_wordToken] at hn
      cases hn
      exact readWord_isIdentifier hstart
  | case10 c cs =>
      intro h
      rw [asName?_of_readInteger h] at hn
      cases hn
  | case11 c cs =>
      intro h
      rw [asName?_of_readSpace h] at hn
      cases hn
  | _ =>
      intro h
      cases h
      cases hn

/-- Every name among the tokens is an identifier, wherever scanning starts. -/
lemma scanFrom_named (pos : Nat) (lineStart : Bool) (cs : List Char) :
    ∀ l ∈ (scanFrom pos lineStart cs).value, l.Named (Name.isIdentifier · = true) := by
  fun_induction scanFrom pos lineStart cs with
  | case1 => simp
  | case2 pos lineStart c cs hindent taken next ih =>
      intro l hl
      rcases List.mem_cons.mp hl with rfl | hl
      · intro n hn
        exact nomatch hn
      · exact ih l hl
  | case3 pos lineStart c cs hindent t taken rest hread next ih =>
      intro l hl
      rcases List.mem_cons.mp hl with rfl | hl
      · intro n hn
        exact isIdentifier_of_readToken hread hn
      · exact ih l hl
  | case4 pos lineStart c cs hindent f taken rest hread noticed ih => exact ih

/-- Every name among the tokens of a source is an identifier. -/
lemma scan_named {source : String} {lexemes : List Lexeme} (h : scan source = .ok lexemes) :
    ∀ l ∈ lexemes, l.Named (Name.isIdentifier · = true) := by
  unfold scan at h
  simp only at h
  split_ifs at h
  cases h
  exact scanFrom_named 0 true source.toList

/-! ## Every name of a declaration -/

section EveryName

variable (p : String → Prop)

/-- Every name that stands in a parameter declaration has `p`. -/
def ParameterDecl.EveryName (d : ParameterDecl) : Prop :=
  p d.name.value ∧ ∀ m ∈ d.members, p m.name.value

/-- Every name that stands in an object declaration has `p`. -/
def ObjectDecl.EveryName (d : ObjectDecl) : Prop :=
  p d.name.value ∧ (∀ parent ∈ d.parent, p parent.value) ∧
    ∀ q ∈ d.properties, p q.typeName.value ∧ p q.name.value

/-- Every name that stands in a declaration inside a level has `p`. -/
def LevelItem.EveryName : LevelItem → Prop
  | .parameter d => d.EveryName p
  | .object d => d.EveryName p

/-- Every name that stands in a level has `p`. -/
def LevelDecl.EveryName (d : LevelDecl) : Prop :=
  p d.name.value ∧ (∀ parent ∈ d.parent, p parent.value) ∧ ∀ i ∈ d.items, i.EveryName p

/-- Every name that stands in a document has `p`. -/
def Document.EveryName (d : Document) : Prop :=
  ∀ l ∈ d.levels, l.EveryName p

end EveryName

/-- Names are asked to have `p`, and the other parts nothing. -/
def Parts.named (p : String → Prop) : Parts where
  name n := p n.value
  text _ := True
  value _ := True

lemma LevelItem.everyName_of_every {p : String → Prop} {i : LevelItem}
    (h : i.Every (.named p)) : i.EveryName p := by
  cases i with
  | parameter d => exact ⟨h.name, fun m hm => (h.members m hm).name⟩
  | object d =>
      exact ⟨h.name, h.parent, fun r hr => ⟨(h.properties r hr).typeName, (h.properties r hr).name⟩⟩

/-- A document has no names but those of its tokens. -/
lemma Grammar.everyName_of_document {p : String → Prop} {ts : List Lexeme} {d : Document}
    (hts : ∀ t ∈ ts, t.Named p) (h : document ts = .ok d) : d.EveryName p := by
  have hnamed : (Parts.named p).GivenBy (Lexeme.Named p) := by
    refine ⟨fun t n ht hn => ?_, fun _ _ _ _ => trivial, fun _ _ _ _ => trivial⟩
    obtain ⟨text, htext, rfl⟩ := Option.map_eq_some_iff.mp hn
    exact ht text htext
  intro l hl
  have hlevel := (document_confines hnamed hts).1 d h l hl
  exact ⟨hlevel.name, hlevel.parent, fun i hi =>
    LevelItem.everyName_of_every (hlevel.items i hi)⟩

/-- **Every name in a document that was read from a text is an identifier.** -/
theorem Document.everyName_isIdentifier {source : String} {lexemes : List Lexeme} {d : Document}
    (hscan : scan source = .ok lexemes) (hread : Document.ofLexemes lexemes = .ok d) :
    d.EveryName (Name.isIdentifier · = true) := by
  unfold Document.ofLexemes at hread
  split at hread
  · next hdocument =>
      cases hread
      exact Grammar.everyName_of_document (scan_named hscan) hdocument
  · exact nomatch hread

end LevelSchema
