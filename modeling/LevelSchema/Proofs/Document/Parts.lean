import Mathlib.Tactic.SplitIfs
import LevelSchema.Document.Grammar

/-!
# What the grammar makes of its tokens

The grammar only passes on what its tokens say.  Names, values and descriptions are those of single
tokens, and a failure remembers only tokens that were given.

**Rules.**  `Rule.Confines Q r P` says that `r`, on tokens with `Q`, gives a result with `P`, and
that it leaves, and remembers in a failure, only tokens with `Q`.  There is one lemma for each way
of building a rule.

**Parts.**  A `Parts` asks something of the names, descriptions and values of a declaration.  The
grammar is gone through once, declaration by declaration, for parts of any kind: if tokens with `Q`
give such parts, then a document read from such tokens has no others (`Grammar.document_confines`).
-/

namespace LevelSchema

/-! ## Parts of a declaration -/

/-- Something that is asked of names, of descriptions and of values. -/
structure Parts where
  name : Located String → Prop
  text : Located String → Prop
  value : Located UInt64 → Prop

section Every

variable (q : Parts)

/-- Every part of a member is as `q` asks. -/
structure MemberDecl.Every (m : MemberDecl) : Prop where
  description : ∀ t ∈ m.description, q.text t
  name : q.name m.name
  value : ∀ v ∈ m.value, q.value v

/-- Every part of a parameter declaration is as `q` asks. -/
structure ParameterDecl.Every (d : ParameterDecl) : Prop where
  description : ∀ t ∈ d.description, q.text t
  name : q.name d.name
  members : ∀ m ∈ d.members, m.Every q

/-- Every part of a property is as `q` asks. -/
structure PropertyDecl.Every (d : PropertyDecl) : Prop where
  description : ∀ t ∈ d.description, q.text t
  typeName : q.name d.typeName
  name : q.name d.name

/-- Every part of an object declaration is as `q` asks. -/
structure ObjectDecl.Every (d : ObjectDecl) : Prop where
  description : ∀ t ∈ d.description, q.text t
  name : q.name d.name
  parent : ∀ n ∈ d.parent, q.name n
  properties : ∀ r ∈ d.properties, r.Every q

/-- Every part of a declaration inside a level is as `q` asks. -/
def LevelItem.Every : LevelItem → Prop
  | .parameter d => d.Every q
  | .object d => d.Every q

/-- Every part of a level is as `q` asks. -/
structure LevelDecl.Every (d : LevelDecl) : Prop where
  description : ∀ t ∈ d.description, q.text t
  name : q.name d.name
  parent : ∀ n ∈ d.parent, q.name n
  items : ∀ i ∈ d.items, i.Every q

/-- Every part of a document is as `q` asks. -/
def Document.Every (d : Document) : Prop :=
  ∀ l ∈ d.levels, l.Every q

end Every

/-! ## Rules -/

/-- All tokens that a failure remembers have `Q`. -/
structure GrammarFailure.Among (Q : Lexeme → Prop) (e : GrammarFailure) : Prop where
  start : ∀ t ∈ e.start, Q t
  rest : ∀ t ∈ e.rest, Q t

namespace Rule

variable {α β : Type} {Q : Lexeme → Prop} {P : α → Prop} {R : β → Prop}

/-- On tokens with `Q`, whatever `r` matches has `P`, and the tokens that are left or remembered
still have `Q`. -/
structure Confines (Q : Lexeme → Prop) (r : Rule α) (P : α → Prop) : Prop where
  matched : ∀ ts a rest, (∀ t ∈ ts, Q t) → r ts = .matched a rest → P a ∧ ∀ t ∈ rest, Q t
  failed : ∀ ts e, (∀ t ∈ ts, Q t) → r ts = .failed e → e.Among Q

/-- A rule that always matches and leaves some of the tokens. -/
lemma confines_of_subset {a : List Lexeme → α} {f : List Lexeme → List Lexeme}
    (hf : ∀ ts, ∀ t ∈ f ts, t ∈ ts) :
    Confines Q (fun ts => .matched (a ts) (f ts)) fun _ => True := by
  refine ⟨fun ts b rest hts h => ?_, nofun⟩
  cases h
  exact ⟨trivial, fun t ht => hts t (hf ts t ht)⟩

lemma confines_pure {a : α} (ha : P a) : Confines Q (pure a) P := by
  refine ⟨fun ts b rest hts h => ?_, nofun⟩
  cases h
  exact ⟨ha, hts⟩

/-- What a sequence of rules makes of tokens is made of them if each step is. -/
lemma confines_bind {r : Rule α} {f : α → Rule β} (hr : Confines Q r P)
    (hf : ∀ a, P a → Confines Q (f a) R) : Confines Q (r >>= f) R := by
  constructor
  · intro ts b rest hts h
    simp only [bind] at h
    split at h
    · next a mid hmid =>
        obtain ⟨ha, hmid⟩ := hr.matched ts a mid hts hmid
        exact (hf a ha).matched mid b rest hmid h
    · cases h
    · cases h
  · intro ts e hts h
    simp only [bind] at h
    split at h
    · next a mid hmid =>
        obtain ⟨ha, hmid⟩ := hr.matched ts a mid hts hmid
        exact (hf a ha).failed mid e hmid h
    · cases h
    · next hfailed =>
        cases h
        exact hr.failed ts e hts hfailed

/-- A rule that looks ahead sees only tokens that are there. -/
lemma confines_here : Confines Q here fun ts => ∀ t ∈ ts, Q t := by
  refine ⟨fun ts a rest hts h => ?_, nofun⟩
  cases h
  exact ⟨hts, hts⟩

/-- What is accepted is made from one token. -/
lemma confines_accept {f : Lexeme → Option α} (hf : ∀ t a, Q t → f t = some a → P a) :
    Confines Q (accept f) P := by
  constructor
  · rintro (_ | ⟨t, ts⟩) a rest hts h
    · exact nomatch h
    · rw [accept] at h
      split at h
      · next b hb =>
          cases h
          exact ⟨hf t a (hts t List.mem_cons_self) hb,
            fun u hu => hts u (List.mem_cons_of_mem t hu)⟩
      · exact nomatch h
  · rintro (_ | ⟨t, ts⟩) e hts h
    · exact nomatch h
    · rw [accept] at h
      split at h <;> exact nomatch h

lemma confines_require {start : List Lexeme} {expected : Expectation} {f : Lexeme → Option α}
    (hstart : ∀ t ∈ start, Q t) (hf : ∀ t a, Q t → f t = some a → P a) :
    Confines Q (require start expected f) P := by
  constructor
  · intro ts a rest hts h
    rw [require] at h
    split at h
    · exact nomatch h
    · exact (confines_accept hf).matched ts a rest hts h
  · intro ts e hts h
    rw [require] at h
    split at h
    · cases h
      exact ⟨hstart, hts⟩
    · exact (confines_accept hf).failed ts e hts h

/-- An optional part is made of the tokens of its rule. -/
lemma confines_optional {r : Rule α} (hr : Confines Q r P) :
    Confines Q (optional r) fun o => ∀ a ∈ o, P a := by
  constructor
  · intro ts o rest hts h
    rw [optional] at h
    split at h
    · next a mid hmid =>
        cases h
        obtain ⟨ha, hrest⟩ := hr.matched ts a rest hts hmid
        exact ⟨fun b hb => Option.some.inj hb ▸ ha, hrest⟩
    · cases h
      exact ⟨by simp, hts⟩
    · exact nomatch h
  · intro ts e hts h
    rw [optional] at h
    split at h
    · exact nomatch h
    · exact nomatch h
    · next hfailed =>
        cases h
        exact hr.failed ts e hts hfailed

/-- A choice is made of the tokens of the rule that is chosen. -/
lemma confines_orElse {r s : Rule α} (hr : Confines Q r P) (hs : Confines Q s P) :
    Confines Q (orElse r s) P := by
  constructor
  · intro ts a rest hts h
    rw [orElse] at h
    split at h
    · exact hs.matched ts a rest hts h
    · exact hr.matched ts a rest hts h
  · intro ts e hts h
    rw [orElse] at h
    split at h
    · exact hs.failed ts e hts h
    · exact hr.failed ts e hts h

/-- Repeating a rule follows its own recursion: one match, and then the matches in what it left. -/
lemma many_confines {r : Rule α} (hr : Confines Q r P) {ts : List Lexeme} (hts : ∀ t ∈ ts, Q t) :
    (∀ as rest, many r ts = .ok (as, rest) → (∀ a ∈ as, P a) ∧ ∀ t ∈ rest, Q t) ∧
      ∀ e, many r ts = .error e → e.Among Q := by
  fun_induction many r ts with
  | case1 ts hmatch =>
      refine ⟨fun as rest h => ?_, nofun⟩
      cases h
      exact ⟨by simp, hts⟩
  | case2 ts e hmatch =>
      refine ⟨nofun, fun e' h => ?_⟩
      cases h
      exact hr.failed ts e hts hmatch
  | case3 ts a mid hmatch hlt as' last hmany ih =>
      obtain ⟨ha, hmid⟩ := hr.matched ts a mid hts hmatch
      refine ⟨fun as rest h => ?_, nofun⟩
      cases h
      obtain ⟨has, hrest⟩ := (ih hmid).1 as' last hmany
      exact ⟨List.forall_mem_cons.mpr ⟨ha, has⟩, hrest⟩
  | case4 ts a mid hmatch hlt e hmany ih =>
      obtain ⟨-, hmid⟩ := hr.matched ts a mid hts hmatch
      refine ⟨nofun, fun e' h => ?_⟩
      cases h
      exact (ih hmid).2 e hmany
  | case5 ts a mid hmatch hlt =>
      obtain ⟨ha, hmid⟩ := hr.matched ts a mid hts hmatch
      refine ⟨fun as rest h => ?_, nofun⟩
      cases h
      exact ⟨by simpa using ha, hmid⟩

/-- What a repeated rule reads is made of its tokens, item by item. -/
lemma confines_repeated {r : Rule α} (hr : Confines Q r P) :
    Confines Q (repeated r) fun as => ∀ a ∈ as, P a := by
  constructor
  · intro ts as rest hts h
    rw [repeated] at h
    split at h
    · next hmany =>
        cases h
        exact (many_confines hr hts).1 as rest hmany
    · cases h
  · intro ts e hts h
    rw [repeated] at h
    split at h
    · cases h
    · next hmany =>
        cases h
        exact (many_confines hr hts).2 e hmany

end Rule

/-! ## Lines -/

namespace Grammar

open Rule

/-- Skipping takes tokens away and adds none. -/
lemma mem_of_mem_skipOne {q : Lexeme → Bool} {ts : List Lexeme} {t : Lexeme}
    (h : t ∈ skipOne q ts) : t ∈ ts := by
  cases ts with
  | nil => exact h
  | cons u us =>
      rw [skipOne] at h
      split_ifs at h
      · exact List.mem_cons_of_mem u h
      · exact h

lemma mem_of_mem_skipTrailing {ts : List Lexeme} {t : Lexeme} (h : t ∈ skipTrailing ts) :
    t ∈ ts :=
  mem_of_mem_skipOne (mem_of_mem_skipOne h)

/-- What follows the end of a line was there before. -/
lemma mem_of_afterLineEnd? {ts rest : List Lexeme} (h : afterLineEnd? ts = some rest) {t : Lexeme}
    (ht : t ∈ rest) : t ∈ ts := by
  unfold afterLineEnd? at h
  split at h
  · cases h
    exact nomatch ht
  · next u us hus =>
      split_ifs at h
      cases h
      exact mem_of_mem_skipTrailing (hus ▸ List.mem_cons_of_mem u ht)

/-- What follows a blank line was there before. -/
lemma mem_of_afterBlankLine? {ts rest : List Lexeme} (h : afterBlankLine? ts = some rest)
    {t : Lexeme} (ht : t ∈ rest) : t ∈ ts := by
  unfold afterBlankLine? at h
  split at h
  · exact nomatch h
  · next u us hus =>
      split_ifs at h
      cases h
      exact mem_of_mem_skipOne (mem_of_mem_skipTrailing (hus ▸ List.mem_cons_of_mem u ht))

/-- What follows any number of blank lines was there before. -/
lemma mem_of_mem_skipBlankLines {ts : List Lexeme} {t : Lexeme} (h : t ∈ skipBlankLines ts) :
    t ∈ ts := by
  fun_induction skipBlankLines ts with
  | case1 ts rest hrest ih => exact mem_of_afterBlankLine? hrest (ih h)
  | case2 ts hnone => exact h

variable {Q : Lexeme → Prop} {start : List Lexeme} {expected : Expectation}

lemma confines_blankLines : Confines Q blankLines fun _ => True :=
  confines_of_subset fun _ _ ht => mem_of_mem_skipBlankLines ht

lemma confines_maybeSpace : Confines Q maybeSpace fun _ => True :=
  confines_of_subset fun _ _ ht => mem_of_mem_skipOne ht

lemma confines_lineEnd : Confines Q lineEnd fun _ => True := by
  constructor
  · intro ts a rest hts h
    rw [lineEnd] at h
    split at h
    · next hrest =>
        cases h
        exact ⟨trivial, fun t ht => hts t (mem_of_afterLineEnd? hrest ht)⟩
    · exact nomatch h
  · intro ts e hts h
    rw [lineEnd] at h
    split at h <;> exact nomatch h

lemma confines_requireLineEnd (hstart : ∀ t ∈ start, Q t) :
    Confines Q (requireLineEnd start) fun _ => True := by
  constructor
  · intro ts a rest hts h
    rw [requireLineEnd] at h
    split at h
    · next hrest =>
        cases h
        exact ⟨trivial, fun t ht => hts t (mem_of_afterLineEnd? hrest ht)⟩
    · exact nomatch h
  · intro ts e hts h
    rw [requireLineEnd] at h
    split at h
    · exact nomatch h
    · cases h
      exact ⟨hstart, fun t ht => hts t (mem_of_mem_skipTrailing ht)⟩

lemma confines_indented (depth : Nat) : Confines Q (indented depth) fun _ => True := by
  cases depth with
  | zero =>
      constructor
      · intro ts a rest hts h
        simp only [indented] at h
        split at h
        · split_ifs at h
          cases h
          exact ⟨trivial, hts⟩
        · cases h
          exact ⟨trivial, hts⟩
      · intro ts e hts h
        simp only [indented] at h
        split at h
        · split_ifs at h
        · exact nomatch h
  | succ depth => exact confines_accept fun _ _ _ _ => trivial

lemma confines_only {t : Token} : Confines Q (accept (only t)) fun _ => True :=
  confines_accept fun _ _ _ _ => trivial

lemma confines_require_only {t : Token} (hstart : ∀ t ∈ start, Q t) :
    Confines Q (require start expected (only t)) fun _ => True :=
  confines_require hstart fun _ _ _ _ => trivial

lemma confines_multipleMark : Confines Q multipleMark fun _ => True := by
  refine confines_bind confines_maybeSpace fun _ _ => ?_
  refine confines_bind confines_only fun _ _ => ?_
  refine confines_bind confines_here fun _ hstart => ?_
  refine confines_bind confines_maybeSpace fun _ _ => ?_
  refine confines_bind (confines_require_only hstart) fun _ _ => ?_
  refine confines_bind confines_maybeSpace fun _ _ => ?_
  exact confines_bind (confines_require_only hstart) fun _ _ => confines_pure trivial

end Grammar

/-! ## Declarations -/

/-- Tokens with `Q` give parts as `q` asks. -/
structure Parts.GivenBy (q : Parts) (Q : Lexeme → Prop) : Prop where
  name : ∀ t n, Q t → Grammar.nameOf t = some n → q.name n
  text : ∀ t n, Q t → Grammar.stringOf t = some n → q.text n
  value : ∀ t n, Q t → Grammar.integerOf t = some n → q.value n

namespace Grammar

open Rule

variable {q : Parts} {Q : Lexeme → Prop} (hq : q.GivenBy Q)

include hq

/-- A description is the text of one of the tokens. -/
lemma confines_description (depth : Nat) : Confines Q (description depth) q.text := by
  refine confines_bind (confines_indented depth) fun _ _ => ?_
  refine confines_bind (confines_accept hq.text) fun _ htext => ?_
  refine confines_bind confines_lineEnd fun _ _ => ?_
  exact confines_bind confines_blankLines fun _ _ => confines_pure htext

/-- What is extended is the name of one of the tokens. -/
lemma confines_extendsClause : Confines Q extendsClause q.name := by
  refine confines_bind confines_only fun _ _ => ?_
  refine confines_bind confines_only fun _ _ => ?_
  refine confines_bind confines_here fun _ hstart => ?_
  exact confines_bind (confines_require_only hstart) fun _ _ => confines_require hstart hq.name

lemma confines_valueClause : Confines Q valueClause q.value := by
  refine confines_bind confines_maybeSpace fun _ _ => ?_
  refine confines_bind confines_only fun _ _ => ?_
  refine confines_bind confines_here fun _ hstart => ?_
  exact confines_bind confines_maybeSpace fun _ _ => confines_require hstart hq.value

/-- A member is made of its name, its value and its description. -/
lemma confines_member : Confines Q member (MemberDecl.Every q) := by
  refine confines_bind (confines_optional (confines_description hq 2)) fun _ hdescription => ?_
  refine confines_bind (confines_indented 2) fun _ _ => ?_
  refine confines_bind confines_here fun _ hstart => ?_
  refine confines_bind (confines_require hstart hq.name) fun _ hname => ?_
  refine confines_bind (confines_optional (confines_valueClause hq)) fun _ hvalue => ?_
  exact confines_bind (confines_requireLineEnd hstart) fun _ _ =>
    confines_pure ⟨hdescription, hname, hvalue⟩

/-- A parameter type is made of its name, its members and its description. -/
lemma confines_parameterDecl :
    Confines Q parameterDecl (ParameterDecl.Every q) := by
  refine confines_bind (confines_optional (confines_description hq 1)) fun _ hdescription => ?_
  refine confines_bind (confines_indented 1) fun _ _ => ?_
  refine confines_bind confines_only fun _ _ => ?_
  refine confines_bind confines_here fun _ hstart => ?_
  refine confines_bind (confines_require_only hstart) fun _ _ => ?_
  refine confines_bind (confines_require hstart hq.name) fun _ hname => ?_
  refine confines_bind (confines_optional confines_multipleMark) fun _ _ => ?_
  refine confines_bind (confines_requireLineEnd hstart) fun _ _ => ?_
  have hmember := confines_bind confines_blankLines fun _ _ => confines_member hq
  exact confines_bind (confines_repeated hmember) fun _ hmembers =>
    confines_pure ⟨hdescription, hname, hmembers⟩

lemma confines_property : Confines Q property (PropertyDecl.Every q) := by
  refine confines_bind (confines_optional (confines_description hq 2)) fun _ hdescription => ?_
  refine confines_bind (confines_indented 2) fun _ _ => ?_
  refine confines_bind confines_here fun _ hstart => ?_
  refine confines_bind (confines_require hstart hq.name) fun _ htype => ?_
  refine confines_bind (confines_require_only hstart) fun _ _ => ?_
  refine confines_bind (confines_require hstart hq.name) fun _ hname => ?_
  exact confines_bind (confines_requireLineEnd hstart) fun _ _ =>
    confines_pure ⟨hdescription, htype, hname⟩

/-- An object type is made of its names, its properties and its description. -/
lemma confines_objectDecl : Confines Q objectDecl (ObjectDecl.Every q) := by
  refine confines_bind (confines_optional (confines_description hq 1)) fun _ hdescription => ?_
  refine confines_bind (confines_indented 1) fun _ _ => ?_
  refine confines_bind confines_only fun _ _ => ?_
  refine confines_bind confines_here fun _ hstart => ?_
  refine confines_bind (confines_require_only hstart) fun _ _ => ?_
  refine confines_bind (confines_require hstart hq.name) fun _ hname => ?_
  refine confines_bind (confines_optional (confines_extendsClause hq)) fun _ hparent => ?_
  refine confines_bind (confines_requireLineEnd hstart) fun _ _ => ?_
  have hproperty := confines_bind confines_blankLines fun _ _ => confines_property hq
  exact confines_bind (confines_repeated hproperty) fun _ hproperties =>
    confines_pure ⟨hdescription, hname, hparent, hproperties⟩

lemma confines_levelItem : Confines Q levelItem (LevelItem.Every q) :=
  confines_orElse
    (confines_bind (confines_parameterDecl hq) fun _ h => confines_pure h)
    (confines_bind (confines_objectDecl hq) fun _ h => confines_pure h)

/-- A level is made of its names, its items and its description. -/
lemma confines_levelDecl : Confines Q levelDecl (LevelDecl.Every q) := by
  refine confines_bind (confines_optional (confines_description hq 0)) fun _ hdescription => ?_
  refine confines_bind (confines_indented 0) fun _ _ => ?_
  refine confines_bind confines_only fun _ _ => ?_
  refine confines_bind confines_here fun _ hstart => ?_
  refine confines_bind (confines_require_only hstart) fun _ _ => ?_
  refine confines_bind (confines_require hstart hq.name) fun _ hname => ?_
  refine confines_bind (confines_optional (confines_extendsClause hq)) fun _ hparent => ?_
  refine confines_bind (confines_requireLineEnd hstart) fun _ _ => ?_
  have hitem := confines_bind confines_blankLines fun _ _ => confines_levelItem hq
  exact confines_bind (confines_repeated hitem) fun _ hitems =>
    confines_pure ⟨hdescription, hname, hparent, hitems⟩

/-- **A document has only parts that its tokens give, and a failure remembers only such tokens.** -/
lemma document_confines {ts : List Lexeme} (hts : ∀ t ∈ ts, Q t) :
    (∀ d, document ts = .ok d → d.Every q) ∧ ∀ e, document ts = .error e → e.Among Q := by
  have hlevel := confines_bind confines_blankLines fun _ _ => confines_levelDecl hq
  obtain ⟨hlevels, hfailed⟩ := many_confines hlevel hts
  unfold document
  split
  · next e hmany => exact ⟨nofun, fun e h => Except.error.inj h ▸ hfailed _ hmany⟩
  · next levels rest hmany =>
      obtain ⟨hlevels, hrest⟩ := hlevels levels rest hmany
      have hlast : ∀ t ∈ skipBlankLines rest, Q t :=
        fun t ht => hrest t (mem_of_mem_skipBlankLines ht)
      simp only
      split_ifs
      · exact ⟨fun d h => Except.ok.inj h ▸ hlevels, nofun⟩
      · exact ⟨nofun, fun e h => Except.error.inj h ▸ ⟨hlast, hlast⟩⟩

end Grammar

end LevelSchema
