import Mathlib.Tactic.Simps.Basic
import LevelSchema.Proofs.Document.Reading

/-!
# Documents without their places

Two documents are the same up to places if they agree once every span is put at the start of the
text (`Document.unplaced`).  The span of a declaration is a place as well: it covers the places of
what is declared in it.

**Rows.**  `Document.rows` lists what a document says, row by row.  Rows that agree with them up to
places are again the rows of a document, and that document agrees with the first one up to places
(`recovers_document`).  The first one need not come from any text, and its spans may be anything.
-/

namespace LevelSchema

open Grammar

/-! ## Forgetting places -/

/-- The value, at no place in particular. -/
@[simps] def Located.unplaced {α : Type} (x : Located α) : Located α :=
  ⟨x.value, .atStart⟩

/-- Up to places, only the value counts. -/
lemma Located.unplaced_eq_iff {α : Type} {x y : Located α} :
    x.unplaced = y.unplaced ↔ x.value = y.value := by
  simp [unplaced]

/-- A member without places. -/
@[simps] def MemberDecl.unplaced (m : MemberDecl) : MemberDecl :=
  ⟨m.description.map Located.unplaced, m.name.unplaced, m.value.map Located.unplaced⟩

/-- A parameter type without places. -/
@[simps] def ParameterDecl.unplaced (p : ParameterDecl) : ParameterDecl :=
  ⟨p.description.map Located.unplaced, p.name.unplaced, p.multiple,
    p.members.map MemberDecl.unplaced, .atStart⟩

/-- A property without places. -/
@[simps] def PropertyDecl.unplaced (p : PropertyDecl) : PropertyDecl :=
  ⟨p.description.map Located.unplaced, p.typeName.unplaced, p.name.unplaced⟩

/-- An object type without places. -/
@[simps] def ObjectDecl.unplaced (o : ObjectDecl) : ObjectDecl :=
  ⟨o.description.map Located.unplaced, o.name.unplaced, o.parent.map Located.unplaced,
    o.properties.map PropertyDecl.unplaced, .atStart⟩

/-- A declaration inside a level without places. -/
def LevelItem.unplaced : LevelItem → LevelItem
  | .parameter p => .parameter p.unplaced
  | .object o => .object o.unplaced

/-- A level without places. -/
@[simps] def LevelDecl.unplaced (l : LevelDecl) : LevelDecl :=
  ⟨l.description.map Located.unplaced, l.name.unplaced, l.parent.map Located.unplaced,
    l.items.map LevelItem.unplaced, .atStart⟩

/-- A document without places. -/
@[simps] def Document.unplaced (d : Document) : Document :=
  ⟨d.levels.map LevelDecl.unplaced⟩

namespace Grammar

/-- A row without places. -/
def Row.unplaced : Row → Row
  | .description depth text => .description depth text.unplaced
  | .level _ name parent => .level .atStart name.unplaced (parent.map Located.unplaced)
  | .parameter _ name multiple => .parameter .atStart name.unplaced multiple
  | .object _ name parent => .object .atStart name.unplaced (parent.map Located.unplaced)
  | .member name value => .member name.unplaced (value.map Located.unplaced)
  | .property typeName name => .property typeName.unplaced name.unplaced

end Grammar

/-! ## The rows of a document -/

/-- What a member says. -/
def MemberDecl.rows (m : MemberDecl) : List Row :=
  descriptionRows 2 m.description ++ [.member m.name m.value]

/-- What a parameter type says. -/
def ParameterDecl.rows (p : ParameterDecl) : List Row :=
  descriptionRows 1 p.description ++
    .parameter .atStart p.name p.multiple :: p.members.flatMap MemberDecl.rows

/-- What a property says. -/
def PropertyDecl.rows (p : PropertyDecl) : List Row :=
  descriptionRows 2 p.description ++ [.property p.typeName p.name]

/-- What an object type says. -/
def ObjectDecl.rows (o : ObjectDecl) : List Row :=
  descriptionRows 1 o.description ++
    .object .atStart o.name o.parent :: o.properties.flatMap PropertyDecl.rows

/-- What a declaration inside a level says. -/
def LevelItem.rows : LevelItem → List Row
  | .parameter p => p.rows
  | .object o => o.rows

/-- What a level says. -/
def LevelDecl.rows (l : LevelDecl) : List Row :=
  descriptionRows 0 l.description ++
    .level .atStart l.name l.parent :: l.items.flatMap LevelItem.rows

/-- What a document says. -/
def Document.rows (d : Document) : List Row :=
  d.levels.flatMap LevelDecl.rows

namespace Grammar

variable {α β γ : Type} {row : Row} {rows : List Row}

/-! ## Rows up to places -/

/-- Rows like those of a description are those of one. -/
lemma exists_descriptionRows {depth : Nat} {o : Option Description}
    (h : rows.map Row.unplaced = (descriptionRows depth o).map Row.unplaced) :
    ∃ o', rows = descriptionRows depth o' ∧
      o'.map Located.unplaced = o.map Located.unplaced := by
  cases o with
  | none => exact ⟨none, List.map_eq_nil_iff.mp h, rfl⟩
  | some text =>
      obtain ⟨row, _, rfl, hrow, hnil⟩ := List.map_eq_cons_iff.mp h
      obtain rfl := List.map_eq_nil_iff.mp hnil
      cases row with
      | description depth' text' =>
          obtain ⟨rfl, htext⟩ := Row.description.inj hrow
          exact ⟨some text', rfl, congrArg some htext⟩
      | _ => exact nomatch hrow

/-- A row like one that opens a level opens a level, with the same names. -/
lemma exists_level_of_unplaced {k : Span} {name : Located String}
    {parent : Option (Located String)} (h : row.unplaced = (Row.level k name parent).unplaced) :
    ∃ k' name' parent', row = .level k' name' parent' ∧ name'.unplaced = name.unplaced ∧
      parent'.map Located.unplaced = parent.map Located.unplaced := by
  cases row with
  | level k' name' parent' =>
      obtain ⟨-, hname, hparent⟩ := Row.level.inj h
      exact ⟨k', name', parent', rfl, hname, hparent⟩
  | _ => exact nomatch h

lemma exists_object_of_unplaced {k : Span} {name : Located String}
    {parent : Option (Located String)} (h : row.unplaced = (Row.object k name parent).unplaced) :
    ∃ k' name' parent', row = .object k' name' parent' ∧ name'.unplaced = name.unplaced ∧
      parent'.map Located.unplaced = parent.map Located.unplaced := by
  cases row with
  | object k' name' parent' =>
      obtain ⟨-, hname, hparent⟩ := Row.object.inj h
      exact ⟨k', name', parent', rfl, hname, hparent⟩
  | _ => exact nomatch h

lemma exists_parameter_of_unplaced {k : Span} {name : Located String} {mark : Option Unit}
    (h : row.unplaced = (Row.parameter k name mark.isSome).unplaced) :
    ∃ k' name' mark', row = .parameter k' name' (mark' : Option Unit).isSome ∧
      name'.unplaced = name.unplaced ∧ mark'.map id = mark.map id := by
  cases row with
  | parameter k' name' multiple =>
      obtain ⟨-, hname, rfl⟩ := Row.parameter.inj h
      exact ⟨k', name', mark, rfl, hname, rfl⟩
  | _ => exact nomatch h

/-! ## Declarations up to places -/

/-- Rows that agree with those of `a` up to places are said by something that agrees with `a` up
to places. -/
def Recovers (Says : α → List Row → Prop) (rowsOf : α → List Row) (unplaced : α → α) (a : α) :
    Prop :=
  ∀ rows : List Row, rows.map Row.unplaced = (rowsOf a).map Row.unplaced →
    ∃ a', Says a' rows ∧ unplaced a' = unplaced a

variable {Says : α → List Row → Prop} {rowsOf : α → List Row} {unplaced : α → α}

/-- What is recovered one by one is recovered as a list. -/
lemma recovers_list {as : List α} (h : ∀ a ∈ as, Recovers Says rowsOf unplaced a) :
    Recovers (Listed Says) (List.flatMap rowsOf) (List.map unplaced) as := by
  induction as with
  | nil =>
      intro rows hrows
      obtain rfl := List.map_eq_nil_iff.mp hrows
      exact ⟨[], .nil, rfl⟩
  | cons a as ih =>
      obtain ⟨ha, has⟩ := List.forall_mem_cons.mp h
      intro rows hrows
      rw [List.flatMap_cons, List.map_append] at hrows
      obtain ⟨rows₁, rows₂, rfl, hrows₁, hrows₂⟩ := List.map_eq_append_iff.mp hrows
      obtain ⟨a', hsaid, heq⟩ := ha rows₁ hrows₁
      obtain ⟨as', hlisted, heqs⟩ := ih has rows₂ hrows₂
      exact ⟨a' :: as', .cons hsaid hlisted, by rw [List.map_cons, List.map_cons, heq, heqs]⟩

/-- A described row, up to places. -/
lemma exists_described {depth : Nat} {o : Option Description} {more : List Row}
    (h : rows.map Row.unplaced = (descriptionRows depth o ++ row :: more).map Row.unplaced) :
    ∃ o' row' more', rows = descriptionRows depth o' ++ row' :: more' ∧
      o'.map Located.unplaced = o.map Located.unplaced ∧ row'.unplaced = row.unplaced ∧
        more'.map Row.unplaced = more.map Row.unplaced := by
  rw [List.map_append, List.map_cons] at h
  obtain ⟨above, _, rfl, habove, hbelow⟩ := List.map_eq_append_iff.mp h
  obtain ⟨row', more', rfl, hrow, hmore⟩ := List.map_eq_cons_iff.mp hbelow
  obtain ⟨o', rfl, ho⟩ := exists_descriptionRows habove
  exact ⟨o', row', more', rfl, ho, hrow, hmore⟩

/-- A member is recovered from its rows. -/
lemma recovers_member (m : MemberDecl) :
    Recovers SaysMember MemberDecl.rows MemberDecl.unplaced m := by
  intro rows hrows
  obtain ⟨o', row', more', rfl, ho, hrow, hmore⟩ := exists_described hrows
  obtain rfl := List.map_eq_nil_iff.mp hmore
  cases row' with
  | member name value =>
      obtain ⟨hname, hvalue⟩ := Row.member.inj hrow
      refine ⟨⟨o', name, value⟩, rfl, ?_⟩
      simp only [MemberDecl.unplaced, ho, hname, hvalue]
  | _ => exact nomatch hrow

lemma recovers_property (p : PropertyDecl) :
    Recovers SaysProperty PropertyDecl.rows PropertyDecl.unplaced p := by
  intro rows hrows
  obtain ⟨o', row', more', rfl, ho, hrow, hmore⟩ := exists_described hrows
  obtain rfl := List.map_eq_nil_iff.mp hmore
  cases row' with
  | property typeName name =>
      obtain ⟨htype, hname⟩ := Row.property.inj hrow
      refine ⟨⟨o', typeName, name⟩, rfl, ?_⟩
      simp only [PropertyDecl.unplaced, ho, htype, hname]
  | _ => exact nomatch hrow

/-- Where rows agree with a head and its parts, they are the head and the parts of a declaration. -/
lemma Form.exists_says (f : Form α β γ) {SaysPart : β → List Row → Prop}
    {partRows : β → List Row} {part : β → β} {clause : γ → γ} {o : Option Description} {k : Span}
    {name : Located String} {given : Option γ} {parts : List β}
    (hrow : ∀ row : Row, row.unplaced = (f.row k name given).unplaced →
      ∃ k' name' given', row = f.row k' name' given' ∧ name'.unplaced = name.unplaced ∧
        given'.map clause = given.map clause)
    (hpart : ∀ b ∈ parts, Recovers SaysPart partRows part b)
    (h : rows.map Row.unplaced = (descriptionRows f.depth o ++
      f.row k name given :: parts.flatMap partRows).map Row.unplaced) :
    ∃ o' k' name' given' parts', f.Says SaysPart (f.build o' k' name' given' parts') rows ∧
      o'.map Located.unplaced = o.map Located.unplaced ∧ name'.unplaced = name.unplaced ∧
        given'.map clause = given.map clause ∧ parts'.map part = parts.map part := by
  obtain ⟨o', row', more', rfl, ho, hhead, hmore⟩ := exists_described h
  obtain ⟨k', name', given', rfl, hname, hgiven⟩ := hrow row' hhead
  obtain ⟨parts', hsaid, hparts⟩ := recovers_list hpart more' hmore
  exact ⟨o', k', name', given', parts', .mk o' k' name' given' hsaid, ho, hname, hgiven, hparts⟩

lemma recovers_parameter (p : ParameterDecl) :
    Recovers (parameterForm.Says SaysMember) ParameterDecl.rows ParameterDecl.unplaced p := by
  intro rows hrows
  have hmark : p.multiple = (if p.multiple then some () else none : Option Unit).isSome := by
    cases p.multiple <;> rfl
  rw [ParameterDecl.rows, hmark] at hrows
  obtain ⟨o, k, name, mark, members, hsaid, ho, hname, hgiven, hmembers⟩ :=
    parameterForm.exists_says (fun _ => exists_parameter_of_unplaced)
      (fun m _ => recovers_member m) hrows
  refine ⟨_, hsaid, ?_⟩
  rw [Option.map_id, id, id] at hgiven
  simp only [parameterForm, ParameterDecl.unplaced, ho, hname, hmembers, hgiven, ← hmark]

lemma recovers_object (o : ObjectDecl) :
    Recovers (objectForm.Says SaysProperty) ObjectDecl.rows ObjectDecl.unplaced o := by
  intro rows hrows
  obtain ⟨_, _, _, _, _, hsaid, ho, hname, hparent, hproperties⟩ :=
    objectForm.exists_says (fun _ => exists_object_of_unplaced)
      (fun p _ => recovers_property p) hrows
  refine ⟨_, hsaid, ?_⟩
  simp only [objectForm, ObjectDecl.unplaced, ho, hname, hparent, hproperties]

lemma recovers_item (i : LevelItem) : Recovers SaysItem LevelItem.rows LevelItem.unplaced i := by
  intro rows hrows
  cases i with
  | parameter p =>
      obtain ⟨p', hsaid, heq⟩ := recovers_parameter p rows hrows
      exact ⟨.parameter p', hsaid, congrArg LevelItem.parameter heq⟩
  | object o =>
      obtain ⟨o', hsaid, heq⟩ := recovers_object o rows hrows
      exact ⟨.object o', hsaid, congrArg LevelItem.object heq⟩

/-- A level is recovered from its rows, since each of its items is. -/
lemma recovers_level (l : LevelDecl) : Recovers SaysLevel LevelDecl.rows LevelDecl.unplaced l := by
  intro rows hrows
  obtain ⟨_, _, _, _, _, hsaid, ho, hname, hparent, hitems⟩ :=
    levelForm.exists_says (fun _ => exists_level_of_unplaced) (fun i _ => recovers_item i) hrows
  refine ⟨_, hsaid, ?_⟩
  simp only [levelForm, LevelDecl.unplaced, ho, hname, hparent, hitems]

/-- **Rows determine their document up to places**, and every document has rows. -/
lemma recovers_document (d : Document) :
    Recovers SaysDocument Document.rows Document.unplaced d := by
  intro rows hrows
  obtain ⟨levels, hsaid, heq⟩ := recovers_list (fun l _ => recovers_level l) rows hrows
  exact ⟨⟨levels⟩, hsaid, congrArg Document.mk heq⟩

end Grammar

end LevelSchema
