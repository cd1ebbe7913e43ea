import Mathlib.Tactic.MkIffOfInductiveProp
import LevelSchema.Proofs.Document.Tokens
import LevelSchema.Proofs.Schema.FinalNewline

/-!
# Schemas without their places

Loading looks at places only to report them.  Whether a document loads, and what it loads to up to
places, depends on the document up to places (`Document.loadable_unplaced_iff`,
`Document.schema_unplaced`).

`Schema.declared?` is what a text declares: its schema without places, if it has one.  Two texts
declare the same whenever the lines of each say what those of the other say
(`Schema.declared?_eq_of_conveys`), and this is how changes of a text that leave its schema alone
are recognised.
-/

namespace LevelSchema

/-! ## Forgetting places -/

/-- A member without places. -/
@[simps] def Member.unplaced (m : Member) : Member :=
  ⟨m.name.unplaced, m.value, m.description⟩

/-- A parameter type without places. -/
@[simps] def ParameterType.unplaced (p : ParameterType) : ParameterType :=
  ⟨p.name.unplaced, p.kind, p.description, p.members.map Member.unplaced, .atStart⟩

/-- A property without places. -/
@[simps] def Property.unplaced (p : Property) : Property :=
  ⟨p.name.unplaced, p.type.unplaced, p.description⟩

/-- An object type without places. -/
@[simps] def ObjectType.unplaced (o : ObjectType) : ObjectType :=
  ⟨o.name.unplaced, o.description, o.parent.map Located.unplaced,
    o.properties.map Property.unplaced, .atStart⟩

/-- A level without places. -/
@[simps] def Level.unplaced (l : Level) : Level :=
  ⟨l.name.unplaced, l.description, l.parent.map Located.unplaced,
    l.parameterTypes.map ParameterType.unplaced, l.objectTypes.map ObjectType.unplaced, .atStart⟩

/-- A schema without places. -/
@[simps] def Schema.unplaced (s : Schema) : Schema :=
  ⟨s.levels.map Level.unplaced⟩

/-! ## Documents load alike -/

namespace Load

/-- The text of a description does not depend on where it stands. -/
lemma described_unplaced (d : Option Description) :
    described (d.map Located.unplaced) = described d := by
  cases d <;> rfl

/-- Which items are parameter types does not depend on where they stand. -/
lemma parametersIn_unplaced (is : List LevelItem) :
    parametersIn (is.map LevelItem.unplaced) = (parametersIn is).map ParameterDecl.unplaced := by
  induction is with
  | nil => rfl
  | cons i is ih => cases i <;> simpa [parametersIn, LevelItem.unplaced] using ih

lemma objectsIn_unplaced (is : List LevelItem) :
    objectsIn (is.map LevelItem.unplaced) = (objectsIn is).map ObjectDecl.unplaced := by
  induction is with
  | nil => rfl
  | cons i is ih => cases i <;> simpa [objectsIn, LevelItem.unplaced] using ih

end Load

open Load

attribute [mk_iff] ParameterDecl.Loadable ObjectDecl.Loadable LevelDecl.Loadable
  Document.Loadable

@[simp] lemma LevelItem.name_unplaced (i : LevelItem) : i.unplaced.name = i.name.unplaced := by
  cases i <;> rfl

@[simp] lemma kindOf_unplaced (d : ParameterDecl) : kindOf d.unplaced = kindOf d := rfl

@[simp] lemma MemberDecl.written_unplaced (m : MemberDecl) : m.unplaced.written = m.written := by
  simp [written, Function.comp_def]

@[simp] lemma ParameterDecl.numbers_unplaced (d : ParameterDecl) :
    d.unplaced.numbers = d.numbers := by
  simp [numbers, Function.comp_def]

/-- Whether a parameter type can be loaded does not depend on places. -/
lemma ParameterDecl.loadable_unplaced_iff (d : ParameterDecl) :
    d.unplaced.Loadable ↔ d.Loadable := by
  simp [loadable_iff, Function.comp_def]

/-- Whether an object type can be loaded does not depend on places. -/
lemma ObjectDecl.loadable_unplaced_iff (typeNames : List String) (d : ObjectDecl) :
    d.unplaced.Loadable typeNames ↔ d.Loadable typeNames := by
  simp [loadable_iff, Function.comp_def]

lemma LevelItem.parameter_mem_unplaced {is : List LevelItem} {p : ParameterDecl} :
    .parameter p ∈ is.map LevelItem.unplaced ↔ ∃ q, .parameter q ∈ is ∧ q.unplaced = p := by
  rw [← mem_parametersIn, parametersIn_unplaced, List.mem_map]
  simp only [mem_parametersIn]

lemma LevelItem.object_mem_unplaced {is : List LevelItem} {o : ObjectDecl} :
    .object o ∈ is.map LevelItem.unplaced ↔ ∃ q, .object q ∈ is ∧ q.unplaced = o := by
  rw [← mem_objectsIn, objectsIn_unplaced, List.mem_map]
  simp only [mem_objectsIn]

/-- Whether a level can be loaded does not depend on places. -/
lemma LevelDecl.loadable_unplaced_iff (levelNames typeNames : List String) (d : LevelDecl) :
    d.unplaced.Loadable levelNames typeNames ↔ d.Loadable levelNames typeNames := by
  have hparent : (∀ parent ∈ d.unplaced.parent, parent.value ∈ levelNames) ↔
      ∀ parent ∈ d.parent, parent.value ∈ levelNames := by
    simp
  have hobject : (∃ o, .object o ∈ d.unplaced.items) ↔ ∃ o, .object o ∈ d.items := by
    simp [LevelItem.object_mem_unplaced]
  rw [loadable_iff, loadable_iff, hparent, hobject]
  simp only [unplaced_items, List.forall_mem_map, LevelItem.name_unplaced, Located.unplaced_value,
    List.map_map, Function.comp_def, LevelItem.parameter_mem_unplaced,
    LevelItem.object_mem_unplaced, forall_exists_index, and_imp, forall_apply_eq_imp_iff₂,
    ParameterDecl.loadable_unplaced_iff, ObjectDecl.loadable_unplaced_iff]

/-- Whether a document can be loaded does not depend on places. -/
lemma Document.loadable_unplaced_iff (d : Document) : d.unplaced.Loadable ↔ d.Loadable := by
  have hlevels : d.unplaced.levelNames = d.levelNames := by
    simp [levelNames, Function.comp_def]
  have htypes : d.unplaced.typeNames = d.typeNames := by
    simp [typeNames, Function.comp_def, List.flatMap_map]
  simp [loadable_iff, Function.comp_def, hlevels, htypes, LevelDecl.loadable_unplaced_iff]

/-! ## Schemas -/

/-- Forgetting places commutes with loading, here for a parameter type. -/
lemma ParameterDecl.toType_unplaced (d : ParameterDecl) :
    d.unplaced.toType = d.toType.unplaced := by
  simp [toType, ParameterType.unplaced, described_unplaced, List.zipWith_map_left,
    List.map_zipWith, MemberDecl.toMember, Member.unplaced]

lemma PropertyDecl.toProperty_unplaced (p : PropertyDecl) :
    p.unplaced.toProperty = p.toProperty.unplaced := by
  simp [toProperty, Property.unplaced, described_unplaced, Located.map, Located.unplaced]

lemma ObjectDecl.toType_unplaced (d : ObjectDecl) : d.unplaced.toType = d.toType.unplaced := by
  simp [toType, ObjectType.unplaced, described_unplaced, PropertyDecl.toProperty_unplaced,
    Function.comp_def]

lemma LevelDecl.toLevel_unplaced (d : LevelDecl) : d.unplaced.toLevel = d.toLevel.unplaced := by
  simp [toLevel, Level.unplaced, described_unplaced, parametersIn_unplaced, objectsIn_unplaced,
    ParameterDecl.toType_unplaced, ObjectDecl.toType_unplaced, Function.comp_def]

/-- Forgetting places commutes with loading a whole document. -/
lemma Document.schema_unplaced (d : Document) : d.unplaced.schema = d.schema.unplaced := by
  simp [schema, Schema.unplaced, LevelDecl.toLevel_unplaced, Function.comp_def]

/-! ## What a text declares -/

namespace Schema

open Grammar

variable {source source' : String} {s : Schema}

/-- The schema of a text without places, if the text has one. -/
def declared? (source : String) : Option Schema :=
  (ofSource source).toOption.map fun loaded => loaded.value.unplaced

/-- What a source declares is its schema without the places. -/
lemma declared?_eq_some_iff_ofSource :
    declared? source = some s ↔
      ∃ loaded, ofSource source = .ok loaded ∧ loaded.value.unplaced = s := by
  rw [declared?, Option.map_eq_some_iff]
  cases ofSource source <;> simp [Except.toOption]

/-- What a text declares is said by its lines. -/
lemma declared?_eq_some_iff : declared? source = some s ↔
    ∃ ls rows d, Scans 0 true source.toList ls ∧ LinesSay (lines ls) rows ∧ ¬ EndsDeep ls ∧
      SaysDocument d rows ∧ d.Loadable ∧ d.schema.unplaced = s := by
  simp only [declared?_eq_some_iff_ofSource, ofSource_eq_ok_iff, scan_eq_ok_iff,
    Document.ofLexemes_eq_ok_iff]
  constructor
  · rintro ⟨_, ⟨ls, d, hscan, hread, hpasses, rfl⟩, rfl⟩
    have hload := Document.passes_load_iff_loadable.mp hpasses
    rw [document_eq_ok_iff hload.levels_ne_nil hload.items_ne_nil] at hread
    obtain ⟨⟨rows, hsay, hsaid⟩, hends⟩ := hread
    exact ⟨ls, rows, d, hscan, hsay, hends, hsaid, hload,
      congrArg Schema.unplaced (Document.value_load_of_passes hpasses).symm⟩
  · rintro ⟨ls, rows, d, hscan, hsay, hends, hsaid, hload, rfl⟩
    have hread := (document_eq_ok_iff hload.levels_ne_nil hload.items_ne_nil).mpr
      ⟨⟨rows, hsay, hsaid⟩, hends⟩
    have hpasses := Document.passes_load_iff_loadable.mpr hload
    exact ⟨_, ⟨ls, d, hscan, hread, hpasses, rfl⟩,
      congrArg Schema.unplaced (Document.value_load_of_passes hpasses)⟩

/-- A text that conveys all of another one declares what that one declares. -/
lemma declared?_of_conveys
    (h : ∀ ls, Scans 0 true source.toList ls → ∃ ls', Scans 0 true source'.toList ls' ∧
      Conveys ls ls') (hs : declared? source = some s) : declared? source' = some s := by
  obtain ⟨ls, rows, d, hscan, hsay, hends, hsaid, hload, rfl⟩ := declared?_eq_some_iff.mp hs
  obtain ⟨ls', hscan', hconveys⟩ := h ls hscan
  obtain ⟨rows', hsay', hrows⟩ := hconveys.exists_rows rows hsay
  obtain ⟨d', hsaid', hd⟩ := exists_saysDocument hsaid hrows
  have hload' : d'.Loadable := by
    rwa [← d'.loadable_unplaced_iff, hd, d.loadable_unplaced_iff]
  refine declared?_eq_some_iff.mpr ⟨ls', rows', d', hscan', hsay',
    fun hdeep => hends (hconveys.endsDeep hdeep), hsaid', hload', ?_⟩
  rw [← d'.schema_unplaced, hd, d.schema_unplaced]

/-- **Texts that convey the same declare the same.** -/
lemma declared?_eq_of_conveys
    (h : ∀ ls, Scans 0 true source.toList ls → ∃ ls', Scans 0 true source'.toList ls' ∧
      Conveys ls ls')
    (h' : ∀ ls', Scans 0 true source'.toList ls' → ∃ ls, Scans 0 true source.toList ls ∧
      Conveys ls' ls) : declared? source' = declared? source :=
  Option.ext fun _ => ⟨declared?_of_conveys h', declared?_of_conveys h⟩

end Schema

end LevelSchema
