import LevelSchema.Proofs.Diagnostic.Labels
import LevelSchema.Proofs.Resolved.Acceptance

/-!
# What each stage of resolving reports

Resolving looks at one thing after the other, and each stage has findings of its own.  `concern`
says which stage a finding belongs to, and the lemmas of this module say that no stage reports what
belongs to another, whatever the schema.  So the findings of one stage are those of its concern
(`Schema.filter_objectCycles`, `Schema.filter_properties`).
-/

namespace LevelSchema

/-- What the stages of resolving look at, in the order in which they do. -/
inductive Concern
  | levels
  | names
  | references
  | objectCycles
  | properties
  | collections
deriving DecidableEq

/-- The concern of the stage that makes the finding. -/
def ResolveFinding.concern : ResolveFinding → Concern
  | .undeclaredLevel .. | .levelCycle .. => .levels
  | .levelShadowsPrimitive .. | .typeShadowsPrimitive .. | .redeclaredType ..
  | .typeNamedLikeLevel .. => .names
  | .extendsParameterType .. | .extendsUnknownType .. | .unknownPropertyType .. => .references
  | .objectCycle .. => .objectCycles
  | .inheritedProperty .. | .sharedAccessor .. => .properties
  | .sharedCollection .. => .collections

namespace Resolve

open Noted

variable {s : Schema} {P : PrimitiveSet}

/-- All findings of a computation have the concern. -/
abbrev Reports (c : Concern) {α : Type} (x : Check α) : Prop :=
  Confines (·.concern = c) x fun _ => True

lemma reports_pure {c : Concern} {α : Type} {a : α} : Reports c (pure a) :=
  confines_pure trivial

/-- A sequence of checks has one concern if every step has it. -/
lemma reports_bind {c : Concern} {α β : Type} {x : Check α} {f : α → Check β} (hx : Reports c x)
    (hf : ∀ a, Reports c (f a)) : Reports c (x >>= f) :=
  confines_bind hx fun a _ => hf a

lemma reports_each {c : Concern} {α β : Type} {f : α → Check β} {as : List α}
    (h : ∀ a, Reports c (f a)) : Reports c (each f as) :=
  ⟨(confines_each fun a _ => h a).notes, trivial⟩

/-! ## Names -/

lemma reports_declareTypes {level : String} {own : List (Located String × TypeKind)} :
    ∀ scope, Reports .names (declareTypes P level scope own) := by
  induction own with
  | nil => exact fun _ => reports_pure
  | cons t ts ih =>
      intro scope
      refine reports_bind (confines_noteAny fun f hf => ?_) fun _ => ?_
      · obtain ⟨-, hnoted⟩ := Option.ite_none_right_eq_some.mp hf
        cases hnoted
        rfl
      refine reports_bind (confines_noteAny fun f hf => ?_) fun _ => ?_
      · obtain ⟨v, -, rfl⟩ := Option.map_eq_some_iff.mp hf
        rfl
      exact reports_bind (ih _) fun _ => reports_pure

lemma reports_levelScope {parent : Scope} {l : Level} :
    Reports .names (levelScope P parent l) := by
  refine reports_bind (confines_noteAny fun f hf => ?_) fun _ => ?_
  · obtain ⟨-, hnoted⟩ := Option.ite_none_right_eq_some.mp hf
    cases hnoted
    rfl
  refine reports_bind (reports_declareTypes parent) fun _ => ?_
  refine reports_bind (confines_noteAny fun f hf => ?_) fun _ => reports_pure
  obtain ⟨v, -, rfl⟩ := Option.map_eq_some_iff.mp hf
  rfl

/-- Building scopes is concerned with the names of types. -/
lemma reports_scopes {ls : List Level} : ∀ done, Reports .names (scopes P done ls) := by
  induction ls with
  | nil => exact fun _ => reports_pure
  | cons l ls ih => exact fun _ => reports_bind reports_levelScope fun _ => ih _

/-! ## References -/

lemma reports_bindParent {scope : Scope} {path : TypePath} {o : ObjectType} :
    Reports .references (bindParent s scope path o) := by
  unfold bindParent
  split
  · exact reports_pure
  · split
    · exact reports_pure
    · exact reports_bind (confines_note rfl) fun _ => reports_pure
    · exact reports_bind (confines_note rfl) fun _ => reports_pure

lemma reports_bindProperties {scope : Scope} {path : TypePath} {ps : List Property} :
    Reports .references (bindProperties s P scope path ps) := by
  induction ps with
  | nil => exact reports_pure
  | cons p ps ih =>
      rw [bindProperties]
      split
      · exact reports_bind ih fun _ => reports_pure
      · exact reports_bind (confines_note rfl) fun _ => ih

/-- Binding is concerned with references to types. -/
lemma reports_bindings {scopes : Scopes} {ls : List Level} :
    Reports .references (bindings s P scopes ls) := by
  refine reports_bind (reports_each fun l => reports_each fun o => ?_) fun _ => reports_pure
  exact reports_bind reports_bindParent fun _ =>
    reports_bind reports_bindProperties fun _ => reports_pure

/-! ## Properties -/

lemma reports_addProperties {object : TypePath} {inherited own : List ResolvedProperty} :
    ∀ accepted, Reports .properties (addProperties object inherited accepted own) := by
  induction own with
  | nil => exact fun _ => reports_pure
  | cons p own ih =>
      intro accepted
      rw [addProperties]
      split
      · exact reports_bind (confines_note rfl) fun _ => ih _
      · split
        · exact reports_bind (confines_note rfl) fun _ => ih _
        · exact ih _

/-- Flattening is concerned with properties. -/
lemma reports_flattenAll {b : Bindings} {paths : List TypePath} :
    ∀ done, Reports .properties (flattenAll b done paths) := by
  induction paths with
  | nil => exact fun _ => reports_pure
  | cons path paths ih =>
      intro done
      rw [flattenAll]
      split
      · exact ih _
      · exact reports_bind (reports_addProperties _) fun _ => ih _

/-! ## Collections -/

lemma reports_addCollections {level : String} {redeclared : List TypePath} {os : List ObjectType} :
    ∀ accepted, Reports .collections (addCollections level redeclared accepted os) := by
  induction os with
  | nil => exact fun _ => reports_pure
  | cons o os ih =>
      intro accepted
      rw [addCollections]
      split
      · refine reports_bind (confines_noteAny fun f hf => ?_) fun _ => ih _
        obtain ⟨-, hnoted⟩ := Option.ite_none_left_eq_some.mp hf
        cases hnoted
        rfl
      · exact ih _

/-- Collecting is concerned with collections. -/
lemma reports_resolvedLevels {redeclared : List TypePath} {flat : FlatTable} {ls : List Level} :
    ∀ done, Reports .collections (resolvedLevels s redeclared flat done ls) := by
  induction ls with
  | nil => exact fun _ => reports_pure
  | cons l ls ih =>
      exact fun _ => reports_bind (reports_addCollections _) fun _ =>
        reports_bind (ih _) fun _ => reports_pure

end Resolve

/-! ## One stage among all -/

namespace Schema

open Resolve

variable {s : Schema} {P : PrimitiveSet}

/-- The later stages report nothing about the extends clauses of levels. -/
lemma concern_body_ne_levels : ∀ f ∈ (body P s).notes, f.concern ≠ .levels := by
  rw [notes_body_eq]
  simp only [List.forall_mem_append]
  refine ⟨?_, ?_, ?_, ?_, ?_⟩
  · intro f hf
    simp [(reports_scopes _).notes f hf]
  · intro f hf
    simp [reports_bindings.notes f hf]
  · exact List.forall_mem_map.mpr fun _ _ => by simp [ResolveFinding.concern]
  · intro f hf
    simp [(reports_flattenAll _).notes f hf]
  · intro f hf
    simp [(reports_resolvedLevels _).notes f hf]

/-- A check with one concern reports nothing for another. -/
lemma filter_concern_eq_nil {c : Concern} {α : Type} {x : Check α} (h : Reports c x)
    (other : Concern) (hne : c ≠ other) : x.notes.filter (·.concern = other) = [] := by
  refine List.filter_eq_nil_iff.mpr fun f hf => ?_
  simpa [h.notes f hf] using hne

/-- The cycles of object types are what the later stages report under this concern. -/
lemma filter_objectCycles : (body P s).notes.filter (·.concern = .objectCycles) =
    objectCycles (s.bindingsOf P).value := by
  have hcycles : (objectCycles (s.bindingsOf P).value).filter (·.concern = .objectCycles) =
      objectCycles (s.bindingsOf P).value :=
    List.filter_eq_self.mpr (List.forall_mem_map.mpr fun _ _ => rfl)
  rw [notes_body_eq]
  simp only [List.filter_append, hcycles, flatten,
    filter_concern_eq_nil (reports_scopes _) .objectCycles (by decide),
    filter_concern_eq_nil reports_bindings .objectCycles (by decide),
    filter_concern_eq_nil (reports_flattenAll _) .objectCycles (by decide),
    filter_concern_eq_nil (reports_resolvedLevels _) .objectCycles (by decide),
    List.nil_append, List.append_nil]

/-- What flattening finds is what the later stages report about properties. -/
lemma filter_properties : (body P s).notes.filter (·.concern = .properties) =
    (flatten (s.bindingsOf P).value).notes := by
  have hcycles : (objectCycles (s.bindingsOf P).value).filter (·.concern = .properties) = [] :=
    List.filter_eq_nil_iff.mpr (List.forall_mem_map.mpr fun _ _ => by simp [ResolveFinding.concern])
  have hflat : (flatten (s.bindingsOf P).value).notes.filter (·.concern = .properties) =
      (flatten (s.bindingsOf P).value).notes :=
    List.filter_eq_self.mpr fun f hf => by simpa using (reports_flattenAll _).notes f hf
  rw [notes_body_eq]
  simp only [List.filter_append, hcycles, hflat,
    filter_concern_eq_nil (reports_scopes _) .properties (by decide),
    filter_concern_eq_nil reports_bindings .properties (by decide),
    filter_concern_eq_nil (reports_resolvedLevels _) .properties (by decide),
    List.nil_append, List.append_nil]

end Schema

end LevelSchema
