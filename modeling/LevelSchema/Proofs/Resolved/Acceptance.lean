import LevelSchema.Proofs.Resolved.Collections

/-!
# Which schemas can be resolved

Resolving goes on after a mistake, with whatever it has: redeclared types hide inherited ones, names
that are not known are left unbound, object types on a cycle are skipped, and properties and
collections that clash are dropped.  What a later stage reports therefore depends on the mistakes
before it.  Whether **anything** is reported does not: a well-formed schema resolves exactly when it
is `Resolvable`, a condition on the declarations alone.

The proof takes the stages in order.  Each is described under the conditions that the earlier ones
have established, `Grounded`, `Scoped` and `Bound`, and notes nothing exactly when its own condition
holds.
-/

namespace LevelSchema

namespace Schema

open Resolve

variable {s : Schema} {P : PrimitiveSet}

/-- What the declarations of a schema have to satisfy so that inheritance can be applied. -/
structure Resolvable (s : Schema) (P : PrimitiveSet) : Prop where
  levels_acyclic : ∀ l, ¬ Relation.TransGen s.Extends l l
  avoidsPrimitives : s.AvoidsPrimitives P
  typesDistinct : s.TypesDistinct
  parentsVisible : s.ParentsVisible
  objects_acyclic : ∀ x, ¬ Relation.TransGen s.Specializes x x
  propertyTypesVisible : s.PropertyTypesVisible P
  propertiesDistinct : s.PropertiesDistinct
  collectionsDistinct : s.CollectionsDistinct

lemma Resolvable.bound (h : s.Resolvable P) (hs : s.WellFormed) : s.Bound P :=
  { hs.grounded_iff.mpr h.levels_acyclic, h with acyclic := h.objects_acyclic }

/-- The notes of the later stages, one after the other. -/
lemma notes_body_eq (s : Schema) (P : PrimitiveSet) : (body P s).notes =
    (s.scopesOf P).notes ++ ((s.bindingsOf P).notes ++ (objectCycles (s.bindingsOf P).value ++
      ((flatten (s.bindingsOf P).value).notes ++
        (resolvedLevels s (s.scopesOf P).value.redeclared
          (flatten (s.bindingsOf P).value).value [] s.orderedLevels).notes))) := by
  simp [body]

lemma notes_body (s : Schema) (P : PrimitiveSet) : (body P s).notes = [] ↔
    (s.scopesOf P).notes = [] ∧ (s.bindingsOf P).notes = [] ∧
      objectCycles (s.bindingsOf P).value = [] ∧ (flatten (s.bindingsOf P).value).notes = [] ∧
        (resolvedLevels s (s.scopesOf P).value.redeclared
          (flatten (s.bindingsOf P).value).value [] s.orderedLevels).notes = [] := by
  simp only [notes_body_eq, List.append_eq_nil_iff]

lemma redeclared_scopesOf (h : (s.scopesOf P).notes = []) :
    (s.scopesOf P).value.redeclared = [] :=
  redeclared_scopes h

/-- The early check and the later stages find nothing exactly when the schema is resolvable. -/
lemma WellFormed.notes_eq_nil_iff (hs : s.WellFormed) :
    undeclaredParents s ++ levelCycles s = [] ∧ (body P s).notes = [] ↔ s.Resolvable P := by
  rw [hs.linked.undeclaredParents_eq_nil, List.nil_append,
    hs.linked.levelCycles_eq_nil_iff, notes_body]
  constructor
  · rintro ⟨hlineage, hscopes, hbindings, hcycles, hflat, hcollections⟩
    have hgrounded : s.Grounded := hs.grounded ⟨hs.linked, hlineage⟩
    obtain ⟨havoids, htypes⟩ := hgrounded.notes_scopesOf_iff.mp hscopes
    have hscoped : s.Scoped P := ⟨hgrounded, havoids, htypes⟩
    obtain ⟨hparents, hproperties⟩ := hscoped.notes_bindingsOf_eq_nil_iff.mp hbindings
    have hacyclic := hscoped.objectCycles_eq_nil_iff.mp hcycles
    have hbound : s.Bound P := ⟨hscoped, hparents, hproperties, hacyclic⟩
    rw [redeclared_scopesOf hscopes] at hcollections
    exact ⟨hs.grounded_iff.mp hgrounded, havoids, htypes, hparents, hacyclic, hproperties,
      hbound.notes_flatten_bindingsOf_iff.mp hflat,
      hgrounded.notes_resolvedLevels_orderedLevels_iff.mp hcollections⟩
  · intro h
    have hbound : s.Bound P := h.bound hs
    have hscopes : (s.scopesOf P).notes = [] :=
      hbound.notes_scopesOf_iff.mpr ⟨h.avoidsPrimitives, h.typesDistinct⟩
    rw [redeclared_scopesOf hscopes]
    exact ⟨hbound.exists_lineage, hscopes,
      hbound.notes_bindingsOf_eq_nil_iff.mpr ⟨h.parentsVisible, h.propertyTypesVisible⟩,
      hbound.objectCycles_eq_nil_iff.mpr h.objects_acyclic,
      hbound.notes_flatten_bindingsOf_iff.mpr h.propertiesDistinct,
      hbound.notes_resolvedLevels_orderedLevels_iff.mpr h.collectionsDistinct⟩

/-- Resolving succeeds when no stage notes anything, with what the later stages have worked out. -/
lemma resolve_eq_ok_iff_notes {r : ResolvedSchema} : s.resolve P = .ok r ↔
    (undeclaredParents s ++ levelCycles s = [] ∧ (body P s).notes = []) ∧
      r = (body P s).value := by
  rw [resolve, resolution]
  by_cases hearly : undeclaredParents s ++ levelCycles s = []
  · by_cases hlate : (body P s).notes = []
    · simp [hearly, hlate, eq_comm]
    · simp [hearly, hlate]
  · simp [hearly]

/-- A resolvable schema resolves, and to what the later stages have worked out. -/
lemma WellFormed.resolve_eq_ok_iff (hs : s.WellFormed) {r : ResolvedSchema} :
    s.resolve P = .ok r ↔ s.Resolvable P ∧ r = (body P s).value := by
  rw [resolve_eq_ok_iff_notes, hs.notes_eq_nil_iff]

/-- **A loaded schema can be resolved exactly when its declarations are in order**: no level and no
object type is its own ancestor, names avoid the primitives and each other along every lineage, and
every name that is used is known where it is used. -/
theorem exists_resolve_iff_resolvable {source : String} {loaded : Noted Diagnostic Schema}
    (h : Schema.ofSource source = .ok loaded) (P : PrimitiveSet) :
    (∃ r, loaded.value.resolve P = .ok r) ↔ loaded.value.Resolvable P := by
  simp only [(wellFormed_of_ofSource h).resolve_eq_ok_iff]
  exact ⟨fun ⟨_, hr, _⟩ => hr, fun hr => ⟨_, hr, rfl⟩⟩

/-- A level on top of another, with an object type that extends one it inherits. -/
def towerOnPlot : String :=
  "AbstractionLevel Site\n    Object Plot\n        Curve Edge\n" ++
    "AbstractionLevel City extends Site\n    Object Tower extends Plot\n        Plot Lot\n"

theorem towerOnPlot_resolvable : ∃ loaded, Schema.ofSource towerOnPlot = .ok loaded ∧
    loaded.value.Resolvable .builtin := by
  have hrun : ((Schema.ofSource towerOnPlot).bind fun loaded =>
      loaded.value.resolve .builtin).isOk = true := by
    decide +kernel
  obtain ⟨r, hr⟩ := exists_of_isOk hrun
  obtain ⟨loaded, hload, hresolve⟩ := bind_eq_ok_iff.mp hr
  exact ⟨loaded, hload, (exists_resolve_iff_resolvable hload .builtin).mp ⟨r, hresolve⟩⟩

end Schema

end LevelSchema
