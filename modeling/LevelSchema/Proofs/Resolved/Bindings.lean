import LevelSchema.Proofs.Resolved.Scopes

/-!
# Object types and what they extend

An object type is known by its level and its name, so a `PlacedObject` is the pair of a level and
one of its object types.  `Schema.Specializes` is the relation that `extends` clauses of object
types declare: the name has to be that of an object type of the same level or of an ancestor.

**Scoped schemas.**  Once scopes are in order (`Schema.Scoped`) a name stands for one type along a
lineage, and looking it up finds this type (`Schema.Scoped.lookup_along`).  Binding then agrees with
the relations: an object type is bound to the one it specializes, nothing is noted exactly when
every name that is used is known, and the forest of paths has the links of `Specializes`
(`Schema.Scoped.links_forest_iff`).
-/

namespace LevelSchema

/-! ## Placed objects -/

/-- An object type and the level that declares it. -/
structure PlacedObject where
  level : Level
  decl : ObjectType

/-- The path under which an object type is known. -/
def PlacedObject.path (x : PlacedObject) : TypePath :=
  ⟨x.level.name.value, x.decl.name.value⟩

/-- The object types of a level. -/
def Level.objects (l : Level) : List PlacedObject :=
  l.objectTypes.map (⟨l, ·⟩)

lemma Level.mem_objects {l : Level} {x : PlacedObject} :
    x ∈ l.objects ↔ x.level = l ∧ x.decl ∈ l.objectTypes := by
  rw [objects, List.mem_map]
  constructor
  · rintro ⟨o, ho, rfl⟩
    exact ⟨rfl, ho⟩
  · rintro ⟨rfl, ho⟩
    exact ⟨x.decl, ho, rfl⟩

namespace Schema

variable {s : Schema} {x y z : PlacedObject}

/-- The object types of a schema. -/
def objects (s : Schema) : List PlacedObject :=
  s.levels.flatMap Level.objects

/-- The object types of a schema are those of its levels. -/
lemma mem_objects : x ∈ s.objects ↔ x.level ∈ s.levels ∧ x.decl ∈ x.level.objectTypes := by
  simp only [objects, List.mem_flatMap, Level.mem_objects]
  constructor
  · rintro ⟨l, hl, rfl, hx⟩
    exact ⟨hl, hx⟩
  · rintro ⟨hl, hx⟩
    exact ⟨x.level, hl, rfl, hx⟩

/-- The object type `x` of the schema extends `y`, which is declared in the level of `x` or in an
ancestor. -/
def Specializes (s : Schema) (x y : PlacedObject) : Prop :=
  x ∈ s.objects ∧ y ∈ s.objects ∧ Relation.ReflTransGen s.Extends x.level y.level ∧
    ∃ p, x.decl.parent = some p ∧ p.value = y.decl.name.value

/-- Every object type that extends something extends an object type it can see. -/
def ParentsVisible (s : Schema) : Prop :=
  ∀ x ∈ s.objects, ∀ p, x.decl.parent = some p → ∃ y, s.Specializes x y

/-- Every property has a primitive type or one that its object type can see. -/
def PropertyTypesVisible (s : Schema) (P : PrimitiveSet) : Prop :=
  ∀ x ∈ s.objects, ∀ p ∈ x.decl.properties, p.type.value.name ∈ P.names ∨
    ∃ m, Relation.ReflTransGen s.Extends x.level m ∧ p.type.value.name ∈ m.typeNames

lemma mem_typeNames_of_mem_parameterTypes {l : Level} {t : ParameterType}
    (ht : t ∈ l.parameterTypes) : t.name.value ∈ l.typeNames := by
  simp only [Level.typeNames, Level.ownTypes, List.map_append, List.map_map, List.mem_append,
    List.mem_map, Function.comp_apply]
  exact .inl ⟨t, ht, rfl⟩

lemma mem_typeNames_of_mem_objectTypes {l : Level} {o : ObjectType} (ho : o ∈ l.objectTypes) :
    o.name.value ∈ l.typeNames := by
  simp only [Level.typeNames, Level.ownTypes, List.map_append, List.map_map, List.mem_append,
    List.mem_map, Function.comp_apply]
  exact .inr ⟨o, ho, rfl⟩

/-- A level of a well-formed schema has no two object types of one name. -/
lemma WellFormed.names_objectTypes_nodup (hs : s.WellFormed) {l : Level} (hl : l ∈ s.levels) :
    (l.objectTypes.map (·.name.value)).Nodup := by
  have hnodup := (hs.levels l hl).typeNames_nodup
  rw [Level.typeNames, Level.ownTypes, List.map_append] at hnodup
  have hright := (List.nodup_append.mp hnodup).2.1
  rwa [List.map_map] at hright

/-- An object type is known by its path. -/
lemma WellFormed.eq_of_path_eq (hs : s.WellFormed) (hx : x ∈ s.objects) (hy : y ∈ s.objects)
    (h : x.path = y.path) : x = y := by
  obtain ⟨hxl, hxo⟩ := mem_objects.mp hx
  obtain ⟨hyl, hyo⟩ := mem_objects.mp hy
  obtain ⟨l, o⟩ := x
  obtain ⟨m, q⟩ := y
  obtain ⟨hlevel, hname⟩ := TypePath.mk.inj h
  obtain rfl : l = m := hs.linked.eq_of_name_eq hxl hyl hlevel
  obtain rfl : o = q :=
    List.inj_on_of_nodup_map (hs.names_objectTypes_nodup hxl) hxo hyo hname
  rfl

/-! ## Scoped schemas -/

/-- A grounded schema whose names do not clash. -/
structure Scoped (s : Schema) (P : PrimitiveSet) : Prop extends s.Grounded where
  avoidsPrimitives : s.AvoidsPrimitives P
  typesDistinct : s.TypesDistinct

variable {P : PrimitiveSet} {l m : Level} {chain : List Level}

namespace Scoped

/-- Looking up a name finds what a level of the lineage declares under it. -/
lemma lookup_along (hs : s.Scoped P) (hl : l ∈ s.levels) (hchain : Lineage s.Extends l chain)
    {name : String} {v : Visible} :
    (Scope.along chain).lookup name = some v ↔
      ∃ m, Relation.ReflTransGen s.Extends l m ∧ (name, v) ∈ m.entries := by
  have hnodup : ((Scope.along chain).map (·.1)).Nodup := by
    rw [Scope.names_along, List.nodup_reverse]
    exact (hs.typesDistinct l hl chain hchain).1
  rw [lookup_eq_some_iff_mem hnodup, Scope.along, List.mem_reverse, List.mem_flatMap]
  simp only [hchain.mem_iff hs.extends_rightUnique]

/-- What is named along a chain of levels is declared in one of them. -/
lemma mem_names_along (hs : s.Scoped P) (hchain : Lineage s.Extends l chain) {name : String} :
    name ∈ (Scope.along chain).map (·.1) ↔
      ∃ m, Relation.ReflTransGen s.Extends l m ∧ name ∈ m.typeNames := by
  rw [Scope.names_along, List.mem_reverse, List.mem_flatMap]
  simp only [hchain.mem_iff hs.extends_rightUnique]

end Scoped

lemma mem_levels_of_reflTransGen (hl : l ∈ s.levels) (h : Relation.ReflTransGen s.Extends l m) :
    m ∈ s.levels := by
  rcases h.cases_tail with rfl | ⟨_, -, hlast⟩
  · exact hl
  · exact hlast.2.1

/-- The entries of a level for object types are its object types. -/
lemma mem_entries_object {name : String} {path : TypePath} {span : Span} :
    (name, (⟨path, .object, span⟩ : Visible)) ∈ m.entries ↔
      ∃ o ∈ m.objectTypes, o.name.value = name ∧ o.name.span = span ∧
        path = ⟨m.name.value, name⟩ := by
  simp only [Level.entries, Level.ownTypes, Resolve.entry, List.map_append, List.map_map,
    List.mem_append, List.mem_map, Function.comp_apply, Prod.mk.injEq, Visible.mk.injEq]
  constructor
  · rintro (⟨_, -, -, -, h, -⟩ | ⟨o, ho, rfl, rfl, -, rfl⟩)
    · cases h
    · exact ⟨o, ho, rfl, rfl, rfl⟩
  · rintro ⟨o, ho, rfl, rfl, rfl⟩
    exact .inr ⟨o, ho, rfl, rfl, trivial, rfl⟩

/-- What an object type specializes is what its scope holds under the name. -/
lemma Scoped.specializes_iff (hs : s.Scoped P) (hx : x ∈ s.objects)
    (hchain : Lineage s.Extends x.level chain) {t : TypePath} :
    (∃ y, s.Specializes x y ∧ y.path = t) ↔ ∃ p span, x.decl.parent = some p ∧
      (Scope.along chain).lookup p.value = some ⟨t, .object, span⟩ := by
  obtain ⟨hxl, -⟩ := mem_objects.mp hx
  constructor
  · rintro ⟨y, ⟨-, hy, hup, p, hp, hname⟩, rfl⟩
    refine ⟨p, y.decl.name.span, hp, (hs.lookup_along hxl hchain).mpr ⟨y.level, hup, ?_⟩⟩
    refine mem_entries_object.mpr ⟨y.decl, (mem_objects.mp hy).2, hname.symm, rfl, ?_⟩
    rw [PlacedObject.path, hname]
  · rintro ⟨p, span, hp, hlookup⟩
    obtain ⟨m, hup, hentry⟩ := (hs.lookup_along hxl hchain).mp hlookup
    obtain ⟨o, ho, hname, -, rfl⟩ := mem_entries_object.mp hentry
    refine ⟨⟨m, o⟩, ⟨hx, ?_, hup, p, hp, hname.symm⟩, by rw [PlacedObject.path, hname]⟩
    exact mem_objects.mpr ⟨mem_levels_of_reflTransGen hxl hup, ho⟩

/-- An object type specializes at most one other. -/
lemma Scoped.specializes_rightUnique (hs : s.Scoped P) : Relator.RightUnique s.Specializes := by
  intro x y z hxy hxz
  obtain ⟨chain, hchain⟩ := hs.exists_lineage x.level (mem_objects.mp hxy.1).1
  obtain ⟨p, _, hp, hy⟩ := (hs.specializes_iff hxy.1 hchain).mp ⟨y, hxy, rfl⟩
  obtain ⟨q, _, hq, hz⟩ := (hs.specializes_iff hxy.1 hchain).mp ⟨z, hxz, rfl⟩
  cases hp.symm.trans hq
  obtain ⟨hpath, -⟩ := Visible.mk.inj (Option.some.inj (hy.symm.trans hz))
  exact hs.eq_of_path_eq hxy.2.1 hxz.2.1 hpath

end Schema

/-! ## Binding one object type -/

namespace Resolve

variable {s : Schema} {P : PrimitiveSet} {scope : Scope} {path : TypePath} {o : ObjectType}

/-- A parent is bound to the object type that its name denotes. -/
lemma value_bindParent_iff {t : TypePath} : (bindParent s scope path o).value = some t ↔
    ∃ p span, o.parent = some p ∧ scope.lookup p.value = some ⟨t, .object, span⟩ := by
  unfold bindParent
  cases o.parent with
  | none => simp
  | some p =>
      rcases hlookup : scope.lookup p.value with _ | ⟨target, _ | _, span⟩ <;> simp [hlookup]

/-- Nothing is reported if the parent, where there is one, is bound. -/
lemma notes_bindParent_iff : (bindParent s scope path o).notes = [] ↔
    ∀ p, o.parent = some p → ∃ t, (bindParent s scope path o).value = some t := by
  unfold bindParent
  cases o.parent with
  | none => simp
  | some p =>
      rcases hlookup : scope.lookup p.value with _ | ⟨target, _ | _, span⟩ <;> simp [hlookup]

/-- A type is found if it is primitive or in scope. -/
lemma isSome_typeRef?_iff {name : String} :
    (typeRef? P scope name).isSome ↔ name ∈ P.names ∨ name ∈ scope.map (·.1) := by
  have hscope : name ∈ scope.map (·.1) ↔ (scope.lookup name).isSome := by
    rw [← not_iff_not, ← lookup_eq_none_iff_not_mem, Option.not_isSome_iff_eq_none]
  rw [hscope, typeRef?]
  rcases scope.lookup name with _ | ⟨target, _ | _, span⟩ <;> simp [PrimitiveSet.contains]

/-- A property with its type bound, if the type is known. -/
def bindProperty? (P : PrimitiveSet) (scope : Scope) (path : TypePath) (p : Property) :
    Option ResolvedProperty :=
  (typeRef? P scope p.type.value.name).map fun type =>
    ⟨p.name.value, type, p.description, path, p.name.span⟩

variable {props : List Property}

lemma value_bindProperties : (bindProperties s P scope path props).value =
    props.filterMap (bindProperty? P scope path) := by
  induction props with
  | nil => rfl
  | cons p ps ih =>
      rw [bindProperties, List.filterMap_cons, bindProperty?]
      cases typeRef? P scope p.type.value.name with
      | none => simpa using ih
      | some type => simpa using ih

/-- Nothing is reported if all types of properties are found. -/
lemma notes_bindProperties_iff : (bindProperties s P scope path props).notes = [] ↔
    ∀ p ∈ props, p.type.value.name ∈ P.names ∨ p.type.value.name ∈ scope.map (·.1) := by
  simp only [← isSome_typeRef?_iff]
  induction props with
  | nil => simp [bindProperties]
  | cons p ps ih =>
      rw [bindProperties, List.forall_mem_cons, ← ih]
      cases typeRef? P scope p.type.value.name <;> simp

end Resolve

/-! ## Binding all object types -/

namespace Schema

open Resolve

variable {s : Schema} {P : PrimitiveSet} {x y : PlacedObject} {l : Level}

/-- The object types in the order of their levels. -/
def orderedObjects (s : Schema) : List PlacedObject :=
  s.orderedLevels.flatMap Level.objects

/-- Ordering the levels loses no object type. -/
lemma Grounded.mem_orderedObjects (hs : s.Grounded) : x ∈ s.orderedObjects ↔ x ∈ s.objects := by
  simp only [orderedObjects, objects, List.mem_flatMap, hs.mem_orderedLevels]

/-- What binding makes of an object type. -/
def boundObject (s : Schema) (P : PrimitiveSet) (x : PlacedObject) :
    Check (TypePath × BoundObject) :=
  bindObject s P ((s.scopesOf P).value.of x.level.name.value) x.level.name.value x.decl

/-- The bindings of a grounded schema. -/
abbrev bindingsOf (s : Schema) (P : PrimitiveSet) : Check Bindings :=
  bindings s P (s.scopesOf P).value s.orderedLevels

lemma objects_bindingsOf (s : Schema) (P : PrimitiveSet) :
    (s.bindingsOf P).value.objects = s.orderedObjects.map fun x => (s.boundObject P x).value := by
  have hvalue : (s.bindingsOf P).value.objects = (Noted.each (fun l => Noted.each
      (bindObject s P ((s.scopesOf P).value.of l.name.value) l.name.value) l.objectTypes)
        s.orderedLevels).value.flatten := rfl
  rw [hvalue, Noted.value_each, ← List.flatMap_def, orderedObjects, List.map_flatMap]
  simp only [Noted.value_each, Level.objects, List.map_map]
  rfl

/-- Binding reports nothing if it reports nothing for any object type. -/
lemma Grounded.notes_bindingsOf_iff (hs : s.Grounded) : (s.bindingsOf P).notes = [] ↔
    ∀ x ∈ s.objects, (s.boundObject P x).notes = [] := by
  have hnotes : (s.bindingsOf P).notes = [] ↔ (Noted.each (fun l => Noted.each
      (bindObject s P ((s.scopesOf P).value.of l.name.value) l.name.value) l.objectTypes)
        s.orderedLevels).notes = [] := by
    simp [bindingsOf, bindings]
  rw [hnotes, Noted.notes_each, List.flatMap_eq_nil_iff]
  simp only [Noted.notes_each, List.flatMap_eq_nil_iff, hs.mem_orderedLevels, mem_objects]
  constructor
  · rintro h x ⟨hl, hx⟩
    exact h x.level hl x.decl hx
  · intro h l hl o ho
    exact h ⟨l, o⟩ ⟨hl, ho⟩

/-- **Nothing is noted about bindings exactly when every name that object types use is known.** -/
theorem Scoped.notes_bindingsOf_eq_nil_iff (hs : s.Scoped P) :
    (s.bindingsOf P).notes = [] ↔ s.ParentsVisible ∧ s.PropertyTypesVisible P := by
  rw [hs.notes_bindingsOf_iff, ParentsVisible, PropertyTypesVisible, ← forall₂_and]
  refine forall₂_congr fun x hx => ?_
  obtain ⟨hl, -⟩ := mem_objects.mp hx
  obtain ⟨chain, hchain⟩ := hs.exists_lineage x.level hl
  have hnotes : (s.boundObject P x).notes = [] ↔
      (bindParent s (Scope.along chain) x.path x.decl).notes = [] ∧
        (bindProperties s P (Scope.along chain) x.path x.decl.properties).notes = [] := by
    rw [boundObject, hs.of_scopesOf hl hchain]
    simp [bindObject, PlacedObject.path]
  rw [hnotes, notes_bindParent_iff, notes_bindProperties_iff]
  simp only [value_bindParent_iff, ← hs.specializes_iff hx hchain, hs.mem_names_along hchain]
  refine and_congr_left fun _ => forall₂_congr fun p _ => ?_
  exact ⟨fun ⟨_, y, hy, _⟩ => ⟨y, hy⟩, fun ⟨y, hy⟩ => ⟨_, y, hy, rfl⟩⟩

/-! ## The forest of object types -/

/-- Each object type has a path of its own. -/
lemma Grounded.paths_orderedObjects_nodup (hs : s.Grounded) :
    (s.orderedObjects.map PlacedObject.path).Nodup := by
  have hlevels : s.orderedLevels.Nodup := List.Nodup.of_map _ hs.names_orderedLevels_nodup
  refine List.Nodup.map_on ?_ ?_
  · intro x hx y hy
    exact hs.eq_of_path_eq (hs.mem_orderedObjects.mp hx) (hs.mem_orderedObjects.mp hy)
  · refine List.nodup_flatMap.mpr ⟨fun l hl => ?_, hlevels.imp_of_mem ?_⟩
    · refine List.Nodup.map ?_ (List.Nodup.of_map _
        (hs.names_objectTypes_nodup (hs.mem_orderedLevels.mp hl)))
      intro o q h
      exact (PlacedObject.mk.inj h).2
    · intro l m _ _ hne x hxl hxm
      exact hne ((Level.mem_objects.mp hxl).1.symm.trans (Level.mem_objects.mp hxm).1)

lemma Grounded.paths_bindingsOf (hs : s.Grounded) :
    (s.bindingsOf P).value.paths = s.orderedObjects.map PlacedObject.path := by
  rw [Bindings.paths, objects_bindingsOf, List.map_map]
  exact keepFirst_eq_self hs.paths_orderedObjects_nodup

lemma Grounded.path_mem_paths (hs : s.Grounded) (P : PrimitiveSet) (hx : x ∈ s.objects) :
    x.path ∈ (s.bindingsOf P).value.paths := by
  rw [hs.paths_bindingsOf]
  exact List.mem_map_of_mem (hs.mem_orderedObjects.mpr hx)

/-- An object type's path leads to its binding. -/
lemma Grounded.get?_bindingsOf (hs : s.Grounded) (hx : x ∈ s.objects) :
    (s.bindingsOf P).value.get? x.path = some (s.boundObject P x).value.2 := by
  have hkeys : ((s.bindingsOf P).value.objects.reverse.map (·.1)).Nodup := by
    rw [objects_bindingsOf, List.map_reverse, List.nodup_reverse, List.map_map]
    exact hs.paths_orderedObjects_nodup
  rw [Bindings.get?, lookup_eq_some_iff_mem hkeys, List.mem_reverse, objects_bindingsOf]
  exact List.mem_map.mpr ⟨x, hs.mem_orderedObjects.mpr hx, rfl⟩

/-- An object type is linked to what its scope holds under the name that it extends. -/
lemma Grounded.links_forest_iff_lookup (hs : s.Grounded) (hx : x ∈ s.objects) {chain : List Level}
    (hchain : Lineage s.Extends x.level chain) {t : TypePath} :
    (s.bindingsOf P).value.forest.Links x.path t ↔ ∃ p span, x.decl.parent = some p ∧
      (Scope.along chain).lookup p.value = some ⟨t, .object, span⟩ := by
  obtain ⟨hl, -⟩ := mem_objects.mp hx
  have hmem := hs.path_mem_paths P hx
  have hparent : (s.bindingsOf P).value.forest.parent? x.path =
      (bindParent s (Scope.along chain) x.path x.decl).value := by
    rw [Bindings.forest, Forest.parent?_ofParent, if_pos hmem, Bindings.parent?,
      hs.get?_bindingsOf hx, boundObject, hs.of_scopesOf hl hchain]
    rfl
  rw [Forest.Links, hparent, value_bindParent_iff]

/-- A link between bindings is a step of specialization. -/
lemma Scoped.links_forest_iff (hs : s.Scoped P) (hx : x ∈ s.objects) {t : TypePath} :
    (s.bindingsOf P).value.forest.Links x.path t ↔ ∃ y, s.Specializes x y ∧ y.path = t := by
  obtain ⟨chain, hchain⟩ := hs.exists_lineage x.level (mem_objects.mp hx).1
  rw [hs.links_forest_iff_lookup hx hchain, hs.specializes_iff hx hchain]

/-- The lineages of paths are the lineages of object types. -/
lemma Scoped.lineage_forest_iff (hs : s.Scoped P) (hx : x ∈ s.objects) {paths : List TypePath} :
    Lineage (s.bindingsOf P).value.forest.Links x.path paths ↔
      ∃ chain, Lineage s.Specializes x chain ∧ chain.map PlacedObject.path = paths :=
  Lineage.map_iff (p := (· ∈ s.objects)) (fun _ _ _ h => h.2.1)
    (fun _ ha _ => hs.links_forest_iff ha) hx

/-- **No cycle of object types is found exactly when none is its own ancestor.** -/
theorem Scoped.objectCycles_eq_nil_iff (hs : s.Scoped P) :
    objectCycles (s.bindingsOf P).value = [] ↔ ∀ x, ¬ Relation.TransGen s.Specializes x x := by
  have hlineages : objectCycles (s.bindingsOf P).value = [] ↔
      ∀ x ∈ s.objects, ∃ chain, Lineage s.Specializes x chain := by
    rw [objectCycles, List.map_eq_nil_iff, Forest.cycles_eq_nil_iff, hs.paths_bindingsOf,
      List.forall_mem_map]
    simp only [hs.mem_orderedObjects]
    refine forall₂_congr fun x hx => ?_
    simp only [hs.lineage_forest_iff hx]
    constructor
    · rintro ⟨_, chain, hchain, -⟩
      exact ⟨chain, hchain⟩
    · rintro ⟨chain, hchain⟩
      exact ⟨_, chain, hchain, rfl⟩
  rw [hlineages]
  exact Lineage.forall_exists_iff_acyclic hs.specializes_rightUnique
    fun _ _ h => ⟨h.1, h.2.1⟩

end Schema

end LevelSchema
