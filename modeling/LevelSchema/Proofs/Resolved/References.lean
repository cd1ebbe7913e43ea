import LevelSchema.Proofs.Resolved.Flatten

/-!
# What a type name refers to

A type is referred to by its name alone, and the scope of a level says which one is meant.
`Schema.Denotes` says the same without a scope: the type that the level or one of its ancestors
declares under the name, with its kind, or the primitive of that name.  In a schema whose names do
not clash the two agree (`Schema.Scoped.typeRef?_eq_some_iff`), so a name denotes at most one type.
-/

namespace LevelSchema

/-- The level declares the type that is referred to, and as a type of this kind. -/
def Level.Declares (m : Level) : TypeRef → Prop
  | .parameter path =>
      path.level = m.name.value ∧ path.name ∈ m.parameterTypes.map (·.name.value)
  | .object path => path.level = m.name.value ∧ path.name ∈ m.objectTypes.map (·.name.value)
  | .primitive _ | .unresolved _ => False

/-- A visible type as the type of a property. -/
def Visible.ref (v : Visible) : TypeRef :=
  match v.kind with
  | .parameter => .parameter v.path
  | .object => .object v.path

namespace Level

variable {m : Level} {t : TypeRef} {name : String} {v : Visible}

lemma Declares.mem_typeNames (h : m.Declares t) : t.name ∈ m.typeNames := by
  simp only [typeNames, ownTypes, List.map_append, List.map_map, List.mem_append]
  cases t with
  | parameter path => exact .inl h.2
  | object path => exact .inr h.2
  | primitive n => exact h.elim
  | unresolved n => exact h.elim

lemma mem_entries : (name, v) ∈ m.entries ↔
    ∃ t ∈ m.ownTypes, t.1.value = name ∧ v = ⟨⟨m.name.value, name⟩, t.2, t.1.span⟩ := by
  simp only [entries, Resolve.entry, List.mem_map, Prod.mk.injEq]
  constructor
  · rintro ⟨t, ht, rfl, rfl⟩
    exact ⟨t, ht, rfl, rfl⟩
  · rintro ⟨t, ht, rfl, rfl⟩
    exact ⟨t, ht, rfl, rfl⟩

/-- What a level adds to a scope are the types it declares. -/
lemma declares_iff : (∃ v, (name, v) ∈ m.entries ∧ v.ref = t) ↔ m.Declares t ∧ t.name = name := by
  constructor
  · rintro ⟨v, hv, rfl⟩
    obtain ⟨⟨n, kind⟩, ht, rfl, rfl⟩ := mem_entries.mp hv
    simp only [ownTypes, List.mem_append, List.mem_map, Prod.mk.injEq] at ht
    rcases ht with ⟨p, hp, rfl, rfl⟩ | ⟨o, ho, rfl, rfl⟩
    · exact ⟨⟨rfl, List.mem_map.mpr ⟨p, hp, rfl⟩⟩, rfl⟩
    · exact ⟨⟨rfl, List.mem_map.mpr ⟨o, ho, rfl⟩⟩, rfl⟩
  · rintro ⟨ht, rfl⟩
    cases t with
    | parameter path =>
        obtain ⟨hlevel, hname⟩ := ht
        obtain ⟨p, hp, hp'⟩ := List.mem_map.mp hname
        refine ⟨⟨path, .parameter, p.name.span⟩,
          mem_entries.mpr ⟨(p.name, .parameter), ?_, hp', ?_⟩, rfl⟩
        · exact List.mem_append_left _ (List.mem_map.mpr ⟨p, hp, rfl⟩)
        · rw [← hlevel]
          rfl
    | object path =>
        obtain ⟨hlevel, hname⟩ := ht
        obtain ⟨o, ho, ho'⟩ := List.mem_map.mp hname
        refine ⟨⟨path, .object, o.name.span⟩, mem_entries.mpr ⟨(o.name, .object), ?_, ho', ?_⟩, rfl⟩
        · exact List.mem_append_right _ (List.mem_map.mpr ⟨o, ho, rfl⟩)
        · rw [← hlevel]
          rfl
    | primitive n => exact ht.elim
    | unresolved n => exact ht.elim

end Level

namespace Schema

open Resolve

variable {s : Schema} {P : PrimitiveSet} {l m : Level} {name : String} {t : TypeRef}

/-- Seen from `l`, the name stands for `t`: a type of that name that `l` or an ancestor declares, or
the primitive of that name. -/
structure Denotes (s : Schema) (P : PrimitiveSet) (l : Level) (name : String) (t : TypeRef) :
    Prop where
  name_eq : t.name = name
  declared : (∃ m, Relation.ReflTransGen s.Extends l m ∧ m.Declares t) ∨
    t = .primitive name ∧ name ∈ P.names

lemma Denotes.of_ancestor (hlm : Relation.ReflTransGen s.Extends l m) (h : s.Denotes P m name t) :
    s.Denotes P l name t := by
  refine ⟨h.name_eq, h.declared.imp_left ?_⟩
  rintro ⟨n, hmn, hn⟩
  exact ⟨n, hlm.trans hmn, hn⟩

/-- What a scope holds under a name, as a reference. -/
lemma typeRef?_eq (P : PrimitiveSet) (scope : Scope) (name : String) : typeRef? P scope name =
    ((scope.lookup name).map Visible.ref <|>
      if name ∈ P.names then some (.primitive name) else none) := by
  unfold typeRef?
  rcases scope.lookup name with _ | ⟨path, _ | _, span⟩ <;>
    simp [Visible.ref, PrimitiveSet.contains]

/-- **A scope finds for a name what the name denotes.** -/
theorem Scoped.typeRef?_eq_some_iff (hs : s.Scoped P) (hl : l ∈ s.levels) :
    typeRef? P ((s.scopesOf P).value.of l.name.value) name = some t ↔ s.Denotes P l name t := by
  obtain ⟨chain, hchain⟩ := hs.exists_lineage l hl
  rw [hs.of_scopesOf hl hchain, typeRef?_eq]
  have hdeclared : (∃ v, (Scope.along chain).lookup name = some v ∧ v.ref = t) ↔
      ∃ m, Relation.ReflTransGen s.Extends l m ∧ m.Declares t ∧ t.name = name := by
    simp only [hs.lookup_along hl hchain, ← Level.declares_iff]
    constructor
    · rintro ⟨v, ⟨m, hm, hv⟩, rfl⟩
      exact ⟨m, hm, v, hv, rfl⟩
    · rintro ⟨m, hm, v, hv, rfl⟩
      exact ⟨v, ⟨m, hm, hv⟩, rfl⟩
  constructor
  · intro h
    cases hlookup : (Scope.along chain).lookup name with
    | some v =>
        rw [hlookup] at h
        obtain ⟨m, hm, ht, hname⟩ := hdeclared.mp ⟨v, hlookup, Option.some.inj h⟩
        exact ⟨hname, .inl ⟨m, hm, ht⟩⟩
    | none =>
        have hprimitive :
            (if name ∈ P.names then some (TypeRef.primitive name) else none) = some t := by
          rwa [hlookup] at h
        split_ifs at hprimitive with hP
        cases hprimitive
        exact ⟨rfl, .inr ⟨rfl, hP⟩⟩
  · rintro ⟨rfl, ⟨m, hm, ht⟩ | ⟨ht, hP⟩⟩
    · obtain ⟨v, hlookup, rfl⟩ := hdeclared.mpr ⟨m, hm, ht, rfl⟩
      rw [hlookup]
      rfl
    · -- no type along the lineage is called like a primitive
      have hlookup : (Scope.along chain).lookup t.name = none := by
        rw [lookup_eq_none_iff_not_mem, hs.mem_names_along hchain]
        rintro ⟨m, hm, hname⟩
        exact (hs.avoidsPrimitives m (mem_levels_of_reflTransGen hl hm)).2 _ hname hP
      rw [hlookup, if_pos hP, ← ht]
      rfl

/-- The type of a property is bound to what its name denotes. -/
lemma Bound.denotes_typeAt (hs : s.Bound P) {x : PlacedObject} (hx : x ∈ s.objects) {p : Property}
    (hp : p ∈ x.decl.properties) :
    s.Denotes P x.level p.type.value.name (s.typeAt P x.level p.type.value) :=
  (hs.typeRef?_eq_some_iff (mem_objects.mp hx).1).mp (hs.typeRef?_eq_some hx hp)

end Schema

end LevelSchema
