import LevelSchema.Proofs.Resolved.Inheritance

/-!
# Resolved schemas are closed under reference

A property is bound in the level that declares its owner, and used in every level below.  So there
are two questions about its type.

**Is it the right one?**  `Schema.BindsLexically` is the rule of lexical scoping, said of
declarations only: a name stands for the one type of that name that the level or an ancestor
declares, and for a primitive only where there is none.

**Can it be found again?**  The resolved schema is searched by path, level first.  Whatever a
property or the list of ancestors refers to is found there, at the level of the object type or above
it (`Schema.binds_lexically_of_resolve`).
-/

namespace LevelSchema

/-- The path leads to the level itself or to one of its ancestors. -/
def ResolvedLevel.Spans (level : ResolvedLevel) (path : TypePath) : Prop :=
  path.level = level.name ∨ path.level ∈ level.ancestors

/-- What a reference stands for is found in the schema.  Nothing has to be found for a primitive,
and an unresolved reference finds nothing. -/
def ResolvedSchema.Finds (r : ResolvedSchema) : TypeRef → Prop
  | .parameter path => ∃ t, r.parameterType? path = some t ∧ t.name.value = path.name
  | .object path => ∃ o, r.objectType? path = some o ∧ o.path = path
  | .primitive _ => True
  | .unresolved _ => False

namespace Schema

variable {s : Schema} {P : PrimitiveSet} {l m : Level} {x y : PlacedObject} {r : ResolvedSchema}
  {level : ResolvedLevel} {o : ResolvedObject} {name : String} {t : TypeRef}

/-! ## The right type -/

/-- Written in the level `l`, the name stands for `t` by the rule of lexical scoping. -/
structure BindsLexically (s : Schema) (P : PrimitiveSet) (l : Level) (name : String) (t : TypeRef) :
    Prop where
  parameter : ∀ m, Relation.ReflTransGen s.Extends l m →
    name ∈ m.parameterTypes.map (·.name.value) → t = .parameter ⟨m.name.value, name⟩
  object : ∀ m, Relation.ReflTransGen s.Extends l m →
    name ∈ m.objectTypes.map (·.name.value) → t = .object ⟨m.name.value, name⟩
  primitive : (∀ m, Relation.ReflTransGen s.Extends l m → name ∉ m.typeNames) →
    t = .primitive name ∧ name ∈ P.names
  unique : ∃ chain, Lineage s.Extends l chain ∧ (chain.flatMap Level.typeNames).count name ≤ 1

/-- A name denotes one type. -/
lemma Scoped.eq_of_denotes (hs : s.Scoped P) (hl : l ∈ s.levels) {u : TypeRef}
    (ht : s.Denotes P l name t) (hu : s.Denotes P l name u) : t = u := by
  rw [← hs.typeRef?_eq_some_iff hl] at ht hu
  exact Option.some.inj (ht.symm.trans hu)

/-- What a name denotes is bound lexically. -/
lemma Scoped.bindsLexically_of_denotes (hs : s.Scoped P) (hl : l ∈ s.levels)
    (ht : s.Denotes P l name t) : s.BindsLexically P l name t where
  parameter m hm hname := hs.eq_of_denotes hl ht ⟨rfl, .inl ⟨m, hm, rfl, hname⟩⟩
  object m hm hname := hs.eq_of_denotes hl ht ⟨rfl, .inl ⟨m, hm, rfl, hname⟩⟩
  primitive hnone := by
    obtain ⟨m, hm, hdeclares⟩ | hprimitive := ht.declared
    · exact absurd (ht.name_eq ▸ hdeclares.mem_typeNames) (hnone m hm)
    · exact hprimitive
  unique := by
    obtain ⟨chain, hchain⟩ := hs.exists_lineage l hl
    have hnodup := (hs.typesDistinct l hl chain hchain).1
    exact ⟨chain, hchain, List.nodup_iff_count_le_one.mp hnodup name⟩

/-! ## Looking up by path -/

/-- Each level is found again in the resolved schema. -/
lemma WellFormed.level?_resolved (hs : s.WellFormed) (h : s.resolve P = .ok r) (hl : l ∈ s.levels) :
    ∃ level, r.level? l.name.value = some level ∧ s.LevelYields P l level := by
  obtain ⟨level, hlevel, hyields⟩ := hs.exists_resolved h hl
  have hnodup : (r.levels.map (·.name)).Nodup := (hs.perm_names h).nodup_iff.mpr hs.names_nodup
  exact ⟨level, (find?_key_eq_some_iff hnodup).mpr ⟨hlevel, hyields.name⟩, hyields⟩

/-- Each object type is found again by its path. -/
lemma WellFormed.objectType?_resolved (hs : s.WellFormed) (h : s.resolve P = .ok r)
    (hx : x ∈ s.objects) : ∃ o, r.objectType? x.path = some o ∧ o.path = x.path := by
  obtain ⟨hl, hdecl⟩ := mem_objects.mp hx
  obtain ⟨level, hlevel, hyields⟩ := hs.level?_resolved h hl
  obtain ⟨o, ho, hxo⟩ := exists_of_forall₂_of_mem hyields.objectTypes.flip
    (Level.mem_objects.mpr ⟨rfl, hdecl⟩)
  have hfound : (level.objectTypes.find? fun o => o.path == x.path).isSome = true :=
    List.find?_isSome.mpr ⟨o, ho, by simp [hxo.path]⟩
  obtain ⟨found, hfind⟩ := Option.isSome_iff_exists.mp hfound
  refine ⟨found, ?_, by simpa using List.find?_some hfind⟩
  rw [ResolvedSchema.objectType?, PlacedObject.path, hlevel]
  exact hfind

lemma WellFormed.parameterType?_resolved (hs : s.WellFormed) (h : s.resolve P = .ok r)
    (hl : l ∈ s.levels) (hname : name ∈ l.parameterTypes.map (·.name.value)) :
    ∃ t, r.parameterType? ⟨l.name.value, name⟩ = some t ∧ t.name.value = name := by
  obtain ⟨level, hlevel, hyields⟩ := hs.level?_resolved h hl
  obtain ⟨t, ht, rfl⟩ := List.mem_map.mp hname
  have hfound : (l.parameterTypes.find? fun p => p.name.value == t.name.value).isSome = true :=
    List.find?_isSome.mpr ⟨t, ht, by simp⟩
  obtain ⟨found, hfind⟩ := Option.isSome_iff_exists.mp hfound
  refine ⟨found, ?_, by simpa using List.find?_some hfind⟩
  rw [ResolvedSchema.parameterType?, hlevel]
  simpa [hyields.parameterTypes] using hfind

/-- What a name denotes is found in the resolved schema. -/
lemma Denotes.finds (hs : s.WellFormed) (h : s.resolve P = .ok r) (hl : l ∈ s.levels)
    (ht : s.Denotes P l name t) : r.Finds t := by
  obtain ⟨m, hm, hdeclares⟩ | ⟨rfl, -⟩ := ht.declared
  · have hml := mem_levels_of_reflTransGen hl hm
    cases t with
    | parameter path =>
        obtain ⟨hlevel, hname⟩ := hdeclares
        obtain ⟨found, hfound, heq⟩ := hs.parameterType?_resolved h hml hname
        exact ⟨found, by rw [← hfound, ← hlevel], heq⟩
    | object path =>
        obtain ⟨hlevel, hname⟩ := hdeclares
        obtain ⟨decl, hdecl, heq⟩ := List.mem_map.mp hname
        have hpath : (⟨m, decl⟩ : PlacedObject).path = path := by
          rw [PlacedObject.path, heq, ← hlevel]
        exact hpath ▸ hs.objectType?_resolved h (mem_objects.mpr ⟨hml, hdecl⟩)
    | primitive n => exact hdeclares.elim
    | unresolved n => exact hdeclares.elim
  · trivial

/-! ## Where references lead -/

/-- A resolved level spans the declared levels from which it inherits. -/
lemma LevelYields.spans (hs : s.WellFormed) (hr : s.LevelYields P l level)
    (hm : Relation.ReflTransGen s.Extends l m) {path : TypePath}
    (hpath : path.level = m.name.value) : level.Spans path := by
  rw [ResolvedLevel.Spans, hpath, hr.name, hr.mem_ancestors_iff hs]
  refine (Relation.reflTransGen_iff_eq_or_transGen.mp hm).imp ?_ fun htrans => ?_
  · exact congrArg fun l : Level => l.name.value
  · exact ⟨m, htrans, rfl⟩

lemma Denotes.spans (hs : s.WellFormed) (hr : s.LevelYields P l level) (ht : s.Denotes P l name t)
    {path : TypePath} (hpath : t = .parameter path ∨ t = .object path) : level.Spans path := by
  obtain ⟨m, hm, hdeclares⟩ | ⟨rfl, -⟩ := ht.declared
  · rcases hpath with rfl | rfl
    · exact hr.spans hs hm hdeclares.1
    · exact hr.spans hs hm hdeclares.1
  · simp at hpath

/-- The object types above an object type are found at its level or above. -/
lemma LevelYields.ancestor_found (hs : s.WellFormed) (h : s.resolve P = .ok r)
    (hr : s.LevelYields P x.level level) (hx : x ∈ s.objects) (ho : s.ObjectYields P x o)
    {path : TypePath} (hpath : path ∈ o.ancestors) :
    (∃ a, r.objectType? path = some a ∧ a.path = path) ∧ level.Spans path := by
  obtain ⟨chain, hchain, hancestors, -⟩ := ho.lineage
  rw [hancestors] at hpath
  obtain ⟨y, hy, rfl⟩ := List.mem_map.mp hpath
  have hy := List.dropLast_subset chain hy
  exact ⟨hs.objectType?_resolved h (mem_objects_of_lineage hx hchain hy),
    hr.spans hs (reflTransGen_of_mem_lineage hchain hy) rfl⟩

/-- A property of an object type was declared by the type or by one above it, and has the type that
its name denotes there. -/
lemma ObjectYields.exists_denotes (hs : s.Bound P) (hx : x ∈ s.objects) (ho : s.ObjectYields P x o)
    {q : ResolvedProperty} (hq : q ∈ o.properties) :
    ∃ y ∈ s.objects, Relation.ReflTransGen s.Specializes x y ∧
      Relation.ReflTransGen s.Extends x.level y.level ∧ ∃ p ∈ y.decl.properties,
        p.Yields y.path q ∧ s.Denotes P y.level p.type.value.name q.type := by
  obtain ⟨chain, hchain, -, hproperties⟩ := ho.lineage
  rw [hproperties, List.mem_flatMap] at hq
  obtain ⟨y, hy, hq⟩ := hq
  obtain ⟨p, hp, rfl⟩ := List.mem_map.mp hq
  have hyo := mem_objects_of_lineage hx hchain hy
  have hdenotes := hs.denotes_typeAt hyo hp
  exact ⟨y, hyo, (hchain.mem_iff hs.specializes_rightUnique).mp hy,
    reflTransGen_of_mem_lineage hchain hy, p, hp, ⟨rfl, hdenotes.name_eq, rfl, rfl, rfl⟩, hdenotes⟩

/-- **Types are bound lexically, and the resolved schema is closed under reference.**  Every
property of a resolved object type comes from a declaration of the type itself or of one above it,
and its type is what the written name stands for where it is written.  That type and all ancestors
are found by their paths, in the level of the object type or in one above. -/
theorem binds_lexically_of_resolve {source : String} {loaded : Noted Diagnostic Schema}
    (hload : Schema.ofSource source = .ok loaded) (hresolve : loaded.value.resolve P = .ok r) :
    ∀ level ∈ r.levels, ∀ o ∈ level.objectTypes, ∃ x ∈ loaded.value.objects, o.path = x.path ∧
      x.level.name.value = level.name ∧
      (∀ q ∈ o.properties, ∃ y, Relation.ReflTransGen loaded.value.Specializes x y ∧
        ∃ p ∈ y.decl.properties, p.Yields y.path q ∧
          loaded.value.BindsLexically P y.level p.type.value.name q.type ∧ r.Finds q.type ∧
            ∀ path, q.type = .parameter path ∨ q.type = .object path → level.Spans path) ∧
      ∀ path ∈ o.ancestors,
        (∃ a, r.objectType? path = some a ∧ a.path = path) ∧ level.Spans path := by
  intro level hlevel o ho
  have hs := wellFormed_of_ofSource hload
  have hbound := hs.bound_of_resolve hresolve
  obtain ⟨l, hl, hr⟩ := hs.exists_levelYields hresolve hlevel
  obtain ⟨x, hx, rfl, hyields⟩ := hr.exists_objectYields hl ho
  refine ⟨x, hx, hyields.path, hr.name.symm, fun q hq => ?_, fun path hpath => ?_⟩
  · obtain ⟨y, hy, hxy, hup, p, hp, hpq, hdenotes⟩ := hyields.exists_denotes hbound hx hq
    have hyl := (mem_objects.mp hy).1
    refine ⟨y, hxy, p, hp, hpq, hbound.bindsLexically_of_denotes hyl hdenotes,
      hdenotes.finds hs hresolve hyl, fun path hpath => ?_⟩
    exact (hdenotes.of_ancestor hup).spans hs hr hpath
  · exact hr.ancestor_found hs hresolve hx hyields hpath

/-- A level below another.  Its object type inherits a property of a declared type and one of a
primitive type from the level above. -/
def usesOnSite : String :=
  "AbstractionLevel City extends Site\n    Object Tower extends Plot\n        Plot Lot\n" ++
    "AbstractionLevel Site\n    Parameter Use\n        Public\n    Object Plot\n" ++
    "        Use Zone\n        Curve Edge\n"

theorem usesOnSite_binds_lexically : ∃ loaded r, Schema.ofSource usesOnSite = .ok loaded ∧
    loaded.value.resolve .builtin = .ok r ∧ (∃ level ∈ r.levels, ∃ o ∈ level.objectTypes,
      o.properties.map (·.type) =
        [.parameter ⟨"Site", "Use"⟩, .primitive "Curve", .object ⟨"Site", "Plot"⟩]) ∧
    ∀ level ∈ r.levels, ∀ o ∈ level.objectTypes, ∃ x ∈ loaded.value.objects, o.path = x.path ∧
      x.level.name.value = level.name ∧
      (∀ q ∈ o.properties, ∃ y, Relation.ReflTransGen loaded.value.Specializes x y ∧
        ∃ p ∈ y.decl.properties, p.Yields y.path q ∧
          loaded.value.BindsLexically .builtin y.level p.type.value.name q.type ∧ r.Finds q.type ∧
            ∀ path, q.type = .parameter path ∨ q.type = .object path → level.Spans path) ∧
      ∀ path ∈ o.ancestors,
        (∃ a, r.objectType? path = some a ∧ a.path = path) ∧ level.Spans path := by
  have hrun : ((Schema.ofSource usesOnSite).bind fun loaded =>
      (loaded.value.resolve .builtin).bind fun r =>
        if ∃ level ∈ r.levels, ∃ o ∈ level.objectTypes, o.properties.map (·.type) =
          [.parameter ⟨"Site", "Use"⟩, .primitive "Curve", .object ⟨"Site", "Plot"⟩]
        then .ok r else .error ⟨[]⟩).isOk = true := by
    decide +kernel
  obtain ⟨r, hr⟩ := exists_of_isOk hrun
  obtain ⟨loaded, hload, hr⟩ := bind_eq_ok_iff.mp hr
  obtain ⟨r, hresolve, hr⟩ := bind_eq_ok_iff.mp hr
  split_ifs at hr with htypes
  exact ⟨loaded, r, hload, hresolve, htypes, binds_lexically_of_resolve hload hresolve⟩

end Schema

end LevelSchema
