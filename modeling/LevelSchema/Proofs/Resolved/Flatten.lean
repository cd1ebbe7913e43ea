import LevelSchema.Proofs.Resolved.Bindings

/-!
# What an object type inherits

Flattening goes over bound object types with parents first and adds the properties of each to those
of its parent.  It is described here for any bindings whose links lead to bound types and come to an
end (`Bindings.Closed`), and then for those of a schema.

**Dropped properties.**  A property that clashes is noted and left out, so the tables of a run with
clashes hold less than was declared.  As long as nothing is noted, the entry of an object type is
the concatenation of the properties along its lineage (`Bindings.flat`), and what is added to it
next is compared with all of them.  This is why one statement covers both halves: each step is clean
exactly when its properties can be added to those of the lineage above (`AddsTo`), and a clean step
leaves the table as described.

**Names.**  Generated fields and setters of all properties along a lineage must differ
(`Schema.PropertiesDistinct`).  The fields of one object type are already known to differ from each
other, since loading has compared them.
-/

namespace LevelSchema

/-! ## Adding the properties of one object type -/

namespace Resolve

variable {object : TypePath} {inherited accepted own : List ResolvedProperty}

/-- The properties `own` clash neither with those inherited nor with each other's accessors. -/
structure AddsTo (inherited own : List ResolvedProperty) : Prop where
  fields_new : ∀ p ∈ own, ∀ q ∈ inherited, q.field ≠ p.field
  accessors_new : ∀ p ∈ own, ∀ q ∈ inherited, p.sharesAccessor q = false
  accessors_apart : own.Pairwise fun q p => p.sharesAccessor q = false

/-- Adding properties reports nothing if none collides with an inherited, accepted or own one. -/
lemma notes_addProperties_iff : (addProperties object inherited accepted own).notes = [] ↔
    (∀ p ∈ own, ∀ q ∈ inherited, q.field ≠ p.field) ∧
      (∀ p ∈ own, ∀ q ∈ accepted, p.sharesAccessor q = false) ∧
        own.Pairwise fun q p => p.sharesAccessor q = false := by
  induction own generalizing accepted with
  | nil => simp [addProperties]
  | cons p ps ih =>
      rw [addProperties, List.forall_mem_cons, List.forall_mem_cons, List.pairwise_cons]
      cases hfield : inherited.find? fun q => q.field == p.field with
      | some q =>
          have hclash : ¬ ∀ q ∈ inherited, q.field ≠ p.field := fun h =>
            h q (List.mem_of_find?_eq_some hfield) (by simpa using List.find?_some hfield)
          simp [hclash]
      | none =>
          have hnew : ∀ q ∈ inherited, q.field ≠ p.field := by
            simpa using List.find?_eq_none.mp hfield
          cases hshared : accepted.find? p.sharesAccessor with
          | some q =>
              have hclash : ¬ ∀ q ∈ accepted, p.sharesAccessor q = false := fun h => by
                have hq := h q (List.mem_of_find?_eq_some hshared)
                rw [List.find?_some hshared] at hq
                exact nomatch hq
              simp [hclash]
          | none =>
              have hapart : ∀ q ∈ accepted, p.sharesAccessor q = false := by
                simpa using List.find?_eq_none.mp hshared
              simp only [ih, List.forall_mem_append, List.forall_mem_singleton, forall_and]
              tauto

/-- If nothing is reported, all are added, in order. -/
lemma value_addProperties (h : (addProperties object inherited accepted own).notes = []) :
    (addProperties object inherited accepted own).value = accepted ++ own := by
  induction own generalizing accepted with
  | nil => simp [addProperties]
  | cons p ps ih =>
      rw [addProperties] at h ⊢
      cases hfield : inherited.find? fun q => q.field == p.field with
      | some q => simp [hfield] at h
      | none =>
          cases hshared : accepted.find? p.sharesAccessor with
          | some q => simp [hfield, hshared] at h
          | none =>
              simp only [hfield, hshared] at h ⊢
              rw [ih h, List.append_assoc, List.singleton_append]

lemma addsTo_iff (object : TypePath) :
    (addProperties object inherited inherited own).notes = [] ↔ AddsTo inherited own :=
  notes_addProperties_iff.trans ⟨fun ⟨h₁, h₂, h₃⟩ => ⟨h₁, h₂, h₃⟩, fun ⟨h₁, h₂, h₃⟩ => ⟨h₁, h₂, h₃⟩⟩

/-- Generated names are distinct, and none is that of the setter of another. -/
structure AccessorsDistinct (fields : List String) : Prop where
  nodup : fields.Nodup
  ne_setter : ∀ f ∈ fields, ∀ g ∈ fields, f ≠ "set_" ++ g

/-- Properties share an accessor if one is named like the setter of the other. -/
lemma sharesAccessor_eq_false_iff {p q : ResolvedProperty} : p.sharesAccessor q = false ↔
    p.field ≠ "set_" ++ q.field ∧ q.field ≠ "set_" ++ p.field := by
  simp [ResolvedProperty.sharesAccessor, ResolvedProperty.setter]

/-- No name is that of its own setter, which is longer. -/
lemma ne_set_append (f : String) : f ≠ "set_" ++ f := by
  intro h
  have hlen := congrArg String.length h
  rw [String.length_append] at hlen
  have hset : "set_".length = 4 := rfl
  omega

lemma AddsTo.ne_setter (h : AddsTo inherited own) {p q : ResolvedProperty} (hp : p ∈ own)
    (hq : q ∈ own) : p.field ≠ "set_" ++ q.field := by
  let apart : ResolvedProperty → ResolvedProperty → Prop := fun q p => p.sharesAccessor q = false
  have : Std.Symm apart := ⟨fun _ _ hab =>
    sharesAccessor_eq_false_iff.mpr (sharesAccessor_eq_false_iff.mp hab).symm⟩
  have hrefl : ∀ a ∈ own, apart a a := fun a _ =>
    sharesAccessor_eq_false_iff.mpr ⟨ne_set_append _, ne_set_append _⟩
  have hall := List.Pairwise.forall_of_forall hrefl h.accessors_apart hq hp
  exact (sharesAccessor_eq_false_iff.mp hall).1

/-- Names stay distinct exactly when the next ones can be added, given that these differ among
themselves. -/
lemma accessorsDistinct_append_iff (hown : (own.map (·.field)).Nodup) :
    AccessorsDistinct ((inherited ++ own).map (·.field)) ↔
      AccessorsDistinct (inherited.map (·.field)) ∧ AddsTo inherited own := by
  constructor
  · rintro ⟨hnodup, hset⟩
    have hinh : ∀ q ∈ inherited, q.field ∈ (inherited ++ own).map (·.field) := fun q hq =>
      List.mem_map.mpr ⟨q, List.mem_append_left own hq, rfl⟩
    have hmem : ∀ p ∈ own, p.field ∈ (inherited ++ own).map (·.field) := fun p hp =>
      List.mem_map.mpr ⟨p, List.mem_append_right inherited hp, rfl⟩
    rw [List.map_append, List.nodup_append] at hnodup
    obtain ⟨hleft, -, hdisjoint⟩ := hnodup
    refine ⟨⟨hleft, ?_⟩, ?_, ?_, ?_⟩
    · exact List.forall_mem_map.mpr fun p hp => List.forall_mem_map.mpr fun q hq =>
        hset _ (hinh p hp) _ (hinh q hq)
    · exact fun p hp q hq =>
        hdisjoint _ (List.mem_map.mpr ⟨q, hq, rfl⟩) _ (List.mem_map.mpr ⟨p, hp, rfl⟩)
    · exact fun p hp q hq => sharesAccessor_eq_false_iff.mpr
        ⟨hset _ (hmem p hp) _ (hinh q hq), hset _ (hinh q hq) _ (hmem p hp)⟩
    · exact List.pairwise_of_forall_mem_list fun q hq p hp => sharesAccessor_eq_false_iff.mpr
        ⟨hset _ (hmem p hp) _ (hmem q hq), hset _ (hmem q hq) _ (hmem p hp)⟩
  · rintro ⟨⟨hleft, hset⟩, hadds⟩
    refine ⟨?_, List.forall_mem_map.mpr fun p hp => List.forall_mem_map.mpr fun q hq => ?_⟩
    · rw [List.map_append, List.nodup_append]
      refine ⟨hleft, hown, ?_⟩
      exact List.forall_mem_map.mpr fun q hq => List.forall_mem_map.mpr fun p hp =>
        hadds.fields_new p hp q hq
    · rcases List.mem_append.mp hp with hp | hp <;> rcases List.mem_append.mp hq with hq | hq
      · exact hset _ (List.mem_map.mpr ⟨p, hp, rfl⟩) _ (List.mem_map.mpr ⟨q, hq, rfl⟩)
      · exact (sharesAccessor_eq_false_iff.mp (hadds.accessors_new q hq p hp)).2
      · exact (sharesAccessor_eq_false_iff.mp (hadds.accessors_new p hp q hq)).1
      · exact hadds.ne_setter hp hq

end Resolve

/-! ## Flattening bindings -/

namespace Bindings

open Resolve

variable {b : Bindings} {path parent : TypePath} {chain done paths : List TypePath}
  {acc : FlatTable}

/-- The properties that an object type declares. -/
def own (b : Bindings) (path : TypePath) : List ResolvedProperty :=
  ((b.get? path).map (·.properties)).getD []

/-- What flattening makes of an object type with the given lineage. -/
def flat (b : Bindings) (chain : List TypePath) : Flattened :=
  ⟨chain.dropLast, chain.flatMap b.own⟩

/-- Bindings whose links lead to bound object types and come to an end. -/
structure Closed (b : Bindings) : Prop where
  mem_paths_of_links : ∀ n p, b.forest.Links n p → p ∈ b.paths
  exists_lineage : ∀ n ∈ b.paths, ∃ chain, Lineage b.forest.Links n chain

lemma exists_get? (h : path ∈ b.paths) : ∃ o, b.get? path = some o := by
  rw [paths, mem_keepFirst] at h
  refine Option.ne_none_iff_exists'.mp fun hnone => ?_
  rw [get?, lookup_eq_none_iff_not_mem, List.map_reverse, List.mem_reverse] at hnone
  exact hnone h

/-- The forest of bindings links an object type to its parent. -/
lemma links_forest_iff {o : BoundObject} (hpath : path ∈ b.paths) (ho : b.get? path = some o) :
    b.forest.Links path parent ↔ o.parent = some parent := by
  rw [Forest.Links, forest, Forest.parent?_ofParent, if_pos hpath, parent?, ho]
  rfl

/-- What an object type starts from is what the table holds for its parent. -/
lemma inheritedPart_eq {o : BoundObject} (hpath : path ∈ b.paths) (ho : b.get? path = some o)
    (hchain : Lineage b.forest.Links path chain) (hdone : ∀ p, b.forest.Links path p → p ∈ done)
    (htable : Tabulates b.forest.Links id b.flat done acc) :
    inheritedPart acc o.parent = ⟨chain.dropLast, chain.dropLast.flatMap b.own⟩ := by
  cases hchain with
  | root hroot =>
      have hnone : o.parent = none := by
        refine Option.eq_none_iff_forall_ne_some.mpr fun p hp => hroot p ?_
        exact (links_forest_iff hpath ho).mpr hp
      simp [hnone, inheritedPart]
  | @step _ p above hlink hp =>
      obtain ⟨front, rfl⟩ := hp.eq_append
      have hlookup := htable p (hdone p hlink) _ hp
      rw [id_eq] at hlookup
      simp [(links_forest_iff hpath ho).mp hlink, inheritedPart, hlookup, flat]

/-- One step of flattening: nothing is noted exactly when the properties can be added, and then the
table holds what it should. -/
lemma flattenAll_cons (paths : List TypePath) {o : BoundObject} (hpath : path ∈ b.paths)
    (ho : b.get? path = some o) (hchain : Lineage b.forest.Links path chain)
    (hdone : ∀ p, b.forest.Links path p → p ∈ done)
    (htable : Tabulates b.forest.Links id b.flat done acc) :
    ((flattenAll b acc (path :: paths)).notes = [] ↔
      AddsTo (chain.dropLast.flatMap b.own) (b.own path) ∧
        (flattenAll b ((path, b.flat chain) :: acc) paths).notes = []) ∧
    (AddsTo (chain.dropLast.flatMap b.own) (b.own path) →
      (flattenAll b acc (path :: paths)).value =
        (flattenAll b ((path, b.flat chain) :: acc) paths).value) := by
  have hown : b.own path = o.properties := by simp [own, ho]
  have hbase := inheritedPart_eq hpath ho hchain hdone htable
  have hflat : AddsTo (chain.dropLast.flatMap b.own) (b.own path) →
      (addProperties path (chain.dropLast.flatMap b.own) (chain.dropLast.flatMap b.own)
        (b.own path)).value = (b.flat chain).properties := by
    intro hadds
    obtain ⟨above, rfl⟩ := hchain.eq_append
    rw [value_addProperties ((addsTo_iff path).mpr hadds)]
    simp [flat]
  rw [← addsTo_iff path] at hflat ⊢
  rw [flattenAll, ho]
  simp only [hbase, ← hown, Noted.notes_bind, Noted.value_bind, List.append_eq_nil_iff]
  refine ⟨and_congr_right fun hadds => ?_, fun hadds => ?_⟩
  · rw [hflat hadds]
    rfl
  · rw [hflat hadds]
    rfl

/-- A pass over object types reports nothing if each adds to what it inherits. -/
lemma notes_flattenAll_iff (hpass : Pass b.forest.Links id done paths) (hsub : paths ⊆ b.paths)
    (htable : Tabulates b.forest.Links id b.flat done acc) :
    (flattenAll b acc paths).notes = [] ↔ ∀ path ∈ paths, ∀ chain,
      Lineage b.forest.Links path chain → AddsTo (chain.dropLast.flatMap b.own) (b.own path) := by
  induction paths generalizing acc done with
  | nil => simp [flattenAll]
  | cons path paths ih =>
      obtain ⟨hpath, hsub⟩ := List.cons_subset.mp hsub
      obtain ⟨o, ho⟩ := exists_get? hpath
      obtain ⟨chain, hchain⟩ := hpass.exists_lineage path List.mem_cons_self
      have htail : Tabulates b.forest.Links id b.flat (path :: done)
          ((path, b.flat chain) :: acc) :=
        htable.cons b.forest.links_rightUnique hpass hchain
      rw [(flattenAll_cons paths hpath ho hchain hpass.parentsFirst.1 htable).1,
        List.forall_mem_cons, ih hpass.tail hsub htail]
      refine and_congr_left fun _ => ⟨fun hadds chain' hchain' => ?_, fun h => h chain hchain⟩
      rwa [hchain'.eq b.forest.links_rightUnique hchain]

/-- A pass that reports nothing tabulates the properties along each lineage. -/
lemma tabulates_flattenAll (hpass : Pass b.forest.Links id done paths) (hsub : paths ⊆ b.paths)
    (htable : Tabulates b.forest.Links id b.flat done acc)
    (h : (flattenAll b acc paths).notes = []) :
    Tabulates b.forest.Links id b.flat (paths.reverse ++ done) (flattenAll b acc paths).value := by
  induction paths generalizing acc done with
  | nil => exact htable
  | cons path paths ih =>
      obtain ⟨hpath, hsub⟩ := List.cons_subset.mp hsub
      obtain ⟨o, ho⟩ := exists_get? hpath
      obtain ⟨chain, hchain⟩ := hpass.exists_lineage path List.mem_cons_self
      have hstep := flattenAll_cons paths hpath ho hchain hpass.parentsFirst.1 htable
      obtain ⟨hadds, hrest⟩ := hstep.1.mp h
      rw [hstep.2 hadds, List.reverse_cons, List.append_assoc]
      exact ih hpass.tail hsub (htable.cons b.forest.links_rightUnique hpass hchain) hrest

/-! ## The order of flattening -/

lemma mem_paths_of_lineage (hlinks : ∀ n p, b.forest.Links n p → p ∈ b.paths)
    (hpath : path ∈ b.paths) (hchain : Lineage b.forest.Links path chain) : chain ⊆ b.paths := by
  induction hchain with
  | root => simpa using hpath
  | step hlink _ ih =>
      exact List.append_subset.mpr ⟨ih (hlinks _ _ hlink), by simpa using hpath⟩

/-- The order holds what stands in the lineage of a bound object type. -/
lemma mem_flatOrder_iff_exists : path ∈ flatOrder b ↔
    ∃ n ∈ b.paths, ∃ chain, Lineage b.forest.Links n chain ∧ path ∈ chain := by
  rw [flatOrder, mem_keepFirst, List.mem_flatMap]
  refine exists_congr fun n => and_congr_right fun _ => ?_
  cases hlineage : b.forest.lineage? n with
  | none => simp [← Forest.lineage?_eq_some_iff, hlineage]
  | some chain => simp [← Forest.lineage?_eq_some_iff, hlineage]

/-- Exactly those object types are flattened that are not on a cycle or below one. -/
lemma mem_flatOrder_iff (hlinks : ∀ n p, b.forest.Links n p → p ∈ b.paths) :
    path ∈ flatOrder b ↔ path ∈ b.paths ∧ ∃ chain, Lineage b.forest.Links path chain := by
  rw [mem_flatOrder_iff_exists]
  constructor
  · rintro ⟨n, hn, chain, hchain, hpath⟩
    refine ⟨mem_paths_of_lineage hlinks hn hchain hpath, ?_⟩
    exact hchain.exists_of_reflTransGen b.forest.links_rightUnique
      ((hchain.mem_iff b.forest.links_rightUnique).mp hpath)
  · rintro ⟨hpath, chain, hchain⟩
    exact ⟨path, hpath, chain, hchain, hchain.mem_self⟩

/-- The order of flattening visits parents first. -/
lemma pass_flatOrder (b : Bindings) : Pass b.forest.Links id [] (flatOrder b) := by
  refine ⟨?_, fun path hpath => ?_, ?_, by simp⟩
  · refine ParentsFirst.keepFirst (ParentsFirst.flatMap fun n hn done => ?_)
    cases hlineage : b.forest.lineage? n with
    | none => trivial
    | some chain =>
        exact .of_lineage b.forest.links_rightUnique (Forest.lineage?_eq_some_iff.mp hlineage)
  · obtain ⟨n, -, chain, hchain, hmem⟩ := mem_flatOrder_iff_exists.mp hpath
    exact hchain.exists_of_reflTransGen b.forest.links_rightUnique
      ((hchain.mem_iff b.forest.links_rightUnique).mp hmem)
  · rw [List.map_id]
    exact nodup_keepFirst _

lemma Closed.mem_flatOrder_iff (hb : b.Closed) : path ∈ flatOrder b ↔ path ∈ b.paths := by
  rw [Bindings.mem_flatOrder_iff hb.mem_paths_of_links, and_iff_left_iff_imp]
  exact hb.exists_lineage path

/-- Flattening reports nothing if each object type adds to what it inherits. -/
lemma notes_flatten_iff (hb : b.Closed) : (flatten b).notes = [] ↔ ∀ path ∈ b.paths, ∀ chain,
    Lineage b.forest.Links path chain → AddsTo (chain.dropLast.flatMap b.own) (b.own path) := by
  rw [flatten, notes_flattenAll_iff b.pass_flatOrder
    (fun _ h => hb.mem_flatOrder_iff.mp h) tabulates_nil]
  simp only [hb.mem_flatOrder_iff]

/-- Flattening gives the properties along the lineage. -/
lemma lookup_flatten (hb : b.Closed) (h : (flatten b).notes = []) (hpath : path ∈ b.paths)
    (hchain : Lineage b.forest.Links path chain) :
    (flatten b).value.lookup path = some (b.flat chain) := by
  have htable := tabulates_flattenAll b.pass_flatOrder
    (fun _ h => hb.mem_flatOrder_iff.mp h) tabulates_nil h
  exact htable path (by simpa using hb.mem_flatOrder_iff.mpr hpath) chain hchain

end Bindings

/-! ## The object types of a schema -/

/-- The generated names of the properties that an object type declares. -/
def PlacedObject.fields (x : PlacedObject) : List String :=
  x.decl.properties.map fun p => Name.snake p.name.value

namespace Schema

open Resolve

variable {s : Schema} {P : PrimitiveSet} {x : PlacedObject} {chain : List PlacedObject}

/-- Along every lineage the generated names of fields and accessors are distinct. -/
def PropertiesDistinct (s : Schema) : Prop :=
  ∀ x ∈ s.objects, ∀ chain, Lineage s.Specializes x chain →
    AccessorsDistinct (chain.flatMap PlacedObject.fields)

/-- A scoped schema in which all names that object types use are known, and none is its own
ancestor. -/
structure Bound (s : Schema) (P : PrimitiveSet) : Prop extends s.Scoped P where
  parentsVisible : s.ParentsVisible
  propertyTypesVisible : s.PropertyTypesVisible P
  acyclic : ∀ x, ¬ Relation.TransGen s.Specializes x x

/-- What a type name stands for in a level; the name itself if that is not known. -/
def typeAt (s : Schema) (P : PrimitiveSet) (l : Level) (t : TypeRef) : TypeRef :=
  (typeRef? P ((s.scopesOf P).value.of l.name.value) t.name).getD t

/-- The properties that an object type declares, with their types bound. -/
def boundProperties (s : Schema) (P : PrimitiveSet) (x : PlacedObject) : List ResolvedProperty :=
  x.decl.properties.map fun p =>
    ⟨p.name.value, s.typeAt P x.level p.type.value, p.description, x.path, p.name.span⟩

lemma fields_boundProperties : (s.boundProperties P x).map (·.field) = x.fields := by
  simp [boundProperties, PlacedObject.fields, ResolvedProperty.field]

lemma fields_flatMap_boundProperties (s : Schema) (P : PrimitiveSet) (chain : List PlacedObject) :
    (chain.flatMap (s.boundProperties P)).map (·.field) = chain.flatMap PlacedObject.fields := by
  simp only [List.map_flatMap, fields_boundProperties]

lemma mem_objects_of_lineage (hx : x ∈ s.objects) (hchain : Lineage s.Specializes x chain) :
    chain ⊆ s.objects := by
  induction hchain with
  | root => simpa using hx
  | step hab _ ih => exact List.append_subset.mpr ⟨ih hab.2.1, by simpa using hx⟩

namespace Bound

/-- In a bound schema each object type has a lineage. -/
lemma exists_specialization (hs : s.Bound P) (x : PlacedObject) :
    ∃ chain, Lineage s.Specializes x chain :=
  Lineage.exists_of_acyclic (fun _ _ h => h.2.1) fun y _ => hs.acyclic y

lemma typeRef?_eq_some (hs : s.Bound P) (hx : x ∈ s.objects) {p : Property}
    (hp : p ∈ x.decl.properties) :
    typeRef? P ((s.scopesOf P).value.of x.level.name.value) p.type.value.name =
      some (s.typeAt P x.level p.type.value) := by
  obtain ⟨hl, -⟩ := mem_objects.mp hx
  obtain ⟨above, habove⟩ := hs.exists_lineage x.level hl
  have hsome : (typeRef? P ((s.scopesOf P).value.of x.level.name.value)
      p.type.value.name).isSome = true := by
    rw [hs.of_scopesOf hl habove, isSome_typeRef?_iff, hs.mem_names_along habove]
    exact hs.propertyTypesVisible x hx p hp
  obtain ⟨t, ht⟩ := Option.isSome_iff_exists.mp hsome
  simp [typeAt, ht]

/-- Binding loses no property, since all their types are known. -/
lemma properties_boundObject (hs : s.Bound P) (hx : x ∈ s.objects) :
    (s.boundObject P x).value.2.properties = s.boundProperties P x := by
  have hvalue : (s.boundObject P x).value.2.properties = (bindProperties s P
    ((s.scopesOf P).value.of x.level.name.value) x.path x.decl.properties).value := rfl
  rw [hvalue, value_bindProperties, boundProperties, List.filterMap_eq_map_iff_forall_eq_some]
  intro p hp
  rw [bindProperty?, hs.typeRef?_eq_some hx hp]
  rfl

lemma own_path (hs : s.Bound P) (hx : x ∈ s.objects) :
    (s.bindingsOf P).value.own x.path = s.boundProperties P x := by
  rw [Bindings.own, hs.get?_bindingsOf hx, Option.map_some, Option.getD_some,
    hs.properties_boundObject hx]

/-- The own properties along a chain of bindings are those of its object types. -/
lemma flatMap_own (hs : s.Bound P) (hchain : chain ⊆ s.objects) :
    (chain.map PlacedObject.path).flatMap (s.bindingsOf P).value.own =
      chain.flatMap (s.boundProperties P) := by
  rw [List.flatMap_map]
  exact List.flatMap_congr fun x hx => hs.own_path (hchain hx)

/-- The bindings of a bound schema are closed. -/
lemma closed_bindingsOf (hs : s.Bound P) : (s.bindingsOf P).value.Closed := by
  have hpaths : ∀ t, t ∈ (s.bindingsOf P).value.paths ↔ ∃ x ∈ s.objects, x.path = t := by
    intro t
    rw [hs.paths_bindingsOf, List.mem_map]
    simp only [hs.mem_orderedObjects]
  refine ⟨fun n p hlink => ?_, fun n hn => ?_⟩
  · have hn : n ∈ (s.bindingsOf P).value.paths := by
      by_contra hn
      rw [Forest.Links, Bindings.forest, Forest.parent?_ofParent, if_neg hn] at hlink
      cases hlink
    obtain ⟨x, hx, rfl⟩ := (hpaths n).mp hn
    obtain ⟨y, hxy, rfl⟩ := (hs.links_forest_iff hx).mp hlink
    exact (hpaths _).mpr ⟨y, hxy.2.1, rfl⟩
  · obtain ⟨x, hx, rfl⟩ := (hpaths n).mp hn
    obtain ⟨chain, hchain⟩ := hs.exists_specialization x
    exact ⟨_, (hs.lineage_forest_iff hx).mpr ⟨chain, hchain, rfl⟩⟩

/-- The comparisons of single object types with what they inherit amount to distinct names along
every lineage. -/
lemma addsTo_iff_propertiesDistinct (hs : s.Bound P) :
    (∀ x ∈ s.objects, ∀ chain, Lineage s.Specializes x chain →
      AddsTo (chain.dropLast.flatMap (s.boundProperties P)) (s.boundProperties P x)) ↔
        s.PropertiesDistinct := by
  have hown : ∀ x ∈ s.objects, ((s.boundProperties P x).map (·.field)).Nodup := by
    intro x hx
    obtain ⟨hl, ho⟩ := mem_objects.mp hx
    rw [fields_boundProperties]
    exact ((hs.levels x.level hl).objectTypes x.decl ho).keys_nodup
  have hnames : s.PropertiesDistinct ↔ ∀ x ∈ s.objects, ∀ chain, Lineage s.Specializes x chain →
      AccessorsDistinct ((chain.flatMap (s.boundProperties P)).map (·.field)) := by
    simp only [PropertiesDistinct, fields_flatMap_boundProperties]
  have hmem : ∀ x y, s.Specializes x y → y ∈ s.objects := fun _ _ h => h.2.1
  rw [hnames]
  exact Lineage.forall_check_iff
    (fun ps : List ResolvedProperty => AccessorsDistinct (ps.map (·.field)))
    hmem ⟨List.nodup_nil, by simp⟩ fun x hx above => accessorsDistinct_append_iff (hown x hx)

/-- **Nothing is noted about flattening exactly when properties are distinct along lineages.** -/
theorem notes_flatten_bindingsOf_iff (hs : s.Bound P) :
    (flatten (s.bindingsOf P).value).notes = [] ↔ s.PropertiesDistinct := by
  rw [Bindings.notes_flatten_iff hs.closed_bindingsOf, ← hs.addsTo_iff_propertiesDistinct,
    hs.paths_bindingsOf, List.forall_mem_map]
  simp only [hs.mem_orderedObjects]
  refine forall₂_congr fun x hx => ?_
  simp only [hs.lineage_forest_iff hx, forall_exists_index, and_imp]
  rw [forall_comm]
  refine forall_congr' fun chain => ?_
  rw [forall_comm]
  refine forall_congr' fun hchain => ?_
  have hfront : chain.dropLast ⊆ s.objects := fun y hy =>
    mem_objects_of_lineage hx hchain (List.dropLast_subset chain hy)
  rw [forall_eq', ← List.map_dropLast, hs.flatMap_own hfront, hs.own_path hx]

/-- **A flattened object type has the properties of its lineage, from the root down.** -/
theorem lookup_flatten_bindingsOf (hs : s.Bound P)
    (h : (flatten (s.bindingsOf P).value).notes = []) (hx : x ∈ s.objects)
    (hchain : Lineage s.Specializes x chain) :
    (flatten (s.bindingsOf P).value).value.lookup x.path =
      some ⟨chain.dropLast.map PlacedObject.path, chain.flatMap (s.boundProperties P)⟩ := by
  rw [Bindings.lookup_flatten hs.closed_bindingsOf h (hs.path_mem_paths P hx)
    ((hs.lineage_forest_iff hx).mpr ⟨chain, hchain, rfl⟩), Bindings.flat,
    hs.flatMap_own (mem_objects_of_lineage hx hchain), List.map_dropLast]

end Bound

end Schema

end LevelSchema
