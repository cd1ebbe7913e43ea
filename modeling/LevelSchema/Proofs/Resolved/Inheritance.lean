import LevelSchema.Proofs.Resolved.References
import LevelSchema.Proofs.Resolved.Result

/-!
# What object types and levels inherit

Resolving lists for every object type its ancestors and the properties of all of them.  Both follow
from the declarations alone (`Schema.Inherits`): the ancestors are what one meets by following
`extends` from the object type to its root, read backwards, and the properties are those declared on
the way, the root's first and each owner's in their order.  The same is said of levels and their
collections by `Schema.Gathers`.

The tables from which resolving takes them are filled while it goes over object types and levels in
an order with parents first, and what they hold has been described by lineages.  So nothing here
depends on the order in which levels and object types are declared, and either may extend what is
declared later (`Schema.inherits_of_resolve`).
-/

namespace LevelSchema

/-- What becomes of a property that `owner` declares.  Its type is bound under the same name. -/
structure Property.Yields (owner : TypePath) (p : Property) (q : ResolvedProperty) : Prop where
  name : q.name = p.name.value
  type : q.type.name = p.type.value.name
  description : q.description = p.description
  declaredIn : q.declaredIn = owner
  span : q.span = p.name.span

/-- The properties that an object type declares, each with its owner. -/
def PlacedObject.declarations (x : PlacedObject) : List (TypePath × Property) :=
  x.decl.properties.map (x.path, ·)

namespace Schema

variable {s : Schema} {P : PrimitiveSet} {x : PlacedObject} {o : ResolvedObject}
  {r : ResolvedSchema} {l m : Level} {level above : ResolvedLevel}

/-! ## Object types -/

/-- The object type `o` is `x` with everything that is declared along the lineage of `x`, and
nothing else or twice. -/
structure Inherits (s : Schema) (x : PlacedObject) (o : ResolvedObject) : Prop where
  path : o.path = x.path
  description : o.description = x.decl.description
  span : o.span = x.decl.span
  exists_lineage : ∃ chain, Lineage s.Specializes x chain
  ancestors : ∀ chain, Lineage s.Specializes x chain →
    o.ancestors = chain.dropLast.map PlacedObject.path
  parent : ∀ t, o.parent? = some t ↔ ∃ y, s.Specializes x y ∧ y.path = t
  named : ∀ p, x.decl.parent = some p → ∃ t, o.parent? = some t ∧ t.name = p.value
  properties : ∀ chain, Lineage s.Specializes x chain →
    List.Forall₂ (fun d q => d.2.Yields d.1 q)
      (chain.flatMap PlacedObject.declarations) o.properties
  ancestors_nodup : (o.ancestors ++ [o.path]).Nodup
  names_nodup : (o.properties.map (·.name)).Nodup

/-- Binding the type of a property changes nothing else about it. -/
lemma Bound.forall₂_boundProperties (hs : s.Bound P) (hx : x ∈ s.objects) :
    List.Forall₂ (fun d q => d.2.Yields d.1 q) x.declarations (s.boundProperties P x) := by
  rw [PlacedObject.declarations, boundProperties, List.forall₂_map_left_iff,
    List.forall₂_map_right_iff, List.forall₂_same]
  intro p hp
  exact ⟨rfl, (hs.denotes_typeAt hx hp).name_eq, rfl, rfl, rfl⟩

/-- The ancestors and the object type itself are distinct. -/
lemma Scoped.paths_nodup_of_lineage (hs : s.Scoped P) (hx : x ∈ s.objects)
    {chain : List PlacedObject} (hchain : Lineage s.Specializes x chain) :
    (chain.map PlacedObject.path).Nodup := by
  refine (hchain.nodup hs.specializes_rightUnique).map_on fun y hy z hz => ?_
  exact hs.eq_of_path_eq (mem_objects_of_lineage hx hchain hy) (mem_objects_of_lineage hx hchain hz)

lemma ObjectYields.inherits (hs : s.WellFormed) (hresolvable : s.Resolvable P) (hx : x ∈ s.objects)
    (ho : s.ObjectYields P x o) : s.Inherits x o := by
  have hbound := hresolvable.bound hs
  have hunique := hbound.specializes_rightUnique
  obtain ⟨chain, hchain, hancestors, hproperties⟩ := ho.lineage
  have hobjects := mem_objects_of_lineage hx hchain
  have hparent : ∀ t, o.parent? = some t ↔ ∃ y, s.Specializes x y ∧ y.path = t := by
    intro t
    rw [ResolvedObject.parent?, hancestors, List.getLast?_map, Option.map_eq_some_iff]
    simp only [hchain.getLast?_dropLast_eq_some_iff hunique]
  refine ⟨ho.path, ho.description, ho.span, ⟨chain, hchain⟩, ?_, hparent, fun p hp => ?_, ?_, ?_,
    ?_⟩
  · intro chain' hchain'
    rw [hancestors, hchain'.eq hunique hchain]
  · obtain ⟨y, hy⟩ := hresolvable.parentsVisible x hx p hp
    obtain ⟨q, hq, hname⟩ := hy.2.2.2
    cases hp.symm.trans hq
    exact ⟨y.path, (hparent _).mpr ⟨y, hy, rfl⟩, hname.symm⟩
  · intro chain' hchain'
    rw [hproperties, hchain'.eq hunique hchain]
    exact forall₂_flatMap fun y hy => hbound.forall₂_boundProperties (hobjects hy)
  · have hpaths : o.ancestors ++ [o.path] = chain.map PlacedObject.path := by
      obtain ⟨above, rfl⟩ := hchain.eq_append
      simp [hancestors, ho.path]
    rw [hpaths]
    exact hbound.paths_nodup_of_lineage hx hchain
  · have hfields := (hresolvable.propertiesDistinct x hx chain hchain).nodup
    rw [← fields_flatMap_boundProperties s P, ← hproperties] at hfields
    refine List.Nodup.of_map Name.snake ?_
    rwa [List.map_map]

/-- The levels of a resolved schema are those of the schema, in another order. -/
lemma WellFormed.perm_names (hs : s.WellFormed) (h : s.resolve P = .ok r) :
    (r.levels.map (·.name)).Perm s.levelNames := by
  have hbound := hs.bound_of_resolve h
  rw [map_eq_map_of_forall₂ (hs.forall₂_levelYields h) fun l level hl => hl.name]
  refine (List.perm_ext_iff_of_nodup hbound.names_orderedLevels_nodup hs.names_nodup).mpr ?_
  intro name
  simp only [levelNames, List.mem_map, hbound.mem_orderedLevels]

/-- **Object types have what their lineages declare.**  Resolving keeps every level and every object
type of a level in its place.  Each object type has as ancestors the types above it, root first, and
as properties what they and it declare, owner by owner and in the order of declaration. -/
theorem inherits_of_resolve {source : String} {loaded : Noted Diagnostic Schema}
    (hload : Schema.ofSource source = .ok loaded) (hresolve : loaded.value.resolve P = .ok r) :
    (r.levels.map (·.name)).Perm loaded.value.levelNames ∧
      ∀ level ∈ r.levels, ∃ l ∈ loaded.value.levels, level.name = l.name.value ∧
        List.Forall₂ loaded.value.Inherits l.objects level.objectTypes := by
  have hs := wellFormed_of_ofSource hload
  have hresolvable := (hs.resolve_eq_ok_iff.mp hresolve).1
  refine ⟨hs.perm_names hresolve, fun level hlevel => ?_⟩
  obtain ⟨l, hl, hyields⟩ := hs.exists_levelYields hresolve hlevel
  have hobjects : ∀ x ∈ l.objects, x ∈ loaded.value.objects := fun x hx =>
    List.mem_flatMap.mpr ⟨l, hl, hx⟩
  refine ⟨l, hl, hyields.name, ?_⟩
  refine ((List.forall₂_and_left _ _).mpr ⟨hobjects, hyields.objectTypes⟩).imp ?_
  rintro x o ⟨hx, ho⟩
  exact ho.inherits hs hresolvable hx

/-- A chain of object types over two levels, in which everything stands before what it extends. -/
def parentsLast : String :=
  "AbstractionLevel City extends Site\n    Object Tower extends Block\n        Plot Lot\n" ++
    "    Object Block extends Plot\n        Number Height\n" ++
    "AbstractionLevel Site\n    Object Plot\n        Curve Edge\n"

theorem parentsLast_inherits : ∃ loaded r, Schema.ofSource parentsLast = .ok loaded ∧
    loaded.value.resolve .builtin = .ok r ∧ (r.levels.map (·.name)).Perm loaded.value.levelNames ∧
      ∀ level ∈ r.levels, ∃ l ∈ loaded.value.levels, level.name = l.name.value ∧
        List.Forall₂ loaded.value.Inherits l.objects level.objectTypes := by
  have hrun : ((Schema.ofSource parentsLast).bind fun loaded =>
      loaded.value.resolve .builtin).isOk = true := by
    decide +kernel
  obtain ⟨r, hr⟩ := exists_of_isOk hrun
  obtain ⟨loaded, hload, hresolve⟩ := bind_eq_ok_iff.mp hr
  exact ⟨loaded, r, hload, hresolve, inherits_of_resolve hload hresolve⟩

/-! ## Levels -/

/-- The resolved level is `l` with the ancestors and the collections of its lineage.  Each object
type has one collection, and those of the level itself come last. -/
structure Gathers (s : Schema) (l : Level) (level : ResolvedLevel) : Prop where
  name : level.name = l.name.value
  exists_lineage : ∃ chain, Lineage s.Extends l chain
  ancestors : ∀ chain, Lineage s.Extends l chain →
    level.ancestors = chain.dropLast.map (·.name.value)
  parent : ∀ n, level.parent? = some n ↔ ∃ m, s.Extends l m ∧ m.name.value = n
  named : ∀ p, l.parent = some p → level.parent? = some p.value
  collections : ∀ chain, Lineage s.Extends l chain →
    level.collections = chain.flatMap Level.collections
  own : level.ownCollections = l.collections

lemma LevelYields.parent?_eq_some_iff (hs : s.WellFormed) (h : s.LevelYields P l level)
    {n : String} : level.parent? = some n ↔ ∃ m, s.Extends l m ∧ m.name.value = n := by
  obtain ⟨chain, hchain, hancestors, -⟩ := h.lineage
  rw [ResolvedLevel.parent?, hancestors, List.getLast?_map, Option.map_eq_some_iff]
  simp only [hchain.getLast?_dropLast_eq_some_iff hs.linked.extends_rightUnique]

/-- The collections that carry the name of the level are those of its own object types, since no
other level of the lineage is called like it. -/
lemma LevelYields.ownCollections_eq (hs : s.WellFormed) (hl : l ∈ s.levels)
    (h : s.LevelYields P l level) : level.ownCollections = l.collections := by
  obtain ⟨chain, hchain, -, hcollections⟩ := h.lineage
  have hnodup := hchain.nodup hs.linked.extends_rightUnique
  obtain ⟨front, rfl⟩ := hchain.eq_append
  have hfront : ∀ c ∈ front.flatMap Level.collections, c.declaredIn ≠ l.name.value := by
    intro c hc heq
    obtain ⟨m, hm, hc⟩ := List.mem_flatMap.mp hc
    obtain ⟨o, -, rfl⟩ := List.mem_map.mp hc
    have hml : m = l := hs.linked.eq_of_name_eq
      (mem_levels_of_lineage hl hchain (List.mem_append_left _ hm)) hl heq
    exact (List.nodup_append.mp hnodup).2.2 m hm l (List.mem_singleton_self l) hml
  have hown : ∀ c ∈ l.collections, c.declaredIn = l.name.value := by
    intro c hc
    obtain ⟨o, -, rfl⟩ := List.mem_map.mp hc
    rfl
  rw [ResolvedLevel.ownCollections, hcollections, List.flatMap_append, List.flatMap_singleton,
    List.filter_append, h.name, List.filter_eq_nil_iff.mpr, List.nil_append,
    List.filter_eq_self.mpr]
  · intro c hc
    simpa using hown c hc
  · intro c hc
    simpa using hfront c hc

/-- A level adds its own collections to those of the level it extends. -/
lemma LevelYields.collections_eq_append (hs : s.WellFormed) (hlm : s.Extends l m)
    (h : s.LevelYields P l level) (hm : s.LevelYields P m above) :
    level.collections = above.collections ++ level.ownCollections := by
  obtain ⟨chain, hchain, -, hcollections⟩ := hm.lineage
  obtain ⟨chain', hchain', -, hcollections'⟩ := h.lineage
  rw [h.ownCollections_eq hs hlm.1, hcollections, hcollections',
    hchain'.eq hs.linked.extends_rightUnique (.step hlm hchain), List.flatMap_append,
    List.flatMap_singleton]

lemma LevelYields.gathers (hs : s.WellFormed) (hl : l ∈ s.levels)
    (h : s.LevelYields P l level) : s.Gathers l level := by
  obtain ⟨chain, hchain, hancestors, hcollections⟩ := h.lineage
  refine ⟨h.name, ⟨chain, hchain⟩, ?_, fun n => h.parent?_eq_some_iff hs, fun p hp => ?_, ?_,
    h.ownCollections_eq hs hl⟩
  · intro chain' hchain'
    rw [hancestors, hchain'.eq hs.linked.extends_rightUnique hchain]
  · exact (h.parent?_eq_some_iff hs).mpr (hs.linked.exists_extends hl hp)
  · intro chain' hchain'
    rw [hcollections, hchain'.eq hs.linked.extends_rightUnique hchain]

end Schema

end LevelSchema
