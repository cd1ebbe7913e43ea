import LevelSchema.Proofs.Resolved.References
import LevelSchema.Proofs.Resolved.Result
import LevelSchema.Proofs.Schema.Places

/-!
# Resolving is local

What resolving makes of a level depends on the level and its ancestors, and not on what else the
schema declares, on the order of declarations, or on places.

**Shared levels.**  `Schema.Shared s s' l l'` says that the level `l` of `s` is declared in `s'` as
well, as `l'`, and so are all its ancestors, everything up to places.  Shared levels extend shared
levels, in both directions (`Schema.bisimulates_extends`), and likewise for their object types, so
the lineages on which resolving works correspond one to one.  From this follow the two results: a
shared level is resolved to the same (`Schema.Shared.unplaced_eq`), and schemas that share all their
levels are accepted alike (`Schema.SameLevels.resolvable`).  A schema with its levels in another
order shares all levels, and so does a schema with other places, which is resolved to the same as a
whole (`Schema.WellFormed.unplaced_eq_of_resolve`).
-/

namespace LevelSchema

/-! ## Forgetting places -/

/-- A property without places. -/
def ResolvedProperty.unplaced (p : ResolvedProperty) : ResolvedProperty :=
  { p with span := .atStart }

/-- An object type without places. -/
def ResolvedObject.unplaced (o : ResolvedObject) : ResolvedObject :=
  { o with span := .atStart, properties := o.properties.map ResolvedProperty.unplaced }

/-- A level without places. -/
def ResolvedLevel.unplaced (l : ResolvedLevel) : ResolvedLevel :=
  { l with
    span := .atStart
    parameterTypes := l.parameterTypes.map ParameterType.unplaced
    objectTypes := l.objectTypes.map ResolvedObject.unplaced }

/-- A resolved schema without places. -/
def ResolvedSchema.unplaced (s : ResolvedSchema) : ResolvedSchema :=
  ⟨s.levels.map ResolvedLevel.unplaced⟩

namespace Level

variable {l l' : Level}

lemma typeNames_unplaced (l : Level) : l.unplaced.typeNames = l.typeNames := by
  simp [typeNames, ownTypes, Function.comp_def]

lemma accessors_unplaced (l : Level) : l.unplaced.accessors = l.accessors := by
  simp [accessors, Function.comp_def]

lemma collections_unplaced (l : Level) : l.unplaced.collections = l.collections := by
  simp [collections, Function.comp_def]

lemma declares_unplaced (l : Level) : l.unplaced.Declares = l.Declares := by
  funext t
  cases t <;> simp [Declares]

/-- What does not look at places agrees on levels that agree up to places. -/
lemma eq_of_unplaced_eq {γ : Type} {f : Level → γ} (hf : ∀ l, f l.unplaced = f l)
    (h : l'.unplaced = l.unplaced) : f l' = f l := by
  rw [← hf l', h, hf l]

/-- Levels that agree up to places have the same name. -/
lemma name_eq_of_unplaced_eq (h : l'.unplaced = l.unplaced) : l'.name.value = l.name.value :=
  eq_of_unplaced_eq (f := fun l => l.name.value) (fun _ => rfl) h

lemma parent_eq_of_unplaced_eq (h : l'.unplaced = l.unplaced) :
    l'.parent.map (·.value) = l.parent.map (·.value) :=
  eq_of_unplaced_eq (f := fun l => l.parent.map (·.value)) (fun _ => by simp [Function.comp_def]) h

end Level

namespace Schema

variable {s s' : Schema} {P : PrimitiveSet} {l l' m m' : Level} {x x' y y' : PlacedObject}

/-! ## Shared levels -/

/-- The level `l` of `s` stands in `s'` as `l'`, and all ancestors of `l` stand in `s'` too. -/
structure Shared (s s' : Schema) (l l' : Level) : Prop where
  left : l ∈ s.levels
  right : l' ∈ s'.levels
  same : l'.unplaced = l.unplaced
  above : ∀ m, Relation.ReflTransGen s.Extends l m → ∃ m' ∈ s'.levels, m'.unplaced = m.unplaced

/-- One step up from a shared level is a step up on the other side, to a level that
is shared too. -/
lemma Shared.exists_extends (h : s.Shared s' l l') (hlm : s.Extends l m) :
    ∃ m', s'.Extends l' m' ∧ s.Shared s' m m' := by
  obtain ⟨m', hm', hsame⟩ := h.above m (.single hlm)
  have habove := fun n hn => h.above n (.head hlm hn)
  obtain ⟨-, hm, p, hp, hpm⟩ := hlm
  have hparent := Level.parent_eq_of_unplaced_eq h.same
  rw [hp, Option.map_some, Option.map_eq_some_iff] at hparent
  obtain ⟨p', hp', hvalue⟩ := hparent
  refine ⟨m', ⟨h.right, hm', p', hp', ?_⟩, hm, hm', hsame, habove⟩
  rw [hvalue, hpm, Level.name_eq_of_unplaced_eq hsame]

/-- **Shared levels extend shared levels.** -/
lemma bisimulates_extends (hs : s.WellFormed) (hs' : s'.WellFormed) :
    Bisimulates s.Extends s'.Extends (s.Shared s') where
  forth h hlm := h.exists_extends hlm
  back := by
    intro l l' m' h hlm'
    have ⟨_, _, p', hp', _⟩ := hlm'
    have hparent := Level.parent_eq_of_unplaced_eq h.same
    rw [hp', Option.map_some, eq_comm, Option.map_eq_some_iff] at hparent
    obtain ⟨p, hp, -⟩ := hparent
    obtain ⟨m, hlm, -⟩ := hs.linked.exists_extends h.left hp
    obtain ⟨n', hln', hshared⟩ := h.exists_extends hlm
    rw [hs'.linked.extends_rightUnique hlm' hln']
    exact ⟨m, hlm, hshared⟩

/-! ## Their object types -/

/-- The object type `x` of a shared level of `s` and the object type `x'` of the level that stands
for it in `s'` are the same. -/
structure SharedObject (s s' : Schema) (x x' : PlacedObject) : Prop where
  level : s.Shared s' x.level x'.level
  left : x.decl ∈ x.level.objectTypes
  right : x'.decl ∈ x'.level.objectTypes
  same : x'.decl.unplaced = x.decl.unplaced

lemma SharedObject.name_eq (h : s.SharedObject s' x x') :
    x'.decl.name.value = x.decl.name.value :=
  Located.unplaced_eq_iff.mp (ObjectType.mk.inj h.same).1

lemma SharedObject.parent_eq (h : s.SharedObject s' x x') :
    x'.decl.parent.map (·.value) = x.decl.parent.map (·.value) := by
  have hparent : x'.decl.parent.map Located.unplaced = x.decl.parent.map Located.unplaced :=
    congrArg ObjectType.parent h.same
  have hvalues := congrArg (Option.map (·.value)) hparent
  simpa [Function.comp_def] using hvalues

/-- A shared object type is reached by the same path. -/
lemma SharedObject.path_eq (h : s.SharedObject s' x x') : x'.path = x.path := by
  rw [PlacedObject.path, PlacedObject.path, h.name_eq, Level.name_eq_of_unplaced_eq h.level.same]

/-- Its properties agree one by one, up to places. -/
lemma SharedObject.forall₂_properties (h : s.SharedObject s' x x') :
    List.Forall₂ (fun p p' => p'.unplaced = p.unplaced) x.decl.properties x'.decl.properties :=
  forall₂_of_map_eq (congrArg ObjectType.properties h.same)

lemma SharedObject.fields_eq (h : s.SharedObject s' x x') : x'.fields = x.fields := by
  rw [PlacedObject.fields, PlacedObject.fields]
  refine map_eq_map_of_forall₂ h.forall₂_properties fun p p' hsame => ?_
  rw [Located.unplaced_eq_iff.mp (Property.mk.inj hsame).1]

/-- The object types of shared levels correspond, one by one. -/
lemma Shared.forall₂_objects (h : s.Shared s' l l') :
    List.Forall₂ (s.SharedObject s') l.objects l'.objects := by
  have hobjects : l'.objectTypes.map ObjectType.unplaced = l.objectTypes.map ObjectType.unplaced :=
    congrArg Level.objectTypes h.same
  rw [Level.objects, Level.objects, List.forall₂_map_left_iff, List.forall₂_map_right_iff]
  refine (forall₂_and_mem (forall₂_of_map_eq hobjects)).imp ?_
  rintro o o' ⟨ho, ho', hsame⟩
  exact ⟨h, ho, ho', hsame⟩

/-- Each object type of a shared level is shared. -/
lemma Shared.exists_object (h : s.Shared s' l l') (hx : x ∈ l.objects) :
    ∃ x' ∈ l'.objects, s.SharedObject s' x x' :=
  exists_of_forall₂_of_mem h.forall₂_objects.flip hx

section WellFormed

variable (hs : s.WellFormed) (hs' : s'.WellFormed)

include hs hs'

lemma Shared.symm (h : s.Shared s' l l') : s'.Shared s l' l := by
  refine ⟨h.right, h.left, h.same.symm, fun m' hup' => ?_⟩
  obtain ⟨m, -, hshared⟩ := (bisimulates_extends hs hs').exists_reflTransGen_back h hup'
  exact ⟨m, hshared.left, hshared.same.symm⟩

lemma SharedObject.symm (h : s.SharedObject s' x x') : s'.SharedObject s x' x :=
  ⟨h.level.symm hs hs', h.right, h.left, h.same.symm⟩

/-- One step up from a shared object type is a step up on the other side. -/
lemma SharedObject.exists_specializes (h : s.SharedObject s' x x') (hxy : s.Specializes x y) :
    ∃ y', s'.Specializes x' y' ∧ s.SharedObject s' y y' := by
  obtain ⟨-, hy, hup, p, hp, hpy⟩ := hxy
  obtain ⟨m', hup', hlevel⟩ := (bisimulates_extends hs hs').exists_reflTransGen h.level hup
  obtain ⟨y', hy', hshared⟩ :=
    hlevel.exists_object (Level.mem_objects.mpr ⟨rfl, (mem_objects.mp hy).2⟩)
  obtain ⟨rfl, hdecl'⟩ := Level.mem_objects.mp hy'
  have hparent := h.parent_eq
  rw [hp, Option.map_some, Option.map_eq_some_iff] at hparent
  obtain ⟨p', hp', hvalue⟩ := hparent
  refine ⟨y', ⟨mem_objects.mpr ⟨h.level.right, h.right⟩, mem_objects.mpr ⟨hlevel.right, hdecl'⟩,
    hup', p', hp', ?_⟩, hshared⟩
  rw [hvalue, hpy, hshared.name_eq]

/-- **Object types of shared levels specialize object types of shared levels.** -/
lemma bisimulates_specializes :
    Bisimulates s.Specializes s'.Specializes (s.SharedObject s') where
  forth h hxy := h.exists_specializes hs hs' hxy
  back h hxy' := by
    obtain ⟨y, hxy, hshared⟩ := (h.symm hs hs').exists_specializes hs' hs hxy'
    exact ⟨y, hxy, hshared.symm hs' hs⟩

/-! ## What names stand for -/

/-- A name denotes in a shared level what it denotes on the other side. -/
lemma Shared.denotes {name : String} {t : TypeRef} (h : s.Shared s' l l')
    (hdenotes : s.Denotes P l name t) : s'.Denotes P l' name t := by
  refine ⟨hdenotes.name_eq, hdenotes.declared.imp_left ?_⟩
  rintro ⟨m, hup, hm⟩
  obtain ⟨m', hup', hshared⟩ := (bisimulates_extends hs hs').exists_reflTransGen h hup
  rw [← Level.eq_of_unplaced_eq Level.declares_unplaced hshared.same] at hm
  exact ⟨m', hup', hm⟩

end WellFormed

section Resolved

variable (hs : s.Bound P) (hs' : s'.Bound P)

include hs hs'

lemma Shared.typeAt_eq (h : s.Shared s' l l') (t : TypeRef) :
    s'.typeAt P l' t = s.typeAt P l t := by
  have href : Resolve.typeRef? P ((s'.scopesOf P).value.of l'.name.value) t.name =
      Resolve.typeRef? P ((s.scopesOf P).value.of l.name.value) t.name := by
    refine Option.ext fun u => ?_
    rw [hs.typeRef?_eq_some_iff h.left, hs'.typeRef?_eq_some_iff h.right]
    exact ⟨(h.symm hs.toWellFormed hs'.toWellFormed).denotes hs'.toWellFormed hs.toWellFormed,
      h.denotes hs.toWellFormed hs'.toWellFormed⟩
  rw [typeAt, typeAt, href]

lemma SharedObject.boundProperties_eq (h : s.SharedObject s' x x') :
    (s'.boundProperties P x').map ResolvedProperty.unplaced =
      (s.boundProperties P x).map ResolvedProperty.unplaced := by
  rw [boundProperties, boundProperties, List.map_map, List.map_map]
  refine map_eq_map_of_forall₂ h.forall₂_properties fun p p' hsame => ?_
  obtain ⟨hname, htype, hdescription⟩ := Property.mk.inj hsame
  simp [ResolvedProperty.unplaced, Located.unplaced_eq_iff.mp hname,
    Located.unplaced_eq_iff.mp htype, hdescription, h.path_eq, h.level.typeAt_eq hs hs']

/-- A shared object type is resolved alike, up to places. -/
lemma SharedObject.unplaced_eq {o o' : ResolvedObject} (h : s.SharedObject s' x x')
    (ho : s.ObjectYields P x o) (ho' : s'.ObjectYields P x' o') : o'.unplaced = o.unplaced := by
  obtain ⟨chain, hchain, hancestors, hproperties⟩ := ho.lineage
  obtain ⟨chain', hchain', hancestors', hproperties'⟩ := ho'.lineage
  have hshared : List.Forall₂ (s.SharedObject s') chain chain' := by
    obtain ⟨image, himage, hshared⟩ :=
      (bisimulates_specializes hs.toWellFormed hs'.toWellFormed).exists_lineage h hchain
    rwa [hchain'.eq hs'.specializes_rightUnique himage]
  have hpaths : chain'.map PlacedObject.path = chain.map PlacedObject.path :=
    map_eq_map_of_forall₂ hshared fun _ _ hx => hx.path_eq
  have hall : o'.properties.map ResolvedProperty.unplaced =
      o.properties.map ResolvedProperty.unplaced := by
    rw [hproperties, hproperties', List.map_flatMap, List.map_flatMap]
    exact flatMap_eq_flatMap_of_forall₂ hshared fun _ _ hx => hx.boundProperties_eq hs hs'
  have hdescription : x'.decl.description = x.decl.description := (ObjectType.mk.inj h.same).2.1
  rw [ResolvedObject.unplaced, ResolvedObject.unplaced, hall, hancestors, hancestors',
    List.map_dropLast, List.map_dropLast, hpaths, ho.path, ho'.path, h.path_eq, ho.description,
    ho'.description, hdescription]

/-- **A shared level is resolved to the same**, up to places. -/
lemma Shared.unplaced_eq {r r' : ResolvedLevel} (h : s.Shared s' l l')
    (hr : s.LevelYields P l r) (hr' : s'.LevelYields P l' r') : r'.unplaced = r.unplaced := by
  obtain ⟨chain, hchain, hancestors, hcollections⟩ := hr.lineage
  obtain ⟨chain', hchain', hancestors', hcollections'⟩ := hr'.lineage
  have hshared : List.Forall₂ (s.Shared s') chain chain' := by
    obtain ⟨image, himage, hshared⟩ :=
      (bisimulates_extends hs.toWellFormed hs'.toWellFormed).exists_lineage h hchain
    rwa [hchain'.eq hs'.linked.extends_rightUnique himage]
  have hnames : chain'.map (·.name.value) = chain.map (·.name.value) :=
    map_eq_map_of_forall₂ hshared fun _ _ hl => Level.name_eq_of_unplaced_eq hl.same
  have hgathered : r'.collections = r.collections := by
    rw [hcollections, hcollections']
    exact flatMap_eq_flatMap_of_forall₂ hshared fun _ _ hl =>
      Level.eq_of_unplaced_eq Level.collections_unplaced hl.same
  have hobjects : r'.objectTypes.map ResolvedObject.unplaced =
      r.objectTypes.map ResolvedObject.unplaced := by
    refine map_eq_map_of_forall₂
      (forall₂_comp (forall₂_comp hr.objectTypes.flip h.forall₂_objects) hr'.objectTypes) ?_
    rintro o o' ⟨x', ⟨x, ho, hx⟩, ho'⟩
    exact hx.unplaced_eq hs hs' ho ho'
  obtain ⟨-, hdescription, -, hparameters, -, -⟩ := Level.mk.inj h.same
  rw [ResolvedLevel.unplaced, ResolvedLevel.unplaced, hobjects, hgathered, hancestors, hancestors',
    List.map_dropLast, List.map_dropLast, hnames, hr.name, hr'.name,
    Level.name_eq_of_unplaced_eq h.same, hr.description, hr'.description, hdescription,
    hr.parameterTypes, hr'.parameterTypes, hparameters]

end Resolved

/-! ## Schemas that share all levels -/

/-- The schemas declare the same levels, up to places and in whatever order. -/
structure SameLevels (s s' : Schema) : Prop where
  forth : ∀ l ∈ s.levels, ∃ l' ∈ s'.levels, l'.unplaced = l.unplaced
  back : ∀ l' ∈ s'.levels, ∃ l ∈ s.levels, l'.unplaced = l.unplaced

namespace SameLevels

lemma symm (h : s.SameLevels s') : s'.SameLevels s where
  forth l' hl' := (h.back l' hl').imp fun _ hl => ⟨hl.1, hl.2.symm⟩
  back l hl := (h.forth l hl).imp fun _ hl' => ⟨hl'.1, hl'.2.symm⟩

/-- If all levels are the same, each of them is shared. -/
lemma exists_shared (h : s.SameLevels s') (hl : l ∈ s.levels) : ∃ l', s.Shared s' l l' := by
  obtain ⟨l', hl', hsame⟩ := h.forth l hl
  exact ⟨l', hl, hl', hsame, fun m hup => h.forth m (mem_levels_of_reflTransGen hl hup)⟩

lemma exists_sharedObject (h : s.SameLevels s') (hx : x ∈ s.objects) :
    ∃ x' ∈ s'.objects, s.SharedObject s' x x' := by
  obtain ⟨hl, ho⟩ := mem_objects.mp hx
  obtain ⟨l', hshared⟩ := h.exists_shared hl
  obtain ⟨x', hx', hobject⟩ := hshared.exists_object (Level.mem_objects.mpr ⟨rfl, ho⟩)
  exact ⟨x', mem_objects.mpr ⟨hobject.level.right, hobject.right⟩, hobject⟩

lemma avoidsPrimitives (h : s.SameLevels s') (ha : s'.AvoidsPrimitives P) :
    s.AvoidsPrimitives P := by
  intro l hl
  obtain ⟨l', hl', hsame⟩ := h.forth l hl
  rw [← Level.name_eq_of_unplaced_eq hsame,
    ← Level.eq_of_unplaced_eq Level.typeNames_unplaced hsame]
  exact ha l' hl'

variable (h : s.SameLevels s') (hs : s.WellFormed) (hs' : s'.WellFormed)

include h hs hs'

/-- Being grounded does not depend on places or on the order of levels. -/
lemma grounded (hg : s'.Grounded) : s.Grounded := by
  refine hs.grounded ⟨hs.linked, fun l hl => ?_⟩
  obtain ⟨l', hshared⟩ := h.exists_shared hl
  obtain ⟨chain', hchain'⟩ := hg.exists_lineage l' hshared.right
  obtain ⟨chain, hchain, -⟩ :=
    (bisimulates_extends hs' hs).exists_lineage (hshared.symm hs hs') hchain'
  exact ⟨chain, hchain⟩

/-- Nor does having types with distinct names. -/
lemma typesDistinct (ht : s'.TypesDistinct) : s.TypesDistinct := by
  intro l hl chain hchain
  obtain ⟨l', hshared⟩ := h.exists_shared hl
  obtain ⟨chain', hchain', hall⟩ := (bisimulates_extends hs hs').exists_lineage hshared hchain
  have htypes : chain'.flatMap Level.typeNames = chain.flatMap Level.typeNames :=
    flatMap_eq_flatMap_of_forall₂ hall fun _ _ hm =>
      Level.eq_of_unplaced_eq Level.typeNames_unplaced hm.same
  rw [← htypes, ← Level.name_eq_of_unplaced_eq hshared.same]
  exact ht l' hshared.right chain' hchain'

lemma collectionsDistinct (hc : s'.CollectionsDistinct) : s.CollectionsDistinct := by
  intro l hl chain hchain
  obtain ⟨l', hshared⟩ := h.exists_shared hl
  obtain ⟨chain', hchain', hall⟩ := (bisimulates_extends hs hs').exists_lineage hshared hchain
  have haccessors : chain'.flatMap Level.accessors = chain.flatMap Level.accessors :=
    flatMap_eq_flatMap_of_forall₂ hall fun _ _ hm =>
      Level.eq_of_unplaced_eq Level.accessors_unplaced hm.same
  rw [← haccessors]
  exact hc l' hshared.right chain' hchain'

/-- Nor does having distinct properties. -/
lemma propertiesDistinct (hp : s'.PropertiesDistinct) : s.PropertiesDistinct := by
  intro x hx chain hchain
  obtain ⟨x', hx', hshared⟩ := h.exists_sharedObject hx
  obtain ⟨chain', hchain', hall⟩ := (bisimulates_specializes hs hs').exists_lineage hshared hchain
  have hfields : chain'.flatMap PlacedObject.fields = chain.flatMap PlacedObject.fields :=
    flatMap_eq_flatMap_of_forall₂ hall fun _ _ hy => hy.fields_eq
  rw [← hfields]
  exact hp x' hx' chain' hchain'

/-- Nor does seeing what is extended. -/
lemma parentsVisible (hv : s'.ParentsVisible) : s.ParentsVisible := by
  intro x hx p hp
  obtain ⟨x', hx', hshared⟩ := h.exists_sharedObject hx
  have hparent := hshared.parent_eq
  rw [hp, Option.map_some, Option.map_eq_some_iff] at hparent
  obtain ⟨p', hp', -⟩ := hparent
  obtain ⟨y', hy'⟩ := hv x' hx' p' hp'
  obtain ⟨y, hy, -⟩ := (bisimulates_specializes hs hs').back hshared hy'
  exact ⟨y, hy⟩

lemma propertyTypesVisible (hv : s'.PropertyTypesVisible P) : s.PropertyTypesVisible P := by
  intro x hx p hp
  obtain ⟨x', hx', hshared⟩ := h.exists_sharedObject hx
  obtain ⟨p', hp', hsame⟩ := exists_of_forall₂_of_mem hshared.forall₂_properties.flip hp
  rw [← Located.unplaced_eq_iff.mp (Property.mk.inj hsame).2.1]
  refine (hv x' hx' p' hp').imp_right ?_
  rintro ⟨m', hup', hm'⟩
  obtain ⟨m, hup, hm⟩ :=
    (bisimulates_extends hs hs').exists_reflTransGen_back hshared.level hup'
  rw [Level.eq_of_unplaced_eq Level.typeNames_unplaced hm.same] at hm'
  exact ⟨m, hup, hm'⟩

/-- The lineages of the object types of the one schema are lineages in the other, so there is no
cycle in the one if there is none in the other. -/
lemma objects_acyclic (hscoped' : s'.Scoped P)
    (hacyclic : ∀ x, ¬ Relation.TransGen s'.Specializes x x) :
    ∀ x, ¬ Relation.TransGen s.Specializes x x := by
  have hscoped : s.Scoped P := ⟨h.grounded hs hs' hscoped'.toGrounded,
    h.avoidsPrimitives hscoped'.avoidsPrimitives, h.typesDistinct hs hs' hscoped'.typesDistinct⟩
  rw [← Lineage.forall_exists_iff_acyclic hscoped.specializes_rightUnique
    fun _ _ hxy => ⟨hxy.1, hxy.2.1⟩]
  intro x hx
  obtain ⟨x', -, hshared⟩ := h.exists_sharedObject hx
  obtain ⟨chain', hchain'⟩ : ∃ chain', Lineage s'.Specializes x' chain' :=
    Lineage.exists_of_acyclic (fun _ _ hxy' => hxy'.2.1) fun y _ => hacyclic y
  obtain ⟨chain, hchain, -⟩ :=
    (bisimulates_specializes hs' hs).exists_lineage (hshared.symm hs hs') hchain'
  exact ⟨chain, hchain⟩

/-- **Schemas that declare the same levels can be resolved alike.** -/
lemma resolvable (hr : s'.Resolvable P) : s.Resolvable P := by
  have hbound := hr.bound hs'
  exact {
    levels_acyclic := hs.grounded_iff.mp (h.grounded hs hs' hbound.toGrounded)
    avoidsPrimitives := h.avoidsPrimitives hr.avoidsPrimitives
    typesDistinct := h.typesDistinct hs hs' hr.typesDistinct
    parentsVisible := h.parentsVisible hs hs' hr.parentsVisible
    objects_acyclic := h.objects_acyclic hs hs' hbound.toScoped hr.objects_acyclic
    propertyTypesVisible := h.propertyTypesVisible hs hs' hr.propertyTypesVisible
    propertiesDistinct := h.propertiesDistinct hs hs' hr.propertiesDistinct
    collectionsDistinct := h.collectionsDistinct hs hs' hr.collectionsDistinct }

end SameLevels

/-- The order of declarations is of no account. -/
lemma WellFormed.of_perm {levels : List Level} (hs : s.WellFormed) (h : levels.Perm s.levels) :
    (Schema.mk levels).WellFormed := by
  refine ⟨fun l hl => hs.usable l (h.mem_iff.mp hl), (h.map _).nodup_iff.mpr hs.keys_nodup,
    fun l hl p hp => ?_, fun l hl => hs.levels l (h.mem_iff.mp hl)⟩
  obtain ⟨m, hm, hname⟩ := hs.parents_declared l (h.mem_iff.mp hl) p hp
  exact ⟨m, h.mem_iff.mpr hm, hname⟩

/-- Levels in another order are the same levels. -/
lemma sameLevels_of_perm {levels : List Level} (h : levels.Perm s.levels) :
    (Schema.mk levels).SameLevels s :=
  ⟨fun l hl => ⟨l, h.mem_iff.mp hl, rfl⟩, fun l hl => ⟨l, h.mem_iff.mpr hl, rfl⟩⟩

/-! ## Schemas that differ in places only -/

section Unplaced

variable {r r' : ResolvedSchema} (h : s'.unplaced = s.unplaced)

include h

lemma forall₂_levels_of_unplaced_eq :
    List.Forall₂ (fun l l' => l'.unplaced = l.unplaced) s.levels s'.levels :=
  forall₂_of_map_eq (congrArg Schema.levels h)

/-- Schemas that agree up to places have the same levels. -/
lemma sameLevels_of_unplaced_eq : s.SameLevels s' where
  forth _ hl := exists_of_forall₂_of_mem (forall₂_levels_of_unplaced_eq h).flip hl
  back _ hl' := exists_of_forall₂_of_mem (forall₂_levels_of_unplaced_eq h) hl'

lemma Grounded.orderedNames_eq (hs : s.Grounded) (hs' : s'.Grounded) :
    s'.orderedNames = s.orderedNames := by
  have hlevels := forall₂_and_mem (forall₂_levels_of_unplaced_eq h)
  rw [orderedNames, orderedNames]
  refine congrArg keepFirst (flatMap_eq_flatMap_of_forall₂ hlevels ?_)
  rintro l l' ⟨hl, hl', hsame⟩
  have hshared : s.Shared s' l l' := ⟨hl, hl', hsame, fun m hup =>
    (sameLevels_of_unplaced_eq h).forth m (mem_levels_of_reflTransGen hl hup)⟩
  obtain ⟨chain, hchain⟩ := hs.exists_lineage l hl
  obtain ⟨chain', hchain', hall⟩ :=
    (bisimulates_extends hs.toWellFormed hs'.toWellFormed).exists_lineage hshared hchain
  rw [hs.ancestors_append hl hchain, hs'.ancestors_append hl' hchain']
  exact map_eq_map_of_forall₂ hall fun _ _ hm => Level.name_eq_of_unplaced_eq hm.same

/-- The levels are ordered alike, so they are shared one by one. -/
lemma Grounded.forall₂_orderedLevels (hs : s.Grounded) (hs' : s'.Grounded) :
    List.Forall₂ (s.Shared s') s.orderedLevels s'.orderedLevels := by
  have hnames : s'.orderedLevels.map (·.name.value) = s.orderedLevels.map (·.name.value) := by
    rw [hs.names_orderedLevels, hs'.names_orderedLevels, hs.orderedNames_eq h hs']
  refine (forall₂_and_mem (forall₂_of_map_eq hnames)).imp ?_
  rintro l l' ⟨hl, hl', hname⟩
  obtain ⟨m', hshared⟩ :=
    (sameLevels_of_unplaced_eq h).exists_shared (hs.mem_orderedLevels.mp hl)
  rwa [hs'.eq_of_name_eq (hs'.mem_orderedLevels.mp hl') hshared.right
    (hname.trans (Level.name_eq_of_unplaced_eq hshared.same).symm)]

/-- **Resolving does not look at places**, except to keep them. -/
lemma WellFormed.unplaced_eq_of_resolve (hs : s.WellFormed) (hs' : s'.WellFormed)
    (hr : s.resolve P = .ok r) (hr' : s'.resolve P = .ok r') : r'.unplaced = r.unplaced := by
  have hbound := hs.bound_of_resolve hr
  have hbound' := hs'.bound_of_resolve hr'
  have hordered := hbound.toGrounded.forall₂_orderedLevels h hbound'.toGrounded
  refine congrArg ResolvedSchema.mk (map_eq_map_of_forall₂
    (forall₂_comp (forall₂_comp (hs.forall₂_levelYields hr).flip hordered)
      (hs'.forall₂_levelYields hr')) ?_)
  rintro level level' ⟨l', ⟨l, hl, hshared⟩, hl'⟩
  exact hshared.unplaced_eq hbound hbound' hl hl'

end Unplaced

end Schema

end LevelSchema
