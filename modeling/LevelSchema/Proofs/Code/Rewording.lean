import LevelSchema.Artifact
import LevelSchema.Proofs.Outcome

/-!
# What generating reads

Generating reads names, values, types and parents, and carries descriptions along.  It never looks
at places.  So a change that keeps what is read, and does something to descriptions, has the same
done to the descriptions of what is generated, and no other effect
(`Code.Module.ofLevel_of_reworded`).

Whether there is a module at all depends on the rest of the schema in one way: the parent of the
level has to be there.  A change of all levels of a schema keeps this as well
(`ResolvedSchema.Reworded.mapM_ofLevel`).
-/

namespace LevelSchema

/-- What is done to descriptions. -/
abbrev Rewording := Option String → Option String

variable {w : Rewording}

/-! ## Changes of a resolved schema -/

/-- A member with its name and value, and the description reworded. -/
structure Member.Reworded (w : Rewording) (m m' : Member) : Prop where
  name : m'.name.value = m.name.value
  value : m'.value = m.value
  description : m'.description = w m.description

/-- A parameter type with its name and kind and with reworded members. -/
structure ParameterType.Reworded (w : Rewording) (t t' : ParameterType) : Prop where
  name : t'.name.value = t.name.value
  kind : t'.kind = t.kind
  description : t'.description = w t.description
  members : List.Forall₂ (Member.Reworded w) t.members t'.members

/-- A property with its name and type, and the description reworded. -/
structure ResolvedProperty.Reworded (w : Rewording) (p p' : ResolvedProperty) : Prop where
  name : p'.name = p.name
  type : p'.type = p.type
  description : p'.description = w p.description

/-- An object type with its path and ancestors and with reworded properties. -/
structure ResolvedObject.Reworded (w : Rewording) (o o' : ResolvedObject) : Prop where
  path : o'.path = o.path
  ancestors : o'.ancestors = o.ancestors
  description : o'.description = w o.description
  properties : List.Forall₂ (ResolvedProperty.Reworded w) o.properties o'.properties

/-- A level with its name, ancestors and collections and with reworded types. -/
structure ResolvedLevel.Reworded (w : Rewording) (l l' : ResolvedLevel) : Prop where
  name : l'.name = l.name
  ancestors : l'.ancestors = l.ancestors
  collections : l'.collections = l.collections
  description : l'.description = w l.description
  parameterTypes : List.Forall₂ (ParameterType.Reworded w) l.parameterTypes l'.parameterTypes
  objectTypes : List.Forall₂ (ResolvedObject.Reworded w) l.objectTypes l'.objectTypes

/-- A schema with reworded levels. -/
abbrev ResolvedSchema.Reworded (w : Rewording) (s s' : ResolvedSchema) : Prop :=
  List.Forall₂ (ResolvedLevel.Reworded w) s.levels s'.levels

namespace Code

variable {s s' : ResolvedSchema} {l l' : ResolvedLevel} {primitivesPath : String}

/-! ## Changes of what is generated -/

/-- A generated member with its description reworded. -/
@[simps] def Constant.reword (w : Rewording) (c : Constant) : Constant :=
  { c with description := w c.description }

/-- A generated parameter type with its descriptions reworded. -/
def ParameterItem.reword (w : Rewording) : ParameterItem → ParameterItem
  | .enumeration e =>
      .enumeration { e with
        description := w e.description, variants := e.variants.map (Constant.reword w) }
  | .flagSet f =>
      .flagSet { f with
        description := w f.description, constants := f.constants.map (Constant.reword w) }

/-- A field with its description reworded. -/
@[simps] def Field.reword (w : Rewording) (f : Field) : Field :=
  { f with description := w f.description }

/-- A record with its descriptions reworded. -/
@[simps] def Record.reword (w : Rewording) (r : Record) : Record :=
  { r with description := w r.description, fields := r.fields.map (Field.reword w) }

/-- A module with its descriptions reworded. -/
@[simps] def Module.reword (w : Rewording) (m : Module) : Module :=
  { m with
    description := w m.description
    parameters := m.parameters.map (ParameterItem.reword w)
    records := m.records.map (Record.reword w) }

/-- Nothing changes where descriptions stay. -/
lemma Module.reword_id (m : Module) : m.reword id = m := by
  have hconstant : Constant.reword id = id := rfl
  have hfield : Field.reword id = id := rfl
  have hparameter : ParameterItem.reword id = id := by
    funext p
    cases p <;> simp [ParameterItem.reword, hconstant]
  have hrecord : Record.reword id = id := by
    funext r
    simp [Record.reword, hfield]
  simp [Module.reword, hparameter, hrecord]

/-! ## Parameter types -/

/-- The mask of a flag set does not depend on descriptions. -/
lemma flagMask_of_reworded {ms ms' : List Member} (h : List.Forall₂ (Member.Reworded w) ms ms')
    (path : TypePath) (mask : UInt32) : flagMask path mask ms' = flagMask path mask ms := by
  induction h generalizing mask with
  | nil => rfl
  | cons hm _ ih => rw [flagMask, flagMask, hm.name, hm.value, ih]

/-- Members are generated one by one. -/
lemma map_constant_of_reworded {ms ms' : List Member}
    (h : List.Forall₂ (Member.Reworded w) ms ms') (spell : String → String) :
    (ms'.map fun m => (⟨spell m.name.value, m.value, m.description⟩ : Constant)) =
      (ms.map fun m => (⟨spell m.name.value, m.value, m.description⟩ : Constant)).map
        (Constant.reword w) := by
  rw [List.map_map]
  refine map_eq_map_of_forall₂ h fun m m' hm => ?_
  rw [hm.name, hm.value, hm.description]
  rfl

/-- A reworded parameter type is written as the reworded item. -/
lemma ParameterItem.ofType_of_reworded {t t' : ParameterType} (h : t.Reworded w t')
    (level : String) :
    ParameterItem.ofType level t' = (ParameterItem.ofType level t).map (reword w) := by
  unfold ofType
  rw [h.name, h.kind, h.description]
  cases t.kind with
  | enumeration =>
      have hempty : t'.members.isEmpty = t.members.isEmpty := by
        rw [Bool.eq_iff_iff, List.isEmpty_iff_length_eq_zero, List.isEmpty_iff_length_eq_zero,
          h.members.length_eq]
      simp only [hempty, map_constant_of_reworded h.members]
      split_ifs <;> rfl
  | flagSet =>
      simp only [flagMask_of_reworded h.members, map_constant_of_reworded h.members]
      cases flagMask ⟨level, t.name.value⟩ 0 t.members <;> rfl

/-! ## Object types -/

/-- Going through a list after a change of its elements that changes results in the same way. -/
lemma mapM_eq_map_of_forall₂ {ε α β : Type} {R : α → α → Prop} {as as' : List α}
    {f g : α → Except ε β} {change : β → β} (h : List.Forall₂ R as as')
    (hfg : ∀ a a', R a a' → g a' = (f a).map change) :
    as'.mapM g = (as.mapM f).map (List.map change) := by
  induction h with
  | nil => rfl
  | @cons a a' as as' ha _ ih =>
      rw [List.mapM_cons, List.mapM_cons, hfg a a' ha, ih]
      cases f a with
      | error e => rfl
      | ok b => cases as.mapM f <;> rfl

lemma Field.ofProperty_of_reworded {p p' : ResolvedProperty} (h : p.Reworded w p') :
    Field.ofProperty p' = (Field.ofProperty p).map (reword w) := by
  unfold ofProperty ResolvedProperty.setter ResolvedProperty.field
  rw [h.name, h.type, h.description]
  cases Storage.ofType p.type <;> rfl

/-- A reworded object type is written as the reworded record. -/
lemma Record.ofObject_of_reworded {o o' : ResolvedObject} (h : o.Reworded w o') :
    Record.ofObject o' = (Record.ofObject o).map (reword w) := by
  unfold ofObject ResolvedObject.parent?
  rw [h.path, h.ancestors, h.description,
    mapM_eq_map_of_forall₂ h.properties fun _ _ => Field.ofProperty_of_reworded]
  cases o.properties.mapM Field.ofProperty <;> rfl

/-! ## Levels -/

lemma propertyTypes_of_reworded (h : l.Reworded w l') : propertyTypes l' = propertyTypes l :=
  flatMap_eq_flatMap_of_forall₂ h.objectTypes fun _ _ ho =>
    map_eq_map_of_forall₂ ho.properties fun _ _ hp => hp.type

/-- What a level imports does not depend on descriptions. -/
lemma broughtIn_of_reworded (h : l.Reworded w l') (primitivesPath : String) :
    broughtIn primitivesPath l' = broughtIn primitivesPath l := by
  have htypes : importedTypes l' = importedTypes l := by
    rw [importedTypes, mentionedPaths, propertyTypes_of_reworded h, h.collections, h.name]
    rfl
  have hprimitives : importedPrimitives l' = importedPrimitives l := by
    rw [importedPrimitives, mentionedPrimitives, propertyTypes_of_reworded h]
    rfl
  rw [broughtIn, htypes, hprimitives, broughtIn]

lemma findSome?_eq_of_forall₂ {α β : Type} {R : α → α → Prop} {f g : α → Option β} {as as' : List α}
    (h : List.Forall₂ R as as') (hfg : ∀ a a', R a a' → g a' = f a) :
    as'.findSome? g = as.findSome? f := by
  induction h with
  | nil => rfl
  | @cons a a' as as' ha _ ih => rw [List.findSome?_cons, List.findSome?_cons, hfg a a' ha, ih]

lemma unresolved?_of_reworded (h : l.Reworded w l') : unresolved? l' = unresolved? l := by
  refine findSome?_eq_of_forall₂ h.objectTypes fun o o' ho => ?_
  refine findSome?_eq_of_forall₂ ho.properties fun p p' hp => ?_
  rw [hp.type, hp.name, ho.path]

/-- The aggregate of a level does not depend on descriptions. -/
lemma Aggregate.ofLevel_of_reworded (h : l.Reworded w l') :
    Aggregate.ofLevel l' = Aggregate.ofLevel l := by
  rw [ofLevel, ofLevel, ResolvedLevel.parent?, ResolvedLevel.parent?, h.name, h.ancestors,
    h.collections]

/-- **Rewording and generating can be done in either order.** -/
theorem Module.ofLevel_of_reworded (h : l.Reworded w l')
    (hparent : missingParent? s' l' = missingParent? s l) :
    Module.ofLevel primitivesPath s' l' = (Module.ofLevel primitivesPath s l).map (reword w) := by
  have hparameters := mapM_eq_map_of_forall₂ h.parameterTypes fun _ _ ht =>
    ParameterItem.ofType_of_reworded ht l.name
  have hrecords := mapM_eq_map_of_forall₂ h.objectTypes fun _ _ => Record.ofObject_of_reworded
  unfold ofLevel
  rw [hparent, unresolved?_of_reworded h, h.name, hparameters, hrecords, h.description,
    broughtIn_of_reworded h, Aggregate.ofLevel_of_reworded h]
  cases missingParent? s l <|> unresolved? l with
  | some fault => rfl
  | none =>
      cases l.parameterTypes.mapM (ParameterItem.ofType l.name) with
      | error fault => rfl
      | ok parameters => cases l.objectTypes.mapM Record.ofObject <;> rfl

/-- Whether a parent is missing depends on the names of levels only. -/
lemma missingParent?_eq (hlevels : s'.levels.map (·.name) = s.levels.map (·.name))
    (hname : l'.name = l.name) (hancestors : l'.ancestors = l.ancestors) :
    missingParent? s' l' = missingParent? s l := by
  have hsome : ∀ (s : ResolvedSchema) (n : String),
      (s.level? n).isSome = (s.levels.map (·.name)).any (· == n) := by
    intro s n
    rw [ResolvedSchema.level?, List.isSome_find?, List.any_map]
    rfl
  unfold missingParent? ResolvedLevel.parent?
  simp only [hname, hancestors, hsome, hlevels]

end Code

/-! ## Schemas -/

namespace ResolvedSchema

open Code

variable {s s' : ResolvedSchema}

lemma Reworded.map_name (h : s.Reworded w s') :
    s'.levels.map (·.name) = s.levels.map (·.name) :=
  map_eq_map_of_forall₂ h fun _ _ hl => hl.name

/-- **The modules of a reworded schema are those of the schema, reworded.** -/
theorem Reworded.mapM_ofLevel (h : s.Reworded w s') (primitivesPath : String) :
    s'.levels.mapM (Module.ofLevel primitivesPath s') =
      (s.levels.mapM (Module.ofLevel primitivesPath s)).map (List.map (Module.reword w)) :=
  mapM_eq_map_of_forall₂ h fun _ _ hl =>
    Module.ofLevel_of_reworded hl (missingParent?_eq h.map_name hl.name hl.ancestors)

end ResolvedSchema

end LevelSchema
