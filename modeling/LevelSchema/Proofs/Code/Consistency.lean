import Mathlib.Data.Nat.Bitwise
import LevelSchema.Artifact
import LevelSchema.Proofs.Resolved.Result

/-!
# Models that can be generated from

Generating refuses a resolved schema in which something does not fit.  What fits is said by
`ResolvedSchema.Consistent`, and generating succeeds exactly on consistent schemas
(`ResolvedSchema.exists_emit_iff`).

**Where consistency comes from.**  The four things that could go wrong are ruled out at three
different places: parents and property types by resolving, since an ancestor is a level of the order
and a type that is not known is an error; members and their values by loading.  The values of flags
are checked one by one to be single bits and to be distinct, and different single bits have no bit
in common (`and_eq_zero_of_isSingleBit`).

**Known types.**  Since types are looked at before anything is generated, records are generated from
known types only, and then nothing can fail: a record is a function of its object type
(`Code.Record.ofObject_eq_ok`).
-/

namespace LevelSchema

/-! ## Consistent models -/

/-- An enumeration has a member, and flags are single bits without overlap. -/
structure ParameterType.Consistent (t : ParameterType) : Prop where
  members_ne_nil : t.kind = .enumeration → t.members ≠ []
  single_bits : t.kind = .flagSet → ∀ m ∈ t.members, isSingleBit m.value.toNat = true
  disjoint : t.kind = .flagSet → t.members.Pairwise fun m n => m.value &&& n.value = 0

/-- The parent of every level is there, all property types are known, and parameter types are
consistent. -/
structure ResolvedSchema.Consistent (s : ResolvedSchema) : Prop where
  parents_resolved : ∀ l ∈ s.levels, ∀ p, l.parent? = some p → ∃ m ∈ s.levels, m.name = p
  types_resolved : ∀ l ∈ s.levels, ∀ o ∈ l.objectTypes, ∀ p ∈ o.properties,
    p.type.isResolved = true
  parameterTypes : ∀ l ∈ s.levels, ∀ t ∈ l.parameterTypes, t.Consistent

/-! ## What generating checks -/

namespace Code

variable {s : ResolvedSchema} {l : ResolvedLevel} {path : TypePath}

/-- No parent is missing if each one that is named is there. -/
lemma missingParent?_eq_none_iff : missingParent? s l = none ↔
    ∀ p, l.parent? = some p → ∃ m ∈ s.levels, m.name = p := by
  unfold missingParent?
  cases l.parent? with
  | none => simp
  | some p =>
      have hsome : (s.level? p).isSome ↔ ∃ m ∈ s.levels, m.name = p := by
        rw [ResolvedSchema.level?, List.find?_isSome]
        simp
      simp [← hsome, Option.isSome_iff_ne_none]

/-- Nothing is unresolved if every property has its type. -/
lemma unresolved?_eq_none_iff : unresolved? l = none ↔
    ∀ o ∈ l.objectTypes, ∀ p ∈ o.properties, p.type.isResolved = true := by
  simp only [unresolved?, List.findSome?_eq_none_iff]
  refine forall₄_congr fun o _ p _ => ?_
  cases p.type <;> simp [TypeRef.isResolved]

/-! ## Records of known types -/

/-- How a property of a known type is stored. -/
def Storage.ofKnown : TypeRef → Storage
  | .primitive _ | .unresolved _ => .value
  | .parameter _ => .parameter
  | .object _ => .relation

/-- The field of a property whose type is known. -/
def Field.ofKnown (p : ResolvedProperty) : Field :=
  ⟨Name.escape p.field, p.setter, .ofKnown p.type, Name.escape p.type.name, p.description⟩

/-- The record of an object type whose properties have known types. -/
def Record.ofKnown (o : ResolvedObject) : Record :=
  ⟨Name.escape o.path.name, o.description, o.parent?.map (·.qualified),
    o.properties.map Field.ofKnown⟩

lemma Field.ofProperty_eq_ok {p : ResolvedProperty} (h : p.type.isResolved = true) :
    Field.ofProperty p = .ok (.ofKnown p) := by
  rw [Field.ofProperty, Field.ofKnown]
  cases htype : p.type with
  | unresolved name =>
      rw [htype] at h
      cases h
  | _ => rfl

/-- Nothing fails where all types are known. -/
lemma Record.ofObject_eq_ok {o : ResolvedObject}
    (h : ∀ p ∈ o.properties, p.type.isResolved = true) : Record.ofObject o = .ok (.ofKnown o) := by
  rw [Record.ofObject, mapM_eq_ok_map fun p hp => Field.ofProperty_eq_ok (h p hp)]
  rfl

/-- The records of a level whose types have been looked at. -/
lemma mapM_ofObject_eq_ok (h : unresolved? l = none) :
    l.objectTypes.mapM Record.ofObject = .ok (l.objectTypes.map Record.ofKnown) :=
  mapM_eq_ok_map fun o ho => Record.ofObject_eq_ok (unresolved?_eq_none_iff.mp h o ho)

/-! ## Parameter types -/

lemma or_and_eq_zero_iff {a b c : UInt32} :
    (a ||| b) &&& c = 0 ↔ a &&& c = 0 ∧ b &&& c = 0 := by
  rw [← UInt32.or_eq_zero_iff, ← UInt32.toNat_inj, ← UInt32.toNat_inj]
  simp only [UInt32.toNat_and, UInt32.toNat_or, Nat.and_or_distrib_right]

/-- Flags combine when each is a single bit outside the mask and outside every other. -/
lemma exists_flagMask_iff {mask : UInt32} {ms : List Member} :
    (∃ w, flagMask path mask ms = .ok w) ↔
      (∀ m ∈ ms, isSingleBit m.value.toNat = true ∧ mask &&& m.value = 0) ∧
        ms.Pairwise fun m n => m.value &&& n.value = 0 := by
  induction ms generalizing mask with
  | nil => simp [flagMask]
  | cons m ms ih =>
      rw [flagMask, List.forall_mem_cons, List.pairwise_cons]
      by_cases hm : isSingleBit m.value.toNat = true ∧ mask &&& m.value = 0
      · rw [if_pos (by simpa using hm), ih]
        simp only [or_and_eq_zero_iff, hm, forall_and]
        tauto
      · rw [if_neg (by simpa using hm)]
        simp [hm]

/-- A parameter type is written if it is consistent. -/
lemma ParameterItem.exists_ofType_iff (level : String) {t : ParameterType} :
    (∃ item, ParameterItem.ofType level t = .ok item) ↔ t.Consistent := by
  unfold ParameterItem.ofType
  cases hkind : t.kind with
  | enumeration =>
      have hconsistent : t.Consistent ↔ t.members ≠ [] :=
        ⟨fun h => h.members_ne_nil hkind,
          fun h => ⟨fun _ => h, by simp [hkind], by simp [hkind]⟩⟩
      rw [hconsistent]
      cases t.members <;> simp
  | flagSet =>
      have hconsistent : t.Consistent ↔
          ∃ w, flagMask ⟨level, t.name.value⟩ 0 t.members = .ok w := by
        rw [exists_flagMask_iff]
        simp only [UInt32.zero_and, and_true]
        exact ⟨fun h => ⟨h.single_bits hkind, h.disjoint hkind⟩,
          fun h => ⟨by simp [hkind], fun _ => h.1, fun _ => h.2⟩⟩
      rw [hconsistent]
      cases hmask : flagMask ⟨level, t.name.value⟩ 0 t.members <;>
        simp [hmask, bind, Except.bind, pure, Except.pure]

/-! ## Modules -/

/-- A level is written if its parent is there and its types are resolved and consistent. -/
lemma Module.exists_ofLevel_iff {primitivesPath : String} :
    (∃ m, Module.ofLevel primitivesPath s l = .ok m) ↔
      (∀ p, l.parent? = some p → ∃ m ∈ s.levels, m.name = p) ∧
        (∀ o ∈ l.objectTypes, ∀ p ∈ o.properties, p.type.isResolved = true) ∧
          ∀ t ∈ l.parameterTypes, t.Consistent := by
  rw [← missingParent?_eq_none_iff, ← unresolved?_eq_none_iff]
  simp only [← ParameterItem.exists_ofType_iff l.name]
  rw [← exists_mapM_iff, Module.ofLevel]
  cases missingParent? s l with
  | some fault => simp
  | none =>
      cases htypes : unresolved? l with
      | some fault => simp
      | none =>
          rw [mapM_ofObject_eq_ok htypes]
          cases l.parameterTypes.mapM (ParameterItem.ofType l.name) <;>
            simp [bind, Except.bind, pure, Except.pure]

end Code

/-- **Generating succeeds exactly on consistent models.** -/
theorem ResolvedSchema.exists_emit_iff {s : ResolvedSchema} {settings : EmitSettings} :
    (∃ artifact, s.emit settings = .ok artifact) ↔ s.Consistent := by
  have hemit : (∃ artifact, s.emit settings = .ok artifact) ↔
      ∃ modules, s.levels.mapM (Code.Module.ofLevel settings.primitivesPath s) = .ok modules := by
    rw [ResolvedSchema.emit]
    cases s.levels.mapM (Code.Module.ofLevel settings.primitivesPath s) <;>
      simp [bind, Except.bind, pure, Except.pure]
  rw [hemit, exists_mapM_iff]
  simp only [Code.Module.exists_ofLevel_iff]
  constructor
  · intro h
    exact ⟨fun l hl => (h l hl).1, fun l hl => (h l hl).2.1, fun l hl => (h l hl).2.2⟩
  · rintro ⟨hparents, htypes, hparameters⟩ l hl
    exact ⟨hparents l hl, htypes l hl, hparameters l hl⟩

/-! ## Resolved schemas are consistent -/

/-- Different single bits have no bit in common. -/
lemma and_eq_zero_of_isSingleBit {a b : UInt32} (ha : isSingleBit a.toNat = true)
    (hb : isSingleBit b.toNat = true) (hne : a ≠ b) : a &&& b = 0 := by
  have ha' : a.toNat = 2 ^ a.toNat.log2 := by simpa [isSingleBit] using ha
  have hb' : b.toNat = 2 ^ b.toNat.log2 := by simpa [isSingleBit] using hb
  have hlog : a.toNat.log2 ≠ b.toNat.log2 := by
    intro h
    rw [h, ← hb'] at ha'
    exact hne (UInt32.toNat_inj.mp ha')
  rw [← UInt32.toNat_inj, UInt32.toNat_and, ha', hb', Nat.and_two_pow, Nat.testBit_two_pow]
  simp [hlog]

/-- Flags with different values are disjoint. -/
lemma pairwise_disjoint_of_nodup {ms : List Member}
    (hbits : ∀ m ∈ ms, isSingleBit m.value.toNat = true) (hnodup : (ms.map (·.value)).Nodup) :
    ms.Pairwise fun m n => m.value &&& n.value = 0 := by
  refine (List.pairwise_map.mp hnodup).imp_of_mem ?_
  intro m n hm hn hne
  exact and_eq_zero_of_isSingleBit (hbits m hm) (hbits n hn) hne

lemma ParameterType.WellFormed.consistent {t : ParameterType} (ht : t.WellFormed) :
    t.Consistent :=
  ⟨fun _ => ht.members_ne_nil, ht.single_bits,
    fun hkind => pairwise_disjoint_of_nodup (ht.single_bits hkind) ht.values_nodup⟩

/-- What a type name stands for is known. -/
lemma Resolve.isResolved_of_typeRef? {P : PrimitiveSet} {scope : Scope} {name : String}
    {t : TypeRef} (h : Resolve.typeRef? P scope name = some t) : t.isResolved = true := by
  unfold Resolve.typeRef? at h
  split at h
  · cases h
    rfl
  · cases h
    rfl
  · split_ifs at h
    cases h
    rfl

namespace Schema

variable {s : Schema} {P : PrimitiveSet} {r : ResolvedSchema}

lemma Bound.isResolved_of_mem (hs : s.Bound P) {x : PlacedObject} (hx : x ∈ s.objects)
    {p : ResolvedProperty} (hp : p ∈ s.boundProperties P x) : p.type.isResolved = true := by
  obtain ⟨q, hq, rfl⟩ := List.mem_map.mp hp
  exact Resolve.isResolved_of_typeRef? (hs.typeRef?_eq_some hx hq)

/-- **Whatever resolving accepts can be generated from.** -/
theorem WellFormed.consistent_of_resolve (hs : s.WellFormed) (h : s.resolve P = .ok r) :
    r.Consistent := by
  have hbound := hs.bound_of_resolve h
  refine ⟨fun level hlevel p hp => ?_, fun level hlevel o ho p hp => ?_,
    fun level hlevel t ht => ?_⟩
  all_goals obtain ⟨l, hl, hyields⟩ := hs.exists_levelYields h hlevel
  · obtain ⟨chain, hchain, hancestors, -⟩ := hyields.lineage
    have hmem : p ∈ chain.dropLast.map (·.name.value) := by
      rw [← hancestors]
      exact List.mem_of_getLast? hp
    obtain ⟨m, hm, rfl⟩ := List.mem_map.mp hmem
    have hm : m ∈ s.levels := mem_levels_of_lineage hl hchain (List.dropLast_subset _ hm)
    obtain ⟨n, hn, hnm⟩ := hs.exists_resolved h hm
    exact ⟨n, hn, hnm.name⟩
  · obtain ⟨x, hx, ho⟩ := exists_of_forall₂_of_mem hyields.objectTypes ho
    obtain ⟨hlevel, hdecl⟩ := Level.mem_objects.mp hx
    have hx : x ∈ s.objects := mem_objects.mpr (hlevel ▸ ⟨hl, hdecl⟩)
    obtain ⟨chain, hchain, -, hproperties⟩ := ho.lineage
    rw [hproperties, List.mem_flatMap] at hp
    obtain ⟨y, hy, hp⟩ := hp
    exact hbound.isResolved_of_mem (mem_objects_of_lineage hx hchain hy) hp
  · rw [hyields.parameterTypes] at ht
    exact ((hs.levels l hl).parameterTypes t ht).consistent

end Schema

end LevelSchema
