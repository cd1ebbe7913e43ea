import Mathlib.Data.Nat.Bitwise
import LevelSchema.Proofs.Schema.WellFormed

/-!
# Which documents load, and what they load to

Loading goes on after an error and skips the checks that make no sense any more: a member without a
good value takes no part in the comparison of values, and does not move the number of the next one.
Whether **some** error is found does not depend on any of this.  A document loads exactly when it is
`Document.Loadable`, a condition on what is declared, and the schema is then the document with its
items sorted by kind and its members numbered (`Document.schema`).

**Numbers.**  `numbered` gives every member its number at once.  The walk over the members carries
the next number as a machine word that stops at the largest one, but where all numbers fit in 32
bits it never gets there (`Load.toNat_successor`), so both agree.
-/

namespace LevelSchema

/-! ## What is asked of a document -/

namespace Load

/-- The name is already taken where names of this role go in the generated code. -/
def Taken : NameRole → String → Prop
  | .level, name | .type, name => name ∈ ["Option", "Vec", "Box", "Some", "None"]
  | .property, name => Name.snake name = "new"
  | .member .enumeration, name => name = "ALL"
  | .member .flagSet, _ => False

/-- The name cannot be used in the role: as it is or in snake case it is no identifier in any
spelling, or it is taken. -/
def Reserved (role : NameRole) (name : String) : Prop :=
  (∃ form ∈ [name, Name.snake name], form ∈ ["self", "Self", "super", "crate", "_"]) ∨
    Taken role name

/-- Numbers for a list of members: the one that is written, or else one more than the number of the
member before. -/
def numbered (next : Nat) : List (Option Nat) → List Nat
  | [] => []
  | written :: rest => written.getD next :: numbered (written.getD next + 1) rest

/-- The text of a description, if there is something in it. -/
def described : Option Description → Option String
  | none => none
  | some d => if Text.isBlankText d.value then none else some d.value

end Load

open Load

/-- The number that is written at a member. -/
def MemberDecl.written (m : MemberDecl) : Option Nat :=
  m.value.map (·.value.toNat)

/-- The numbers of the members of a parameter type. -/
def ParameterDecl.numbers (d : ParameterDecl) : List Nat :=
  numbered 0 (d.members.map MemberDecl.written)

/-- There is a member; names are free and differ as the kind of type compares them; numbers differ
and fit in 32 bits, and those of a flag set are written out and powers of two. -/
structure ParameterDecl.Loadable (d : ParameterDecl) : Prop where
  members_ne_nil : d.members ≠ []
  free : ∀ m ∈ d.members, ¬ Reserved (.member (kindOf d)) m.name.value
  keys_nodup : (d.members.map fun m =>
    if d.multiple then Name.screaming m.name.value else m.name.value).Nodup
  numbers_nodup : d.numbers.Nodup
  numbers_le : ∀ n ∈ d.numbers, n ≤ 2 ^ 32 - 1
  single_bits : d.multiple = true → ∀ m ∈ d.members, ∃ k ≤ 31, m.written = some (2 ^ k)

/-- Names of properties are free and differ in snake case, and what is extended is one of the types
`typeNames`. -/
structure ObjectDecl.Loadable (typeNames : List String) (d : ObjectDecl) : Prop where
  free : ∀ p ∈ d.properties, ¬ Reserved .property p.name.value
  keys_nodup : (d.properties.map fun p => Name.snake p.name.value).Nodup
  parent_declared : ∀ parent ∈ d.parent, parent.value ∈ typeNames

/-- Names of types are free and differ, there is an object type, every type is in order, and what is
extended is one of the levels `levelNames`. -/
structure LevelDecl.Loadable (levelNames typeNames : List String) (d : LevelDecl) : Prop where
  parent_declared : ∀ parent ∈ d.parent, parent.value ∈ levelNames
  free : ∀ i ∈ d.items, ¬ Reserved .type i.name.value
  names_nodup : (d.items.map (·.name.value)).Nodup
  parameters : ∀ p, .parameter p ∈ d.items → p.Loadable
  objects : ∀ o, .object o ∈ d.items → o.Loadable typeNames
  exists_object : ∃ o, .object o ∈ d.items

/-- There is a level, names of levels are free and differ in snake case, and every level is in
order. -/
structure Document.Loadable (d : Document) : Prop where
  levels_ne_nil : d.levels ≠ []
  free : ∀ l ∈ d.levels, ¬ Reserved .level l.name.value
  keys_nodup : (d.levels.map fun l => Name.snake l.name.value).Nodup
  levels : ∀ l ∈ d.levels, l.Loadable d.levelNames d.typeNames

/-! ## What it becomes -/

/-- A member with its number. -/
def MemberDecl.toMember (m : MemberDecl) (n : Nat) : Member :=
  ⟨m.name, UInt32.ofNat n, described m.description⟩

/-- A declared parameter type with its members numbered. -/
def ParameterDecl.toType (d : ParameterDecl) : ParameterType :=
  ⟨d.name, kindOf d, described d.description, d.members.zipWith MemberDecl.toMember d.numbers,
    d.span⟩

lemma map_name_zipWith_toMember (next : Nat) (ms : List MemberDecl) :
    (ms.zipWith MemberDecl.toMember (numbered next (ms.map MemberDecl.written))).map (·.name) =
      ms.map (·.name) := by
  induction ms generalizing next with
  | nil => rfl
  | cons m ms ih =>
      simp only [List.map_cons, numbered, List.zipWith_cons_cons, ih]
      rfl

lemma ParameterDecl.map_name_members_toType (d : ParameterDecl) :
    d.toType.members.map (·.name) = d.members.map (·.name) :=
  map_name_zipWith_toMember 0 d.members

/-- A declared property; its type is still a name. -/
def PropertyDecl.toProperty (p : PropertyDecl) : Property :=
  ⟨p.name, p.typeName.map .unresolved, described p.description⟩

/-- A declared object type. -/
def ObjectDecl.toType (d : ObjectDecl) : ObjectType :=
  ⟨d.name, described d.description, d.parent, d.properties.map PropertyDecl.toProperty, d.span⟩

/-- A declared level, with parameter and object types apart. -/
def LevelDecl.toLevel (d : LevelDecl) : Level :=
  ⟨d.name, described d.description, d.parent, (parametersIn d.items).map ParameterDecl.toType,
    (objectsIn d.items).map ObjectDecl.toType, d.span⟩

/-- The schema that a document declares. -/
def Document.schema (d : Document) : Schema :=
  ⟨d.levels.map LevelDecl.toLevel⟩

namespace Load

variable {role : NameRole} {name owner : String} {kind : ParameterKind} {m : MemberDecl}

/-! ## Names -/

/-- A name is not refused exactly if it is not reserved. -/
lemma reservedReason?_eq_none_iff : reservedReason? role name = none ↔ ¬ Reserved role name := by
  have hforms : (Name.isUnescapable name || Name.isUnescapable (Name.snake name)) = true ↔
      ∃ form ∈ [name, Name.snake name], form ∈ ["self", "Self", "super", "crate", "_"] := by
    simp [Name.isUnescapable, Name.unescapableWords]
  rw [reservedReason?.eq_def, Reserved, ← hforms]
  by_cases h : (Name.isUnescapable name || Name.isUnescapable (Name.snake name)) = true
  · simp [h]
  · rw [if_neg h, or_iff_right h]
    match role with
    | .level | .type => simp [Taken, reservedTypeNames]
    | .property => simp [Taken]
    | .member .enumeration => simp [Taken]
    | .member .flagSet => simp [Taken]

/-- In an empty scope names are fresh when they are free and their keys differ. -/
lemma fresh_empty_iff {names : List (Located String)} : Fresh role [] names ↔
    (∀ n ∈ names, ¬ Reserved role n.value) ∧ (names.map fun n => key role n.value).Nodup := by
  simp only [← reservedReason?_eq_none_iff]
  constructor
  · exact fun h => ⟨h.not_reserved, h.keys_nodup⟩
  · exact fun h => ⟨h.1, h.2, by simp⟩

lemma value_describe (d : Option Description) : (describe owner d).value = described d := by
  cases d with
  | none => rfl
  | some d =>
      rw [describe, described]
      split_ifs <;> rfl

/-! ## Numbers -/

/-- The test for a single bit finds the powers of two. -/
lemma isSingleBit_iff {n : Nat} : isSingleBit n = true ↔ ∃ k, n = 2 ^ k := by
  rw [isSingleBit, beq_iff_eq]
  constructor
  · exact fun h => ⟨n.log2, h⟩
  · rintro ⟨k, rfl⟩
    rw [Nat.log2_two_pow]
    rfl

/-- A member's number is the one that is written, or else the next one. -/
lemma toNat_candidate (m : MemberDecl) (next : UInt64) :
    (candidate m next).toNat = m.written.getD next.toNat := by
  rw [candidate, MemberDecl.written]
  cases m.value <;> rfl

/-- Counting on from a number that fits does not overflow. -/
lemma toNat_successor {v : UInt64} (h : v.toNat < UInt32.size) :
    (successor v).toNat = v.toNat + 1 := by
  have hlt : v.toNat + 1 < UInt64.size := by
    simp only [UInt32.size, UInt64.size] at h ⊢
    omega
  rw [successor, if_pos hlt, UInt64.toNat_add]
  exact Nat.mod_eq_of_lt hlt

lemma toUInt32_eq_ofNat (v : UInt64) : v.toUInt32 = UInt32.ofNat v.toNat := by
  rw [← UInt32.toNat_inj, UInt64.toNat_toUInt32, UInt32.toNat_ofNat']

/-- Whether a value suits a member, in numbers. -/
lemma suits_candidate_iff {next : UInt64} : Suits kind m (candidate m next) ↔
    m.written.getD next.toNat ≤ 2 ^ 32 - 1 ∧
      (kind = .flagSet → ∃ k ≤ 31, m.written = some (2 ^ k)) := by
  have hsuits : Suits kind m (candidate m next) ↔ (candidate m next).toNat ≤ 2 ^ 32 - 1 ∧
      (kind = .flagSet → m.value.isSome = true ∧
        isSingleBit (candidate m next).toNat = true) :=
    ⟨fun h => ⟨Nat.le_pred_of_lt h.1, h.2⟩, fun h => ⟨Nat.lt_of_le_pred (by decide) h.1, h.2⟩⟩
  rw [hsuits, toNat_candidate]
  refine and_congr_right fun hle => imp_congr_right fun _ => ?_
  rw [isSingleBit_iff, MemberDecl.written] at *
  cases hvalue : m.value with
  | none => simp
  | some v =>
      simp only [hvalue, Option.map_some, Option.getD_some, Option.isSome_some, true_and,
        Option.some.injEq] at hle ⊢
      constructor
      · rintro ⟨k, hk⟩
        refine ⟨k, ?_, hk⟩
        have hlt : 2 ^ k < 2 ^ 32 := by omega
        exact Nat.le_of_lt_succ ((Nat.pow_lt_pow_iff_right (by decide)).mp hlt)
      · rintro ⟨k, -, hk⟩
        exact ⟨k, hk⟩

/-- The numbers of members that come after those `seen`, where `next` would be the first: they are
new, differ and are in range, and those of a flag set are single bits. -/
structure NumbersFit (kind : ParameterKind) (seen : List Nat) (next : Nat) (ms : List MemberDecl) :
    Prop where
  joins : Joins seen (numbered next (ms.map MemberDecl.written))
  in_range : ∀ n ∈ numbered next (ms.map MemberDecl.written), n ≤ 2 ^ 32 - 1
  single_bits : kind = .flagSet → ∀ m ∈ ms, ∃ k ≤ 31, m.written = some (2 ^ k)

lemma numbersFit_nil {seen : List Nat} {next : Nat} : NumbersFit kind seen next [] :=
  ⟨joins_nil, by simp [numbered], by simp⟩

/-- Numbers can be looked at one member after the other. -/
lemma numbersFit_cons_iff {seen : List Nat} {next : UInt64} {ms : List MemberDecl} :
    NumbersFit kind seen next.toNat (m :: ms) ↔ Suits kind m (candidate m next) ∧
      (candidate m next).toNat ∉ seen ∧
        NumbersFit kind ((candidate m next).toNat :: seen) (successor (candidate m next)).toNat
          ms := by
  have hnumbered : numbered next.toNat ((m :: ms).map MemberDecl.written) =
      (candidate m next).toNat ::
        numbered ((candidate m next).toNat + 1) (ms.map MemberDecl.written) := by
    rw [toNat_candidate]
    rfl
  constructor
  · rintro ⟨hjoins, hrange, hbits⟩
    rw [hnumbered] at hjoins hrange
    obtain ⟨hnew, hjoins⟩ := joins_cons_iff.mp hjoins
    obtain ⟨hle, hrange⟩ := List.forall_mem_cons.mp hrange
    have hsuits : Suits kind m (candidate m next) := by
      rw [toNat_candidate] at hle
      exact suits_candidate_iff.mpr ⟨hle, fun hkind => hbits hkind m List.mem_cons_self⟩
    rw [toNat_successor hsuits.in_range]
    exact ⟨hsuits, hnew, hjoins, hrange,
      fun hkind n hn => hbits hkind n (List.mem_cons_of_mem _ hn)⟩
  · rintro ⟨hsuits, hnew, hrest⟩
    rw [toNat_successor hsuits.in_range] at hrest
    obtain ⟨hle, hbit⟩ := suits_candidate_iff.mp hsuits
    rw [← toNat_candidate] at hle
    refine ⟨?_, ?_, fun hkind => List.forall_mem_cons.mpr ⟨hbit hkind, hrest.single_bits hkind⟩⟩
    · rw [hnumbered]
      exact joins_cons_iff.mpr ⟨hnew, hrest.joins⟩
    · rw [hnumbered]
      exact List.forall_mem_cons.mpr ⟨hle, hrest.in_range⟩

/-- Members pass if their names are new and their numbers fit, given what is already in scope. -/
lemma passes_members_iff {parameter : String} {scope : MemberScope} {ms : List MemberDecl} :
    Passes (members kind parameter scope ms) ↔ Fresh (.member kind) scope.seen (ms.map (·.name)) ∧
      NumbersFit kind (scope.values.map (·.1.toNat)) scope.next.toNat ms := by
  induction ms generalizing scope with
  | nil => simp [members, fresh_nil, numbersFit_nil]
  | cons m ms ih =>
      have hnew : candidate m scope.next ∉ scope.values.map (·.1) ↔
          (candidate m scope.next).toNat ∉ scope.values.map (·.1.toNat) := by
        rw [not_iff_not, ← Function.comp_def UInt64.toNat, ← List.map_map,
          List.mem_map_of_injective fun _ _ => UInt64.toNat_inj.mp]
      rw [passes_members_cons_iff, ih, List.map_cons,
        fresh_cons_iff (Name.nested parameter m.name.value), numbersFit_cons_iff, hnew]
      simp only [MemberScope.extend, List.map_cons]
      tauto

/-- Members that pass are kept, each with its number. -/
lemma value_members {parameter : String} {scope : MemberScope} {ms : List MemberDecl}
    (h : Passes (members kind parameter scope ms)) : (members kind parameter scope ms).value =
      ms.zipWith MemberDecl.toMember
        (numbered scope.next.toNat (ms.map MemberDecl.written)) := by
  induction ms generalizing scope with
  | nil => rfl
  | cons m ms ih =>
      obtain ⟨-, hsuits, -, hrest⟩ := passes_members_cons_iff.mp h
      rw [value_members_cons h, ih hrest, MemberScope.extend, toNat_successor hsuits.in_range,
        toNat_candidate, value_describe, toUInt32_eq_ofNat, toNat_candidate]
      rfl

/-! ## Declarations -/

lemma key_member (d : ParameterDecl) (n : String) : key (.member (kindOf d)) n =
    if d.multiple then Name.screaming n else n := by
  rw [kindOf]
  split_ifs <;> rfl

/-- A parameter type passes its checks exactly if it is loadable. -/
lemma passes_parameterType_iff_loadable {d : ParameterDecl} :
    Passes (parameterType owner d) ↔ d.Loadable := by
  rw [passes_parameterType_iff, passes_members_iff, fresh_empty_iff]
  simp only [List.forall_mem_map, List.map_map, Function.comp_def, key_member]
  have hkind : kindOf d = .flagSet ↔ d.multiple = true := by
    rw [kindOf]
    split_ifs with h <;> simp [h]
  constructor
  · rintro ⟨hne, ⟨hfree, hkeys⟩, hnumbers⟩
    exact ⟨hne, hfree, hkeys, hnumbers.joins.nodup, hnumbers.in_range,
      fun h => hnumbers.single_bits (hkind.mpr h)⟩
  · rintro ⟨hne, hfree, hkeys, hnodup, hrange, hbits⟩
    exact ⟨hne, ⟨hfree, hkeys⟩, ⟨by simp, hnodup⟩, hrange, fun h => hbits (hkind.mp h)⟩

/-- A parameter type that passes is loaded as declared. -/
lemma value_parameterType_of_passes {d : ParameterDecl} (h : Passes (parameterType owner d)) :
    (parameterType owner d).value = d.toType := by
  rw [value_parameterType, value_members (passes_parameterType_iff.mp h).2, value_describe]
  rfl

/-- An object type passes its checks exactly if it is loadable. -/
lemma passes_objectType_iff_loadable {typeNames : List String} {d : ObjectDecl} :
    Passes (objectType typeNames owner d) ↔ d.Loadable typeNames := by
  rw [passes_objectType_iff, passes_properties_iff, fresh_empty_iff]
  simp only [List.forall_mem_map, List.map_map, Function.comp_def, key]
  constructor
  · rintro ⟨hparent, hfree, hkeys⟩
    exact ⟨hfree, hkeys, hparent⟩
  · rintro ⟨hfree, hkeys, hparent⟩
    exact ⟨hparent, hfree, hkeys⟩

lemma value_properties {object : String} {seen : Seen} {ps : List PropertyDecl} :
    (properties object seen ps).value = ps.map PropertyDecl.toProperty := by
  induction ps generalizing seen with
  | nil => rfl
  | cons p ps ih => simp [properties, ih, value_describe, PropertyDecl.toProperty]

lemma value_objectType_eq {typeNames : List String} {d : ObjectDecl} :
    (objectType typeNames owner d).value = d.toType := by
  rw [value_objectType, value_properties, value_describe]
  rfl

/-- A level passes its checks exactly if it is loadable. -/
lemma passes_level_iff_loadable {levelNames typeNames : List String} {d : LevelDecl} :
    Passes (level levelNames typeNames d) ↔ d.Loadable levelNames typeNames := by
  have hobjects : (items typeNames d.name.value [] d.items).value.2 ≠ [] ↔
      ∃ o, .object o ∈ d.items := by
    rw [value_items, ne_eq, List.map_eq_nil_iff, List.eq_nil_iff_forall_not_mem, not_forall]
    simp only [not_not, mem_objectsIn]
  rw [passes_level_iff, passes_items_iff, fresh_empty_iff, hobjects]
  simp only [List.forall_mem_map, List.map_map, Function.comp_def, key]
  constructor
  · rintro ⟨hparent, ⟨⟨hfree, hnames⟩, hitems⟩, hobject⟩
    exact ⟨hparent, hfree, hnames,
      fun p hp => passes_parameterType_iff_loadable.mp (hitems _ hp),
      fun o ho => passes_objectType_iff_loadable.mp (hitems _ ho), hobject⟩
  · rintro ⟨hparent, hfree, hnames, hparameters, hobjects, hobject⟩
    refine ⟨hparent, ⟨⟨hfree, hnames⟩, fun i hi => ?_⟩, hobject⟩
    cases i with
    | parameter p => exact passes_parameterType_iff_loadable.mpr (hparameters p hi)
    | object o => exact passes_objectType_iff_loadable.mpr (hobjects o hi)

lemma value_level_of_passes {levelNames typeNames : List String} {d : LevelDecl}
    (h : Passes (level levelNames typeNames d)) :
    (level levelNames typeNames d).value = d.toLevel := by
  obtain ⟨-, hitems, -⟩ := passes_level_iff.mp h
  obtain ⟨-, hpasses⟩ := passes_items_iff.mp hitems
  have hparameters : ((parametersIn d.items).map fun p =>
      (parameterType (Name.nested d.name.value p.name.value) p).value) =
        (parametersIn d.items).map ParameterDecl.toType :=
    List.map_congr_left fun p hp =>
      value_parameterType_of_passes (hpasses _ (mem_parametersIn.mp hp))
  rw [value_level, value_items, value_describe, hparameters]
  simp only [value_objectType_eq]
  rfl

end Load

namespace Document

/-- A document passes its checks exactly if it is loadable. -/
lemma passes_load_iff_loadable {d : Document} : Passes d.load ↔ d.Loadable := by
  rw [passes_load_iff, passes_levels_iff, fresh_empty_iff]
  simp only [List.forall_mem_map, List.map_map, Function.comp_def, key, passes_level_iff_loadable]
  constructor
  · rintro ⟨hne, ⟨hfree, hkeys⟩, hlevels⟩
    exact ⟨hne, hfree, hkeys, hlevels⟩
  · rintro ⟨hne, hfree, hkeys, hlevels⟩
    exact ⟨hne, ⟨hfree, hkeys⟩, hlevels⟩

/-- A document that passes is loaded as declared. -/
lemma value_load_of_passes {d : Document} (h : Passes d.load) : d.load.value = d.schema := by
  rw [value_load, schema, Schema.mk.injEq]
  refine List.map_congr_left fun l hl => value_level_of_passes ?_
  exact (passes_levels_iff.mp (passes_load_iff.mp h).2).2 l hl

/-- **A document loads exactly when its declarations are in order, and then to the schema that they
declare.** -/
theorem conclude_load_eq_ok_iff_loadable (d : Document) (s : Schema) :
    (∃ warnings, (d.load.mapNotes LoadFinding.diagnostic).conclude = .ok ⟨s, warnings⟩) ↔
      d.Loadable ∧ s = d.schema := by
  simp only [conclude_eq_ok_iff, ← passes_load_iff_loadable]
  constructor
  · rintro ⟨warnings, hpasses, hvalue⟩
    obtain ⟨rfl, -⟩ := Noted.mk.inj hvalue
    exact ⟨hpasses, value_load_of_passes hpasses⟩
  · rintro ⟨hpasses, rfl⟩
    exact ⟨_, hpasses, by rw [← value_load_of_passes hpasses]; rfl⟩

end Document

end LevelSchema
