import Mathlib.Data.List.Nodup
import Mathlib.Data.List.Perm.Basic
import LevelSchema.Proofs.Diagnostic.Noted
import LevelSchema.Proofs.Distinct
import LevelSchema.Proofs.Document.Names
import LevelSchema.Resolved.Scope

/-!
# What loading guarantees

A schema that was loaded is **well formed**: names can be used in their roles, what is declared side
by side has different keys, every level that is extended is declared, and the members of a parameter
type have values that fit their kind.  This is all that the later stages know about where a schema
comes from (`Schema.wellFormed_of_ofSource`).

**Scopes of names.**  Levels, types, members and properties are checked by the same walk: name after
name, each against the keys seen before it.  `Load.Fresh` says what such a walk establishes for a
whole list, and `fresh_cons_iff` is its only step.
-/

namespace LevelSchema

/-! ## Well-formed schemas -/

namespace Load

/-- A name that is an identifier and free for its role. -/
structure Usable (role : NameRole) (name : String) : Prop where
  isIdentifier : Name.isIdentifier name = true
  not_reserved : reservedReason? role name = none

end Load

/-- The members of a parameter type have distinct names and values, and there is one; those of a
flag set are single bits. -/
structure ParameterType.WellFormed (p : ParameterType) : Prop where
  members_ne_nil : p.members ≠ []
  usable : ∀ m ∈ p.members, Load.Usable (.member p.kind) m.name.value
  keys_nodup : (p.members.map fun m => Load.key (.member p.kind) m.name.value).Nodup
  values_nodup : (p.members.map (·.value)).Nodup
  single_bits : p.kind = .flagSet → ∀ m ∈ p.members, isSingleBit m.value.toNat = true

/-- The properties of an object type have distinct generated names. -/
structure ObjectType.WellFormed (o : ObjectType) : Prop where
  usable : ∀ p ∈ o.properties, Load.Usable .property p.name.value
  keys_nodup : (o.properties.map fun p => Name.snake p.name.value).Nodup

/-- The names of the types that a level declares, parameter types first. -/
def Level.typeNames (l : Level) : List String :=
  l.ownTypes.map (·.1.value)

/-- The types of a level have distinct names and are well formed. -/
structure Level.WellFormed (l : Level) : Prop where
  usable : ∀ n ∈ l.typeNames, Load.Usable .type n
  typeNames_nodup : l.typeNames.Nodup
  parameterTypes : ∀ p ∈ l.parameterTypes, p.WellFormed
  objectTypes : ∀ o ∈ l.objectTypes, o.WellFormed

/-- The levels of a schema have distinct generated names, extend declared levels, and are well
formed. -/
structure Schema.WellFormed (s : Schema) : Prop where
  usable : ∀ l ∈ s.levels, Load.Usable .level l.name.value
  keys_nodup : (s.levels.map fun l => Name.snake l.name.value).Nodup
  parents_declared : ∀ l ∈ s.levels, ∀ p, l.parent = some p →
    ∃ m ∈ s.levels, m.name.value = p.value
  levels : ∀ l ∈ s.levels, l.WellFormed

namespace Load

/-! ## Names checked one after the other -/

/-- The names of a scope after those in `seen`: none is reserved, and no two have the same key. -/
structure Fresh (role : NameRole) (seen : Seen) (names : List (Located String)) : Prop where
  not_reserved : ∀ n ∈ names, reservedReason? role n.value = none
  keys_nodup : (names.map fun n => key role n.value).Nodup
  unseen : ∀ n ∈ names, key role n.value ∉ seen.map (·.1)

variable {role : NameRole} {seen : Seen} {name : Located String} {owner : String}

lemma fresh_nil : Fresh role seen [] :=
  ⟨by simp, by simp, by simp⟩

/-- A name passes when it is free for its role and its key was not seen; it is then remembered. -/
lemma passes_checkName_iff : Passes (checkName role seen name owner) ↔
    reservedReason? role name.value = none ∧ key role name.value ∉ seen.map (·.1) := by
  have hreserved : Passes (Noted.noteAny
      ((reservedReason? role name.value).map (.reservedName role name owner ·))) ↔
        reservedReason? role name.value = none := by
    cases reservedReason? role name.value <;> simp [LoadFinding.isError_diagnostic]
  rw [checkName, passes_bind_iff, hreserved, ← lookup_eq_none_iff_not_mem]
  cases seen.lookup (key role name.value) <;> simp [LoadFinding.isError_diagnostic]

/-- A name that passes is remembered. -/
lemma value_checkName (h : Passes (checkName role seen name owner)) :
    (checkName role seen name owner).value = (key role name.value, name) :: seen := by
  have hnone := lookup_eq_none_iff_not_mem.mpr (passes_checkName_iff.mp h).2
  simp [checkName, hnone]

/-- Names are fresh if the first passes and the others are fresh with it remembered. -/
lemma fresh_cons_iff (owner : String) {names : List (Located String)} :
    Fresh role seen (name :: names) ↔ Passes (checkName role seen name owner) ∧
      Fresh role (checkName role seen name owner).value names := by
  constructor
  · rintro ⟨hres, hkeys, hseen⟩
    have hpass : Passes (checkName role seen name owner) :=
      passes_checkName_iff.mpr ⟨hres name List.mem_cons_self, hseen name List.mem_cons_self⟩
    obtain ⟨hnew, hkeys⟩ := List.nodup_cons.mp hkeys
    refine ⟨hpass, fun n hn => hres n (List.mem_cons_of_mem _ hn), hkeys, fun n hn hmem => ?_⟩
    rw [value_checkName hpass, List.map_cons, List.mem_cons] at hmem
    rcases hmem with heq | hmem
    · exact hnew (List.mem_map.mpr ⟨n, hn, heq⟩)
    · exact hseen n (List.mem_cons_of_mem _ hn) hmem
  · rintro ⟨hpass, hres, hkeys, hseen⟩
    rw [value_checkName hpass] at hseen
    rw [passes_checkName_iff] at hpass
    refine ⟨List.forall_mem_cons.mpr ⟨hpass.1, hres⟩, List.nodup_cons.mpr ⟨?_, hkeys⟩,
      List.forall_mem_cons.mpr ⟨hpass.2, fun n hn hmem => ?_⟩⟩
    · intro hmem
      obtain ⟨n, hn, heq⟩ := List.mem_map.mp hmem
      exact hseen n hn (by simp [heq])
    · exact hseen n hn (List.mem_cons_of_mem _ hmem)

/-- No description stands in the way of loading. -/
lemma passes_describe (d : Option Description) : Passes (describe owner d) := by
  cases d with
  | none => exact passes_pure none
  | some d =>
      rw [describe]
      split_ifs
      · exact passes_bind_iff.mpr
          ⟨passes_note_iff.mpr ((LoadFinding.isError_diagnostic _).mpr ⟨_, _, rfl⟩), passes_pure _⟩
      · exact passes_pure _

/-! ## Members -/

variable {kind : ParameterKind} {m : MemberDecl} {next : UInt64}

/-- The value that a member would have: the one that is written, or else the next one. -/
def candidate (m : MemberDecl) (next : UInt64) : UInt64 :=
  m.value.elim next (·.value)

/-- A member can have the value: it fits in 32 bits, and in a flag set it is a single bit that is
written out. -/
structure Suits (kind : ParameterKind) (m : MemberDecl) (v : UInt64) : Prop where
  in_range : v.toNat < UInt32.size
  single_bit : kind = .flagSet → m.value.isSome = true ∧ isSingleBit v.toNat = true

/-- Members get their candidates, and no error is found exactly when these suit them. -/
lemma memberValue_spec :
    (Passes (memberValue kind owner m next) ↔ Suits kind m (candidate m next)) ∧
    (Suits kind m (candidate m next) →
      (memberValue kind owner m next).value = some (candidate m next)) := by
  -- whatever the candidate is, it has to be in range
  have hrange : ∀ v : UInt64, Passes (if v.toNat < UInt32.size then pure (some v) else do
        Noted.note (.valueOutOfRange kind owner v (valueSpan m))
        return none : Check (Option UInt64)) ↔ v.toNat < UInt32.size := by
    intro v
    by_cases hlt : v.toNat < UInt32.size
    · simp [hlt]
    · simp [hlt, LoadFinding.isError_diagnostic]
  have hsuits : ∀ v, Suits kind m v ↔ v.toNat < UInt32.size ∧
      (kind = .flagSet → m.value.isSome = true ∧ isSingleBit v.toNat = true) :=
    fun v => ⟨fun h => ⟨h.1, h.2⟩, fun h => ⟨h.1, h.2⟩⟩
  unfold memberValue candidate
  cases kind with
  | enumeration =>
      cases hvalue : m.value with
      | none =>
          refine ⟨by simpa [hsuits] using hrange next, fun h => ?_⟩
          simp [show next.toNat < UInt32.size from h.in_range]
      | some v =>
          refine ⟨by simpa [hsuits] using hrange v.value, fun h => ?_⟩
          simp [show v.value.toNat < UInt32.size from h.in_range]
  | flagSet =>
      cases hvalue : m.value with
      | none => simp [hsuits, hvalue, LoadFinding.isError_diagnostic]
      | some v =>
          by_cases hbit : isSingleBit v.value.toNat = true
          · refine ⟨by simpa [hsuits, hvalue, hbit] using hrange v.value, fun h => ?_⟩
            simp [hbit, show v.value.toNat < UInt32.size from h.in_range]
          · simp [hsuits, hbit, LoadFinding.isError_diagnostic]

lemma toWord?_of_lt {v : UInt64} (h : v.toNat < UInt32.size) : toWord? v = some v.toUInt32 := by
  rw [toWord?, if_pos h]

lemma toNat_toUInt32_of_lt {v : UInt64} (h : v.toNat < UInt32.size) :
    v.toUInt32.toNat = v.toNat := by
  rw [UInt64.toNat_toUInt32]
  exact Nat.mod_eq_of_lt h

/-- What is remembered after a member that passes. -/
def MemberScope.extend (kind : ParameterKind) (parameter : String) (scope : MemberScope)
    (m : MemberDecl) : MemberScope :=
  ⟨(checkName (.member kind) scope.seen m.name (Name.nested parameter m.name.value)).value,
    (candidate m scope.next, m.name) :: scope.values, successor (candidate m scope.next)⟩

/-- One member: its name is fresh, its value suits it and is new, and the others pass after it. -/
lemma passes_members_cons_iff {parameter : String} {scope : MemberScope} {ms : List MemberDecl} :
    Passes (members kind parameter scope (m :: ms)) ↔
      Passes (checkName (.member kind) scope.seen m.name (Name.nested parameter m.name.value)) ∧
        Suits kind m (candidate m scope.next) ∧
          candidate m scope.next ∉ scope.values.map (·.1) ∧
            Passes (members kind parameter (scope.extend kind parameter m) ms) := by
  rw [members, passes_bind_iff, passes_bind_iff, memberValue_spec.1, ← lookup_eq_none_iff_not_mem]
  refine and_congr_right fun hname => and_congr_right fun hsuits => ?_
  simp only [memberValue_spec.2 hsuits]
  cases hlookup : scope.values.lookup (candidate m scope.next) with
  | some first => simp [LoadFinding.isError_diagnostic]
  | none => simp [toWord?_of_lt hsuits.in_range, passes_describe, MemberScope.extend]

/-- A member that passes is kept with its value. -/
lemma value_members_cons {parameter : String} {scope : MemberScope} {ms : List MemberDecl}
    (h : Passes (members kind parameter scope (m :: ms))) :
    (members kind parameter scope (m :: ms)).value =
      ⟨m.name, (candidate m scope.next).toUInt32,
          (describe (Name.nested parameter m.name.value) m.description).value⟩ ::
        (members kind parameter (scope.extend kind parameter m) ms).value := by
  obtain ⟨-, hsuits, hnew, -⟩ := passes_members_cons_iff.mp h
  have hlookup := lookup_eq_none_iff_not_mem.mpr hnew
  simp [members, memberValue_spec.2 hsuits, hlookup, toWord?_of_lt hsuits.in_range,
    MemberScope.extend]

/-- Members that pass have fresh names, and keep them. -/
lemma members_of_passes {parameter : String} {scope : MemberScope} {ms : List MemberDecl}
    (h : Passes (members kind parameter scope ms)) :
    Fresh (.member kind) scope.seen (ms.map (·.name)) ∧
      (members kind parameter scope ms).value.map (·.name) = ms.map (·.name) := by
  induction ms generalizing scope with
  | nil => exact ⟨fresh_nil, rfl⟩
  | cons m ms ih =>
      obtain ⟨hname, -, -, hrest⟩ := passes_members_cons_iff.mp h
      obtain ⟨hfresh, hnames⟩ := ih hrest
      exact ⟨(fresh_cons_iff _).mpr ⟨hname, hfresh⟩, by simp [value_members_cons h, hnames]⟩

/-- Members that pass get numbers that are new and suit their kind. -/
lemma values_of_passes {parameter : String} {scope : MemberScope} {ms : List MemberDecl}
    (h : Passes (members kind parameter scope ms)) :
    ((members kind parameter scope ms).value.map (·.value)).Nodup ∧
      ∀ x ∈ (members kind parameter scope ms).value,
        x.value.toNat ∉ scope.values.map (·.1.toNat) ∧
        (kind = .flagSet → isSingleBit x.value.toNat = true) := by
  induction ms generalizing scope with
  | nil => simp [members]
  | cons m ms ih =>
      obtain ⟨-, hsuits, hnew, hrest⟩ := passes_members_cons_iff.mp h
      obtain ⟨hnodup, hall⟩ := ih hrest
      have hnat := toNat_toUInt32_of_lt hsuits.in_range
      rw [value_members_cons h]
      refine ⟨List.nodup_cons.mpr ⟨fun hmem => ?_, hnodup⟩, List.forall_mem_cons.mpr ⟨⟨?_, ?_⟩, ?_⟩⟩
      · obtain ⟨x, hx, heq⟩ := List.mem_map.mp hmem
        refine (hall x hx).1 ?_
        simp [heq, hnat, MemberScope.extend]
      · intro hmem
        obtain ⟨e, he, heq⟩ := List.mem_map.mp hmem
        have hev : e.1 = candidate m scope.next := UInt64.toNat_inj.mp (heq.trans hnat)
        exact hnew (List.mem_map.mpr ⟨e, he, hev⟩)
      · exact fun hkind => by simpa [hnat] using (hsuits.single_bit hkind).2
      · intro x hx
        refine ⟨fun hmem => (hall x hx).1 ?_, (hall x hx).2⟩
        rw [MemberScope.extend, List.map_cons]
        exact List.mem_cons_of_mem _ hmem

/-- Names that are identifiers and pass their checks are usable. -/
lemma Fresh.usable {names : List (Located String)} (h : Fresh role seen names)
    (hid : ∀ n ∈ names, Name.isIdentifier n.value = true) : ∀ n ∈ names, Usable role n.value :=
  fun n hn => ⟨hid n hn, h.not_reserved n hn⟩

/-- The kind of a declared parameter type. -/
def kindOf (d : ParameterDecl) : ParameterKind :=
  if d.multiple then .flagSet else .enumeration

/-- A parameter type passes if it has members and they pass. -/
lemma passes_parameterType_iff {d : ParameterDecl} : Passes (parameterType owner d) ↔
    d.members ≠ [] ∧ Passes (members (kindOf d) owner ⟨[], [], 0⟩ d.members) := by
  unfold parameterType
  cases hm : d.members with
  | nil => simp [LoadFinding.isError_diagnostic]
  | cons m ms => simp [passes_describe, kindOf]

lemma value_parameterType {d : ParameterDecl} : (parameterType owner d).value =
    ⟨d.name, kindOf d, (describe owner d.description).value,
      (members (kindOf d) owner ⟨[], [], 0⟩ d.members).value, d.span⟩ := by
  by_cases hm : d.members.isEmpty = true <;> simp [parameterType, kindOf, hm]

/-- A parameter type that passes is well-formed. -/
lemma parameterType_wellFormed {d : ParameterDecl} (h : Passes (parameterType owner d))
    (hid : d.EveryName (Name.isIdentifier · = true)) :
    (parameterType owner d).value.WellFormed := by
  obtain ⟨hne, hmembers⟩ := passes_parameterType_iff.mp h
  obtain ⟨hfresh, hnames⟩ := members_of_passes hmembers
  obtain ⟨hvalues, hall⟩ := values_of_passes hmembers
  have husable := hfresh.usable (by simpa using hid.2)
  rw [← hnames] at hfresh husable
  rw [value_parameterType]
  refine ⟨fun hnil => ?_, fun x hx => ?_, ?_, hvalues, fun hkind x hx => (hall x hx).2 hkind⟩
  · have hlen := congrArg List.length hnames
    rw [List.length_map, List.length_map, List.length_eq_zero_iff.mpr hnil] at hlen
    exact hne (List.length_eq_zero_iff.mp hlen.symm)
  · exact husable x.name (List.mem_map.mpr ⟨x, hx, rfl⟩)
  · simpa [Function.comp_def] using hfresh.keys_nodup

/-! ## Objects -/

lemma passes_properties_iff {object : String} {ps : List PropertyDecl} :
    Passes (properties object seen ps) ↔ Fresh .property seen (ps.map (·.name)) := by
  induction ps generalizing seen with
  | nil => simp [properties, fresh_nil]
  | cons p ps ih =>
      rw [properties, passes_bind_iff, passes_bind_iff, passes_bind_iff, ih, List.map_cons,
        fresh_cons_iff (Name.nested object p.name.value)]
      simp [passes_describe]

lemma names_properties {object : String} {ps : List PropertyDecl} :
    (properties object seen ps).value.map (·.name) = ps.map (·.name) := by
  induction ps generalizing seen with
  | nil => rfl
  | cons p ps ih => simp [properties, ih]

/-- An object type passes if what it extends is declared and its properties pass. -/
lemma passes_objectType_iff {typeNames : List String} {d : ObjectDecl} :
    Passes (objectType typeNames owner d) ↔
      (∀ parent ∈ d.parent, parent.value ∈ typeNames) ∧
        Passes (properties owner [] d.properties) := by
  unfold objectType
  cases hp : d.parent with
  | none => simp [passes_describe]
  | some parent =>
      by_cases hmem : parent.value ∈ typeNames
      · simp [hmem, passes_describe]
      · simp [hmem, LoadFinding.isError_diagnostic]

lemma value_objectType {typeNames : List String} {d : ObjectDecl} :
    (objectType typeNames owner d).value =
      ⟨d.name, (describe owner d.description).value, d.parent,
        (properties owner [] d.properties).value, d.span⟩ := by
  unfold objectType
  split
  · split_ifs <;> rfl
  · rfl

/-- An object type that passes is well-formed. -/
lemma objectType_wellFormed {typeNames : List String} {d : ObjectDecl}
    (h : Passes (objectType typeNames owner d)) (hid : d.EveryName (Name.isIdentifier · = true)) :
    (objectType typeNames owner d).value.WellFormed := by
  have hfresh := passes_properties_iff.mp (passes_objectType_iff.mp h).2
  have husable := hfresh.usable (by simpa using fun q hq => (hid.2.2 q hq).2)
  have hnames : (properties owner [] d.properties).value.map (·.name) = d.properties.map (·.name) :=
    names_properties
  rw [← hnames] at hfresh husable
  rw [value_objectType]
  refine ⟨fun q hq => husable q.name (List.mem_map.mpr ⟨q, hq, rfl⟩), ?_⟩
  have hkeys := hfresh.keys_nodup
  rw [List.map_map] at hkeys
  exact hkeys

/-! ## Levels -/

/-- A declaration inside a level passes by itself. -/
def PassesItem (typeNames : List String) (level : String) : LevelItem → Prop
  | .parameter d => Passes (parameterType (Name.nested level d.name.value) d)
  | .object d => Passes (objectType typeNames (Name.nested level d.name.value) d)

/-- The declarations of a level are checked like everything else: names first, then each by
itself. -/
lemma passes_items_iff {typeNames : List String} {level : String} {is : List LevelItem} :
    Passes (items typeNames level seen is) ↔
      Fresh .type seen (is.map (·.name)) ∧ ∀ i ∈ is, PassesItem typeNames level i := by
  induction is generalizing seen with
  | nil => simp [items, fresh_nil]
  | cons i is ih =>
      rw [items, passes_bind_iff, List.map_cons, fresh_cons_iff (Name.nested level i.name.value),
        List.forall_mem_cons]
      cases i with
      | parameter d =>
          simp only [passes_bind_iff, passes_pure, and_true, ih, PassesItem, LevelItem.name]
          tauto
      | object d =>
          simp only [passes_bind_iff, passes_pure, and_true, ih, PassesItem, LevelItem.name]
          tauto

/-- The parameter types that a list of declarations holds. -/
def parametersIn (is : List LevelItem) : List ParameterDecl :=
  is.filterMap fun | .parameter d => some d | .object _ => none

/-- The object types that a list of declarations holds. -/
def objectsIn (is : List LevelItem) : List ObjectDecl :=
  is.filterMap fun | .parameter _ => none | .object d => some d

lemma mem_parametersIn {is : List LevelItem} {d : ParameterDecl} :
    d ∈ parametersIn is ↔ .parameter d ∈ is := by
  rw [parametersIn, List.mem_filterMap]
  constructor
  · rintro ⟨_ | _, hmem, heq⟩
    · exact Option.some.inj heq ▸ hmem
    · exact nomatch heq
  · exact fun h => ⟨_, h, rfl⟩

lemma mem_objectsIn {is : List LevelItem} {d : ObjectDecl} :
    d ∈ objectsIn is ↔ .object d ∈ is := by
  rw [objectsIn, List.mem_filterMap]
  constructor
  · rintro ⟨_ | _, hmem, heq⟩
    · exact nomatch heq
    · exact Option.some.inj heq ▸ hmem
  · exact fun h => ⟨_, h, rfl⟩

/-- Each declaration becomes a type by itself, parameter and object types apart. -/
lemma value_items (typeNames : List String) (level : String) (is : List LevelItem) :
    (items typeNames level seen is).value =
      ((parametersIn is).map fun d => (parameterType (Name.nested level d.name.value) d).value,
        (objectsIn is).map fun d =>
          (objectType typeNames (Name.nested level d.name.value) d).value) := by
  induction is generalizing seen with
  | nil => rfl
  | cons i is ih =>
      cases i with
      | parameter d => simp [items, ih, parametersIn, objectsIn, LevelItem.name]
      | object d => simp [items, ih, parametersIn, objectsIn, LevelItem.name]

/-- What loading makes of a declaration inside a level is well formed, whichever kind it is. -/
lemma items_wellFormed {typeNames : List String} {level : String} {is : List LevelItem}
    (h : Passes (items typeNames level seen is))
    (hid : ∀ i ∈ is, i.EveryName (Name.isIdentifier · = true)) :
    (∀ p ∈ (items typeNames level seen is).value.1, p.WellFormed) ∧
      ∀ o ∈ (items typeNames level seen is).value.2, o.WellFormed := by
  obtain ⟨-, hpasses⟩ := passes_items_iff.mp h
  rw [value_items]
  refine ⟨List.forall_mem_map.mpr fun d hd => ?_, List.forall_mem_map.mpr fun d hd => ?_⟩
  · have hmem := mem_parametersIn.mp hd
    exact parameterType_wellFormed (hpasses _ hmem) (hid _ hmem)
  · have hmem := mem_objectsIn.mp hd
    exact objectType_wellFormed (hpasses _ hmem) (hid _ hmem)

/-- The types of a level are those of its items; only their order among each other is lost. -/
lemma names_items_perm (typeNames : List String) (level : String) (seen : Seen)
    (is : List LevelItem) :
    ((items typeNames level seen is).value.1.map (·.name) ++
      (items typeNames level seen is).value.2.map (·.name)).Perm (is.map (·.name)) := by
  induction is generalizing seen with
  | nil => exact List.Perm.refl _
  | cons i is ih =>
      cases i with
      | parameter d =>
          simp only [items, Noted.value_bind, Noted.value_pure, List.map_cons, value_parameterType]
          exact (ih _).cons d.name
      | object d =>
          simp only [items, Noted.value_bind, Noted.value_pure, List.map_cons, value_objectType]
          exact List.perm_middle.trans ((ih _).cons d.name)

/-- A level passes if what it extends is declared, its items pass and one is an object type. -/
lemma passes_level_iff {levelNames typeNames : List String} {d : LevelDecl} :
    Passes (level levelNames typeNames d) ↔
      (∀ parent ∈ d.parent, parent.value ∈ levelNames) ∧
        Passes (items typeNames d.name.value [] d.items) ∧
        (items typeNames d.name.value [] d.items).value.2 ≠ [] := by
  -- with what is extended out of the way, the rest is the items and whether there is an object
  have hrest : Passes (do
      let r ← items typeNames d.name.value [] d.items
      if r.2.isEmpty then
        Noted.note (.noObjectType d.name)
      let description ← describe d.name.value d.description
      return ⟨d.name, description, d.parent, r.1, r.2, d.span⟩ : Check Level) ↔
      Passes (items typeNames d.name.value [] d.items) ∧
        (items typeNames d.name.value [] d.items).value.2 ≠ [] := by
    rw [passes_bind_iff]
    cases (items typeNames d.name.value [] d.items).value.2 with
    | nil => simp [LoadFinding.isError_diagnostic]
    | cons o os => simp [passes_describe]
  unfold level
  cases hp : d.parent with
  | none =>
      rw [hp] at hrest
      simpa using hrest
  | some parent =>
      rw [hp] at hrest
      by_cases hmem : parent.value ∈ levelNames
      · simpa [hmem] using hrest
      · simp [hmem, LoadFinding.isError_diagnostic]

lemma value_level {levelNames typeNames : List String} {d : LevelDecl} :
    (level levelNames typeNames d).value =
      ⟨d.name, (describe d.name.value d.description).value, d.parent,
        (items typeNames d.name.value [] d.items).value.1,
        (items typeNames d.name.value [] d.items).value.2, d.span⟩ := by
  unfold level
  simp only
  split
  · split_ifs <;> simp <;> split_ifs <;> rfl
  · simp; split_ifs <;> rfl

/-- A level that passes is well-formed. -/
lemma level_wellFormed {levelNames typeNames : List String} {d : LevelDecl}
    (h : Passes (level levelNames typeNames d)) (hid : d.EveryName (Name.isIdentifier · = true)) :
    (level levelNames typeNames d).value.WellFormed := by
  obtain ⟨-, hitems, -⟩ := passes_level_iff.mp h
  obtain ⟨hfresh, -⟩ := passes_items_iff.mp hitems
  have hnames : ∀ i ∈ d.items, Name.isIdentifier i.name.value = true := by
    intro i hi
    cases i with
    | parameter p => exact (hid.2.2 _ hi).1
    | object o => exact (hid.2.2 _ hi).1
  have husable := hfresh.usable (by simpa using hnames)
  have hperm := names_items_perm typeNames d.name.value [] d.items
  have htypes : (level levelNames typeNames d).value.typeNames =
      ((items typeNames d.name.value [] d.items).value.1.map (·.name) ++
        (items typeNames d.name.value [] d.items).value.2.map (·.name)).map (·.value) := by
    simp [Level.typeNames, Level.ownTypes, value_level, Function.comp_def]
  obtain ⟨hparameters, hobjects⟩ := items_wellFormed hitems hid.2.2
  refine ⟨fun n hn => ?_, ?_, ?_, ?_⟩
  · rw [htypes] at hn
    obtain ⟨x, hx, rfl⟩ := List.mem_map.mp hn
    exact husable x (hperm.mem_iff.mp hx)
  · rw [htypes, (hperm.map _).nodup_iff]
    exact hfresh.keys_nodup
  · rw [value_level]
    exact hparameters
  · rw [value_level]
    exact hobjects

/-- Levels are checked like everything else: names first, then each level by itself. -/
lemma passes_levels_iff {levelNames typeNames : List String} {ds : List LevelDecl} :
    Passes (levels levelNames typeNames seen ds) ↔
      Fresh .level seen (ds.map (·.name)) ∧ ∀ d ∈ ds, Passes (level levelNames typeNames d) := by
  induction ds generalizing seen with
  | nil => simp [levels, fresh_nil]
  | cons d ds ih =>
      rw [levels, passes_bind_iff, passes_bind_iff, passes_bind_iff, ih, List.map_cons,
        fresh_cons_iff d.name.value, List.forall_mem_cons]
      simp only [passes_pure, and_true]
      tauto

lemma value_levels {levelNames typeNames : List String} {ds : List LevelDecl} :
    (levels levelNames typeNames seen ds).value =
      ds.map fun d => (level levelNames typeNames d).value := by
  induction ds generalizing seen with
  | nil => rfl
  | cons d ds ih => simp [levels, ih]

end Load

lemma Document.passes_load_iff {d : Document} : Load.Passes d.load ↔
    d.levels ≠ [] ∧ Load.Passes (Load.levels d.levelNames d.typeNames [] d.levels) := by
  unfold Document.load
  cases hl : d.levels with
  | nil => simp [LoadFinding.isError_diagnostic]
  | cons l ls => simp

lemma Document.value_load {d : Document} : d.load.value =
    ⟨d.levels.map fun l => (Load.level d.levelNames d.typeNames l).value⟩ := by
  by_cases hl : d.levels.isEmpty = true <;> simp [Document.load, Load.value_levels, hl]

/-- A document that passes is loaded as a well-formed schema. -/
lemma Document.load_wellFormed {d : Document} (h : Load.Passes d.load)
    (hid : d.EveryName (Name.isIdentifier · = true)) : d.load.value.WellFormed := by
  obtain ⟨-, hlevels⟩ := Document.passes_load_iff.mp h
  obtain ⟨hfresh, hall⟩ := Load.passes_levels_iff.mp hlevels
  have husable := hfresh.usable (by simpa using fun l hl => (hid l hl).1)
  rw [Document.value_load]
  have hname : ∀ l, (Load.level d.levelNames d.typeNames l).value.name = l.name :=
    fun l => by rw [Load.value_level]
  refine ⟨?_, ?_, ?_, ?_⟩
  · intro l hl
    obtain ⟨x, hx, rfl⟩ := List.mem_map.mp hl
    rw [hname]
    exact husable x.name (List.mem_map.mpr ⟨x, hx, rfl⟩)
  · have hkeys := hfresh.keys_nodup
    simpa only [List.map_map, Function.comp_def, hname, Load.key] using hkeys
  · intro l hl p hp
    obtain ⟨x, hx, rfl⟩ := List.mem_map.mp hl
    rw [Load.value_level] at hp
    have hdeclared := (Load.passes_level_iff.mp (hall x hx)).1 p hp
    obtain ⟨y, hy, heq⟩ := List.mem_map.mp hdeclared
    exact ⟨_, List.mem_map.mpr ⟨y, hy, rfl⟩, by rw [hname, heq]⟩
  · intro l hl
    obtain ⟨x, hx, rfl⟩ := List.mem_map.mp hl
    exact Load.level_wellFormed (hall x hx) (hid x hx)

/-- **A schema that was loaded from a text is well formed.** -/
theorem Schema.wellFormed_of_ofSource {source : String} {loaded : Noted Diagnostic Schema}
    (h : Schema.ofSource source = .ok loaded) : loaded.value.WellFormed := by
  obtain ⟨lexemes, document, hscan, hread, hpasses, rfl⟩ := Schema.ofSource_eq_ok_iff.mp h
  exact Document.load_wellFormed hpasses (Document.everyName_isIdentifier hscan hread)

end LevelSchema
