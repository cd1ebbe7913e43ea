import LevelSchema.Proofs.Schema.Loadable

/-!
# How members are numbered

The walk over the members of a parameter type carries the next number as a 64-bit word, advances it
by a successor that stops at the largest word, and turns it into a 32-bit word, which may fail.

**Neither end is reached.**  A number that does not fit in 32 bits is reported before it is counted
or turned (`value_memberValue_lt`).  So the walk does not depend on what counting and turning do
with larger words, whether the members are accepted or not: `membersWith` is the same walk with any
other way of doing both, and where that way is right on 32 bits it gives the same members and the
same findings (`membersWith_eq_members`).

**Numbers.**  Members that are accepted have the numbers `numbered` gives them, without being cut
(`Loadable.map_value_members`).  These are the positions if none is written, and what is written if
all are.
-/

namespace LevelSchema

namespace Noted

variable {ν α β : Type}

/-- What follows a computation only matters at its value. -/
lemma bind_congr_value {x : Noted ν α} {f g : α → Noted ν β} (h : f x.value = g x.value) :
    x >>= f = x >>= g :=
  congrArg (fun y : Noted ν β => (⟨y.value, x.notes ++ y.notes⟩ : Noted ν β)) h

end Noted

namespace Load

variable {kind : ParameterKind} {owner parameter : String} {m : MemberDecl} {next v : UInt64}

/-! ## Counting -/

/-- A way of going to the next number and one of turning a number into a 32-bit word that are right
for numbers of 32 bits. -/
structure Counting (advance : UInt64 → UInt64) (convert : UInt64 → Option UInt32) : Prop where
  toNat_advance : ∀ v : UInt64, v.toNat < 2 ^ 32 → (advance v).toNat = v.toNat + 1
  toNat_convert : ∀ v : UInt64, v.toNat < 2 ^ 32 → ∃ w, convert v = some w ∧ w.toNat = v.toNat

/-- Where they are used, the successor does not stop and a word is found. -/
lemma counting_successor_toWord? : Counting successor toWord? where
  toNat_advance _ hv := toNat_successor hv
  toNat_convert v hv := ⟨v.toUInt32, toWord?_of_lt hv, toNat_toUInt32_of_lt hv⟩

/-- The walk over the members of a parameter type, with a way of counting and one of turning numbers
into words. -/
def membersWith (advance : UInt64 → UInt64) (convert : UInt64 → Option UInt32)
    (kind : ParameterKind) (parameter : String) (scope : MemberScope) :
    List MemberDecl → Check (List Member)
  | [] => pure []
  | m :: ms => do
      let owner := Name.nested parameter m.name.value
      let seen ← checkName (.member kind) scope.seen m.name owner
      match ← memberValue kind owner m scope.next with
      | none => membersWith advance convert kind parameter { scope with seen } ms
      | some value =>
          let next := advance value
          match scope.values.lookup value with
          | some first =>
              Noted.note (.repeatedValue kind owner value (valueSpan m) parameter first)
              membersWith advance convert kind parameter { scope with seen, next } ms
          | none =>
              let values := (value, m.name) :: scope.values
              match convert value with
              | none => membersWith advance convert kind parameter ⟨seen, values, next⟩ ms
              | some word =>
                  let description ← describe owner m.description
                  let rest ← membersWith advance convert kind parameter ⟨seen, values, next⟩ ms
                  return ⟨m.name, word, description⟩ :: rest

/-- Whatever value a member gets, accepted or not, fits in 32 bits. -/
lemma value_memberValue_lt (h : (memberValue kind owner m next).value = some v) :
    v.toNat < 2 ^ 32 := by
  have hrange : ∀ u : UInt64, (if u.toNat < UInt32.size then pure (some u) else do
        Noted.note (.valueOutOfRange kind owner u (valueSpan m))
        return none : Check (Option UInt64)).value = some v → v.toNat < 2 ^ 32 := by
    intro u hu
    split_ifs at hu with hlt
    cases hu
    exact hlt
  unfold memberValue at h
  cases kind with
  | enumeration =>
      cases hvalue : m.value with
      | none => exact hrange next (by simpa [hvalue] using h)
      | some u => exact hrange u.value (by simpa [hvalue] using h)
  | flagSet =>
      cases hvalue : m.value with
      | none => simp [hvalue] at h
      | some u =>
          by_cases hbit : isSingleBit u.value.toNat = true
          · exact hrange u.value (by simpa [hvalue, hbit] using h)
          · simp [hvalue, hbit] at h

section Counting

variable {advance : UInt64 → UInt64} {convert : UInt64 → Option UInt32}

lemma Counting.advance_eq (h : Counting advance convert) (hv : v.toNat < 2 ^ 32) :
    advance v = successor v := by
  rw [← UInt64.toNat_inj, h.toNat_advance v hv, toNat_successor hv]

lemma Counting.convert_eq (h : Counting advance convert) (hv : v.toNat < 2 ^ 32) :
    convert v = toWord? v := by
  obtain ⟨w, hw, hnat⟩ := h.toNat_convert v hv
  rw [hw, toWord?_of_lt hv, Option.some.injEq, ← UInt32.toNat_inj, hnat, toNat_toUInt32_of_lt hv]

/-- **Counting never leaves 32 bits.**  Every way of counting that is right there gives the same
members and the same findings, from any scope and for any members. -/
theorem membersWith_eq_members (h : Counting advance convert) (scope : MemberScope)
    (ms : List MemberDecl) :
    membersWith advance convert kind parameter scope ms = members kind parameter scope ms := by
  induction ms generalizing scope with
  | nil => rfl
  | cons m ms ih =>
      rw [membersWith, members]
      refine Noted.bind_congr_value (Noted.bind_congr_value ?_)
      cases hvalue : (memberValue kind (Name.nested parameter m.name.value) m scope.next).value with
      | none => exact ih _
      | some v =>
          have hlt := value_memberValue_lt hvalue
          cases hlookup : scope.values.lookup v with
          | some first => simp only [hlookup, h.advance_eq hlt, ih]
          | none =>
              simp only [hlookup, h.advance_eq hlt, h.convert_eq hlt, toWord?_of_lt hlt, ih]

end Counting

/-! ## Numbers -/

/-- Without a written number, members are numbered one after the other. -/
lemma numbered_of_unwritten {ws : List (Option Nat)} (h : ∀ w ∈ ws, w = none) (next : Nat) :
    numbered next ws = List.range' next ws.length := by
  induction ws generalizing next with
  | nil => rfl
  | cons w ws ih =>
      obtain ⟨rfl, hws⟩ := List.forall_mem_cons.mp h
      rw [numbered, Option.getD_none, ih hws, List.length_cons, List.range'_succ]

/-- If all numbers are written, these are the numbers. -/
lemma map_some_numbered {ws : List (Option Nat)} (h : ∀ w ∈ ws, w.isSome = true) (next : Nat) :
    (numbered next ws).map some = ws := by
  induction ws generalizing next with
  | nil => rfl
  | cons w ws ih =>
      obtain ⟨hw, hws⟩ := List.forall_mem_cons.mp h
      obtain ⟨n, rfl⟩ := Option.isSome_iff_exists.mp hw
      rw [numbered, List.map_cons, ih hws, Option.getD_some]

/-- Numbers of 32 bits become the values of the members as they are. -/
lemma map_value_zipWith_toMember {ms : List MemberDecl} {next : Nat}
    (h : ∀ n ∈ numbered next (ms.map MemberDecl.written), n < 2 ^ 32) :
    (ms.zipWith MemberDecl.toMember (numbered next (ms.map MemberDecl.written))).map
      (·.value.toNat) = numbered next (ms.map MemberDecl.written) := by
  induction ms generalizing next with
  | nil => rfl
  | cons m ms ih =>
      rw [List.map_cons, numbered] at h ⊢
      obtain ⟨hlt, hrest⟩ := List.forall_mem_cons.mp h
      have hvalue : (m.toMember (m.written.getD next)).value.toNat = m.written.getD next :=
        UInt32.toNat_ofNat_of_lt hlt
      rw [List.zipWith_cons_cons, List.map_cons, hvalue, ih hrest]

end Load

namespace ParameterDecl.Loadable

open Load

variable {d : ParameterDecl}

lemma numbers_lt (h : d.Loadable) : ∀ n ∈ d.numbers, n < 2 ^ 32 :=
  fun n hn => Nat.lt_of_le_pred (by decide) (h.numbers_le n hn)

/-- The values of the members are their numbers. -/
lemma map_value_members (h : d.Loadable) :
    d.toType.members.map (·.value.toNat) = d.numbers :=
  map_value_zipWith_toMember h.numbers_lt

/-- The numbers of a flag set are single bits. -/
lemma exists_two_pow_of_mem_numbers (h : d.Loadable) (hkind : d.multiple = true) {n : Nat}
    (hn : n ∈ d.numbers) : ∃ k < 32, n = 2 ^ k := by
  have hbits := h.single_bits hkind
  have hwritten : ∀ w ∈ d.members.map MemberDecl.written, w.isSome = true := by
    refine List.forall_mem_map.mpr fun m hm => ?_
    obtain ⟨k, -, hk⟩ := hbits m hm
    simp [hk]
  have hmem : some n ∈ d.members.map MemberDecl.written := by
    rw [← map_some_numbered hwritten 0]
    exact List.mem_map_of_mem hn
  obtain ⟨m, hm, hsome⟩ := List.mem_map.mp hmem
  obtain ⟨k, hk, hpow⟩ := hbits m hm
  exact ⟨k, Nat.lt_succ_of_le hk, Option.some.inj (hsome.symm.trans hpow)⟩

end ParameterDecl.Loadable

end LevelSchema
