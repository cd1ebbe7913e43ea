import LevelSchema.Proofs.Code.Lines
import LevelSchema.Proofs.Code.Modules
import LevelSchema.Proofs.Schema.Loadable

/-!
# When generating fails

A resolved schema may have been put together by hand, so nothing is known about it.
`Fault.OccursIn` says which faults a level of such a schema has, without saying how they are looked
for: its parent is not there, a property has a type that was never resolved, an enumeration has no
member, or a flag is not a single bit or has the value of an earlier one.

**One fault is enough.**  Generating goes through the levels and looks for the four kinds of faults
at different times.  It fails exactly when some level has a fault, and the fault it reports is one
of the first level that has any (`ResolvedSchema.emit_eq_error`).  The flags of a set are checked
against a mask; since those before it are different single bits, a flag meets the mask only if it
has the value of one of them (`Code.exists_of_flagMask_eq_error`).
-/

namespace LevelSchema

namespace Code

variable {s : ResolvedSchema} {l : ResolvedLevel} {fault : Fault} {path : TypePath}

/-! ## Faults -/

/-- The level has the fault. -/
inductive Fault.OccursIn (s : ResolvedSchema) (l : ResolvedLevel) : Fault → Prop
  | missingParent {parent : String} (hlast : l.ancestors.getLast? = some parent)
      (hmissing : ∀ m ∈ s.levels, m.name ≠ parent) : OccursIn s l (.missingParent l.name parent)
  | unresolvedType {o : ResolvedObject} {p : ResolvedProperty} {name : String}
      (ho : o ∈ l.objectTypes) (hp : p ∈ o.properties) (htype : p.type = .unresolved name) :
      OccursIn s l (.unresolvedType o.path p.name name)
  | emptyEnumeration {t : ParameterType} (ht : t ∈ l.parameterTypes) (hkind : t.kind = .enumeration)
      (hempty : t.members = []) : OccursIn s l (.emptyEnumeration ⟨l.name, t.name.value⟩)
  | notSingleBit {t : ParameterType} {m : Member} (ht : t ∈ l.parameterTypes)
      (hkind : t.kind = .flagSet) (hm : m ∈ t.members) (hbits : ∀ k, m.value.toNat ≠ 2 ^ k) :
      OccursIn s l (.overlappingFlag ⟨l.name, t.name.value⟩ m.name.value m.value)
  | sharedBit {t : ParameterType} {m n : Member} (ht : t ∈ l.parameterTypes)
      (hkind : t.kind = .flagSet) (hpair : [n, m].Sublist t.members) (heq : n.value = m.value) :
      OccursIn s l (.overlappingFlag ⟨l.name, t.name.value⟩ m.name.value m.value)

/-! ## What is reported is there -/

lemma occursIn_of_missingParent? (h : missingParent? s l = some fault) : fault.OccursIn s l := by
  unfold missingParent? at h
  split at h
  · next parent hparent =>
      split_ifs at h with hlevel
      cases h
      refine .missingParent hparent fun m hm hname => hlevel ?_
      rw [ResolvedSchema.level?, List.find?_isSome]
      exact ⟨m, hm, by simpa using hname⟩
  · cases h

lemma occursIn_of_unresolved? (h : unresolved? l = some fault) : fault.OccursIn s l := by
  obtain ⟨o, ho, h⟩ := List.exists_of_findSome?_eq_some h
  obtain ⟨p, hp, h⟩ := List.exists_of_findSome?_eq_some h
  split at h
  · next name htype =>
      cases h
      exact .unresolvedType ho hp htype
  · exact nomatch h

/-- The flag that is reported is not a single bit, is in the mask that was begun with, or has the
value of an earlier flag. -/
lemma exists_of_flagMask_eq_error {mask : UInt32} {ms : List Member}
    (h : flagMask path mask ms = .error fault) :
    ∃ (front : List Member) (m : Member) (back : List Member), ms = front ++ m :: back ∧
      fault = .overlappingFlag path m.name.value m.value ∧
        (isSingleBit m.value.toNat = true → mask &&& m.value = 0 →
          ∃ n ∈ front, n.value = m.value) := by
  induction ms generalizing mask with
  | nil => exact nomatch h
  | cons a ms ih =>
      rw [flagMask] at h
      split_ifs at h with ha
      · obtain ⟨hbit, hfree⟩ : isSingleBit a.value.toNat = true ∧ mask &&& a.value = 0 := by
          simpa using ha
        obtain ⟨front, m, back, rfl, rfl, hm⟩ := ih h
        refine ⟨a :: front, m, back, rfl, rfl, fun hsingle hmask => ?_⟩
        by_cases heq : a.value = m.value
        · exact ⟨a, List.mem_cons_self, heq⟩
        · have hapart := and_eq_zero_of_isSingleBit hbit hsingle heq
          obtain ⟨n, hn, hvalue⟩ := hm hsingle (or_and_eq_zero_iff.mpr ⟨hmask, hapart⟩)
          exact ⟨n, List.mem_cons_of_mem _ hn, hvalue⟩
      · cases h
        refine ⟨[], a, ms, rfl, rfl, fun hbit hfree => absurd ?_ ha⟩
        simp [hbit, hfree]

lemma occursIn_of_ofType {t : ParameterType} (ht : t ∈ l.parameterTypes)
    (h : ParameterItem.ofType l.name t = .error fault) : fault.OccursIn s l := by
  unfold ParameterItem.ofType at h
  cases hkind : t.kind with
  | enumeration =>
      simp only [hkind] at h
      split_ifs at h with hempty
      cases h
      exact .emptyEnumeration ht hkind (List.isEmpty_iff.mp hempty)
  | flagSet =>
      simp only [hkind] at h
      rcases bind_eq_error_iff.mp h with hmask | ⟨mask, -, hpure⟩
      · obtain ⟨front, m, back, hmembers, rfl, hearlier⟩ := exists_of_flagMask_eq_error hmask
        by_cases hbit : isSingleBit m.value.toNat = true
        · obtain ⟨n, hn, heq⟩ := hearlier hbit UInt32.zero_and
          refine .sharedBit ht hkind ?_ heq
          rw [hmembers]
          exact (List.singleton_sublist.mpr hn).append
            (List.singleton_sublist.mpr List.mem_cons_self)
        · refine .notSingleBit ht hkind (by simp [hmembers]) fun k hk => hbit ?_
          exact Load.isSingleBit_iff.mpr ⟨k, hk⟩
      · exact nomatch hpure

/-- **What generating a level reports is a fault of the level.** -/
lemma Module.occursIn_of_ofLevel {primitivesPath : String}
    (h : Module.ofLevel primitivesPath s l = .error fault) : fault.OccursIn s l := by
  unfold Module.ofLevel at h
  cases hparent : missingParent? s l with
  | some missing =>
      simp only [hparent] at h
      cases h
      exact occursIn_of_missingParent? hparent
  | none =>
      cases htypes : unresolved? l with
      | some unresolved =>
          simp only [hparent, htypes] at h
          cases h
          exact occursIn_of_unresolved? htypes
      | none =>
          simp only [hparent, htypes] at h
          rw [mapM_ofObject_eq_ok htypes] at h
          rcases bind_eq_error_iff.mp h with hitems | ⟨items, -, hrecords⟩
          · obtain ⟨front, t, back, htypes, -, ht⟩ := exists_of_mapM_eq_error hitems
            exact occursIn_of_ofType (by simp [htypes]) ht
          · exact nomatch hrecords

/-! ## What is there is reported -/

/-- A consistent type has no flag with the value of another. -/
lemma value_ne_of_consistent {t : ParameterType} (ht : t.Consistent) (hkind : t.kind = .flagSet)
    {m n : Member} (hpair : [n, m].Sublist t.members) : n.value ≠ m.value := by
  intro heq
  have hand : n.value &&& m.value = 0 := by
    simpa using (ht.disjoint hkind).sublist hpair
  rw [heq, UInt32.and_self] at hand
  have hbit := ht.single_bits hkind m (hpair.subset (by simp))
  rw [hand] at hbit
  exact absurd hbit (by decide)

/-- **A level is generated exactly when it has no fault.** -/
theorem Module.exists_ofLevel_iff_forall_not_occursIn (primitivesPath : String) :
    (∃ m, Module.ofLevel primitivesPath s l = .ok m) ↔ ∀ fault : Fault, ¬ fault.OccursIn s l := by
  constructor
  · intro h fault hfault
    obtain ⟨hparents, htypes, hparameters⟩ := Module.exists_ofLevel_iff.mp h
    cases hfault with
    | missingParent hlast hmissing =>
        obtain ⟨m, hm, hname⟩ := hparents _ hlast
        exact hmissing m hm hname
    | unresolvedType ho hp htype =>
        have hresolved := htypes _ ho _ hp
        rw [htype] at hresolved
        exact nomatch hresolved
    | emptyEnumeration ht hkind hempty => exact (hparameters _ ht).members_ne_nil hkind hempty
    | notSingleBit ht hkind hm hbits =>
        obtain ⟨k, hk⟩ := Load.isSingleBit_iff.mp ((hparameters _ ht).single_bits hkind _ hm)
        exact hbits k hk
    | sharedBit ht hkind hpair heq =>
        exact value_ne_of_consistent (hparameters _ ht) hkind hpair heq
  · intro h
    cases hlevel : Module.ofLevel primitivesPath s l with
    | ok m => exact ⟨m, rfl⟩
    | error fault => exact absurd (Module.occursIn_of_ofLevel hlevel) (h fault)

end Code

/-! ## Artifacts -/

namespace Artifact

open Code

/-- The file of a level in the per-level layout. -/
def levelFileName (l : ResolvedLevel) : String :=
  String.ofList (dropRawMarks (moduleName l.name).toList) ++ ".rs"

/-- What is generated from the levels, in their order: one file with a block for each of them, or a
root that declares them all and a file for each. -/
structure LaysOut (settings : EmitSettings) (s : ResolvedSchema) (artifact : Artifact) : Prop where
  layout : artifact.layout = settings.layout
  single : settings.layout = .single → ∃ blocks,
    artifact.units = [⟨"model.rs", text (withHeader settings []) ++ String.join blocks⟩] ∧
      List.Forall₂ (fun l b => ∃ m, Module.ofLevel settings.primitivesPath s l = .ok m ∧
        b = text (.blank :: docs l.description ++
          block ("pub mod " ++ moduleName l.name) (m.lines (derives settings)))) s.levels blocks
  perLevel : settings.layout = .perLevel → ∃ units,
    artifact.units = ⟨"mod.rs", text (withHeader settings [.blank]) ++
      String.join (s.levels.map fun l =>
        text (docs l.description ++ [code ("pub mod " ++ moduleName l.name ++ ";")]))⟩ :: units ∧
      List.Forall₂ (fun l u => ∃ m, Module.ofLevel settings.primitivesPath s l = .ok m ∧
        u = ⟨levelFileName l, text (moduleLines settings m)⟩) s.levels units

/-- Modules of levels are laid out in the order of the levels. -/
lemma laysOut_ofModules {settings : EmitSettings} {s : ResolvedSchema} {modules : List Module}
    (h : List.Forall₂ (fun l m => Module.ofLevel settings.primitivesPath s l = .ok m)
      s.levels modules) : (ofModules settings modules).LaysOut settings s := by
  have hlevel : ∀ l m, Module.ofLevel settings.primitivesPath s l = .ok m →
      m.name = moduleName l.name ∧ m.description = l.description := by
    intro l m hm
    obtain ⟨parameters, -, rfl⟩ := Module.ofLevel_eq_ok hm
    exact ⟨rfl, rfl⟩
  refine ⟨rfl, fun hlayout => ?_, fun hlayout => ?_⟩
  · refine ⟨modules.map fun m => text (.blank :: docs m.description ++
      block ("pub mod " ++ m.name) (m.lines (derives settings))), ?_, ?_⟩
    · simp only [ofModules, hlayout, singleLines, text_append, text_flatMap]
      rfl
    · rw [List.forall₂_map_right_iff]
      refine h.imp fun l m hm => ⟨m, hm, ?_⟩
      rw [(hlevel l m hm).1, (hlevel l m hm).2]
  · refine ⟨modules.map fun m => ⟨moduleFileName m, text (moduleLines settings m)⟩, ?_, ?_⟩
    · have hroot : modules.map (fun m => text (docs m.description ++
          [code ("pub mod " ++ m.name ++ ";")])) = s.levels.map fun l =>
            text (docs l.description ++ [code ("pub mod " ++ moduleName l.name ++ ";")]) := by
        refine map_eq_map_of_forall₂ h fun l m hm => ?_
        rw [(hlevel l m hm).1, (hlevel l m hm).2]
      simp only [ofModules, hlayout, rootLines, text_append _ (modules.flatMap _), text_flatMap,
        hroot]
      rfl
    · rw [List.forall₂_map_right_iff]
      refine h.imp fun l m hm => ⟨m, hm, ?_⟩
      rw [moduleFileName, (hlevel l m hm).1]
      rfl

end Artifact

namespace ResolvedSchema

open Code

variable {s : ResolvedSchema} {settings : EmitSettings}

/-- The fault that is reported belongs to the first level that has any. -/
lemma emit_eq_error {fault : Fault} (h : s.emit settings = .error fault) :
    ∃ front l back, s.levels = front ++ l :: back ∧ fault.OccursIn s l ∧
      ∀ m ∈ front, ∀ other : Fault, ¬ other.OccursIn s m := by
  rcases bind_eq_error_iff.mp h with hmodules | ⟨modules, -, hpure⟩
  · obtain ⟨front, l, back, hlevels, hfront, hl⟩ := exists_of_mapM_eq_error hmodules
    exact ⟨front, l, back, hlevels, Module.occursIn_of_ofLevel hl, fun m hm =>
      (Module.exists_ofLevel_iff_forall_not_occursIn _).mp (hfront m hm)⟩
  · exact nomatch hpure

/-- **Generating fails exactly on faulty models.**  It fails when some level has a parent that is
not there, a property of an unresolved type, an enumeration without members, or a flag set with a
value that is no power of two or that two members share; what is reported is a fault of the first
level that has any.  Otherwise there is an artifact: one file with all levels in their order, or the
root and one file for each level in their order. -/
theorem emit_fails_iff_faulty (s : ResolvedSchema) (settings : EmitSettings) :
    ((∃ fault, s.emit settings = .error fault) ↔
      ∃ l ∈ s.levels, ∃ fault : Fault, fault.OccursIn s l) ∧
    (∀ fault, s.emit settings = .error fault → ∃ front l back, s.levels = front ++ l :: back ∧
      fault.OccursIn s l ∧ ∀ m ∈ front, ∀ other : Fault, ¬ other.OccursIn s m) ∧
    ((∀ l ∈ s.levels, ∀ fault : Fault, ¬ fault.OccursIn s l) →
      ∃ artifact, s.emit settings = .ok artifact ∧ artifact.LaysOut settings s) := by
  have hgenerates : (∀ l ∈ s.levels, ∀ fault : Fault, ¬ fault.OccursIn s l) →
      ∃ artifact, s.emit settings = .ok artifact ∧ artifact.LaysOut settings s := by
    intro hfree
    obtain ⟨modules, hmodules⟩ := exists_mapM_iff.mpr fun l hl =>
      (Module.exists_ofLevel_iff_forall_not_occursIn settings.primitivesPath).mpr (hfree l hl)
    refine ⟨.ofModules settings modules, bind_eq_ok_iff.mpr ⟨modules, hmodules, rfl⟩, ?_⟩
    exact Artifact.laysOut_ofModules (mapM_eq_ok_iff.mp hmodules)
  refine ⟨⟨?_, ?_⟩, fun fault h => emit_eq_error h, hgenerates⟩
  · rintro ⟨fault, h⟩
    obtain ⟨front, l, back, hlevels, hfault, -⟩ := emit_eq_error h
    exact ⟨l, by simp [hlevels], fault, hfault⟩
  · rintro ⟨l, hl, fault, hfault⟩
    cases hemit : s.emit settings with
    | error other => exact ⟨other, rfl⟩
    | ok artifact =>
        obtain ⟨modules, hmodules, -⟩ := bind_eq_ok_iff.mp hemit
        have hlevel := exists_mapM_iff.mp ⟨modules, hmodules⟩ l hl
        exact absurd hfault ((Module.exists_ofLevel_iff_forall_not_occursIn _).mp hlevel fault)


/-- A flag set of the given values. -/
def viewOf (values : List UInt32) : ParameterType :=
  ⟨⟨"View", .atStart⟩, .flagSet, none, values.map fun v => ⟨⟨"Sky", .atStart⟩, v, none⟩, .atStart⟩

/-- A level with the flag set, below a level with nothing in it. -/
def viewsBelow (values : List UInt32) : ResolvedSchema :=
  ⟨[⟨"Site", none, .atStart, [], [], [], []⟩,
    ⟨"Plot", none, .atStart, ["Site"], [viewOf values], [], []⟩]⟩

/-- Two flags with one value are a fault, and without the second there is an artifact. -/
theorem viewsBelow_shared_bit_fails :
    (∃ l ∈ (viewsBelow [4, 2, 4]).levels,
      (Fault.overlappingFlag ⟨"Plot", "View"⟩ "Sky" 4).OccursIn (viewsBelow [4, 2, 4]) l) ∧
    (∃ fault, (viewsBelow [4, 2, 4]).emit {} = .error fault ∧
      ∃ front l back, (viewsBelow [4, 2, 4]).levels = front ++ l :: back ∧
        fault.OccursIn (viewsBelow [4, 2, 4]) l) ∧
    (∀ l ∈ (viewsBelow [4, 2]).levels, ∀ fault : Fault, ¬ fault.OccursIn (viewsBelow [4, 2]) l) ∧
    ∃ artifact, (viewsBelow [4, 2]).emit { layout := .perLevel } = .ok artifact ∧
      artifact.LaysOut { layout := .perLevel } (viewsBelow [4, 2]) := by
  have hfault : ∃ l ∈ (viewsBelow [4, 2, 4]).levels,
      (Fault.overlappingFlag ⟨"Plot", "View"⟩ "Sky" 4).OccursIn (viewsBelow [4, 2, 4]) l := by
    have hpair : [⟨⟨"Sky", .atStart⟩, 4, none⟩, ⟨⟨"Sky", .atStart⟩, 4, none⟩].Sublist
        (viewOf [4, 2, 4]).members := .cons_cons _ (.cons _ (.cons_cons _ .slnil))
    exact ⟨_, List.mem_cons_of_mem _ List.mem_cons_self,
      .sharedBit (t := viewOf [4, 2, 4]) List.mem_cons_self rfl hpair rfl⟩
  have hfree : ∀ l ∈ (viewsBelow [4, 2]).levels,
      ∀ fault : Fault, ¬ fault.OccursIn (viewsBelow [4, 2]) l := by
    intro l hl
    rw [← Module.exists_ofLevel_iff_forall_not_occursIn ""]
    fin_cases hl
    · exact ⟨_, rfl⟩
    · exact ⟨_, rfl⟩
  obtain ⟨hfails, hfirst, -⟩ := emit_fails_iff_faulty (viewsBelow [4, 2, 4]) {}
  obtain ⟨-, -, hgenerates⟩ := emit_fails_iff_faulty (viewsBelow [4, 2]) { layout := .perLevel }
  obtain ⟨fault, hemit⟩ := hfails.mpr (hfault.imp fun l hl => ⟨hl.1, _, hl.2⟩)
  obtain ⟨front, l, back, hlevels, hl, -⟩ := hfirst fault hemit
  exact ⟨hfault, ⟨fault, hemit, front, l, back, hlevels, hl⟩, hfree, hgenerates hfree⟩

end ResolvedSchema

end LevelSchema
