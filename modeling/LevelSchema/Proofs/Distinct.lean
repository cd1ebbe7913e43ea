import Mathlib.Data.List.Nodup
import LevelSchema.Distinct

/-!
# Lists without repetition: what is kept

`keepFirst` and `sortedSet` both give a list with the same elements and no repetition; the first
keeps the order of first occurrences, the second sorts.

**New elements.**  `Joins seen own` says that a list can be put after another without repetition.
Checks that take one element after the other decide exactly this (`joins_cons_iff`).

**Tables.**  Association lists are read with `List.lookup`, which takes the entry in front.  Where
every key stands only once the order of the entries does not matter, and reading is membership
(`lookup_eq_some_iff_mem`).
-/

namespace LevelSchema

variable {α β : Type}

/-! ## Keeping first occurrences -/

@[simp] lemma mem_keepFirst [DecidableEq α] {a : α} {as : List α} : a ∈ keepFirst as ↔ a ∈ as := by
  induction as with
  | nil => simp [keepFirst]
  | cons b bs ih =>
      by_cases hab : a = b
      · simp [keepFirst, hab]
      · simp [keepFirst, hab, ih]

/-- Keeping the first of equal elements leaves no two equal ones. -/
lemma nodup_keepFirst [DecidableEq α] (as : List α) : (keepFirst as).Nodup := by
  induction as with
  | nil => exact List.nodup_nil
  | cons b bs ih =>
      rw [keepFirst, List.nodup_cons]
      exact ⟨by simp, ih.filter _⟩

lemma keepFirst_eq_self [DecidableEq α] {as : List α} (h : as.Nodup) : keepFirst as = as := by
  induction as with
  | nil => rfl
  | cons b bs ih =>
      obtain ⟨hb, hbs⟩ := List.nodup_cons.mp h
      rw [keepFirst, ih hbs, List.filter_eq_self.mpr]
      intro c hc
      simpa using ne_of_mem_of_not_mem hc hb

/-- Of a second list only what is new is kept. -/
lemma keepFirst_append [DecidableEq α] (as bs : List α) :
    keepFirst (as ++ bs) = keepFirst as ++ (keepFirst bs).filter (· ∉ as) := by
  induction as with
  | nil => simp [keepFirst]
  | cons a as ih =>
      simp only [List.cons_append, keepFirst, ih, List.filter_append, List.filter_filter]
      congr 2
      refine List.filter_congr fun b _ => ?_
      simp

/-- A map that tells elements apart commutes with keeping the first of them. -/
lemma keepFirst_map [DecidableEq α] [DecidableEq β] {f : α → β} {as : List α}
    (hinj : ∀ a ∈ as, ∀ b ∈ as, f a = f b → a = b) :
    keepFirst (as.map f) = (keepFirst as).map f := by
  induction as with
  | nil => rfl
  | cons a as ih =>
      have htail := ih fun b hb c hc =>
        hinj b (List.mem_cons_of_mem a hb) c (List.mem_cons_of_mem a hc)
      rw [List.map_cons, keepFirst, keepFirst, htail, List.filter_map, List.map_cons]
      congr 2
      refine List.filter_congr fun b hb => ?_
      have hb' : b ∈ a :: as := List.mem_cons_of_mem a (mem_keepFirst.mp hb)
      have hiff : f b = f a ↔ b = a := ⟨hinj b hb' a List.mem_cons_self, congrArg f⟩
      simp [hiff]

/-! ## Adding what is new -/

/-- The elements of `own` are not among those `seen`, and no one stands twice. -/
structure Joins (seen own : List α) : Prop where
  new : ∀ a ∈ own, a ∉ seen
  nodup : own.Nodup

lemma joins_nil {seen : List α} : Joins seen [] :=
  ⟨by simp, List.nodup_nil⟩

lemma joins_congr {seen seen' own : List α} (h : ∀ a, a ∈ seen ↔ a ∈ seen') :
    Joins seen own ↔ Joins seen' own := by
  constructor
  · exact fun ⟨hnew, hnodup⟩ => ⟨fun a ha hmem => hnew a ha ((h a).mpr hmem), hnodup⟩
  · exact fun ⟨hnew, hnodup⟩ => ⟨fun a ha hmem => hnew a ha ((h a).mp hmem), hnodup⟩

/-- The elements can be compared one after the other, each with those before it. -/
lemma joins_cons_iff {seen own : List α} {a : α} :
    Joins seen (a :: own) ↔ a ∉ seen ∧ Joins (a :: seen) own := by
  constructor
  · rintro ⟨hnew, hnodup⟩
    obtain ⟨ha, hown⟩ := List.nodup_cons.mp hnodup
    refine ⟨hnew a List.mem_cons_self, fun b hb hmem => ?_, hown⟩
    rcases List.mem_cons.mp hmem with rfl | hmem
    · exact ha hb
    · exact hnew b (List.mem_cons_of_mem a hb) hmem
  · rintro ⟨ha, hnew, hown⟩
    refine ⟨List.forall_mem_cons.mpr ⟨ha, fun b hb hmem => ?_⟩, List.nodup_cons.mpr ⟨?_, hown⟩⟩
    · exact hnew b hb (List.mem_cons_of_mem a hmem)
    · exact fun hmem => hnew a hmem List.mem_cons_self

/-- Lists are free of repetitions together if the first is and the second joins it. -/
lemma nodup_append_iff_joins {seen own : List α} :
    (seen ++ own).Nodup ↔ seen.Nodup ∧ Joins seen own := by
  rw [List.nodup_append]
  constructor
  · rintro ⟨hseen, hown, hdisjoint⟩
    exact ⟨hseen, fun a ha hmem => hdisjoint a hmem a ha rfl, hown⟩
  · rintro ⟨hseen, hnew, hown⟩
    refine ⟨hseen, hown, ?_⟩
    rintro a hmem _ ha rfl
    exact hnew a ha hmem

/-! ## Sorting

The comparison has to be a strict order that tells any two different elements apart. -/

section Sorted

variable {less : α → α → Bool}

lemma mem_insertSorted (hlin : ∀ a b, less a b = false → less b a = false → a = b) {a c : α}
    {bs : List α} : c ∈ insertSorted less a bs ↔ c = a ∨ c ∈ bs := by
  induction bs with
  | nil => simp [insertSorted]
  | cons b bs ih =>
      rw [insertSorted]
      split_ifs with hab hba
      · simp
      · rw [List.mem_cons, ih, List.mem_cons]
        tauto
      · have : a = b := hlin a b (by simpa using hab) (by simpa using hba)
        subst this
        simp

/-- Inserting keeps a list sorted. -/
lemma pairwise_insertSorted (htrans : ∀ a b c, less a b → less b c → less a c)
    (hlin : ∀ a b, less a b = false → less b a = false → a = b) {a : α} {bs : List α}
    (h : bs.Pairwise (less · ·)) : (insertSorted less a bs).Pairwise (less · ·) := by
  induction bs with
  | nil => simp [insertSorted]
  | cons b bs ih =>
      obtain ⟨hb, hbs⟩ := List.pairwise_cons.mp h
      rw [insertSorted]
      split_ifs with hab hba
      · refine List.pairwise_cons.mpr ⟨?_, h⟩
        intro c hc
        rcases List.mem_cons.mp hc with rfl | hc
        · exact hab
        · exact htrans _ _ _ hab (hb c hc)
      · refine List.pairwise_cons.mpr ⟨?_, ih hbs⟩
        intro c hc
        rcases (mem_insertSorted hlin).mp hc with rfl | hc
        · exact hba
        · exact hb c hc
      · exact h

/-- Sorting loses no element and adds none. -/
lemma mem_sortedSet (hlin : ∀ a b, less a b = false → less b a = false → a = b) {a : α}
    {as : List α} : a ∈ sortedSet less as ↔ a ∈ as := by
  induction as with
  | nil => simp [sortedSet]
  | cons b bs ih =>
      have hstep : sortedSet less (b :: bs) = insertSorted less b (sortedSet less bs) := rfl
      rw [hstep, mem_insertSorted hlin, ih, List.mem_cons]

/-- A sorted set is strictly increasing. -/
lemma pairwise_sortedSet (htrans : ∀ a b c, less a b → less b c → less a c)
    (hlin : ∀ a b, less a b = false → less b a = false → a = b) (as : List α) :
    (sortedSet less as).Pairwise (less · ·) := by
  induction as with
  | nil => exact List.Pairwise.nil
  | cons b bs ih => exact pairwise_insertSorted htrans hlin ih

lemma nodup_sortedSet (hirrefl : ∀ a, less a a = false)
    (htrans : ∀ a b c, less a b → less b c → less a c)
    (hlin : ∀ a b, less a b = false → less b a = false → a = b) (as : List α) :
    (sortedSet less as).Nodup := by
  refine (pairwise_sortedSet htrans hlin as).imp ?_
  rintro a _ hab rfl
  simp [hirrefl] at hab

end Sorted

/-! ## Tables with distinct keys -/

lemma find?_key_eq_some_iff {κ : Type} [BEq κ] [LawfulBEq κ] {key : α → κ} {as : List α} {k : κ}
    {a : α} (h : (as.map key).Nodup) :
    as.find? (fun b => key b == k) = some a ↔ a ∈ as ∧ key a = k := by
  constructor
  · intro hfind
    exact ⟨List.mem_of_find?_eq_some hfind, by simpa using List.find?_some hfind⟩
  · rintro ⟨ha, rfl⟩
    cases hfind : as.find? fun b => key b == key a with
    | none => exact absurd (List.find?_eq_none.mp hfind a ha) (by simp)
    | some b =>
        have hkey : key b = key a := by simpa using List.find?_some hfind
        rw [List.inj_on_of_nodup_map h (List.mem_of_find?_eq_some hfind) ha hkey]

/-- In a table whose keys are distinct, looking up finds exactly the entries. -/
lemma lookup_eq_some_iff_mem [BEq α] [LawfulBEq α] {table : List (α × β)} {k : α} {v : β}
    (h : (table.map (·.1)).Nodup) : table.lookup k = some v ↔ (k, v) ∈ table := by
  induction table with
  | nil => simp
  | cons e es ih =>
      obtain ⟨he, hes⟩ := List.nodup_cons.mp h
      rw [List.lookup_cons, List.mem_cons]
      by_cases hk : k = e.1
      · have hnot : (k, v) ∉ es := fun hmem => he (List.mem_map.mpr ⟨_, hmem, hk⟩)
        subst hk
        simp [hnot, Prod.ext_iff, eq_comm]
      · have hne : (k, v) ≠ e := fun heq => hk (by rw [← heq])
        have hbeq : (k == e.1) = false := beq_eq_false_iff_ne.mpr hk
        simp only [hbeq, hne, false_or]
        exact ih hes

lemma mem_of_lookup_eq_some [BEq α] [LawfulBEq α] {table : List (α × β)} {k : α} {v : β}
    (h : table.lookup k = some v) : (k, v) ∈ table := by
  obtain ⟨before, after, rfl, -⟩ := List.lookup_eq_some_iff.mp h
  simp

lemma lookup_eq_none_iff_not_mem [BEq α] [LawfulBEq α] {table : List (α × β)} {k : α} :
    table.lookup k = none ↔ k ∉ table.map (·.1) := by
  rw [List.lookup_eq_none_iff]
  constructor
  · intro h hk
    obtain ⟨e, he, rfl⟩ := List.mem_map.mp hk
    simpa using h e he
  · intro h e he
    rw [bne_iff_ne]
    rintro rfl
    exact h (List.mem_map.mpr ⟨e, he, rfl⟩)

end LevelSchema
