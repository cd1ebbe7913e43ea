import Mathlib.Data.List.Sort
import Mathlib.Data.Prod.Lex
import Mathlib.Data.Set.Card
import Mathlib.Order.Lattice.Nat
import LevelSchema.Proofs.Lineage

/-!
# Orders in which nodes pull their ancestors ahead

Take the nodes of a hierarchy in the order of a list, put the lineage of each node where the node
stands, and keep first occurrences.  The result is a sorted list, and this module says by what.

**Ranks.**  A node is used for the first time where it or a node below it stands first in the list
(`firstUse`), and nodes that are first used at the same place are ancestors of the node that stands
there, so they are told apart by how many ancestors they have (`generation`).  The `rank` of a node
is the pair of the two, compared lexicographically.

**Sorting.**  The pass over the list adds, for each node, the part of its lineage that is not there
yet.  All of that part is first used at this node, and everything that is there already was first
used before (`Hierarchy.mem_flatMap_iff`), so each step keeps the list sorted
(`Hierarchy.pairwise_rank_keepFirst`).  What the order does to single nodes follows from the ranks
alone: ancestors come first, a node moves ahead of another only because one of its descendants
stands there, and if ancestors come first in the list nothing moves.
-/

namespace LevelSchema

variable {α : Type} {r : α → α → Prop} {ns order : List α} {a b : α}

/-! ## Ranks -/

/-- The first place in the list of the node or of one below it. -/
noncomputable def firstUse (r : α → α → Prop) (ns : List α) (a : α) : ℕ :=
  sInf {i | ∃ m, ns[i]? = some m ∧ Relation.ReflTransGen r m a}

/-- The number of nodes above a node. -/
noncomputable def generation (r : α → α → Prop) (a : α) : ℕ :=
  {m | Relation.TransGen r a m}.ncard

/-- What nodes are sorted by: where they are first used, and then by generation. -/
noncomputable def rank (r : α → α → Prop) (ns : List α) (a : α) : ℕ ×ₗ ℕ :=
  toLex (firstUse r ns a, generation r a)

/-- `order` holds the same nodes as `ns`, sorted by rank. -/
structure Ranked (r : α → α → Prop) (ns order : List α) : Prop where
  perm : order.Perm ns
  sorted : order.Pairwise (rank r ns · < rank r ns ·)

lemma firstUse_le {i : ℕ} {m : α} (hi : ns[i]? = some m) (hm : Relation.ReflTransGen r m a) :
    firstUse r ns a ≤ i :=
  Nat.sInf_le ⟨m, hi, hm⟩

lemma exists_firstUse (ha : a ∈ ns) :
    ∃ m, ns[firstUse r ns a]? = some m ∧ Relation.ReflTransGen r m a := by
  obtain ⟨i, hi⟩ := List.mem_iff_getElem?.mp ha
  have hused : {i | ∃ m, ns[i]? = some m ∧ Relation.ReflTransGen r m a}.Nonempty :=
    ⟨i, a, hi, .refl⟩
  exact Nat.sInf_mem hused

lemma rank_lt_iff : rank r ns a < rank r ns b ↔ firstUse r ns a < firstUse r ns b ∨
    firstUse r ns a = firstUse r ns b ∧ generation r a < generation r b :=
  Prod.Lex.toLex_lt_toLex

/-! ## Places -/

/-- One element stands before another when it is found at a smaller index. -/
lemma pair_sublist_iff : [a, b].Sublist ns ↔
    ∃ i j : ℕ, i < j ∧ ns[i]? = some a ∧ ns[j]? = some b := by
  constructor
  · have hplaces : ns.Pairwise fun a b => ∃ i j : ℕ, i < j ∧ ns[i]? = some a ∧ ns[j]? = some b := by
      rw [List.pairwise_iff_getElem]
      intro i j hi hj hij
      exact ⟨i, j, hij, List.getElem?_eq_getElem hi, List.getElem?_eq_getElem hj⟩
    exact fun h => List.pairwise_iff_forall_sublist.mp hplaces h
  · rintro ⟨i, j, hij, hi, hj⟩
    obtain ⟨hilen, rfl⟩ := List.getElem?_eq_some_iff.mp hi
    obtain ⟨hjlen, rfl⟩ := List.getElem?_eq_some_iff.mp hj
    have hpairs : ns.Pairwise fun a b => [a, b].Sublist ns :=
      List.pairwise_iff_forall_sublist.mpr fun h => h
    exact List.pairwise_iff_getElem.mp hpairs i j hilen hjlen hij

/-- An element that stands only once has one index. -/
lemma index_unique (h : ns.Nodup) {i j : ℕ} (hi : ns[i]? = some a) (hj : ns[j]? = some a) :
    i = j :=
  (List.getElem?_inj (List.getElem?_eq_some_iff.mp hi).1 h).mp (hi.trans hj.symm)

/-- Of two different elements one stands before the other. -/
lemma pair_sublist_or (ha : a ∈ ns) (hb : b ∈ ns) (hab : a ≠ b) :
    [a, b].Sublist ns ∨ [b, a].Sublist ns := by
  obtain ⟨i, hi⟩ := List.mem_iff_getElem?.mp ha
  obtain ⟨j, hj⟩ := List.mem_iff_getElem?.mp hb
  rcases lt_trichotomy i j with hij | rfl | hij
  · exact .inl (pair_sublist_iff.mpr ⟨i, j, hij, hi, hj⟩)
  · exact absurd (Option.some.inj (hi.symm.trans hj)) hab
  · exact .inr (pair_sublist_iff.mpr ⟨j, i, hij, hj, hi⟩)

/-! ## Hierarchies -/

/-- The nodes of a list form a hierarchy: each has at most one parent, which is in the list too, and
none is its own ancestor. -/
structure Hierarchy (r : α → α → Prop) (ns : List α) : Prop where
  nodup : ns.Nodup
  rightUnique : Relator.RightUnique r
  mem : ∀ a b, r a b → a ∈ ns ∧ b ∈ ns
  acyclic : ∀ a, ¬ Relation.TransGen r a a

/-- In a lineage what stands before a node is above it. -/
lemma Lineage.pairwise_transGen (hr : Relator.RightUnique r) {chain : List α}
    (h : Lineage r a chain) : chain.Pairwise fun m n => Relation.TransGen r n m := by
  induction h with
  | root => exact List.pairwise_singleton _ _
  | step hab hb ih =>
      refine List.pairwise_append.mpr ⟨ih, List.pairwise_singleton _ _, ?_⟩
      intro m hm n hn
      rw [List.mem_singleton.mp hn]
      exact .head' hab ((hb.mem_iff hr).mp hm)

namespace Hierarchy

lemma mem_of_transGen (h : Hierarchy r ns) (hab : Relation.TransGen r a b) : a ∈ ns ∧ b ∈ ns := by
  obtain ⟨c, hac, -⟩ := Relation.TransGen.head'_iff.mp hab
  obtain ⟨d, -, hdb⟩ := Relation.TransGen.tail'_iff.mp hab
  exact ⟨(h.mem a c hac).1, (h.mem d b hdb).2⟩

lemma mem_of_reflTransGen (h : Hierarchy r ns) (ha : a ∈ ns) (hab : Relation.ReflTransGen r a b) :
    b ∈ ns := by
  rcases Relation.reflTransGen_iff_eq_or_transGen.mp hab with rfl | hab
  · exact ha
  · exact (h.mem_of_transGen hab).2

/-- A node has more ancestors than each of its ancestors. -/
lemma generation_lt (h : Hierarchy r ns) (hab : Relation.TransGen r a b) :
    generation r b < generation r a := by
  have hfinite : {m | Relation.TransGen r a m}.Finite :=
    (List.finite_toSet ns).subset fun m hm => (h.mem_of_transGen hm).2
  refine Set.ncard_lt_ncard ⟨fun m hm => hab.trans hm, fun hsub => ?_⟩ hfinite
  exact h.acyclic b (hsub hab)

/-- A node ranks after each of its ancestors. -/
lemma rank_lt (h : Hierarchy r ns) (hab : Relation.TransGen r a b) :
    rank r ns b < rank r ns a := by
  obtain ⟨m, hm, hma⟩ := exists_firstUse (r := r) (h.mem_of_transGen hab).1
  have hle : firstUse r ns b ≤ firstUse r ns a := firstUse_le hm (hma.trans hab.to_reflTransGen)
  have hgeneration := h.generation_lt hab
  rw [rank_lt_iff]
  omega

variable {chain : α → List α} {front back : List α}

/-- Before a place in the list exactly those nodes have been used that are first used before it. -/
lemma mem_flatMap_iff (h : Hierarchy r ns) (hchain : ∀ n ∈ ns, Lineage r n (chain n))
    (hns : ns = front ++ back) :
    a ∈ front.flatMap chain ↔ a ∈ ns ∧ firstUse r ns a < front.length := by
  have hfront : ∀ m ∈ front, m ∈ ns := fun m hm => hns ▸ List.mem_append_left back hm
  rw [List.mem_flatMap]
  constructor
  · rintro ⟨m, hm, hmem⟩
    have hup := ((hchain m (hfront m hm)).mem_iff h.rightUnique).mp hmem
    obtain ⟨i, hi, hplace⟩ := List.mem_iff_getElem.mp hm
    have hplace : ns[i]? = some m := by
      rw [hns, List.getElem?_append_left hi, List.getElem?_eq_getElem hi, hplace]
    exact ⟨h.mem_of_reflTransGen (hfront m hm) hup, (firstUse_le hplace hup).trans_lt hi⟩
  · rintro ⟨ha, hlt⟩
    obtain ⟨m, hplace, hup⟩ := exists_firstUse (r := r) ha
    have hm : m ∈ front := by
      rw [hns, List.getElem?_append_left (hns ▸ hlt)] at hplace
      exact List.mem_of_getElem? hplace
    exact ⟨m, hm, ((hchain m (hfront m hm)).mem_iff h.rightUnique).mpr hup⟩

/-- A pass over the first nodes of the list leaves what it has met sorted by rank. -/
lemma pairwise_rank_keepFirst [DecidableEq α] (h : Hierarchy r ns)
    (hchain : ∀ n ∈ ns, Lineage r n (chain n)) (hns : ns = front ++ back) :
    (keepFirst (front.flatMap chain)).Pairwise (rank r ns · < rank r ns ·) := by
  induction front using List.reverseRecOn generalizing back with
  | nil => exact List.Pairwise.nil
  | append_singleton front n ih =>
      have hsplit : ns = front ++ n :: back := by rw [hns, List.append_assoc, List.singleton_append]
      have hn : n ∈ ns := by simp [hsplit]
      have hplace : ns[front.length]? = some n := by simp [hsplit]
      have hlineage := hchain n hn
      -- what the step adds is first used by the node of the step
      have hnew : ∀ m ∈ (chain n).filter (· ∉ front.flatMap chain),
          firstUse r ns m = front.length := by
        intro m hm
        obtain ⟨hm, hfresh⟩ := List.mem_filter.mp hm
        have hup := (hlineage.mem_iff h.rightUnique).mp hm
        refine le_antisymm (firstUse_le hplace hup) (not_lt.mp fun hlt => ?_)
        refine of_decide_eq_true hfresh ((h.mem_flatMap_iff hchain hsplit).mpr ⟨?_, hlt⟩)
        exact h.mem_of_reflTransGen hn hup
      rw [List.flatMap_append, List.flatMap_singleton, keepFirst_append,
        keepFirst_eq_self (hlineage.nodup h.rightUnique)]
      refine List.pairwise_append.mpr ⟨ih hsplit, ?_, ?_⟩
      · refine ((hlineage.pairwise_transGen h.rightUnique).filter _).imp_of_mem ?_
        intro l m hl hm hup
        exact rank_lt_iff.mpr (.inr ⟨(hnew l hl).trans (hnew m hm).symm, h.generation_lt hup⟩)
      · intro l hl m hm
        have hlt := ((h.mem_flatMap_iff hchain hsplit).mp (mem_keepFirst.mp hl)).2
        exact rank_lt_iff.mpr (.inl (hnew m hm ▸ hlt))

/-- **First occurrences in the lineages are sorted by rank.** -/
theorem ranked_keepFirst [DecidableEq α] (h : Hierarchy r ns)
    (hchain : ∀ n ∈ ns, Lineage r n (chain n)) : Ranked r ns (keepFirst (ns.flatMap chain)) := by
  have hns : ns = ns ++ [] := ns.append_nil.symm
  refine ⟨?_, h.pairwise_rank_keepFirst hchain hns⟩
  refine (List.perm_ext_iff_of_nodup (nodup_keepFirst _) h.nodup).mpr fun m => ?_
  rw [mem_keepFirst, h.mem_flatMap_iff hchain hns, and_iff_left_iff_imp]
  intro hm
  obtain ⟨_, hplace, -⟩ := exists_firstUse (r := r) hm
  exact (List.getElem?_eq_some_iff.mp hplace).1

end Hierarchy

/-! ## What ranks do to single nodes -/

namespace Ranked

lemma nodup (h : Ranked r ns order) (hr : Hierarchy r ns) : order.Nodup :=
  h.perm.nodup_iff.mpr hr.nodup

/-- A node stands after each of its ancestors. -/
lemma sublist_of_transGen (h : Ranked r ns order) (hr : Hierarchy r ns)
    (hab : Relation.TransGen r a b) : [b, a].Sublist order := by
  obtain ⟨ha, hb⟩ := hr.mem_of_transGen hab
  have hne : b ≠ a := by
    rintro rfl
    exact hr.acyclic b hab
  refine (pair_sublist_or (h.perm.mem_iff.mpr hb) (h.perm.mem_iff.mpr ha) hne).resolve_right ?_
  intro hsub
  exact lt_asymm (hr.rank_lt hab) (List.pairwise_iff_forall_sublist.mp h.sorted hsub)

/-- A node that was moved ahead of another was pulled by a node below it, which is the other one or
stands before it in the list. -/
lemma exists_pulling (h : Ranked r ns order) (hr : Hierarchy r ns) (hab : [a, b].Sublist order)
    (hba : [b, a].Sublist ns) :
    ∃ m, Relation.TransGen r m a ∧ (m = b ∨ [m, b].Sublist ns) := by
  obtain ⟨j, i, hji, hj, hi⟩ := pair_sublist_iff.mp hba
  have ha : a ∈ ns := List.mem_of_getElem? hi
  obtain ⟨m, hplace, hup⟩ := exists_firstUse (r := r) ha
  have hle : firstUse r ns a ≤ j := by
    have hrank := rank_lt_iff.mp (List.pairwise_iff_forall_sublist.mp h.sorted hab)
    have hb : firstUse r ns b ≤ j := firstUse_le hj .refl
    omega
  refine ⟨m, ?_, ?_⟩
  · rcases Relation.reflTransGen_iff_eq_or_transGen.mp hup with rfl | hup
    · -- the node itself stands behind the other one, so it is not its own first use
      have hi' := index_unique hr.nodup hplace hi
      omega
    · exact hup
  · rcases hle.lt_or_eq with hlt | heq
    · exact .inr (pair_sublist_iff.mpr ⟨_, j, hlt, hplace, hj⟩)
    · rw [heq, hj] at hplace
      exact .inl (Option.some.inj hplace).symm

/-- Where parents stand before their children nothing is moved. -/
lemma eq_of_parents_first (h : Ranked r ns order) (hr : Hierarchy r ns)
    (hfirst : ∀ a b, r a b → [b, a].Sublist ns) : order = ns := by
  have hbelow : ∀ {a b : α}, Relation.TransGen r a b → ∀ {i j : ℕ}, ns[i]? = some a →
      ns[j]? = some b → j < i := by
    intro a b hab
    induction hab with
    | single hab =>
        intro i j hi hj
        obtain ⟨j', i', hlt, hj', hi'⟩ := pair_sublist_iff.mp (hfirst _ _ hab)
        rwa [index_unique hr.nodup hi hi', index_unique hr.nodup hj hj']
    | tail _ hbc ih =>
        intro i j hi hj
        obtain ⟨j', k, hlt, hj', hk⟩ := pair_sublist_iff.mp (hfirst _ _ hbc)
        rw [index_unique hr.nodup hj hj']
        exact hlt.trans (ih hi hk)
  -- so every node is its own first use
  have huse : ∀ {a : α} {i : ℕ}, ns[i]? = some a → firstUse r ns a = i := by
    intro a i hi
    obtain ⟨m, hplace, hup⟩ := exists_firstUse (r := r) (List.mem_of_getElem? hi)
    rcases Relation.reflTransGen_iff_eq_or_transGen.mp hup with rfl | hup
    · exact index_unique hr.nodup hplace hi
    · exact absurd (firstUse_le hi .refl) (not_le.mpr (hbelow hup hplace hi))
  have hsorted : ns.Pairwise (rank r ns · < rank r ns ·) := by
    refine List.pairwise_iff_forall_sublist.mpr fun {a b} hab => ?_
    obtain ⟨i, j, hij, hi, hj⟩ := pair_sublist_iff.mp hab
    exact rank_lt_iff.mpr (.inl (by rwa [huse hi, huse hj]))
  exact h.perm.eq_of_pairwise (fun _ _ _ _ hab hba => absurd hba (lt_asymm hab)) h.sorted hsorted

end Ranked

end LevelSchema
