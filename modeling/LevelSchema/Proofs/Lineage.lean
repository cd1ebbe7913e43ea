import Mathlib.Data.List.Chain
import Mathlib.Data.List.Forall2
import Mathlib.Logic.Relation
import Mathlib.Order.WellFoundedSet
import LevelSchema.Lineage
import LevelSchema.Proofs.Distinct

/-!
# Lineages as a relation

`Lineage r node chain` says that following `r` from `node` comes to an end, and that `chain` lists
the nodes on the way, root first and `node` last.  It speaks about any relation, so it states what
an ancestor chain is without saying how one is computed.

**Lineages and cycles.**  When a node has at most one parent, a node with a lineage is never its own
ancestor (`Lineage.not_transGen_self`), and in a finite graph a node has a lineage exactly when
there is no cycle at it or above it (`Lineage.exists_iff_acyclic`).  So "every node has a lineage"
and "there is no cycle" are the same (`Lineage.forall_exists_iff_acyclic`).  Where the nodes of two
graphs are related so that parents of related nodes are related (`Bisimulates`), related nodes have
related lineages.

**Forests.**  In a `Forest` exactly this is computed: `lineage?` finds the lineage whenever there is
one (`Forest.lineage?_eq_some_iff`).  Its fuel is enough because a chain that does not repeat itself
has at most one node without a link.

**Order.**  `ParentsFirst` says of a list that each node comes after its parent.  Lineages put one
after the other are such a list, and stay one when repetitions are dropped.  A `Pass` over such a
list keeps a table of results (`Tabulates`) in which the entry of a node depends on its lineage
only. Its checks compare each node with what is above it, and `Lineage.forall_check_iff` says what
they amount to.
-/

namespace LevelSchema

variable {α β : Type}

/-- `chain` is the way from the root of `node` down to `node`, along `r` from child to parent. -/
inductive Lineage (r : α → α → Prop) : α → List α → Prop
  | root {a : α} (h : ∀ b, ¬ r a b) : Lineage r a [a]
  | step {a b : α} {chain : List α} (h : r a b) (hb : Lineage r b chain) :
      Lineage r a (chain ++ [a])

namespace Lineage

variable {r : α → α → Prop} {a b : α} {chain chain' : List α}

/-- A lineage ends with its node. -/
lemma eq_append (h : Lineage r a chain) : ∃ above, chain = above ++ [a] := by
  cases h with
  | root => exact ⟨[], rfl⟩
  | step _ _ => exact ⟨_, rfl⟩

lemma mem_self (h : Lineage r a chain) : a ∈ chain := by
  obtain ⟨above, rfl⟩ := h.eq_append
  simp

lemma eq (hr : Relator.RightUnique r) (h : Lineage r a chain) (h' : Lineage r a chain') :
    chain = chain' := by
  induction h generalizing chain' with
  | root hroot =>
      cases h' with
      | root => rfl
      | step hab _ => exact absurd hab (hroot _)
  | step hab _ ih =>
      cases h' with
      | root hroot => exact absurd hab (hroot _)
      | step hab' hb' =>
          cases hr hab hab'
          rw [ih hb']

/-- The nodes of a lineage are the node itself and everything above it. -/
lemma mem_iff (hr : Relator.RightUnique r) (h : Lineage r a chain) {m : α} :
    m ∈ chain ↔ Relation.ReflTransGen r a m := by
  induction h with
  | root hroot =>
      rw [List.mem_singleton]
      constructor
      · rintro rfl
        exact .refl
      · intro hm
        rcases hm.cases_head with rfl | ⟨c, hc, -⟩
        · rfl
        · exact absurd hc (hroot c)
  | step hab hb ih =>
      rw [List.mem_append, ih, List.mem_singleton]
      constructor
      · rintro (hm | rfl)
        · exact .head hab hm
        · exact .refl
      · intro hm
        rcases hm.cases_head with rfl | ⟨c, hc, hm⟩
        · exact .inr rfl
        · cases hr hab hc
          exact .inl hm

/-- A node with a lineage is not its own ancestor. -/
lemma not_transGen_self (hr : Relator.RightUnique r) (h : Lineage r a chain) :
    ¬ Relation.TransGen r a a := by
  induction h with
  | root hroot =>
      intro ha
      obtain ⟨c, hc, -⟩ := Relation.TransGen.head'_iff.mp ha
      exact hroot c hc
  | step hab _ ih =>
      intro ha
      obtain ⟨c, hc, hca⟩ := Relation.TransGen.head'_iff.mp ha
      cases hr hab hc
      exact ih (Relation.TransGen.tail' hca hab)

/-- What stands above a node with a lineage has a lineage. -/
lemma exists_of_reflTransGen (hr : Relator.RightUnique r) (h : Lineage r a chain)
    (hb : Relation.ReflTransGen r a b) : ∃ above, Lineage r b above := by
  induction hb with
  | refl => exact ⟨chain, h⟩
  | tail _ hstep ih =>
      obtain ⟨above, habove⟩ := ih
      cases habove with
      | root hroot => exact absurd hstep (hroot _)
      | step hp hchain =>
          cases hr hstep hp
          exact ⟨_, hchain⟩

lemma nodup (hr : Relator.RightUnique r) (h : Lineage r a chain) : chain.Nodup := by
  induction h with
  | root => simp
  | @step a b chain hab hb ih =>
      have hnot : a ∉ chain := by
        intro hmem
        have hba : Relation.ReflTransGen r b a := (hb.mem_iff hr).mp hmem
        exact (Lineage.step hab hb).not_transGen_self hr (Relation.TransGen.head' hab hba)
      refine List.nodup_append.mpr ⟨ih, List.nodup_singleton a, ?_⟩
      rintro c hc d hd rfl
      exact hnot (List.mem_singleton.mp hd ▸ hc)

/-- In front of a node stands everything above it. -/
lemma mem_dropLast_iff (hr : Relator.RightUnique r) (h : Lineage r a chain) {m : α} :
    m ∈ chain.dropLast ↔ Relation.TransGen r a m := by
  rw [Relation.TransGen.head'_iff]
  cases h with
  | root hroot => simpa using fun c hc => absurd hc (hroot c)
  | step hab hb =>
      rw [List.dropLast_concat, hb.mem_iff hr]
      constructor
      · intro hm
        exact ⟨_, hab, hm⟩
      · rintro ⟨c, hc, hm⟩
        cases hr hab hc
        exact hm

/-- The parent of a node stands right in front of it. -/
lemma getLast?_dropLast_eq_some_iff (hr : Relator.RightUnique r) (h : Lineage r a chain) :
    chain.dropLast.getLast? = some b ↔ r a b := by
  cases h with
  | root hroot => simpa using hroot b
  | step hac hc =>
      obtain ⟨above, rfl⟩ := hc.eq_append
      rw [List.dropLast_concat, List.getLast?_concat, Option.some.injEq]
      constructor
      · rintro rfl
        exact hac
      · exact hr hac

/-- Everything in a lineage but its root has a parent. -/
lemma exists_parent_of_mem_tail (h : Lineage r a chain) {m : α} (hm : m ∈ chain.tail) :
    ∃ p, r m p := by
  induction h with
  | root => simp at hm
  | @step a b chain hab hb ih =>
      obtain ⟨above, rfl⟩ := hb.eq_append
      rw [List.tail_append_of_ne_nil (by simp), List.mem_append, List.mem_singleton] at hm
      rcases hm with hm | rfl
      · exact ih hm
      · exact ⟨b, hab⟩

/-- In a finite graph a node has a lineage if there is no cycle above it: among what it reaches "is
an ancestor of" is then a strict order on finitely many nodes, so following it has to end. -/
lemma exists_of_acyclic {nodes : List α} (hmem : ∀ a b, r a b → b ∈ nodes)
    (hacyclic : ∀ m, Relation.ReflTransGen r a m → ¬ Relation.TransGen r m m) :
    ∃ chain, Lineage r a chain := by
  classical
  let above : α → α → Prop := fun p n => Relation.ReflTransGen r a n ∧ Relation.TransGen r n p
  have : IsStrictOrder α above :=
    { irrefl := fun n hn => hacyclic n hn.1 hn.2
      trans := fun _ _ _ hab hbc => ⟨hbc.1, hbc.2.trans hab.2⟩ }
  have hwf : {n | n ∈ a :: nodes}.WellFoundedOn above :=
    (List.finite_toSet (a :: nodes)).wellFoundedOn
  refine hwf.induction (P := fun n => Relation.ReflTransGen r a n → ∃ chain, Lineage r n chain)
    List.mem_cons_self ?_ .refl
  intro n _ ih hn
  by_cases hp : ∃ p, r n p
  · obtain ⟨p, hnp⟩ := hp
    obtain ⟨chain, hchain⟩ :=
      ih p (List.mem_cons_of_mem a (hmem n p hnp)) ⟨hn, .single hnp⟩ (hn.tail hnp)
    exact ⟨_, .step hnp hchain⟩
  · exact ⟨_, .root (not_exists.mp hp)⟩

/-- A node of a finite graph with single parents has a lineage exactly when there is no cycle at it
or above it. -/
lemma exists_iff_acyclic (hr : Relator.RightUnique r) {nodes : List α}
    (hmem : ∀ a b, r a b → b ∈ nodes) : (∃ chain, Lineage r a chain) ↔
      ∀ m, Relation.ReflTransGen r a m → ¬ Relation.TransGen r m m := by
  refine ⟨?_, exists_of_acyclic hmem⟩
  rintro ⟨chain, hchain⟩ m hm
  obtain ⟨above, habove⟩ := hchain.exists_of_reflTransGen hr hm
  exact habove.not_transGen_self hr

/-- So in a finite graph with single parents all nodes have lineages exactly when there is no
cycle. -/
lemma forall_exists_iff_acyclic (hr : Relator.RightUnique r) {nodes : List α}
    (hmem : ∀ a b, r a b → a ∈ nodes ∧ b ∈ nodes) :
    (∀ a ∈ nodes, ∃ chain, Lineage r a chain) ↔ ∀ a, ¬ Relation.TransGen r a a := by
  constructor
  · intro h a hcycle
    obtain ⟨b, hab, -⟩ := Relation.TransGen.head'_iff.mp hcycle
    obtain ⟨chain, hchain⟩ := h a (hmem a b hab).1
    exact hchain.not_transGen_self hr hcycle
  · intro hacyclic a ha
    exact exists_of_acyclic (fun a b hab => (hmem a b hab).2) fun m _ => hacyclic m

/-- Where every node has a lineage one can recurse along the links, and only there. -/
lemma wellFounded_iff (hr : Relator.RightUnique r) :
    (WellFounded fun p n => r n p) ↔ ∀ a, ∃ chain, Lineage r a chain := by
  constructor
  · intro hwf a
    induction a using hwf.induction with
    | _ a ih =>
        by_cases hp : ∃ p, r a p
        · obtain ⟨p, hap⟩ := hp
          obtain ⟨chain, hchain⟩ := ih p hap
          exact ⟨_, .step hap hchain⟩
        · exact ⟨_, .root (not_exists.mp hp)⟩
  · refine fun h => ⟨fun a => ?_⟩
    obtain ⟨chain, hchain⟩ := h a
    induction hchain with
    | root hroot => exact .intro _ fun p hp => absurd hp (hroot p)
    | step hab _ ih => exact .intro _ fun p hp => hr hab hp ▸ ih

/-- Checks of single nodes add up.  If `check` decides whether what a node brings along can be put
after what is above it, then all nodes pass it exactly when everything along each lineage is `good`
together. -/
lemma forall_check_iff (good : List β → Prop) {f : α → List β} {check : List β → α → Prop}
    {nodes : List α} (hmem : ∀ a b, r a b → b ∈ nodes) (hnil : good [])
    (hstep : ∀ a ∈ nodes, ∀ above, good (above ++ f a) ↔ good above ∧ check above a) :
    (∀ a ∈ nodes, ∀ chain, Lineage r a chain → check (chain.dropLast.flatMap f) a) ↔
      ∀ a ∈ nodes, ∀ chain, Lineage r a chain → good (chain.flatMap f) := by
  constructor
  · intro h a ha chain hchain
    induction hchain with
    | @root a hroot => simpa using (hstep a ha []).mpr ⟨hnil, h a ha [a] (.root hroot)⟩
    | @step a b above hab hb ih =>
        have hcheck := h a ha _ (.step hab hb)
        rw [List.dropLast_concat] at hcheck
        rw [List.flatMap_append, List.flatMap_singleton]
        exact (hstep a ha _).mpr ⟨ih (hmem a b hab), hcheck⟩
  · intro h a ha chain hchain
    have hgood := h a ha chain hchain
    obtain ⟨above, rfl⟩ := hchain.eq_append
    rw [List.flatMap_append, List.flatMap_singleton] at hgood
    rw [List.dropLast_concat]
    exact ((hstep a ha _).mp hgood).2

/-- Lineages of two graphs correspond when `f` carries the parents of each node to the parents of
its image.  Only nodes with `p` matter, where `p` holds of the parents of such nodes. -/
lemma map_iff {q : β → β → Prop} {f : α → β} {p : α → Prop} (hp : ∀ a b, p a → r a b → p b)
    (hf : ∀ a, p a → ∀ y, q (f a) y ↔ ∃ b, r a b ∧ f b = y) (ha : p a) {image : List β} :
    Lineage q (f a) image ↔ ∃ chain, Lineage r a chain ∧ chain.map f = image := by
  constructor
  · intro h
    generalize hx : f a = x at h
    induction h generalizing a with
    | root hroot =>
        subst hx
        refine ⟨[a], .root fun b hab => hroot (f b) ((hf a ha _).mpr ⟨b, hab, rfl⟩), rfl⟩
    | step hxy _ ih =>
        subst hx
        obtain ⟨b, hab, hby⟩ := (hf a ha _).mp hxy
        obtain ⟨chain, hchain, rfl⟩ := ih (hp a b ha hab) hby
        exact ⟨chain ++ [a], .step hab hchain, by simp⟩
  · rintro ⟨chain, h, rfl⟩
    induction h with
    | root hroot =>
        refine .root fun y hy => ?_
        obtain ⟨b, hab, -⟩ := (hf _ ha y).mp hy
        exact hroot b hab
    | @step a b chain hab _ ih =>
        rw [List.map_append]
        exact .step ((hf a ha _).mpr ⟨b, hab, rfl⟩) (ih (hp a b ha hab))

end Lineage

/-! ## Graphs that correspond -/

/-- Related nodes of two graphs have related parents. -/
structure Bisimulates (r : α → α → Prop) (q : β → β → Prop) (R : α → β → Prop) : Prop where
  forth : ∀ {a b a'}, R a b → r a a' → ∃ b', q b b' ∧ R a' b'
  back : ∀ {a b b'}, R a b → q b b' → ∃ a', r a a' ∧ R a' b'

namespace Bisimulates

variable {r : α → α → Prop} {q : β → β → Prop} {R : α → β → Prop} {a a' : α} {b b' : β}

lemma exists_lineage (h : Bisimulates r q R) (hab : R a b) {chain : List α}
    (hchain : Lineage r a chain) : ∃ chain', Lineage q b chain' ∧ List.Forall₂ R chain chain' := by
  induction hchain generalizing b with
  | root hroot =>
      refine ⟨[b], .root fun b' hb' => ?_, .cons hab .nil⟩
      obtain ⟨a', ha', -⟩ := h.back hab hb'
      exact hroot a' ha'
  | step ha _ ih =>
      obtain ⟨b', hb', hab'⟩ := h.forth hab ha
      obtain ⟨chain', hchain', hall⟩ := ih hab'
      exact ⟨chain' ++ [b], .step hb' hchain', List.rel_append hall (.cons hab .nil)⟩

lemma exists_reflTransGen (h : Bisimulates r q R) (hab : R a b)
    (hup : Relation.ReflTransGen r a a') : ∃ b', Relation.ReflTransGen q b b' ∧ R a' b' := by
  induction hup with
  | refl => exact ⟨b, .refl, hab⟩
  | tail _ hstep ih =>
      obtain ⟨b', hup', hab'⟩ := ih
      obtain ⟨b'', hb'', hab''⟩ := h.forth hab' hstep
      exact ⟨b'', hup'.tail hb'', hab''⟩

lemma exists_reflTransGen_back (h : Bisimulates r q R) (hab : R a b)
    (hup : Relation.ReflTransGen q b b') : ∃ a', Relation.ReflTransGen r a a' ∧ R a' b' := by
  induction hup with
  | refl => exact ⟨a, .refl, hab⟩
  | tail _ hstep ih =>
      obtain ⟨a', hup', hab'⟩ := ih
      obtain ⟨a'', ha'', hab''⟩ := h.back hab' hstep
      exact ⟨a'', hup'.tail ha'', hab''⟩

end Bisimulates

/-! ## Walks along a relation -/

section Walks

variable {r : α → α → Prop}

lemma transGen_of_isChain {m : α} : ∀ (between : List α) (n : α),
    (n :: between ++ [m]).IsChain r → Relation.TransGen r n m
  | [], n, h => .single (List.isChain_cons_cons.mp h).1
  | b :: between, n, h => by
      obtain ⟨hnb, hrest⟩ := List.isChain_cons_cons.mp h
      exact .head hnb (transGen_of_isChain between b hrest)

/-- A walk can be continued by one more link. -/
lemma isChain_extend {path : List α} {n p : α} (hpath : (path ++ [n]).IsChain r)
    (h : r n p) : (path ++ [n] ++ [p]).IsChain r := by
  refine hpath.append (List.isChain_singleton p) ?_
  intro x hx y hy
  simp only [List.getLast?_append, List.getLast?_singleton, Option.some_or, Option.mem_def,
    Option.some.injEq, List.head?_cons] at hx hy
  exact hx ▸ hy ▸ h

end Walks

/-! ## Chains of a forest -/

namespace Forest

variable [DecidableEq α] {g : Forest α} {n p : α} {chain : List α}

/-- The links of a forest, from child to parent. -/
def Links (g : Forest α) (n p : α) : Prop :=
  g.parent? n = some p

lemma links_rightUnique (g : Forest α) : Relator.RightUnique g.Links := by
  intro a b c hab hac
  exact Option.some.inj (hab.symm.trans hac)

lemma mem_keys_of_links (h : g.Links n p) : n ∈ g.links.map (·.1) := by
  by_contra hn
  rw [Links, parent?, lookup_eq_none_iff_not_mem.mpr hn] at h
  exact nomatch h

/-- Building a forest from a list of nodes keeps the parents of these nodes and no others. -/
lemma parent?_ofParent (nodes : List α) (parent : α → Option α) (n : α) :
    (ofParent nodes parent).parent? n = if n ∈ nodes then parent n else none := by
  have hlookup : ∀ nodes : List α, (nodes.filterMap fun m => (parent m).map (m, ·)).lookup n
      = if n ∈ nodes then parent n else none := by
    intro nodes
    induction nodes with
    | nil => rfl
    | cons m ms ih =>
        rw [List.filterMap_cons]
        cases hm : parent m with
        | none =>
            by_cases hnm : n = m
            · subst hnm
              simp [ih, hm]
            · simp [ih, hnm]
        | some q =>
            by_cases hnm : n = m
            · subst hnm
              simp [hm]
            · have hbeq : (n == m) = false := beq_eq_false_iff_ne.mpr hnm
              simp [List.lookup_cons, hbeq, ih, hnm]
  exact hlookup nodes

lemma lineage_of_chain? {fuel : Nat} (h : g.chain? fuel n = some chain) :
    Lineage g.Links n chain := by
  induction fuel generalizing n chain with
  | zero => simp [chain?] at h
  | succ fuel ih =>
      rw [chain?] at h
      split at h
      · next hroot =>
          cases h
          exact .root fun b hb => by simp [Links, hroot] at hb
      · next p hp =>
          obtain ⟨above, habove, rfl⟩ := Option.map_eq_some_iff.mp h
          exact .step hp (ih habove)

lemma chain?_of_lineage (h : Lineage g.Links n chain) {fuel : Nat} (hfuel : chain.length ≤ fuel) :
    g.chain? fuel n = some chain := by
  induction h generalizing fuel with
  | @root a hroot =>
      obtain ⟨k, rfl⟩ : ∃ k, fuel = k + 1 := ⟨fuel - 1, by simp at hfuel; omega⟩
      have hnone : g.parent? a = none := by
        by_contra hsome
        obtain ⟨b, hb⟩ := Option.ne_none_iff_exists'.mp hsome
        exact hroot b hb
      simp [chain?, hnone]
  | @step a b chain hab _ ih =>
      obtain ⟨k, rfl⟩ : ∃ k, fuel = k + 1 := ⟨fuel - 1, by simp at hfuel; omega⟩
      have hk : chain.length ≤ k := by simpa using hfuel
      rw [chain?, show g.parent? a = some b from hab]
      simp [ih hk]

/-- A lineage has no more nodes than a walk is allowed to visit: all but its root start a link. -/
lemma length_le_bound (h : Lineage g.Links n chain) : chain.length ≤ g.bound := by
  have hnodup : chain.tail.Nodup := (h.nodup g.links_rightUnique).sublist (List.tail_sublist chain)
  have hsub : chain.tail ⊆ g.links.map (·.1) := by
    intro m hm
    obtain ⟨p, hp⟩ := h.exists_parent_of_mem_tail hm
    exact mem_keys_of_links hp
  have hlen := hnodup.length_le_of_subset hsub
  rw [List.length_tail, List.length_map] at hlen
  rw [bound]
  omega

/-- **`lineage?` finds the lineage of every node that has one.** -/
theorem lineage?_eq_some_iff : g.lineage? n = some chain ↔ Lineage g.Links n chain :=
  ⟨lineage_of_chain?, fun h => chain?_of_lineage h (length_le_bound h)⟩

end Forest

/-! ## Parents first -/

/-- Each node of a list comes after its parent, which stands in the list or in `done`. -/
def ParentsFirst (r : α → α → Prop) : List α → List α → Prop
  | _, [] => True
  | done, n :: ns => (∀ p, r n p → p ∈ done) ∧ ParentsFirst r (n :: done) ns

namespace ParentsFirst

variable {r : α → α → Prop} {done ns : List α}

lemma append {ms : List α} (hns : ParentsFirst r done ns)
    (hms : ParentsFirst r (ns.reverse ++ done) ms) : ParentsFirst r done (ns ++ ms) := by
  induction ns generalizing done with
  | nil => exact hms
  | cons n ns ih =>
      refine ⟨hns.1, ih hns.2 ?_⟩
      simpa using hms

lemma of_append {ms : List α} (h : ParentsFirst r done (ns ++ ms)) :
    ParentsFirst r done ns ∧ ParentsFirst r (ns.reverse ++ done) ms := by
  induction ns generalizing done with
  | nil => exact ⟨trivial, h⟩
  | cons n ns ih =>
      obtain ⟨hns, hms⟩ := ih h.2
      exact ⟨⟨h.1, hns⟩, by simpa using hms⟩

/-- Nodes may be left out if they are in `done` already. -/
lemma filter {keep : α → Bool} (hsub : done ⊆ done')
    (hout : ∀ n ∈ ns, keep n = false → n ∈ done') (h : ParentsFirst r done ns) :
    ParentsFirst r done' (ns.filter keep) := by
  induction ns generalizing done done' with
  | nil => trivial
  | cons n ns ih =>
      have hout' := fun m hm => hout m (List.mem_cons_of_mem n hm)
      cases hn : keep n with
      | true =>
          rw [List.filter_cons_of_pos hn]
          refine ⟨fun p hp => hsub (h.1 p hp), ih (List.cons_subset_cons n hsub) ?_ h.2⟩
          exact fun m hm hk => List.mem_cons_of_mem n (hout' m hm hk)
      | false =>
          rw [List.filter_cons_of_neg (by simp [hn])]
          refine ih (fun m hm => ?_) hout' h.2
          rcases List.mem_cons.mp hm with rfl | hm
          · exact hout m List.mem_cons_self hn
          · exact hsub hm

lemma keepFirst [DecidableEq α] (h : ParentsFirst r done ns) :
    ParentsFirst r done (keepFirst ns) := by
  induction ns generalizing done with
  | nil => trivial
  | cons n ns ih =>
      refine ⟨h.1, (ih h.2).filter (List.Subset.refl _) ?_⟩
      intro m _ hm
      simp at hm
      simp [hm]

lemma of_lineage (hr : Relator.RightUnique r) {a : α} (h : Lineage r a ns) :
    ParentsFirst r done ns := by
  induction h generalizing done with
  | root hroot => exact ⟨fun p hp => absurd hp (hroot p), trivial⟩
  | step hab hb ih =>
      refine ih.append ⟨fun p hp => ?_, trivial⟩
      cases hr hab hp
      simp [hb.mem_self]

/-- The lineage of a node stands in an order with parents first, in the same order. -/
lemma sublist_of_lineage {a : α} {chain : List α} (hchain : Lineage r a chain)
    (h : ParentsFirst r [] ns) (ha : a ∈ ns) : chain.Sublist ns := by
  induction hchain generalizing ns with
  | root => exact List.singleton_sublist.mpr ha
  | step hab _ ih =>
      obtain ⟨front, back, rfl⟩ := List.append_of_mem ha
      obtain ⟨hfront, hback⟩ := h.of_append
      have hb := hback.1 _ hab
      refine (ih hfront (by simpa using hb)).append ?_
      exact List.singleton_sublist.mpr List.mem_cons_self

lemma flatMap {f : β → List α} {xs : List β} (h : ∀ x ∈ xs, ∀ done, ParentsFirst r done (f x)) :
    ParentsFirst r done (xs.flatMap f) := by
  induction xs generalizing done with
  | nil => trivial
  | cons x xs ih =>
      rw [List.flatMap_cons]
      exact (h x List.mem_cons_self done).append (ih fun y hy => h y (List.mem_cons_of_mem x hy))

/-- An order of images is an order of the nodes themselves, if `f` tells the nodes apart. -/
lemma of_map {q : β → β → Prop} {f : α → β} {nodes : List α} (hr : ∀ a b, r a b → b ∈ nodes)
    (hq : ∀ a b, r a b → q (f a) (f b)) (hinj : ∀ a ∈ nodes, ∀ b ∈ nodes, f a = f b → a = b)
    (hdone : done ⊆ nodes) (hns : ns ⊆ nodes) (h : ParentsFirst q (done.map f) (ns.map f)) :
    ParentsFirst r done ns := by
  induction ns generalizing done with
  | nil => trivial
  | cons n ns ih =>
      obtain ⟨hn, hns⟩ := List.cons_subset.mp hns
      refine ⟨fun p hp => ?_, ih (List.cons_subset.mpr ⟨hn, hdone⟩) hns h.2⟩
      obtain ⟨d, hd, heq⟩ := List.mem_map.mp (h.1 (f p) (hq n p hp))
      exact hinj d (hdone hd) p (hr n p hp) heq ▸ hd

end ParentsFirst

/-! ## Passes and their tables

A pass goes over nodes in an order with parents first.  It keeps a table of what it has worked out
for each node, and works out the next entry from that of the parent. -/

section Passes

variable {κ : Type} {r : α → α → Prop} {key : α → κ} {val : List α → β} {done ns : List α}
  {n : α} {chain : List α}

/-- What is left of a pass: `ns` after `done`, with parents first and no key twice. -/
structure Pass (r : α → α → Prop) (key : α → κ) (done ns : List α) : Prop where
  parentsFirst : ParentsFirst r done ns
  exists_lineage : ∀ n ∈ ns, ∃ chain, Lineage r n chain
  nodup : (ns.map key).Nodup
  fresh : ∀ n ∈ ns, ∀ m ∈ done, key m ≠ key n

lemma Pass.tail (h : Pass r key done (n :: ns)) : Pass r key (n :: done) ns := by
  obtain ⟨hn, hns⟩ := List.nodup_cons.mp h.nodup
  refine ⟨h.parentsFirst.2, fun m hm => h.exists_lineage m (List.mem_cons_of_mem n hm), hns, ?_⟩
  intro m hm d hd
  rcases List.mem_cons.mp hd with rfl | hd
  · exact fun heq => hn (List.mem_map.mpr ⟨m, hm, heq.symm⟩)
  · exact h.fresh m (List.mem_cons_of_mem n hm) d hd

/-- The table holds `val chain` for every node of `done` with lineage `chain`. -/
def Tabulates [BEq κ] (r : α → α → Prop) (key : α → κ) (val : List α → β) (done : List α)
    (table : List (κ × β)) : Prop :=
  ∀ n ∈ done, ∀ chain, Lineage r n chain → table.lookup (key n) = some (val chain)

lemma tabulates_nil [BEq κ] {table : List (κ × β)} : Tabulates r key val [] table :=
  fun _ hn => absurd hn List.not_mem_nil

/-- One step of a pass enters the value of its node. -/
lemma Tabulates.cons [BEq κ] [LawfulBEq κ] {table : List (κ × β)} (hr : Relator.RightUnique r)
    (hpass : Pass r key done (n :: ns)) (h : Tabulates r key val done table)
    (hn : Lineage r n chain) :
    Tabulates r key val (n :: done) ((key n, val chain) :: table) := by
  intro m hm chain' hchain'
  rw [List.lookup_cons]
  rcases List.mem_cons.mp hm with rfl | hm
  · rw [hchain'.eq hr hn, beq_self_eq_true]
  · rw [beq_eq_false_iff_ne.mpr (hpass.fresh n List.mem_cons_self m hm)]
    exact h m hm chain' hchain'

end Passes

end LevelSchema
