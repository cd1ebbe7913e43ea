import LevelSchema.Proofs.Lineage

/-!
# Every cycle is found once

`ListsCycles r here cycles` says what a complete list of cycles is: each entry goes round a cycle
along `r`, no two have a node in common, and the nodes that are listed are those of `here` that are
their own ancestors.  It does not say how the list is found.

**Runs without a bound.**  `Walks` and `Searches` are the search for cycles as a loop that may go on
forever: a walk ends only where the links end, at a node that was visited by an earlier walk, or at
a node of its own path.  A derivation is a finite run, so `Forest.searches_cycles` says that the
search comes to an end, and that the bound in its definition makes no difference.

**One walk.**  What was visited before is closed under links (`Closed`).  A walk then visits exactly
what can be reached from its start and was not visited before (`Walks.mem_path_iff`), and among
these nodes it finds the cycle if there is one (`Walks.listsCycles`): two nodes on a cycle reach
each other, so a cycle through the path of a walk lies in it as a whole, and the walk runs into it.
-/

namespace LevelSchema

variable {α β : Type}

/-! ## Lists of cycles -/

/-- The node can be reached from one of the given nodes. -/
def Reachable (r : α → α → Prop) (nodes : List α) (n : α) : Prop :=
  ∃ a ∈ nodes, Relation.ReflTransGen r a n

/-- The cycles of `r` among the nodes with `here`, each listed once, from any of its nodes on and
along `r`. -/
structure ListsCycles (r : α → α → Prop) (here : α → Prop) (cycles : List (List α)) : Prop where
  closes : ∀ c ∈ cycles, ∃ n between, c = n :: between ∧ (n :: between ++ [n]).IsChain r
  nodup : ∀ c ∈ cycles, c.Nodup
  disjoint : cycles.Pairwise List.Disjoint
  mem_iff : ∀ n, (∃ c ∈ cycles, n ∈ c) ↔ here n ∧ Relation.TransGen r n n

namespace ListsCycles

variable {r : α → α → Prop} {here there : α → Prop} {cycles others : List (List α)}

lemma congr (h : ListsCycles r here cycles) (hiff : ∀ n, here n ↔ there n) :
    ListsCycles r there cycles := by
  refine ⟨h.closes, h.nodup, h.disjoint, fun n => ?_⟩
  rw [h.mem_iff, hiff]

/-- Cycles in two places that have no node in common. -/
lemma append (h : ListsCycles r here cycles) (h' : ListsCycles r there others)
    (hapart : ∀ n, here n → ¬ there n) :
    ListsCycles r (fun n => here n ∨ there n) (cycles ++ others) := by
  refine ⟨List.forall_mem_append.mpr ⟨h.closes, h'.closes⟩,
    List.forall_mem_append.mpr ⟨h.nodup, h'.nodup⟩, ?_, fun n => ?_⟩
  · refine List.pairwise_append.mpr ⟨h.disjoint, h'.disjoint, fun c hc d hd n hnc hnd => ?_⟩
    exact hapart n ((h.mem_iff n).mp ⟨c, hc, hnc⟩).1 ((h'.mem_iff n).mp ⟨d, hd, hnd⟩).1
  · simp only [List.mem_append, or_and_right, exists_or, h.mem_iff, h'.mem_iff]

lemma eq_nil_iff (h : ListsCycles r here cycles) :
    cycles = [] ↔ ∀ n, here n → ¬ Relation.TransGen r n n := by
  constructor
  · rintro rfl n hn hround
    obtain ⟨c, hc, -⟩ := (h.mem_iff n).mpr ⟨hn, hround⟩
    exact List.not_mem_nil hc
  · intro hnone
    refine List.eq_nil_iff_forall_not_mem.mpr fun c hc => ?_
    obtain ⟨n, between, rfl, -⟩ := h.closes c hc
    obtain ⟨hn, hround⟩ := (h.mem_iff n).mp ⟨_, hc, List.mem_cons_self⟩
    exact hnone n hn hround

end ListsCycles

/-! ## Round a cycle -/

section Round

variable {r : α → α → Prop} {n m : α}

/-- From whatever a node on a cycle reaches, the node can be reached again. -/
lemma reflTransGen_of_transGen_self (hr : Relator.RightUnique r) (hn : Relation.TransGen r n n)
    (hm : Relation.ReflTransGen r n m) : Relation.ReflTransGen r m n := by
  induction hm with
  | refl => exact .refl
  | tail _ hstep ih =>
      obtain ⟨p, hp, hback⟩ := Relation.TransGen.head'_iff.mp (Relation.TransGen.trans_right ih hn)
      cases hr hstep hp
      exact hback

/-- Links that start on a cycle stay on it. -/
lemma mem_of_isChain_round (hr : Relator.RightUnique r) {first : α} {between : List α}
    (hchain : (first :: between ++ [first]).IsChain r) (hn : n ∈ first :: between) (h : r n m) :
    m ∈ first :: between := by
  obtain ⟨front, back, hsplit⟩ := List.append_of_mem hn
  rw [hsplit, List.append_assoc, List.cons_append] at hchain
  -- the node behind `n` is the next one of the cycle, or the first one again
  cases back with
  | nil =>
      have hnext := (List.isChain_cons_cons.mp hchain.right_of_append).1
      cases hr h hnext
      exact List.mem_cons_self
  | cons next back =>
      have hnext := (List.isChain_cons_cons.mp hchain.right_of_append).1
      cases hr h hnext
      rw [hsplit]
      simp

/-- The nodes of a cycle are their own ancestors. -/
lemma transGen_of_isChain_round {first : α} {between : List α}
    (hchain : (first :: between ++ [first]).IsChain r) (hn : n ∈ first :: between) :
    Relation.TransGen r n n := by
  obtain ⟨front, back, hsplit⟩ := List.append_of_mem hn
  rw [hsplit, List.append_assoc] at hchain
  have hup : Relation.TransGen r n first := transGen_of_isChain back n hchain.right_of_append
  cases front with
  | nil =>
      obtain ⟨rfl, -⟩ := List.cons.inj hsplit
      exact hup
  | cons _ front =>
      obtain ⟨rfl, rfl⟩ := List.cons.inj hsplit
      have hfront : (first :: front ++ [n] ++ (back ++ [first])).IsChain r := by simpa using hchain
      exact hup.trans (transGen_of_isChain front first hfront.left_of_append)

end Round

/-! ## Cycles of images -/

section Images

/-- A list of images comes from a list. -/
lemma exists_map_eq {f : α → β} {p : α → Prop} {ys : List β} (h : ∀ y ∈ ys, ∃ x, p x ∧ f x = y) :
    ∃ xs : List α, (∀ x ∈ xs, p x) ∧ xs.map f = ys := by
  induction ys with
  | nil => exact ⟨[], nofun, rfl⟩
  | cons y ys ih =>
      obtain ⟨⟨x, hx, rfl⟩, hys⟩ := List.forall_mem_cons.mp h
      obtain ⟨xs, hxs, rfl⟩ := ih hys
      exact ⟨x :: xs, List.forall_mem_cons.mpr ⟨hx, hxs⟩, rfl⟩

/-! In what follows `f` carries the links of one graph to those of the other and tells the nodes
apart. -/

variable {r : α → α → Prop} {q : β → β → Prop} {f : α → β} {nodes : List α}
  (hr : ∀ a b, r a b → a ∈ nodes ∧ b ∈ nodes)
  (hf : ∀ a ∈ nodes, ∀ y, q (f a) y ↔ ∃ b, r a b ∧ f b = y)
  (hinj : ∀ a ∈ nodes, ∀ b ∈ nodes, f a = f b → a = b)

include hr hf

lemma bisimulates_image : Bisimulates r q fun a y => a ∈ nodes ∧ f a = y where
  forth := by
    rintro a _ b ⟨ha, rfl⟩ hab
    exact ⟨f b, (hf a ha _).mpr ⟨b, hab, rfl⟩, (hr a b hab).2, rfl⟩
  back := by
    rintro a _ y ⟨ha, rfl⟩ hay
    obtain ⟨b, hab, hby⟩ := (hf a ha y).mp hay
    exact ⟨b, hab, (hr a b hab).2, hby⟩

include hinj

lemma transGen_image_iff {n : α} (hn : n ∈ nodes) :
    Relation.TransGen q (f n) (f n) ↔ Relation.TransGen r n n := by
  have himage := bisimulates_image hr hf
  constructor
  · intro hround
    obtain ⟨y, hny, hyn⟩ := Relation.TransGen.head'_iff.mp hround
    obtain ⟨b, hnb, hb⟩ := himage.back ⟨hn, rfl⟩ hny
    obtain ⟨m, hbm, hm, heq⟩ := himage.exists_reflTransGen_back hb hyn
    cases hinj m hm n hn heq
    exact Relation.TransGen.head' hnb hbm
  · intro hround
    refine hround.lift f fun a b hab => ?_
    exact (hf a (hr a b hab).1 _).mpr ⟨b, hab, rfl⟩

/-- The cycles among images are the images of the cycles. -/
lemma ListsCycles.exists_of_map {images : List (List β)}
    (h : ListsCycles q (· ∈ nodes.map f) images) :
    ∃ cycles, ListsCycles r (· ∈ nodes) cycles ∧ cycles.map (List.map f) = images := by
  obtain ⟨cycles, hmem, rfl⟩ : ∃ cycles : List (List α),
      (∀ c ∈ cycles, ∀ n ∈ c, n ∈ nodes) ∧ cycles.map (List.map f) = images :=
    exists_map_eq fun c hc => exists_map_eq fun y hy =>
      List.mem_map.mp ((h.mem_iff y).mp ⟨c, hc, hy⟩).1
  refine ⟨cycles, ⟨fun c hc => ?_, fun c hc => ?_, ?_, fun n => ?_⟩, rfl⟩
  · obtain ⟨_, _, heq, hchain⟩ := h.closes _ (List.mem_map_of_mem hc)
    obtain ⟨n, between, rfl, rfl, rfl⟩ := List.map_eq_cons_iff.mp heq
    have hnodes : ∀ m ∈ n :: between ++ [n], m ∈ nodes := by
      refine List.forall_mem_append.mpr ⟨hmem _ hc, ?_⟩
      simpa using hmem _ hc n List.mem_cons_self
    have hmapped : ((n :: between ++ [n]).map f).IsChain q := by simpa using hchain
    refine ⟨n, between, rfl, ((List.isChain_map f).mp hmapped).imp_of_mem_imp ?_⟩
    intro a b ha hb hab
    obtain ⟨b', hab', heq⟩ := (hf a (hnodes a ha) _).mp hab
    exact hinj b' (hr a b' hab').2 b (hnodes b hb) heq ▸ hab'
  · exact List.Nodup.of_map f (h.nodup _ (List.mem_map_of_mem hc))
  · refine (List.pairwise_map.mp h.disjoint).imp fun hcd n hc hd => ?_
    exact hcd (List.mem_map_of_mem hc) (List.mem_map_of_mem hd)
  · constructor
    · rintro ⟨c, hc, hn⟩
      have hnode := hmem c hc n hn
      have hlisted := (h.mem_iff (f n)).mp ⟨_, List.mem_map_of_mem hc, List.mem_map_of_mem hn⟩
      exact ⟨hnode, (transGen_image_iff hr hf hinj hnode).mp hlisted.2⟩
    · rintro ⟨hnode, hround⟩
      obtain ⟨_, himage, hn⟩ := (h.mem_iff (f n)).mpr
        ⟨List.mem_map_of_mem hnode, (transGen_image_iff hr hf hinj hnode).mpr hround⟩
      obtain ⟨c, hc, rfl⟩ := List.mem_map.mp himage
      obtain ⟨m, hm, heq⟩ := List.mem_map.mp hn
      exact ⟨c, hc, hinj m (hmem c hc m hm) n hnode heq ▸ hm⟩

end Images

/-! ## What a walk has behind it -/

/-- The links that a parent function gives. -/
def ParentOf (parent : α → Option α) (n p : α) : Prop :=
  parent n = some p

/-- Whatever is linked from a node of the list stands in the list. -/
def Closed (r : α → α → Prop) (nodes : List α) : Prop :=
  ∀ n ∈ nodes, ∀ p, r n p → p ∈ nodes

/-- Every node of a path leads on to where a walk stands, or to a root if the links have ended. -/
def LeadsTo (parent : α → Option α) (path : List α) : Option α → Prop
  | none => ∀ m ∈ path, ∃ chain, Lineage (ParentOf parent) m chain
  | some n => ∀ m ∈ path, Relation.TransGen (ParentOf parent) m n

section Behind

variable {parent : α → Option α} {done path : List α} {start : Option α} {n m : α}

lemma parentOf_rightUnique (parent : α → Option α) : Relator.RightUnique (ParentOf parent) := by
  intro a b c hab hac
  exact Option.some.inj (hab.symm.trans hac)

lemma Closed.mem_of_reflTransGen {r : α → α → Prop} {nodes : List α} (h : Closed r nodes)
    (hn : n ∈ nodes) (hm : Relation.ReflTransGen r n m) : m ∈ nodes := by
  induction hm with
  | refl => exact hn
  | tail _ hstep ih => exact h _ ih _ hstep

lemma Closed.append {r : α → α → Prop} (hdone : Closed r done)
    (hpath : ∀ m ∈ path, ∀ p, r m p → p ∈ done ∨ p ∈ path) : Closed r (done ++ path) := by
  intro m hm p hp
  rw [List.mem_append]
  rcases List.mem_append.mp hm with hm | hm
  · exact .inl (hdone m hm p hp)
  · exact hpath m hm p hp

/-- A walk can be continued as far as there are links. -/
lemma isChain_climb (hpath : (path ++ [n]).IsChain (ParentOf parent)) :
    (path ++ [n] ++ (parent n).toList).IsChain (ParentOf parent) := by
  cases hp : parent n with
  | none => simpa using hpath
  | some p => exact isChain_extend hpath hp

lemma leadsTo_nil : LeadsTo parent [] start := by
  cases start <;> simp [LeadsTo]

lemma LeadsTo.step (h : LeadsTo parent path (some n)) :
    LeadsTo parent (path ++ [n]) (parent n) := by
  have hreach : ∀ m ∈ path ++ [n], Relation.ReflTransGen (ParentOf parent) m n := by
    refine List.forall_mem_append.mpr ⟨fun m hm => (h m hm).to_reflTransGen, ?_⟩
    simpa using Relation.ReflTransGen.refl
  cases hp : parent n with
  | some p => exact fun m hm => Relation.TransGen.tail' (hreach m hm) hp
  | none =>
      intro m hm
      have hroot : Lineage (ParentOf parent) n [n] :=
        .root fun p hnp => by simp [ParentOf, hp] at hnp
      refine (hreach m hm).head_induction_on ⟨_, hroot⟩ ?_
      rintro a b hab - ⟨chain, hchain⟩
      exact ⟨_, .step hab hchain⟩

lemma reachable_iff_mem {r : α → α → Prop} {nodes : List α} (h : Closed r nodes) :
    Reachable r nodes n ↔ n ∈ nodes := by
  constructor
  · rintro ⟨a, ha, hn⟩
    exact h.mem_of_reflTransGen ha hn
  · exact fun hn => ⟨n, hn, .refl⟩

end Behind

/-! ## Walks without a bound -/

section Runs

variable [DecidableEq α] {parent : α → Option α} {done path nodes cycle : List α}
  {start : Option α} {w : Forest.Walk α} {n m a : α} {cycles : List (List α)}

lemma exists_dropWhile_ne (h : n ∈ path) : ∃ after, path.dropWhile (· ≠ n) = n :: after := by
  induction path with
  | nil => simp at h
  | cons m path ih =>
      by_cases hm : m = n
      · subst hm
        exact ⟨path, by simp⟩
      · rw [List.dropWhile_cons_of_pos (by simpa using hm)]
        exact ih ((List.mem_cons.mp h).resolve_left (Ne.symm hm))

/-- A walk up from `start`, having come along `path`, until the links end, a node of `done` is met,
or the walk comes back to its own path. -/
inductive Walks (parent : α → Option α) (done : List α) :
    List α → Option α → Forest.Walk α → Prop
  | ended {path : List α} : Walks parent done path none ⟨path, none⟩
  | known {path : List α} {n : α} (hdone : n ∈ done) : Walks parent done path (some n) ⟨path, none⟩
  | round {path : List α} {n : α} (hdone : n ∉ done) (hpath : n ∈ path) :
      Walks parent done path (some n) ⟨path, some (path.dropWhile (· ≠ n))⟩
  | step {path : List α} {n : α} {w : Forest.Walk α} (hdone : n ∉ done) (hpath : n ∉ path)
      (hw : Walks parent done (path ++ [n]) (parent n) w) : Walks parent done path (some n) w

namespace Walks

lemma nodup_path (h : Walks parent done path start w) (hpath : path.Nodup) : w.path.Nodup := by
  induction h with
  | ended | known | round => exact hpath
  | step _ hn _ ih => exact ih (by simpa using hpath.concat hn)

/-- What is visited is the path so far, and then nodes above the start that were not visited
before. -/
lemma mem_path (h : Walks parent done path start w) (hm : m ∈ w.path) :
    m ∈ path ∨ m ∉ done ∧ ∃ n, start = some n ∧ Relation.ReflTransGen (ParentOf parent) n m := by
  induction h with
  | ended | known | round => exact .inl hm
  | @step path n w hdone _ _ ih =>
      rcases ih hm with hm | ⟨hnew, p, hp, hup⟩
      · rcases List.mem_append.mp hm with hm | hm
        · exact .inl hm
        · cases List.mem_singleton.mp hm
          exact .inr ⟨hdone, _, rfl, .refl⟩
      · exact .inr ⟨hnew, n, rfl, .head hp hup⟩

lemma path_subset (h : Walks parent done path start w) : path ⊆ w.path := by
  induction h with
  | ended | known | round => exact List.Subset.refl _
  | step _ _ _ ih => exact List.Subset.trans (List.subset_append_left _ _) ih

/-- The start is visited, unless it was visited before. -/
lemma start_mem (h : Walks parent done path (some n) w) : n ∈ done ∨ n ∈ w.path := by
  cases h with
  | known hdone => exact .inl hdone
  | round _ hpath => exact .inr hpath
  | step _ _ hw => exact .inr (hw.path_subset (by simp))

/-- After a walk, what was visited is closed again. -/
lemma closed_path (h : Walks parent done path start w) (hdone : Closed (ParentOf parent) done)
    (hpath : ∀ m ∈ path, ∀ p, ParentOf parent m p → start = some p ∨ p ∈ path) :
    Closed (ParentOf parent) (done ++ w.path) := by
  induction h with
  | ended => exact hdone.append fun m hm p hp => .inr ((hpath m hm p hp).resolve_left nofun)
  | known hn =>
      refine hdone.append fun m hm p hp => (hpath m hm p hp).imp_left fun heq => ?_
      exact Option.some.inj heq ▸ hn
  | round _ hn =>
      refine hdone.append fun m hm p hp => .inr ((hpath m hm p hp).elim (fun heq => ?_) id)
      exact Option.some.inj heq ▸ hn
  | @step path n w _ _ _ ih =>
      refine ih fun m hm p hp => ?_
      rcases List.mem_append.mp hm with hm | hm
      · refine .inr (List.mem_append.mpr ((hpath m hm p hp).symm.imp_right fun heq => ?_))
        exact List.mem_singleton.mpr (Option.some.inj heq).symm
      · cases List.mem_singleton.mp hm
        exact .inl hp

/-- **A walk visits what can be reached from its start and was not visited before.** -/
lemma mem_path_iff (h : Walks parent done [] (some a) w) (hdone : Closed (ParentOf parent) done) :
    n ∈ w.path ↔ n ∉ done ∧ Relation.ReflTransGen (ParentOf parent) a n := by
  constructor
  · intro hn
    obtain ⟨hnew, b, hb, hup⟩ := (h.mem_path hn).resolve_left List.not_mem_nil
    cases hb
    exact ⟨hnew, hup⟩
  · rintro ⟨hnew, hup⟩
    have hclosed := h.closed_path hdone nofun
    have hn := hclosed.mem_of_reflTransGen (List.mem_append.mpr h.start_mem) hup
    exact (List.mem_append.mp hn).resolve_left hnew

/-! ### The cycle of a walk -/

/-- A walk that runs into no cycle leads to roots, or to nodes visited before. -/
lemma leads_out (h : Walks parent done path start w) (hpath : LeadsTo parent path start)
    (hcycle : w.cycle = none) : ∀ m ∈ w.path, (∃ chain, Lineage (ParentOf parent) m chain) ∨
      ∃ d ∈ done, Relation.ReflTransGen (ParentOf parent) m d := by
  induction h with
  | ended => exact fun m hm => .inl (hpath m hm)
  | known hn => exact fun m hm => .inr ⟨_, hn, (hpath m hm).to_reflTransGen⟩
  | round => exact nomatch hcycle
  | step _ _ _ ih => exact ih hpath.step hcycle

/-- The cycle that a walk runs into is the end of its path, and all the path leads there. -/
lemma leads_round (h : Walks parent done path start w) (hpath : LeadsTo parent path start)
    (hcycle : w.cycle = some cycle) : cycle <:+ w.path ∧
      ∃ k ∈ cycle, ∀ m ∈ w.path, Relation.ReflTransGen (ParentOf parent) m k := by
  induction h with
  | ended | known => exact nomatch hcycle
  | @round path n _ hn =>
      cases hcycle
      obtain ⟨after, hafter⟩ := exists_dropWhile_ne hn
      exact ⟨List.dropWhile_suffix _, n, hafter ▸ List.mem_cons_self,
        fun m hm => (hpath m hm).to_reflTransGen⟩
  | step _ _ _ ih => exact ih hpath.step hcycle

/-- Each node of the cycle is followed by its parent, and the last one by the first. -/
lemma isChain_round (h : Walks parent done path start w)
    (hpath : (path ++ start.toList).IsChain (ParentOf parent)) (hcycle : w.cycle = some cycle) :
    ∃ n between, cycle = n :: between ∧ (n :: between ++ [n]).IsChain (ParentOf parent) := by
  induction h with
  | ended | known => exact nomatch hcycle
  | @round path n _ hn =>
      obtain ⟨after, hafter⟩ := exists_dropWhile_ne hn
      refine ⟨n, after, (Option.some.inj hcycle).symm.trans hafter, ?_⟩
      rw [← List.takeWhile_append_dropWhile (p := (· ≠ n)) (l := path), List.append_assoc,
        hafter] at hpath
      exact hpath.right_of_append
  | @step path n w _ _ _ ih => exact ih (isChain_climb hpath) hcycle

/-- **A walk runs into the cycle among the nodes that it visits.** -/
lemma listsCycles (h : Walks parent done [] (some a) w) (hdone : Closed (ParentOf parent) done) :
    ListsCycles (ParentOf parent) (· ∈ w.path) w.cycle.toList := by
  have hunique := parentOf_rightUnique parent
  have hstart : ([] ++ (some a).toList).IsChain (ParentOf parent) := List.isChain_singleton a
  cases hcycle : w.cycle with
  | none =>
      refine ⟨by simp, by simp, by simp, fun n => iff_of_false (by simp) ?_⟩
      rintro ⟨hn, hround⟩
      rcases h.leads_out leadsTo_nil hcycle n hn with ⟨chain, hchain⟩ | ⟨d, hd, hnd⟩
      · exact hchain.not_transGen_self hunique hround
      · -- the node can be reached from `d`, so it was visited before as well
        have hback := reflTransGen_of_transGen_self hunique hround hnd
        exact ((h.mem_path_iff hdone).mp hn).1 (hdone.mem_of_reflTransGen hd hback)
  | some cycle =>
      obtain ⟨hsuffix, k, hk, hall⟩ := h.leads_round leadsTo_nil hcycle
      obtain ⟨first, between, rfl, hchain⟩ := h.isChain_round hstart hcycle
      have hclosed : Closed (ParentOf parent) (first :: between) :=
        fun n hn p hp => mem_of_isChain_round hunique hchain hn hp
      refine ⟨?_, ?_, by simp, fun n => ?_⟩
      · simpa using hchain
      · simpa using (h.nodup_path List.nodup_nil).sublist hsuffix.sublist
      · simp only [Option.toList_some, List.mem_singleton, exists_eq_left]
        constructor
        · intro hn
          exact ⟨hsuffix.subset hn, transGen_of_isChain_round hchain hn⟩
        · rintro ⟨hn, hround⟩
          have hback := reflTransGen_of_transGen_self hunique hround (hall n hn)
          exact hclosed.mem_of_reflTransGen hk hback

end Walks

/-! ## Searches without a bound -/

/-- Walks up from one node after another, each leaving out what was visited before. -/
inductive Searches (parent : α → Option α) : List α → List α → List (List α) → Prop
  | nil {done : List α} : Searches parent done [] []
  | cons {done : List α} {n : α} {nodes : List α} {w : Forest.Walk α} {cycles : List (List α)}
      (hw : Walks parent done [] (some n) w)
      (hrest : Searches parent (done ++ w.path) nodes cycles) :
      Searches parent done (n :: nodes) (w.cycle.toList ++ cycles)

/-- A search finds every cycle that it can reach and that was not visited before. -/
lemma Searches.listsCycles (h : Searches parent done nodes cycles)
    (hdone : Closed (ParentOf parent) done) :
    ListsCycles (ParentOf parent) (fun n => n ∉ done ∧ Reachable (ParentOf parent) nodes n)
      cycles := by
  induction h with
  | nil => exact ⟨by simp, by simp, by simp, by simp [Reachable]⟩
  | @cons done a nodes w cycles hw _ ih =>
      have hrest := ih (hw.closed_path hdone nofun)
      refine ((hw.listsCycles hdone).append hrest fun n hn hnew => ?_).congr fun n => ?_
      · exact hnew.1 (List.mem_append_right done hn)
      · simp only [Reachable, List.exists_mem_cons_iff, List.mem_append, not_or,
          hw.mem_path_iff hdone]
        tauto

end Runs

/-! ## The search in a forest -/

namespace Forest

variable [DecidableEq α] {g : Forest α} {done path : List α} {n p : α}

lemma mem_values_of_links (h : g.Links n p) : p ∈ g.links.map (·.2) :=
  List.mem_map.mpr ⟨_, mem_of_lookup_eq_some h, rfl⟩

/-- Every node of a path that goes on to a further node starts a link. -/
lemma subset_keys_of_isChain (hpath : (path ++ [n]).IsChain g.Links) :
    path ⊆ g.links.map (·.1) := by
  intro m hm
  obtain ⟨before, after, rfl⟩ := List.append_of_mem hm
  rw [List.append_assoc] at hpath
  have hm := Relation.TransGen.head'_iff.mp (transGen_of_isChain after m hpath.right_of_append)
  obtain ⟨p, hp, -⟩ := hm
  exact mem_keys_of_links hp

lemma walk_none (done path : List α) (fuel : Nat) :
    g.walk done fuel path none = ⟨path, none⟩ := by
  cases fuel <;> rfl

/-- A walk does not reach its bound: the path would then have more nodes with a link than there are
links. -/
lemma walks_walk {fuel : Nat} (hpath : (path ++ [n]).IsChain g.Links) (hnodup : path.Nodup)
    (hfuel : g.bound + 1 ≤ path.length + fuel) :
    Walks g.parent? done path (some n) (g.walk done fuel path (some n)) := by
  induction fuel generalizing path n with
  | zero =>
      have hlen := hnodup.length_le_of_subset (subset_keys_of_isChain hpath)
      rw [List.length_map] at hlen
      rw [bound] at hfuel
      omega
  | succ fuel ih =>
      rw [walk]
      split_ifs with hdone hmem
      · exact .known hdone
      · exact .round hdone hmem
      · refine .step hdone hmem ?_
        cases hp : g.parent? n with
        | none =>
            rw [walk_none]
            exact .ended
        | some p =>
            refine ih (isChain_extend hpath hp) (by simpa using hnodup.concat hmem) ?_
            rw [List.length_append, List.length_singleton]
            omega

lemma searches_cyclesFrom (done nodes : List α) :
    Searches g.parent? done nodes (g.cyclesFrom done nodes) := by
  induction nodes generalizing done with
  | nil => exact .nil
  | cons n nodes ih =>
      exact .cons (walks_walk (List.isChain_singleton n) List.nodup_nil (by simp)) (ih _)

/-- **The search for cycles ends by itself.** -/
theorem searches_cycles (g : Forest α) (nodes : List α) :
    Searches g.parent? [] nodes (g.cycles nodes) :=
  searches_cyclesFrom [] nodes

/-- **The search finds every cycle that can be reached from the given nodes, once.** -/
theorem listsCycles_cycles (g : Forest α) (nodes : List α) :
    ListsCycles g.Links (Reachable g.Links nodes) (g.cycles nodes) := by
  refine ((searches_cycles g nodes).listsCycles nofun).congr fun n => ?_
  exact and_iff_right List.not_mem_nil

/-- The forest of a parent function has its links, if all of them start at the given nodes. -/
lemma parent?_ofParent_eq {sources : List α} {parent : α → Option α}
    (h : ∀ n p, parent n = some p → n ∈ sources) : (ofParent sources parent).parent? = parent := by
  funext n
  rw [parent?_ofParent]
  split_ifs with hn
  · rfl
  · exact (Option.eq_none_iff_forall_ne_some.mpr fun p hp => hn (h n p hp)).symm

/-- **Nothing is found exactly when every node has a lineage.** -/
theorem cycles_eq_nil_iff {nodes : List α} :
    g.cycles nodes = [] ↔ ∀ n ∈ nodes, ∃ chain, Lineage g.Links n chain := by
  rw [(g.listsCycles_cycles nodes).eq_nil_iff]
  simp only [Lineage.exists_iff_acyclic g.links_rightUnique fun _ _ => mem_values_of_links]
  constructor
  · exact fun h n hn m hm => h m ⟨n, hn, hm⟩
  · rintro h m ⟨n, hn, hm⟩
    exact h n hn m hm

end Forest

end LevelSchema
