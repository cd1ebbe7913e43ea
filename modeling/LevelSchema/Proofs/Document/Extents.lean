import LevelSchema.Proofs.Document.Spans
import LevelSchema.Proofs.Document.Words

/-!
# How far declarations extend

The place of a declaration runs from its keyword over its name to the end of the last thing that is
declared in it.  So it covers whatever is declared in it, and declarations that follow each other
do not overlap.

**What is extended.**  The clause that names what a type extends is no part of this.  It is covered
if something stands behind it that is: an object type covers its clause exactly if it has
properties, and a level covers the clauses in it except one that nothing is declared behind
(`LevelDecl.Enclosed.extended`).  A level itself always has declarations behind its own clause.
-/

namespace LevelSchema

/-! ## Covering -/

namespace Span

variable {r s t : Span}

lemma Covers.refl (s : Span) : s.Covers s :=
  ⟨Nat.le_refl _, Nat.le_refl _⟩

lemma Covers.trans (h : r.Covers s) (h' : s.Covers t) : r.Covers t :=
  ⟨Nat.le_trans h.1 h'.1, Nat.le_trans h'.2 h.2⟩

lemma union_covers_left (s t : Span) : (s.union t).Covers s :=
  ⟨Nat.min_le_left _ _, Nat.le_max_left _ _⟩

lemma union_covers_right (s t : Span) : (s.union t).Covers t :=
  ⟨Nat.min_le_right _ _, Nat.le_max_right _ _⟩

/-- The place begins with a word. -/
def OpensWith (source : String) (s : Span) (word : String) : Prop :=
  ∃ k : Span, k.Shows source word ∧ k.start = s.start ∧ s.Covers k

end Span

/-- The place made from several covers each of them. -/
lemma coverAll_covers (s : Span) (others : List Span) :
    (coverAll s others).Covers s ∧ ∀ t ∈ others, (coverAll s others).Covers t := by
  induction others generalizing s with
  | nil => exact ⟨.refl s, nofun⟩
  | cons t others ih =>
      obtain ⟨hunion, hothers⟩ := ih (s.union t)
      exact ⟨hunion.trans (s.union_covers_left t),
        List.forall_mem_cons.mpr ⟨hunion.trans (s.union_covers_right t), hothers⟩⟩

/-! ## Places that begin and end with words -/

/-- The place begins where one of the words begins, and ends where one of them ends. -/
structure Delimited (s : Span) (words : List (Located String)) : Prop where
  start : ∃ w ∈ words, w.span.start = s.start
  stop : ∃ w ∈ words, w.span.stop = s.stop

/-- Places delimited by words lie apart if the words do. -/
lemma Precede.stop_le_start {s t : Span} {words words' : List (Located String)}
    (h : Precede words words') (hs : Delimited s words) (ht : Delimited t words') :
    s.stop ≤ t.start := by
  obtain ⟨w, hw, hstop⟩ := hs.stop
  obtain ⟨w', hw', hstart⟩ := ht.start
  rw [← hstop, ← hstart]
  exact h w hw w' hw'

/-- The words of the body are among those of the declaration. -/
lemma sublist_body (k name : Located String) (clause inner : List (Located String)) :
    inner.Sublist (k :: name :: (clause ++ inner)) :=
  ((List.sublist_append_right clause inner).cons name).cons k

/-- The words of a declaration, from its keyword on, and the places of what is declared in it, which
lie behind the keyword and end with words of the body. -/
structure Headed (k name : Located String) (parent : Option (Located String))
    (inner : List (Located String)) (parts : List Span) : Prop where
  inOrder : InOrder (k :: name :: (parent.toList ++ inner))
  start_le : ∀ s ∈ parts, k.span.start ≤ s.start
  stop_eq : ∀ s ∈ parts, ∃ w ∈ inner, w.span.stop = s.stop

namespace Headed

variable {k name : Located String} {parent : Option (Located String)}
  {inner : List (Located String)} {parts : List Span} (h : Headed k name parent inner parts)

include h

lemma stop_le {w : Located String} (hw : w ∈ name :: (parent.toList ++ inner)) :
    k.span.stop ≤ w.span.start :=
  (List.pairwise_cons.mp h.inOrder.pairwise).1 w hw

lemma start_lt_stop : k.span.start < k.span.stop :=
  h.inOrder.nonempty k List.mem_cons_self

/-- A declaration starts with its keyword. -/
lemma start_eq : (coverAll (k.span.union name.span) parts).start = k.span.start := by
  have hcovers := (coverAll_covers (k.span.union name.span) parts).1
  have hle := (hcovers.trans (Span.union_covers_left _ _)).1
  have hname := h.stop_le List.mem_cons_self
  have hk := h.start_lt_stop
  refine Nat.le_antisymm hle (coverAll_of_forall (p := fun s => k.span.start ≤ s.start) ?_ ?_ ?_)
  · exact fun s t hs ht => Nat.le_min.mpr ⟨hs, ht⟩
  · exact Nat.le_min.mpr ⟨Nat.le_refl _, by omega⟩
  · exact h.start_le

lemma union_stop_eq : (k.span.union name.span).stop = name.span.stop := by
  have hname := h.stop_le List.mem_cons_self
  have hne := h.inOrder.nonempty name (by simp)
  exact Nat.max_eq_right (by omega)

/-- A declaration is delimited by words of its own. -/
lemma delimited : Delimited (coverAll (k.span.union name.span) parts)
    (k :: name :: (parent.toList ++ inner)) := by
  refine ⟨⟨k, List.mem_cons_self, h.start_eq.symm⟩, coverAll_of_forall
    (p := fun s => ∃ w ∈ k :: name :: (parent.toList ++ inner), w.span.stop = s.stop) ?_ ?_ ?_⟩
  · intro s t hs ht
    rcases Nat.le_total s.stop t.stop with hle | hle
    · simpa [Span.union, hle] using ht
    · simpa [Span.union, hle] using hs
  · exact ⟨name, by simp, h.union_stop_eq.symm⟩
  · intro s hs
    obtain ⟨w, hw, hstop⟩ := h.stop_eq s hs
    exact ⟨w, by simp [hw], hstop⟩

/-- What is extended is covered if anything is declared. -/
lemma covers_parent_iff {n : Located String} (hn : n ∈ parent) :
    (coverAll (k.span.union name.span) parts).Covers n.span ↔ parts ≠ [] := by
  have hparent : n ∈ name :: (parent.toList ++ inner) := by simp [Option.mem_def.mp hn]
  have hk := h.start_lt_stop
  have hkn := h.stop_le hparent
  obtain ⟨-, hrest⟩ := List.pairwise_cons.mp h.inOrder.pairwise
  obtain ⟨hname, hclause⟩ := List.pairwise_cons.mp hrest
  constructor
  · rintro ⟨-, hstop⟩ rfl
    have hbefore := hname n (by simp [Option.mem_def.mp hn])
    have hne := h.inOrder.nonempty n (by simp [Option.mem_def.mp hn])
    have hunion : n.span.stop ≤ name.span.stop := h.union_stop_eq ▸ hstop
    omega
  · intro hparts
    obtain ⟨s, hs⟩ := List.exists_mem_of_ne_nil _ hparts
    obtain ⟨w, hw, hstop⟩ := h.stop_eq s hs
    have hcovers := ((coverAll_covers (k.span.union name.span) parts).2 s hs).2
    have hbehind := (List.pairwise_append.mp hclause).2.2 n (by simp [Option.mem_def.mp hn]) w hw
    have hne := h.inOrder.nonempty w (by simp [hw])
    refine ⟨?_, by omega⟩
    rw [h.start_eq]
    omega

end Headed

/-! ## Declarations in a level -/

open Grammar

variable {source : String} {rows : List Row}

/-- The place of a declaration begins with its keyword and covers its name and its body.  It covers
what the declared type extends if there is a body. -/
structure LevelItem.Enclosed (source : String) (i : LevelItem) : Prop where
  keyword : i.span.OpensWith source i.word.spelling
  start_le : ∀ n ∈ i.names, i.span.start ≤ n.span.start
  name : i.span.Covers i.name.span
  inner : ∀ n ∈ i.inner, i.span.Covers n.span
  parent : ∀ n ∈ i.parent, i.span.Covers n.span ↔ i.inner ≠ []

namespace LevelItem

variable {i j : LevelItem}

lemma mem_names_of_mem_parent {n : Located String} (hn : n ∈ i.parent) : n ∈ i.names := by
  simp [names, Option.mem_def.mp hn]

/-- Each part of a declaration is placed at the name of what it declares. -/
lemma exists_mem_inner_of_mem_parts {s : Span} (hs : s ∈ i.parts) : ∃ n ∈ i.inner, n.span = s := by
  cases i with
  | parameter p =>
      obtain ⟨m, hm, rfl⟩ := List.mem_map.mp hs
      exact ⟨m.name, List.mem_map_of_mem hm, rfl⟩
  | object o =>
      obtain ⟨p, hp, rfl⟩ := List.mem_map.mp hs
      exact ⟨p.name, List.mem_flatMap.mpr ⟨p, hp, by simp [PropertyDecl.names]⟩, rfl⟩

/-- The type of a property stands in front of its name. -/
lemma exists_part_of_mem_inner (h : InOrder i.inner) {n : Located String} (hn : n ∈ i.inner) :
    ∃ s ∈ i.parts, n.span.stop ≤ s.stop := by
  cases i with
  | parameter p =>
      obtain ⟨m, hm, rfl⟩ := List.mem_map.mp hn
      exact ⟨m.name.span, List.mem_map.mpr ⟨m, hm, rfl⟩, Nat.le_refl _⟩
  | object o =>
      obtain ⟨p, hp, hname⟩ := List.mem_flatMap.mp hn
      refine ⟨p.name.span, List.mem_map.mpr ⟨p, hp, rfl⟩, ?_⟩
      have hnames : InOrder p.names := (inOrder_flatMap_iff.mp h).1 p hp
      have hne := hnames.nonempty p.name (by simp [PropertyDecl.names])
      have hle : p.typeName.span.stop ≤ p.name.span.start :=
        List.rel_of_pairwise_cons hnames.pairwise List.mem_cons_self
      rcases List.mem_pair.mp hname with rfl | rfl
      · omega
      · exact Nat.le_refl _

lemma parts_ne_nil_iff : i.parts ≠ [] ↔ i.inner ≠ [] := by
  cases i with
  | parameter p => simp [parts, inner]
  | object o =>
      cases hproperties : o.properties <;>
        simp [parts, inner, hproperties, PropertyDecl.names]

/-- The words of a declaration in order make it headed by its keyword. -/
lemma headed {k : Located String} (h : InOrder (k :: i.names)) :
    Headed k i.name i.parent i.inner i.parts := by
  refine ⟨h, fun s hs => ?_, fun s hs => ?_⟩ <;>
    obtain ⟨n, hn, rfl⟩ := exists_mem_inner_of_mem_parts hs
  · have hle : k.span.stop ≤ n.span.start :=
      List.rel_of_pairwise_cons h.pairwise (by simp [names, hn])
    have hne := h.nonempty k List.mem_cons_self
    omega
  · exact ⟨n, hn, rfl⟩

lemma delimited (h : SaysItem i rows) (horder : InOrder (wordsOf rows)) :
    Delimited i.span (wordsOf rows) := by
  obtain ⟨k, hwords, hspan⟩ := exists_wordsOf_item h
  rw [hwords] at horder ⊢
  exact hspan ▸ (headed horder).delimited

/-- Words in order, each shown where it stands, enclose a declaration. -/
lemma enclosed (h : SaysItem i rows) (horder : InOrder (wordsOf rows))
    (hshows : ∀ w ∈ wordsOf rows, w.span.Shows source w.value) : i.Enclosed source := by
  obtain ⟨k, hwords, hspan⟩ := exists_wordsOf_item h
  rw [hwords] at horder hshows
  have hheaded := headed horder
  obtain ⟨hcovers, hparts⟩ := coverAll_covers (k.union i.name.span) i.parts
  have hstart := hheaded.start_eq
  rw [← hspan] at hcovers hparts hstart
  have hle : ∀ n ∈ i.names, i.span.start ≤ n.span.start := by
    intro n hn
    have hbehind := hheaded.stop_le hn
    have hk := hheaded.start_lt_stop
    omega
  refine ⟨⟨k, hshows _ List.mem_cons_self, hstart.symm, hcovers.trans (k.union_covers_left _)⟩,
    hle, hcovers.trans (k.union_covers_right _), fun n hn => ⟨hle n ?_, ?_⟩, fun n hn => ?_⟩
  · simp [names, hn]
  · have hinner : InOrder i.inner := horder.sublist (sublist_body _ _ _ _)
    obtain ⟨s, hs, hstop⟩ := exists_part_of_mem_inner hinner hn
    exact Nat.le_trans hstop (hparts s hs).2
  · rw [hspan, ← parts_ne_nil_iff]
    exact hheaded.covers_parent_iff hn

end LevelItem

namespace Grammar

variable {α : Type} {Says : α → List Row → Prop} {as : List α}

/-- Each element of what is listed is said by some of the rows. -/
lemma Listed.exists_of_mem (h : Listed Says as rows) {a : α} (ha : a ∈ as) :
    ∃ said, Says a said ∧ (wordsOf said).Sublist (wordsOf rows) := by
  induction h with
  | nil => exact absurd ha List.not_mem_nil
  | cons h hmore ih =>
      rw [wordsOf_append]
      rcases List.mem_cons.mp ha with rfl | ha
      · exact ⟨_, h, List.sublist_append_left _ _⟩
      · obtain ⟨said, hsaid, hsub⟩ := ih ha
        exact ⟨said, hsaid, List.sublist_append_of_sublist_right hsub⟩

/-- What the words of two elements give, if one set precedes the other, holds along the list. -/
lemma Listed.pairwise (h : Listed Says as rows) (horder : InOrder (wordsOf rows))
    {R : α → α → Prop}
    (hrel : ∀ a b said said', Says a said → Says b said' → InOrder (wordsOf said) →
      InOrder (wordsOf said') → Precede (wordsOf said) (wordsOf said') → R a b) :
    as.Pairwise R := by
  induction h with
  | nil => exact .nil
  | @cons a as rows more h hmore ih =>
      rw [wordsOf_append, inOrder_append_iff] at horder
      obtain ⟨hrows, hbehind, hprecede⟩ := horder
      refine .cons (fun b hb => ?_) (ih hbehind)
      obtain ⟨said, hsaid, hsub⟩ := hmore.exists_of_mem hb
      exact hrel a b rows said h hsaid hrows (hbehind.sublist hsub) fun w hw w' hw' =>
        hprecede w hw w' (hsub.subset hw')

end Grammar

/-! ## Levels -/

/-- The place of a level begins with its keyword and covers its name and the declarations in it.  It
covers what the level extends if there is a declaration, and what a type in it extends if that type
has a body or another declaration stands behind. -/
structure LevelDecl.Enclosed (source : String) (l : LevelDecl) : Prop where
  keyword : l.span.OpensWith source Keyword.abstractionLevel.spelling
  name : l.span.Covers l.name.span
  parent : ∀ n ∈ l.parent, l.span.Covers n.span ↔ l.items ≠ []
  items : ∀ i ∈ l.items, l.span.Covers i.span ∧ i.Enclosed source
  extended : ∀ i ∈ l.items, ∀ n ∈ i.parent, l.span.Covers n.span ↔
    i.inner ≠ [] ∨ ∃ j ∈ l.items, n.span.stop ≤ j.name.span.start

/-- One declaration ends, with all that it names, before the other begins. -/
structure LevelItem.Follows (i j : LevelItem) : Prop where
  span : i.span.stop ≤ j.span.start
  names : ∀ n ∈ i.names, n.span.stop ≤ j.span.start

namespace Grammar

variable {items : List LevelItem} {i : LevelItem}

lemma names_subset_wordsOf_item (h : SaysItem i rows) : i.names ⊆ wordsOf rows := by
  obtain ⟨k, hwords, -⟩ := exists_wordsOf_item h
  rw [hwords]
  exact List.subset_cons_self _ _

lemma names_subset_wordsOf_items (h : Listed SaysItem items rows) (hi : i ∈ items) :
    i.names ⊆ wordsOf rows := by
  obtain ⟨said, hsaid, hsub⟩ := h.exists_of_mem hi
  exact List.Subset.trans (names_subset_wordsOf_item hsaid) hsub.subset

/-- Declarations listed in order follow one another without overlap. -/
lemma pairwise_follows (h : Listed SaysItem items rows) (horder : InOrder (wordsOf rows)) :
    items.Pairwise LevelItem.Follows := by
  refine h.pairwise horder fun i j said said' hi hj hsaid hsaid' hprecede => ?_
  have hbehind := LevelItem.delimited hj hsaid'
  refine ⟨hprecede.stop_le_start (LevelItem.delimited hi hsaid) hbehind, fun n hn => ?_⟩
  obtain ⟨w, hw, hstart⟩ := hbehind.start
  exact hstart ▸ hprecede n (names_subset_wordsOf_item hi hn) w hw

end Grammar

namespace LevelDecl

variable {l : LevelDecl} {k : Located String} {inner : List Row}

/-- A level is headed by its keyword, like the declarations in it. -/
lemma headed (h : Listed SaysItem l.items inner)
    (horder : InOrder (k :: l.name :: (l.parent.toList ++ wordsOf inner))) :
    Headed k l.name l.parent (wordsOf inner) (l.items.map LevelItem.span) := by
  have hinner : InOrder (wordsOf inner) := horder.sublist (sublist_body _ _ _ _)
  have hdelimited : ∀ i ∈ l.items, Delimited i.span (wordsOf inner) := by
    intro i hi
    obtain ⟨said, hsaid, hsub⟩ := h.exists_of_mem hi
    obtain ⟨⟨w, hw, hstart⟩, w', hw', hstop⟩ := LevelItem.delimited hsaid (hinner.sublist hsub)
    exact ⟨⟨w, hsub.subset hw, hstart⟩, w', hsub.subset hw', hstop⟩
  refine ⟨horder, List.forall_mem_map.mpr fun i hi => ?_,
    List.forall_mem_map.mpr fun i hi => (hdelimited i hi).stop⟩
  obtain ⟨w, hw, hstart⟩ := (hdelimited i hi).start
  have hle : k.span.stop ≤ w.span.start :=
    List.rel_of_pairwise_cons horder.pairwise (by simp [hw])
  have hne := horder.nonempty k List.mem_cons_self
  omega

lemma delimited (h : SaysLevel l rows) (horder : InOrder (wordsOf rows)) :
    Delimited l.span (wordsOf rows) := by
  obtain ⟨k, inner, hitems, hwords, hspan⟩ := exists_wordsOf_level h
  rw [hwords] at horder ⊢
  exact hspan ▸ (headed hitems horder).delimited

/-- If nothing stands behind a clause and there is no body, the level ends before the clause. -/
lemma stop_lt_of_last (hheaded : Headed k l.name l.parent (wordsOf inner)
      (l.items.map LevelItem.span))
    (hspan : l.span = coverAll (k.span.union l.name.span) (l.items.map LevelItem.span))
    (hitems : Listed SaysItem l.items inner) (henclosed : ∀ i ∈ l.items, i.Enclosed source)
    {i : LevelItem} (hi : i ∈ l.items) {n : Located String} (hn : n ∈ i.parent)
    (hinner : i.inner = []) (hlast : ∀ j ∈ l.items, j.name.span.start < n.span.stop) :
    l.span.stop < n.span.stop := by
  have hnames := LevelItem.mem_names_of_mem_parent hn
  have hword : n ∈ wordsOf inner := names_subset_wordsOf_items hitems hi hnames
  have horder : InOrder (wordsOf inner) := hheaded.inOrder.sublist (sublist_body _ _ _ _)
  have hne := horder.nonempty n hword
  have hle := (henclosed i hi).start_le n hnames
  rw [hspan]
  refine coverAll_of_forall (p := fun s => s.stop < n.span.stop) ?_ ?_ ?_
  · exact fun s t hs ht => Nat.max_lt.mpr ⟨hs, ht⟩
  · rw [hheaded.union_stop_eq]
    have hname : l.name.span.stop ≤ n.span.start :=
      List.rel_of_pairwise_cons hheaded.inOrder.pairwise.of_cons (by simp [hword])
    omega
  · refine List.forall_mem_map.mpr fun j hj => ?_
    by_cases heq : j = i
    · -- the declaration itself starts before the clause and does not cover it
      subst heq
      have hnot := mt ((henclosed j hj).parent n hn).mp (not_not_intro hinner)
      exact Nat.lt_of_not_le fun hstop => hnot ⟨hle, hstop⟩
    · rcases rel_or_rel_of_pairwise (pairwise_follows hitems horder) hj hi heq with hji | hij
      · have hspan := hji.span
        omega
      · -- no declaration stands behind
        have hname := (henclosed j hj).start_le j.name List.mem_cons_self
        have hbehind := hij.names n hnames
        have hlast := hlast j hj
        omega

/-- Words in order, each shown where it stands, enclose a level. -/
lemma enclosed (h : SaysLevel l rows) (horder : InOrder (wordsOf rows))
    (hshows : ∀ w ∈ wordsOf rows, w.span.Shows source w.value) : l.Enclosed source := by
  obtain ⟨k, inner, hitems, hwords, hspan⟩ := exists_wordsOf_level h
  rw [hwords] at horder hshows
  have hheaded := headed hitems horder
  have hinner := sublist_body ⟨Keyword.abstractionLevel.spelling, k⟩ l.name l.parent.toList
    (wordsOf inner)
  have henclosed : ∀ i ∈ l.items, i.Enclosed source := by
    intro i hi
    obtain ⟨said, hsaid, hsub⟩ := hitems.exists_of_mem hi
    exact LevelItem.enclosed hsaid (horder.sublist (hsub.trans hinner)) fun w hw =>
      hshows w ((hsub.trans hinner).subset hw)
  obtain ⟨hcovers, hparts⟩ :=
    coverAll_covers (k.union l.name.span) (l.items.map LevelItem.span)
  rw [← hspan] at hcovers hparts
  have hcoversItem : ∀ i ∈ l.items, l.span.Covers i.span := List.forall_mem_map.mp hparts
  refine ⟨⟨k, hshows _ List.mem_cons_self, ?_, hcovers.trans (k.union_covers_left _)⟩,
    hcovers.trans (k.union_covers_right _), fun n hn => ?_,
    fun i hi => ⟨hcoversItem i hi, henclosed i hi⟩, fun i hi n hn => ⟨fun hn' => ?_, ?_⟩⟩
  · rw [hspan]
    exact hheaded.start_eq.symm
  · rw [hspan, hheaded.covers_parent_iff hn, Ne, List.map_eq_nil_iff]
  · by_contra hnot
    push Not at hnot
    have hlt := stop_lt_of_last hheaded hspan hitems henclosed hi hn hnot.1 hnot.2
    exact absurd hn'.2 (Nat.not_le_of_lt hlt)
  · rintro (hbody | ⟨j, hj, hbehind⟩)
    · exact (hcoversItem i hi).trans (((henclosed i hi).parent n hn).mpr hbody)
    · have hnames := LevelItem.mem_names_of_mem_parent hn
      have hname := ((hcoversItem j hj).trans (henclosed j hj).name).2
      have hne := horder.nonempty j.name
        (hinner.subset (names_subset_wordsOf_items hitems hj List.mem_cons_self))
      exact ⟨Nat.le_trans (hcoversItem i hi).1 ((henclosed i hi).start_le n hnames), by omega⟩

end LevelDecl

end LevelSchema
