import Mathlib.Order.MinMax
import LevelSchema.Proofs.Diagnostic.Noted

/-!
# Places that can be shown

A diagnostic is shown by cutting its labelled places out of the text.  `Span.Within` says when this
is possible: the ends of the place are in order, they lie in the text, and both stand between
characters.  Such places are closed under union.

**Anchored diagnostics.**  `Diagnostic.Anchored p` says of a diagnostic that it has a primary label
and that all its labels are at places with `p`.  The stages of the compiler label only what they
have read, so each of them is gone through once to see that it notes anchored diagnostics, with `p`
left open.  `Noted.Confines` is what is said of a computation on the way: something of its notes,
and something of its result.
-/

namespace LevelSchema

/-! ## Offsets in a text -/

lemma byteLength_append (cs post : List Char) :
    byteLength (cs ++ post) = byteLength cs + byteLength post := by
  induction cs with
  | nil => simp [byteLength]
  | cons c cs ih => rw [List.cons_append, byteLength, byteLength, ih, Nat.add_assoc]

/-- The size of a text in bytes is the sum over its characters. -/
lemma utf8ByteSize_ofList (cs : List Char) : (String.ofList cs).utf8ByteSize = byteLength cs := by
  induction cs with
  | nil => rfl
  | cons c cs ih =>
      rw [String.ofList_cons, String.utf8ByteSize_append, String.utf8ByteSize_singleton, ih,
        byteLength]

namespace Span

variable {source : String} {s t : Span} {before inside after : List Char}

/-- The place can be cut out of the text. -/
structure Within (source : String) (s : Span) : Prop where
  ordered : s.start ≤ s.stop
  inside : s.stop ≤ source.utf8ByteSize
  start_valid : (String.Pos.Raw.mk s.start).IsValid source
  stop_valid : (String.Pos.Raw.mk s.stop).IsValid source

/-- The text at the place. -/
def Shows (source : String) (s : Span) (text : String) : Prop :=
  ∃ before after, source = before ++ text ++ after ∧
    s = ⟨before.utf8ByteSize, before.utf8ByteSize + text.utf8ByteSize⟩

/-- The place is the first byte of a character that has more than one. -/
def Halves (source : String) (s : Span) : Prop :=
  ∃ before c after, source.toList = before ++ c :: after ∧ 1 < c.utf8Size ∧
    s = ⟨byteLength before, byteLength before + 1⟩

lemma within_atStart (source : String) : Span.atStart.Within source :=
  ⟨Nat.le_refl 0, Nat.zero_le _, String.Pos.Raw.isValid_zero, String.Pos.Raw.isValid_zero⟩

/-- A place that reaches from one to another is inside the text if both are. -/
lemma Within.union (hs : s.Within source) (ht : t.Within source) : (s.union t).Within source := by
  refine ⟨?_, ?_, ?_, ?_⟩
  · exact (min_le_left _ _).trans (hs.ordered.trans (le_max_left _ _))
  · exact max_le hs.inside ht.inside
  · show (String.Pos.Raw.mk (min s.start t.start)).IsValid source
    rcases min_choice s.start t.start with h | h <;> rw [h]
    exacts [hs.start_valid, ht.start_valid]
  · show (String.Pos.Raw.mk (max s.stop t.stop)).IsValid source
    rcases max_choice s.stop t.stop with h | h <;> rw [h]
    exacts [hs.stop_valid, ht.stop_valid]

/-- An offset is valid if it stands behind some of the characters. -/
lemma isValid_iff {n : Nat} : (String.Pos.Raw.mk n).IsValid source ↔
    ∃ before after, source.toList = before ++ after ∧ byteLength before = n := by
  rw [String.Pos.Raw.isValid_iff_exists_append]
  constructor
  · rintro ⟨before, after, rfl, h⟩
    refine ⟨before.toList, after.toList, String.toList_append, ?_⟩
    rw [← utf8ByteSize_ofList, String.ofList_toList]
    exact (congrArg String.Pos.Raw.byteIdx h).symm
  · rintro ⟨before, after, h, rfl⟩
    refine ⟨String.ofList before, String.ofList after, ?_, ?_⟩
    · rw [← String.ofList_append, ← h, String.ofList_toList]
    · exact String.Pos.Raw.ext (utf8ByteSize_ofList before).symm

/-- What some characters in a row take up can be cut out. -/
lemma within_of_append (h : source.toList = before ++ (inside ++ after)) :
    (Span.mk (byteLength before) (byteLength before + byteLength inside)).Within source := by
  have hstop : (String.Pos.Raw.mk (byteLength before + byteLength inside)).IsValid source :=
    isValid_iff.mpr ⟨before ++ inside, after, by rw [h, List.append_assoc],
      byteLength_append before inside⟩
  exact ⟨Nat.le_add_right _ _, hstop.le_utf8ByteSize, isValid_iff.mpr ⟨before, _, h, rfl⟩, hstop⟩

/-- A place inside the text shows some part of it. -/
lemma Within.exists_shows (h : s.Within source) : ∃ text, s.Shows source text := by
  obtain ⟨before, after, hbefore, hstart⟩ := isValid_iff.mp h.start_valid
  obtain ⟨upto, behind, hupto, hstop⟩ := isValid_iff.mp h.stop_valid
  have hordered : byteLength before ≤ byteLength upto := hstart ▸ hstop ▸ h.ordered
  -- the start comes first, so what stands in front of it also stands in front of the end
  obtain ⟨inside, rfl⟩ : ∃ inside, upto = before ++ inside := by
    rw [hbefore, List.append_eq_append_iff] at hupto
    rcases hupto with ⟨inside, rfl, -⟩ | ⟨cs, rfl, -⟩
    · exact ⟨inside, rfl⟩
    · cases cs with
      | nil => exact ⟨[], by simp⟩
      | cons c cs =>
          have hpos := c.utf8Size_pos
          rw [byteLength_append, byteLength] at hordered
          omega
  refine ⟨String.ofList inside, String.ofList before, String.ofList behind, ?_, ?_⟩
  · rw [← String.ofList_append, ← String.ofList_append, ← hupto, String.ofList_toList]
  · rw [utf8ByteSize_ofList, utf8ByteSize_ofList, ← byteLength_append, hstart, hstop]

/-- The first byte of a longer character cannot be cut out: it ends inside the character. -/
lemma Halves.not_within (h : s.Halves source) : ¬ s.Within source := by
  obtain ⟨before, c, after, hsource, hc, rfl⟩ := h
  intro hwithin
  obtain ⟨upto, behind, hsplit, hlength⟩ := isValid_iff.mp hwithin.stop_valid
  replace hlength : byteLength upto = byteLength before + 1 := hlength
  rw [hsource, List.append_eq_append_iff] at hsplit
  rcases hsplit with ⟨cs, rfl, hcs⟩ | ⟨cs, rfl, -⟩
  · rw [byteLength_append] at hlength
    cases cs with
    | nil => simp [byteLength] at hlength
    | cons d cs =>
        obtain ⟨rfl, -⟩ := List.cons.inj hcs
        rw [byteLength] at hlength
        omega
  · rw [byteLength_append] at hlength
    omega

end Span

/-! ## Anchored diagnostics -/

namespace Diagnostic

variable {p q : Span → Prop} {d : Diagnostic}

/-- All labels are at places with `p`, and one of them is primary. -/
structure Anchored (p : Span → Prop) (d : Diagnostic) : Prop where
  spans : ∀ l ∈ d.labels, p l.span
  primary : ∃ l ∈ d.labels, l.isPrimary = true

@[simp] lemma labels_error (message : String) : (error message).labels = [] := rfl

@[simp] lemma labels_warning (message : String) : (warning message).labels = [] := rfl

@[simp] lemma labels_withCode (d : Diagnostic) (code : Code) :
    (d.withCode code).labels = d.labels := rfl

@[simp] lemma labels_hint (d : Diagnostic) (help : String) : (d.hint help).labels = d.labels := rfl

@[simp] lemma anchored_withCode_iff {code : Code} : (d.withCode code).Anchored p ↔ d.Anchored p :=
  ⟨fun h => ⟨h.spans, h.primary⟩, fun h => ⟨h.spans, h.primary⟩⟩

@[simp] lemma anchored_hint_iff {help : String} : (d.hint help).Anchored p ↔ d.Anchored p :=
  ⟨fun h => ⟨h.spans, h.primary⟩, fun h => ⟨h.spans, h.primary⟩⟩

/-- A primary label anchors a diagnostic, whatever labels it had before. -/
@[simp] lemma anchored_primary_iff {span : Span} {message : String} :
    (d.primary span message).Anchored p ↔ (∀ l ∈ d.labels, p l.span) ∧ p span := by
  constructor
  · rintro ⟨hspans, -⟩
    simpa [Diagnostic.primary, or_imp, forall_and] using hspans
  · intro h
    refine ⟨?_, ⟨⟨span, message, true⟩, by simp [Diagnostic.primary]⟩⟩
    simpa [Diagnostic.primary, or_imp, forall_and] using h

/-- A secondary label adds a place, but does not anchor a diagnostic alone. -/
@[simp] lemma anchored_secondary_iff {span : Span} {message : String} :
    (d.secondary span message).Anchored p ↔ d.Anchored p ∧ p span := by
  have hlabels : (d.secondary span message).labels = d.labels ++ [⟨span, message, false⟩] := rfl
  constructor
  · rintro ⟨hspans, l, hl, hprimary⟩
    rw [hlabels] at hspans hl
    obtain ⟨hspans, hspan⟩ := List.forall_mem_append.mp hspans
    rcases List.mem_append.mp hl with hl | hl
    · exact ⟨⟨hspans, l, hl, hprimary⟩, hspan _ (List.mem_singleton_self _)⟩
    · cases List.mem_singleton.mp hl
      exact nomatch hprimary
  · rintro ⟨⟨hspans, l, hl, hprimary⟩, hspan⟩
    refine ⟨?_, l, hlabels ▸ List.mem_append_left _ hl, hprimary⟩
    simpa [hlabels, or_imp, forall_and] using ⟨hspans, hspan⟩

/-- There is a primary label, and the labels can be cut out of the text, or mark the first byte of
an unexpected character. -/
def Shown (source : String) (d : Diagnostic) : Prop :=
  d.Anchored fun s => s.Within source ∨ d.code = some .unexpectedCharacter ∧ s.Halves source

lemma Anchored.shown {source : String} (h : d.Anchored (Span.Within source)) : d.Shown source :=
  ⟨fun l hl => .inl (h.spans l hl), h.primary⟩

end Diagnostic

/-! ## Notes and results -/

namespace Noted

variable {ν α β : Type} {F : ν → Prop} {P : α → Prop} {R : β → Prop}

/-- Every note that was taken has `F`, and the result has `P`. -/
structure Confines (F : ν → Prop) (x : Noted ν α) (P : α → Prop) : Prop where
  notes : ∀ n ∈ x.notes, F n
  value : P x.value

lemma confines_pure {a : α} (h : P a) : Confines F (pure a) P :=
  ⟨by simp, h⟩

/-- Notes of a sequence are confined if those of each step are. -/
lemma confines_bind {x : Noted ν α} {f : α → Noted ν β} (hx : Confines F x P)
    (hf : ∀ a, P a → Confines F (f a) R) : Confines F (x >>= f) R := by
  obtain ⟨hnotes, hvalue⟩ := hf _ hx.value
  refine ⟨?_, hvalue⟩
  rw [notes_bind]
  exact List.forall_mem_append.mpr ⟨hx.notes, hnotes⟩

lemma confines_note {n : ν} (h : F n) : Confines F (note n) fun _ => True :=
  ⟨by simpa using h, trivial⟩

lemma confines_noteAny {o : Option ν} (h : ∀ n ∈ o, F n) : Confines F (noteAny o) fun _ => True :=
  ⟨by simpa using h, trivial⟩

/-- A note that is taken under a condition, before going on with `x`. -/
lemma confines_ite_note {c : Prop} [Decidable c] {n : ν} {x : Noted ν α} (hn : F n)
    (hx : Confines F x P) : Confines F (if c then note n >>= fun _ => x else x) P := by
  split_ifs
  · exact confines_bind (confines_note hn) fun _ _ => hx
  · exact hx

/-- Notes of a pass over a list are confined if those about each element are. -/
lemma confines_each {f : α → Noted ν β} {as : List α} (h : ∀ a ∈ as, Confines F (f a) R) :
    Confines F (each f as) fun bs => ∀ b ∈ bs, R b := by
  constructor
  · rw [notes_each]
    exact List.forall_mem_flatMap.mpr fun a ha => (h a ha).notes
  · rw [value_each]
    exact List.forall_mem_map.mpr fun a ha => (h a ha).value

end Noted

end LevelSchema
