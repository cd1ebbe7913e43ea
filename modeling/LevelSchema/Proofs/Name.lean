import Mathlib
import LevelSchema.Name.Case
import LevelSchema.Name.Reserved
import LevelSchema.Proofs.Token.Spelling

/-!
# Generated names

Generated names are made from declared ones by changing their case, adding an ending or a beginning,
and marking reserved words.

**Identifiers.**  All of these keep identifiers identifiers.  Snake case touches letters only and
puts underscores between them; the first character stays a letter or an underscore, because no word
starts before it.

**Legal names.**  `bare` takes the mark of a raw identifier away again, and a name is `Legal` when
it can stand in generated code: it is an identifier, marked if it is a reserved word, and not one of
the words that no mark helps.  Escaped names are legal when the bare ones are not beyond help
(`legal_escape`).  Names with an ending or a beginning of their own are `Plain`, never reserved in
the first place, which is read off the list of reserved words.

Mathlib is imported whole because its lemmas about the case of letters come with no smaller part.
-/

namespace LevelSchema.Name

/-! ## Characters -/

variable {c : Char} {cs ds : List Char} {s t : String}

/-- A change of case: letters become letters, and nothing else changes. -/
structure Recases (f : Char → Char) : Prop where
  isAlpha_eq : ∀ c, (f c).isAlpha = c.isAlpha
  eq_self : ∀ c, c.isAlpha = false → f c = c

/-- Lower case leaves letters letters and other characters alone. -/
lemma recases_toLower : Recases Char.toLower where
  isAlpha_eq := Char.isAlpha_toLower_eq_isAlpha
  eq_self _ h := Char.toLower_eq_of_not_isUpper (by simp [(Bool.or_eq_false_iff.mp h).1])

/-- So does upper case. -/
lemma recases_toUpper : Recases Char.toUpper where
  isAlpha_eq := Char.isAlpha_toUpper_eq_isAlpha
  eq_self _ h := Char.toUpper_eq_of_not_isLower (by simp [(Bool.or_eq_false_iff.mp h).2])

namespace Recases

variable {f : Char → Char}

/-- A change of case keeps what can start a name. -/
lemma isStart (hf : Recases f) (h : isStart c = true) : Name.isStart (f c) = true := by
  cases halpha : c.isAlpha with
  | true => simp [Name.isStart, hf.isAlpha_eq, halpha]
  | false => rwa [hf.eq_self c halpha]

/-- A change of case keeps what can stand in a name. -/
lemma isPart (hf : Recases f) (h : isPart c = true) : Name.isPart (f c) = true := by
  cases halpha : c.isAlpha with
  | true => simp [Name.isPart, Char.isAlphanum, hf.isAlpha_eq, halpha]
  | false => rwa [hf.eq_self c halpha]

end Recases

/-! ## Identifiers -/

/-- An identifier is a start and then parts. -/
lemma isIdentifierChars_cons : isIdentifierChars (c :: cs) = true ↔
    isStart c = true ∧ ∀ d ∈ cs, isPart d = true := by
  simp [isIdentifierChars]

lemma exists_cons_of_isIdentifier (h : isIdentifier s = true) :
    ∃ c cs, s.toList = c :: cs ∧ isStart c = true ∧ ∀ d ∈ cs, isPart d = true := by
  rw [isIdentifier] at h
  cases hs : s.toList with
  | nil =>
      rw [hs] at h
      cases h
  | cons c cs =>
      rw [hs, isIdentifierChars_cons] at h
      exact ⟨c, cs, rfl, h⟩

lemma isPart_of_mem_identifier (h : isIdentifierChars cs = true) (hc : c ∈ cs) :
    isPart c = true := by
  cases cs with
  | nil => exact absurd hc List.not_mem_nil
  | cons d ds =>
      obtain ⟨hstart, hparts⟩ := isIdentifierChars_cons.mp h
      rcases List.mem_cons.mp hc with rfl | hc
      · exact isPart_of_isStart hstart
      · exact hparts c hc

lemma isIdentifierChars_append (h : isIdentifierChars cs = true) (hd : ∀ d ∈ ds, isPart d = true) :
    isIdentifierChars (cs ++ ds) = true := by
  cases cs with
  | nil => exact nomatch h
  | cons c cs =>
      obtain ⟨hstart, hparts⟩ := isIdentifierChars_cons.mp h
      rw [List.cons_append, isIdentifierChars_cons]
      exact ⟨hstart, List.forall_mem_append.mpr ⟨hparts, hd⟩⟩

/-- An identifier followed by parts of a name is an identifier. -/
lemma isIdentifier_append (h : isIdentifier s = true) (ht : ∀ c ∈ t.toList, isPart c = true) :
    isIdentifier (s ++ t) = true := by
  rw [isIdentifier, String.toList_append]
  exact isIdentifierChars_append h ht

/-! ## Case -/

lemma isPart_of_mem_snakeFrom {before : Option Char} (h : ∀ d ∈ cs, isPart d = true)
    (hc : c ∈ snakeFrom before cs) : isPart c = true := by
  induction cs generalizing before with
  | nil => exact absurd hc List.not_mem_nil
  | cons d ds ih =>
      obtain ⟨hd, hds⟩ := List.forall_mem_cons.mp h
      rw [snakeFrom] at hc
      have hrest : c ∈ d.toLower :: snakeFrom (some d) ds → isPart c = true := by
        intro hmem
        rcases List.mem_cons.mp hmem with rfl | hmem
        · exact recases_toLower.isPart hd
        · exact ih hds hmem
      split_ifs at hc
      · rcases List.mem_cons.mp hc with rfl | hc
        · rfl
        · exact hrest hc
      · exact hrest hc

lemma isIdentifierChars_snakeFrom (h : isIdentifierChars cs = true) :
    isIdentifierChars (snakeFrom none cs) = true := by
  cases cs with
  | nil => exact nomatch h
  | cons c cs =>
      obtain ⟨hstart, hparts⟩ := isIdentifierChars_cons.mp h
      have hfirst : startsWord none c cs.head? = false := by simp [startsWord]
      simp only [snakeFrom, hfirst]
      exact isIdentifierChars_cons.mpr
        ⟨recases_toLower.isStart hstart, fun d hd => isPart_of_mem_snakeFrom hparts hd⟩

/-- An identifier in snake case is an identifier. -/
lemma isIdentifier_snake (h : isIdentifier s = true) : isIdentifier (snake s) = true := by
  rw [isIdentifier, snake, String.toList_ofList]
  exact isIdentifierChars_snakeFrom h

/-- An identifier in capitals is an identifier. -/
lemma isIdentifier_screaming (h : isIdentifier s = true) : isIdentifier (screaming s) = true := by
  rw [isIdentifier, screaming, String.toList_ofList]
  have hsnake := isIdentifierChars_snakeFrom h
  cases hchars : snakeFrom none s.toList with
  | nil =>
      rw [hchars] at hsnake
      exact nomatch hsnake
  | cons c cs =>
      rw [hchars, isIdentifierChars_cons] at hsnake
      rw [List.map_cons, isIdentifierChars_cons, List.forall_mem_map]
      exact ⟨recases_toUpper.isStart hsnake.1, fun d hd => recases_toUpper.isPart (hsnake.2 d hd)⟩

/-- A name in screaming case has no small letter. -/
lemma not_isLower_of_mem_screaming (hc : c ∈ (screaming s).toList) : c.isLower = false := by
  rw [screaming, String.toList_ofList] at hc
  obtain ⟨d, -, rfl⟩ := List.mem_map.mp hc
  exact Char.isLower_toUpper_eq_false d

/-- The ending of a collection's name is one word. -/
lemma snakeFrom_collection (before : Option Char) : snakeFrom before "Collection".toList =
    if startsWord before 'C' (some 'o') then "_collection".toList else "collection".toList := by
  have hletters : 'C'.toLower :: snakeFrom (some 'C') "ollection".toList =
      "collection".toList := by
    decide +kernel
  have hsplit : "Collection".toList = 'C' :: "ollection".toList := rfl
  rw [hsplit, snakeFrom, hletters]
  rfl

/-- The ending of a collection's name stays together in snake case. -/
lemma collection_suffix_snakeFrom (before : Option Char) (cs : List Char) :
    "collection".toList <:+ snakeFrom before (cs ++ "Collection".toList) := by
  induction cs generalizing before with
  | nil =>
      rw [List.nil_append, snakeFrom_collection]
      split_ifs
      · exact List.suffix_cons '_' _
      · exact List.suffix_refl _
  | cons c cs ih =>
      rw [List.cons_append, snakeFrom]
      have hrest := (ih (some c)).trans (List.suffix_cons c.toLower _)
      split_ifs
      · exact hrest.trans (List.suffix_cons '_' _)
      · exact hrest

/-! ## Marks of raw identifiers -/

/-- A name without the mark of a raw identifier. -/
def bare (s : String) : String :=
  match s.toList with
  | 'r' :: '#' :: cs => String.ofList cs
  | _ => s

/-- A name that can stand in generated code. -/
structure Legal (s : String) : Prop where
  isIdentifier : isIdentifier (bare s) = true
  marked_of_isKeyword : isKeyword (bare s) = true → s = rawMark ++ bare s
  not_isUnescapable : isUnescapable (bare s) = false

lemma bare_rawMark_append (s : String) : bare (rawMark ++ s) = s := by
  simp [bare, rawMark, String.toList_append]

/-- An identifier has no mark, since `#` is no part of one. -/
lemma bare_of_isIdentifier (h : isIdentifier s = true) : bare s = s := by
  unfold bare
  split
  · next cs hchars =>
      rw [isIdentifier, hchars, isIdentifierChars_cons] at h
      exact absurd (h.2 '#' List.mem_cons_self) (by decide)
  · rfl

/-- Escaping an identifier is undone by taking it bare. -/
lemma bare_escape (h : isIdentifier s = true) : bare (escape s) = s := by
  unfold escape
  split_ifs
  · exact bare_rawMark_append s
  · exact bare_of_isIdentifier h

/-- An escaped identifier is legal unless nothing helps it. -/
lemma legal_escape (h : isIdentifier s = true) (hs : isUnescapable s = false) :
    Legal (escape s) := by
  refine ⟨by rwa [bare_escape h], fun hkeyword => ?_, by rwa [bare_escape h]⟩
  rw [bare_escape h, isKeyword, Bool.or_eq_true] at hkeyword
  rcases hkeyword with hword | hword
  · rw [bare_escape h, escape, if_pos hword]
  · rw [isUnescapable, hword] at hs
    exact nomatch hs

/-- An identifier that is no reserved word. -/
structure Plain (s : String) : Prop where
  isIdentifier : isIdentifier s = true
  not_isKeyword : isKeyword s = false

instance (s : String) : Decidable (Plain s) :=
  decidable_of_iff (Name.isIdentifier s = true ∧ isKeyword s = false)
    ⟨fun h => ⟨h.1, h.2⟩, fun h => ⟨h.isIdentifier, h.not_isKeyword⟩⟩

lemma Plain.bare_eq (h : Plain s) : bare s = s :=
  bare_of_isIdentifier h.isIdentifier

/-- A plain name is legal as it stands. -/
lemma Plain.legal (h : Plain s) : Legal s := by
  refine ⟨by rw [h.bare_eq, h.isIdentifier], fun hkeyword => ?_, ?_⟩
  · rw [h.bare_eq, h.not_isKeyword] at hkeyword
    exact nomatch hkeyword
  · rw [h.bare_eq]
    exact (Bool.or_eq_false_iff.mp h.not_isKeyword).2

/-! ## Names that are never reserved -/

/-- The reserved words. -/
def keywords : List String :=
  escapableWords ++ unescapableWords

lemma isKeyword_eq_false_iff : isKeyword s = false ↔ s ∉ keywords := by
  simp [isKeyword, keywords]

/-- No reserved word starts like a setter or ends like an accessor, and each has a small letter
unless it is an underscore. -/
lemma forall_mem_keywords : ∀ w ∈ keywords, ¬ "set_".toList <+: w.toList ∧
    ¬ "collection".toList <:+ w.toList ∧ ¬ "_mut".toList <:+ w.toList ∧
      (w = "_" ∨ w.toList.any Char.isLower = true) := by
  decide +kernel

/-- The name of a setter is never a keyword. -/
lemma plain_set_append (h : isIdentifier s = true) : Plain ("set_" ++ s) := by
  have hparts : ∀ c ∈ s.toList, isPart c = true := fun c hc => isPart_of_mem_identifier h hc
  refine ⟨isIdentifier_append (by decide +kernel) hparts, isKeyword_eq_false_iff.mpr fun hmem => ?_⟩
  refine (forall_mem_keywords _ hmem).1 ?_
  rw [String.toList_append]
  exact List.prefix_append _ _

/-- Only an underscore becomes an underscore. -/
lemma snake_eq_of_screaming_eq (h : screaming s = "_") : snake s = "_" := by
  have hchars : (snakeFrom none s.toList).map Char.toUpper = ['_'] := by
    rw [← String.toList_ofList (l := (snakeFrom none s.toList).map Char.toUpper)]
    exact congrArg String.toList h
  obtain ⟨c, hc, hupper⟩ := List.map_eq_singleton_iff.mp hchars
  have hcase : c.isLower = false := by
    by_contra hlower
    have halpha : c.toUpper.isUpper = true := by
      rw [Char.isUpper_toUpper_eq_isAlpha]
      simp [Char.isAlpha, Bool.eq_true_of_not_eq_false hlower]
    rw [hupper] at halpha
    exact nomatch halpha
  rw [Char.toUpper_eq_of_not_isLower (by simp [hcase])] at hupper
  rw [snake, hc, hupper]

lemma plain_screaming (h : isIdentifier s = true) (hs : isUnescapable (snake s) = false) :
    Plain (screaming s) := by
  refine ⟨isIdentifier_screaming h, isKeyword_eq_false_iff.mpr fun hmem => ?_⟩
  rcases (forall_mem_keywords _ hmem).2.2.2 with heq | hlower
  · rw [snake_eq_of_screaming_eq heq] at hs
    exact absurd hs (by decide)
  · obtain ⟨c, hc, hc'⟩ := List.any_eq_true.mp hlower
    rw [not_isLower_of_mem_screaming hc] at hc'
    exact nomatch hc'

lemma collection_suffix_snake (s : String) :
    "collection".toList <:+ (snake (s ++ "Collection")).toList := by
  have hchars : (snake (s ++ "Collection")).toList =
      snakeFrom none (s.toList ++ "Collection".toList) := by
    rw [← String.toList_append]
    exact String.toList_ofList
  rw [hchars]
  exact collection_suffix_snakeFrom none s.toList

/-- The name of a collection is never a keyword. -/
lemma plain_snake_collection (h : isIdentifier s = true) : Plain (snake (s ++ "Collection")) := by
  have hid : isIdentifier (s ++ "Collection") = true :=
    isIdentifier_append h (List.all_eq_true.mp (by decide +kernel))
  refine ⟨isIdentifier_snake hid, isKeyword_eq_false_iff.mpr fun hmem => ?_⟩
  exact (forall_mem_keywords _ hmem).2.1 (collection_suffix_snake s)

/-- The name of an accessor that gives write access is never a keyword. -/
lemma plain_append_mut (h : isIdentifier s = true) : Plain (s ++ "_mut") := by
  refine ⟨isIdentifier_append h (List.all_eq_true.mp (by decide +kernel)),
    isKeyword_eq_false_iff.mpr fun hmem => ?_⟩
  refine (forall_mem_keywords _ hmem).2.2.1 ?_
  rw [String.toList_append]
  exact List.suffix_append _ _

end LevelSchema.Name
