import LevelSchema.Proofs.Name
import LevelSchema.Resolved.Basic

/-!
# Laws of snake case

Whether a word starts at a character is decided from its two neighbours in the name, so putting
something behind a name could change what happens inside it.  It does not as long as what is put
behind starts with no small letter (`snakeFrom_append`): only the last character gets a new
neighbour, and only a small letter would make a difference to it.

**Collections.**  The ending of a collection starts with a capital.  A word starts there unless the
name ends in an underscore, which takes the place of the one that would be put in
(`snake_collection`).  This is the only way in which names that differ in snake case share an
accessor (`append_collectionEnding_eq_iff`).
-/

namespace LevelSchema

namespace Name

variable {c d : Char} {cs ds : List Char} {before : Option Char} {s : String}

/-! ## Characters -/

/-- Only an underscore becomes an underscore. -/
lemma toLower_eq_underscore_iff : c.toLower = '_' ↔ c = '_' := by
  by_cases hupper : c.isUpper = true
  · have hlower : c.toLower.isLower = true := by
      rw [Char.isLower_toLower_eq_isAlpha]
      simp [Char.isAlpha, hupper]
    refine iff_of_false (fun heq => ?_) (fun heq => ?_)
    · exact absurd (heq ▸ hlower) (by decide)
    · exact absurd (heq ▸ hupper) (by decide)
  · rw [Char.toLower_eq_of_not_isUpper hupper]

/-! ## Runs of characters -/

lemma isUpper_of_mem_snakeFrom (hc : c ∈ snakeFrom before cs) : c.isUpper = false := by
  induction cs generalizing before with
  | nil => exact absurd hc List.not_mem_nil
  | cons d ds ih =>
      have hrest : c ∈ d.toLower :: snakeFrom (some d) ds → c.isUpper = false := by
        intro hmem
        rcases List.mem_cons.mp hmem with rfl | hmem
        · exact Char.isUpper_toLower_eq_false d
        · exact ih hmem
      rw [snakeFrom] at hc
      split_ifs at hc
      · rcases List.mem_cons.mp hc with rfl | hc
        · rfl
        · exact hrest hc
      · exact hrest hc

/-- Nothing but underscores is put in, and letters only become small. -/
lemma filter_snakeFrom (before : Option Char) (cs : List Char) :
    (snakeFrom before cs).filter (· ≠ '_') = (cs.map Char.toLower).filter (· ≠ '_') := by
  induction cs generalizing before with
  | nil => rfl
  | cons c cs ih =>
      rw [snakeFrom, List.map_cons, List.filter_cons, ← ih (some c)]
      split_ifs <;> simp_all

/-- Where there is no capital no word starts. -/
lemma snakeFrom_eq_self (h : ∀ c ∈ cs, c.isUpper = false) : snakeFrom before cs = cs := by
  induction cs generalizing before with
  | nil => rfl
  | cons c cs ih =>
      obtain ⟨hc, hcs⟩ := List.forall_mem_cons.mp h
      have hinside : startsWord before c cs.head? = false := by simp [startsWord, hc]
      rw [snakeFrom, ih hcs, Char.toLower_eq_of_not_isUpper (by simp [hc])]
      simp [hinside]

/-- A name keeps its snake case when something is put behind it that starts with no small letter. -/
lemma snakeFrom_append (hd : d.isLower = false) (before : Option Char) (cs : List Char) :
    snakeFrom before (cs ++ d :: ds) =
      snakeFrom before cs ++ snakeFrom (cs.getLast?.or before) (d :: ds) := by
  induction cs generalizing before with
  | nil => rfl
  | cons c cs ih =>
      have hnext : startsWord before c (cs ++ d :: ds).head? = startsWord before c cs.head? := by
        cases cs with
        | nil => simp [startsWord, hd]
        | cons _ _ => rfl
      have hlast : (c :: cs).getLast?.or before = cs.getLast?.or (some c) := by
        cases cs with
        | nil => rfl
        | cons e cs => simp [List.getLast?_cons]
      rw [List.cons_append, snakeFrom, snakeFrom, hnext, hlast, ih (some c)]
      split_ifs <;> rfl

lemma getLast?_snakeFrom (before : Option Char) (cs : List Char) :
    (snakeFrom before cs).getLast? = cs.getLast?.map Char.toLower := by
  induction cs generalizing before with
  | nil => rfl
  | cons c cs ih =>
      have hrest : (c.toLower :: snakeFrom (some c) cs).getLast? =
          (c :: cs).getLast?.map Char.toLower := by
        rw [List.getLast?_cons, List.getLast?_cons, ih]
        cases cs.getLast? <;> rfl
      rw [snakeFrom]
      split_ifs
      · rw [List.getLast?_cons_cons, hrest]
      · exact hrest

/-! ## Names -/

lemma toList_snake (s : String) : (snake s).toList = snakeFrom none s.toList :=
  String.toList_ofList

lemma snake_eq_self (h : ∀ c ∈ s.toList, c.isUpper = false) : snake s = s := by
  rw [snake, snakeFrom_eq_self h, String.ofList_toList]

/-- Whether a name ends in an underscore. -/
def endsInUnderscore (s : String) : Bool :=
  s.toList.getLast? == some '_'

/-- A name ends in an underscore exactly when it does in snake case. -/
lemma endsInUnderscore_snake (s : String) : endsInUnderscore (snake s) = endsInUnderscore s := by
  rw [endsInUnderscore, endsInUnderscore, toList_snake, getLast?_snakeFrom]
  cases hlast : s.toList.getLast? with
  | none => rfl
  | some c => simp [toLower_eq_underscore_iff]

lemma endsInUnderscore_append (s : String) : endsInUnderscore (s ++ "_") = true := by
  have hchars : "_".toList = ['_'] := rfl
  rw [endsInUnderscore, String.toList_append, hchars, List.getLast?_concat]
  rfl

/-- What the ending of a collection becomes. -/
def collectionEnding (s : String) : String :=
  if endsInUnderscore s then "collection" else "_collection"

/-- A word starts at the ending of a collection exactly behind a letter or a digit. -/
lemma snakeFrom_collection_of_isPart (h : isPart c = true) :
    snakeFrom (some c) "Collection".toList =
      if c = '_' then "collection".toList else "_collection".toList := by
  have hstarts : startsWord (some c) 'C' (some 'o') = true ↔ c ≠ '_' := by
    simp only [isPart, Char.isAlphanum, Char.isAlpha, Bool.or_eq_true, beq_iff_eq] at h
    have hnext : (some 'o').any Char.isLower = true := by decide
    rw [startsWord, hnext]
    constructor
    · rintro hword rfl
      exact absurd hword (by decide)
    · intro hne
      have hcapital : 'C'.isUpper = true := by decide
      simp only [hcapital, Bool.and_true, Bool.true_and, Bool.or_eq_true]
      tauto
  rw [snakeFrom_collection]
  by_cases hc : c = '_'
  · rw [if_neg (by simpa [hc] using hstarts), if_pos hc]
  · rw [if_pos (hstarts.mpr hc), if_neg hc]

/-- **The ending of a collection is set off by one underscore.** -/
theorem snake_collection (h : isIdentifier s = true) :
    snake (s ++ "Collection") = snake s ++ collectionEnding s := by
  have hne : s.toList ≠ [] := by
    obtain ⟨c, cs, hchars, -⟩ := exists_cons_of_isIdentifier h
    simp [hchars]
  obtain ⟨front, c, hchars⟩ := (List.eq_nil_or_concat s.toList).resolve_left hne
  rw [List.concat_eq_append] at hchars
  have hlast : s.toList.getLast? = some c := by simp [hchars]
  have hpart : isPart c = true :=
    isPart_of_mem_identifier h (List.mem_of_getLast? hlast)
  have hsplit : "Collection".toList = 'C' :: "ollection".toList := rfl
  have hending : collectionEnding s = if c = '_' then "collection" else "_collection" := by
    simp [collectionEnding, endsInUnderscore, hlast]
  rw [← String.toList_inj, toList_snake, String.toList_append, hsplit, snakeFrom_append (by decide),
    hlast, Option.some_or, ← hsplit, snakeFrom_collection_of_isPart hpart, String.toList_append,
    toList_snake, hending]
  split_ifs <;> rfl

/-- In snake case the second name is the first one and an underscore, which the first one does not
end in. -/
def Lengthens (s t : String) : Prop :=
  endsInUnderscore s = false ∧ snake t = snake s ++ "_"

/-- What a name is lengthened to ends in an underscore. -/
lemma not_lengthens {s t : String} (ht : endsInUnderscore t = false) : ¬ Lengthens s t := by
  intro h
  have hsnake := endsInUnderscore_snake t
  rw [h.2, endsInUnderscore_append, ht] at hsnake
  exact nomatch hsnake

/-- Names that are the same in snake case end alike.  So names with an ending are the same if the
names are, or if one of them has an underscore at its end and the other gets it with the ending. -/
lemma append_collectionEnding_eq_iff {s t : String} :
    snake s ++ collectionEnding s = snake t ++ collectionEnding t ↔
      snake s = snake t ∨ Lengthens s t ∨ Lengthens t s := by
  have hmixed : ∀ a b : String, a ++ "_collection" = b ++ "collection" ↔ b = a ++ "_" := by
    intro a b
    have hsplit : "_collection" = "_" ++ "collection" := by decide
    rw [hsplit, ← String.append_assoc, String.append_left_inj, eq_comm]
  have hends : endsInUnderscore s ≠ endsInUnderscore t → snake s ≠ snake t := by
    intro hne heq
    rw [← endsInUnderscore_snake s, heq, endsInUnderscore_snake] at hne
    exact hne rfl
  simp only [collectionEnding]
  cases hs : endsInUnderscore s <;> cases ht : endsInUnderscore t
  · simp [String.append_left_inj, not_lengthens hs, not_lengthens ht]
  · have hne : snake s ≠ snake t := hends (by simp [hs, ht])
    simp [hmixed, hne, Lengthens, hs, ht]
  · have hne : snake s ≠ snake t := hends (by simp [hs, ht])
    simp [eq_comm (b := snake t ++ _), hmixed, hne, Lengthens, hs, ht]
  · simp [String.append_left_inj, Lengthens, hs, ht]

end Name

open Name

/-- **Laws of snake case.**  A name in snake case has no capital, differs from the name in capitals
and underscores only, and stays as it is when put in snake case again.  Identifiers stay identifiers
in both cases.  The ending of a collection is set off by one underscore, which is the last character
of the name if that is one already; so two identifiers share the accessor of their collections
exactly when they agree in snake case, or one of them has an underscore more at the end where the
other has none. -/
theorem snake_case_laws :
    (∀ s : String, (∀ c ∈ (snake s).toList, c.isUpper = false) ∧
      (snake s).toList.filter (· ≠ '_') = (s.toList.map Char.toLower).filter (· ≠ '_') ∧
      snake (snake s) = snake s) ∧
    (∀ s : String, isIdentifier s = true →
      isIdentifier (snake s) = true ∧ isIdentifier (screaming s) = true) ∧
    (∀ n : String, isIdentifier n = true → snake (n ++ "Collection") =
      snake n ++ if endsInUnderscore n then "collection" else "_collection") ∧
    ∀ c d : Collection, isIdentifier c.object.name = true → isIdentifier d.object.name = true →
      (c.accessor = d.accessor ↔ snake c.object.name = snake d.object.name ∨
        Lengthens c.object.name d.object.name ∨ Lengthens d.object.name c.object.name) := by
  have hsmall : ∀ s, ∀ c ∈ (snake s).toList, c.isUpper = false := by
    intro s c hc
    rw [toList_snake] at hc
    exact isUpper_of_mem_snakeFrom hc
  refine ⟨fun s => ⟨hsmall s, ?_, snake_eq_self (hsmall s)⟩,
    fun s hs => ⟨isIdentifier_snake hs, isIdentifier_screaming hs⟩,
    fun n hn => snake_collection hn, fun c d hc hd => ?_⟩
  · rw [toList_snake]
    exact filter_snakeFrom none s.toList
  · rw [Collection.accessor, Collection.accessor, Collection.name, Collection.name,
      snake_collection hc, snake_collection hd]
    exact append_collectionEnding_eq_iff

/-- Two object types that share an accessor although they differ in snake case, and a name in which
acronyms, digits and underscores meet. -/
theorem plot_collections_shared :
    (Collection.mk ⟨"Site", "GISPlot2"⟩).accessor = (Collection.mk ⟨"Site", "GISPlot2_"⟩).accessor ∧
      snake "GISPlot2" = "gis_plot2" ∧ snake (snake "GIS_Plot2X") = "gis_plot2_x" ∧
        isIdentifier (screaming "GIS_Plot2X") = true ∧
          snake ("GIS_" ++ "Collection") = "gis_" ++ "collection" := by
  obtain ⟨hall, hidentifier, hcollection, hshared⟩ := snake_case_laws
  refine ⟨?_, by decide +kernel, ?_, (hidentifier _ (by decide +kernel)).2, ?_⟩
  · refine (hshared _ _ (by decide +kernel) (by decide +kernel)).mpr (.inr (.inl ⟨?_, ?_⟩))
    · decide +kernel
    · decide +kernel
  · rw [(hall "GIS_Plot2X").2.2]
    decide +kernel
  · rw [hcollection "GIS_" (by decide +kernel)]
    decide +kernel

end LevelSchema
