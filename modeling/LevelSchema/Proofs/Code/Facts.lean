import LevelSchema.Proofs.Code.Items

/-!
# What generated source says about types

A line of source can declare a type, bring types in from another place, or name a type in a field or
in the head of a function.  `Code.facts` reads all of this off the lines alone.

**How a named type is found.**  Generated types are nested in others, as in `Option<Box<Plot>>` or
`&[Plot]`, and the name that matters stands innermost.  So a line names what follows the last
bracket that opens an argument or an element (`Code.typeIn?`).  Lines without such a bracket name
nothing, which has to be said of every line that is generated: their parts have no such bracket
(`Code.Quiet`).

**What is found.**  The source of a module says what its contents say (`Code.Module.facts_lines`).
-/

namespace LevelSchema.Code

/-! ## Reading -/

/-- What a line of source can say about types. -/
inductive Fact
  | declares (name : String)
  | uses (use : Use)
  | names (type : String)
deriving DecidableEq

/-- The names in a row of characters. -/
def words (cs : List Char) : List String :=
  ((cs.splitOnP fun c => !isWritten c).filter (!·.isEmpty)).map String.ofList

/-- What is brought in: the names behind the last colon, from what stands in front of it. -/
def useIn (cs : List Char) : Use :=
  ⟨String.ofList ((cs.reverse.dropWhile (· ≠ ':')).drop 2).reverse,
    words (cs.reverse.takeWhile (· ≠ ':')).reverse⟩

/-- What stands behind the opening of an argument or an element. -/
def opened? : List Char → Option (List Char)
  | '<' :: '&' :: cs => some cs
  | '<' :: cs => some cs
  | '&' :: '[' :: cs => some cs
  | _ => none

/-- The type that is named innermost. -/
def typeIn? : List Char → Option String
  | [] => none
  | c :: cs => (typeIn? cs).or ((opened? (c :: cs)).map nameAhead)

/-- What a line of code says. -/
def factIn? (cs : List Char) : Option Fact :=
  match behind? "use" cs with
  | some rest => some (.uses (useIn rest))
  | none =>
      match (behind? "pub struct" cs).or (behind? "pub enum" cs) with
      | some rest => some (.declares (nameAhead rest))
      | none => if cs.head? = some '#' then none else (typeIn? cs).map .names

/-- What lines of source say, in their order. -/
abbrev facts (lines : List Line) : List Fact :=
  found factIn? lines

variable {name type text more : String} {c : Char} {cs : List Char}

/-! ## Names that are brought in -/

lemma words_of_not_isWritten (hc : isWritten c = false) (cs : List Char) :
    words (c :: cs) = words cs := by
  have hsplit : (c :: cs).splitOnP (fun d => !isWritten d) =
      [] :: cs.splitOnP fun d => !isWritten d :=
    List.splitOnP_append_cons [] cs (by simp [hc])
  rw [words, hsplit]
  rfl

/-- A word in front is the first of the words. -/
lemma Word.words_eq (h : Word name) (hc : Code.isWritten c = false) (cs : List Char) :
    words (name.toList ++ c :: cs) = name :: words cs := by
  have hsplit : (name.toList ++ c :: cs).splitOnP (fun d => !Code.isWritten d) =
      name.toList :: cs.splitOnP fun d => !Code.isWritten d :=
    List.splitOnP_append_cons_of_forall_mem (fun d hd => by simp [h.isWritten d hd]) c
      (by simp [hc]) cs
  have hname : name.toList.isEmpty = false := by simpa using h.ne_nil
  rw [words, hsplit, List.filter_cons_of_pos (by simp [hname]), List.map_cons, String.ofList_toList]
  rfl

/-- Names listed with commas are read back. -/
lemma words_intercalate {names : List String} (h : ∀ n ∈ names, Word n) (hc : isWritten c = false)
    (cs : List Char) :
    words ((", ".intercalate names).toList ++ c :: cs) = names ++ words cs := by
  induction names with
  | nil => exact words_of_not_isWritten hc cs
  | cons n ns ih =>
      obtain ⟨hn, hns⟩ := List.forall_mem_cons.mp h
      cases ns with
      | nil => rw [String.intercalate_singleton, hn.words_eq hc, List.singleton_append]
      | cons m ns =>
          rw [String.intercalate_cons_cons, String.toList_append, String.toList_append,
            List.append_assoc, List.append_assoc]
          have hcomma : words (n.toList ++ (", ".toList ++
              ((", ".intercalate (m :: ns)).toList ++ c :: cs))) =
                n :: words (' ' :: ((", ".intercalate (m :: ns)).toList ++ c :: cs)) :=
            hn.words_eq (by decide) _
          rw [hcomma, words_of_not_isWritten (by decide), ih hns]
          rfl

/-- The names of an import are read back. -/
lemma words_useList {names : List String} (h : ∀ n ∈ names, Word n) :
    words ((useList names).toList ++ [';']) = names := by
  have hmany : ∀ ns, (∀ n ∈ ns, Word n) →
      words (("\x7b" ++ ", ".intercalate ns ++ "\x7d").toList ++ [';']) = ns := by
    intro ns hns
    have hbrace : ("\x7b" ++ ", ".intercalate ns ++ "\x7d").toList ++ [';'] =
        '\x7b' :: ((", ".intercalate ns).toList ++ ['\x7d', ';']) := by
      simp [String.toList_append]
    rw [hbrace, words_of_not_isWritten (by decide), words_intercalate hns (by decide)]
    exact List.append_nil ns
  match names with
  | [] => exact hmany [] h
  | [n] => exact (h n List.mem_cons_self).words_eq (by decide) []
  | n :: m :: ns => exact hmany (n :: m :: ns) h

/-- An import is split at the last separator of its path. -/
lemma useIn_eq {tail : List Char} (h : ':' ∉ tail) (source : String) :
    useIn (source.toList ++ ':' :: ':' :: tail) = ⟨source, words tail⟩ := by
  have hreverse : (source.toList ++ ':' :: ':' :: tail).reverse =
      tail.reverse ++ ':' :: ':' :: source.toList.reverse := by
    simp
  have hrest : ∀ d ∈ tail.reverse, decide (d ≠ ':') = true := by
    intro d hd
    rw [decide_eq_true_eq]
    rintro rfl
    exact h (List.mem_reverse.mp hd)
  rw [useIn, hreverse, List.dropWhile_append_of_pos hrest, List.takeWhile_append_of_pos hrest]
  simp

lemma Word.not_mem (h : Word name) (hc : Code.isWritten c = false) : c ∉ name.toList := by
  intro hmem
  rw [h.isWritten c hmem] at hc
  exact nomatch hc

lemma not_mem_append (h : c ∉ text.toList) (h' : c ∉ more.toList) : c ∉ (text ++ more).toList := by
  rw [String.toList_append, List.mem_append, not_or]
  exact ⟨h, h'⟩

/-- The characters of a list are those of its elements and of what separates them. -/
lemma not_mem_intercalate {sep : String} {texts : List String} (hsep : c ∉ sep.toList)
    (h : ∀ t ∈ texts, c ∉ t.toList) : c ∉ (sep.intercalate texts).toList := by
  induction texts with
  | nil => simp
  | cons t ts ih =>
      obtain ⟨ht, hts⟩ := List.forall_mem_cons.mp h
      cases ts with
      | nil => rwa [String.intercalate_singleton]
      | cons u us =>
          rw [String.intercalate_cons_cons]
          exact not_mem_append (not_mem_append ht hsep) (ih hts)

lemma not_mem_useList {names : List String} (h : ∀ n ∈ names, Word n) :
    ':' ∉ (useList names).toList ++ [';'] := by
  have hmany : ∀ ns : List String, (∀ n ∈ ns, Word n) →
      ':' ∉ ("\x7b" ++ ", ".intercalate ns ++ "\x7d").toList := by
    intro ns hns
    have hnames : ':' ∉ (", ".intercalate ns).toList :=
      not_mem_intercalate (by decide) fun n hn => (hns n hn).not_mem (by decide)
    exact not_mem_append (not_mem_append (by decide) hnames) (by decide)
  rw [List.mem_append, not_or]
  refine ⟨?_, by decide⟩
  match names with
  | [] => exact hmany [] h
  | [n] => exact (h n List.mem_cons_self).not_mem (by decide)
  | n :: m :: ns => exact hmany (n :: m :: ns) h

/-- The line of an import says what is imported from where. -/
lemma Use.factIn?_line {u : Use} (h : ∀ n ∈ u.names, Word n) :
    factIn? ("use " ++ u.source ++ "::" ++ useList u.names ++ ";").toList = some (.uses u) := by
  have htext : ("use " ++ u.source ++ "::" ++ useList u.names ++ ";").toList =
      "use ".toList ++ (u.source.toList ++ ':' :: ':' :: ((useList u.names).toList ++ [';'])) := by
    simp [String.toList_append]
  have huse : ∀ cs, factIn? ("use ".toList ++ cs) = some (.uses (useIn cs)) := fun _ => rfl
  rw [htext, huse, useIn_eq (not_mem_useList h), words_useList h]

/-! ## Types that are named -/

/-- Only an angle bracket or a slice opens a type. -/
lemma opened?_eq_none (hc : c ≠ '<') (h : c ≠ '&' ∨ '[' ∉ cs) : opened? (c :: cs) = none := by
  unfold opened?
  split
  · next heq => exact absurd (List.cons.inj heq).1 hc
  · next heq => exact absurd (List.cons.inj heq).1 hc
  · next heq =>
      obtain ⟨rfl, rfl⟩ := List.cons.inj heq
      rcases h with h | h
      · exact absurd rfl h
      · exact absurd List.mem_cons_self h
  · rfl

/-- Without an opening no type is named. -/
lemma typeIn?_eq_none (h : '<' ∉ cs) (h' : '&' ∉ cs ∨ '[' ∉ cs) : typeIn? cs = none := by
  induction cs with
  | nil => rfl
  | cons c cs ih =>
      simp only [List.mem_cons, not_or] at h h'
      have hrest : typeIn? cs = none := ih h.2 (h'.imp And.right And.right)
      have hopened : opened? (c :: cs) = none :=
        opened?_eq_none (Ne.symm h.1) (h'.imp (fun h => Ne.symm h.1) And.right)
      rw [typeIn?, hrest, hopened]
      rfl

/-- A type that is named further back counts. -/
lemma typeIn?_append (front : List Char) (h : typeIn? cs = some type) :
    typeIn? (front ++ cs) = some type := by
  induction front with
  | nil => exact h
  | cons c front ih =>
      rw [List.cons_append, typeIn?, ih]
      rfl

/-- A text in which nothing opens. -/
def Quiet (text : String) : Prop :=
  '<' ∉ text.toList ∧ '[' ∉ text.toList

instance (text : String) : Decidable (Quiet text) :=
  inferInstanceAs (Decidable (_ ∧ _))

/-- A text in two quiet parts is quiet. -/
lemma Quiet.append (h : Quiet text) (h' : Quiet more) : Quiet (text ++ more) :=
  ⟨not_mem_append h.1 h'.1, not_mem_append h.2 h'.2⟩

lemma Word.quiet (h : Word name) : Quiet name :=
  ⟨h.not_mem (by decide), h.not_mem (by decide)⟩

lemma not_mem_toString (n : Nat) (hc : c.isDigit = false) : c ∉ (toString n).toList := by
  intro hmem
  rw [Nat.toString_eq_ofList_toDigits, String.toList_ofList] at hmem
  rw [Nat.isDigit_of_mem_toDigits (by decide) (by decide) hmem] at hc
  exact nomatch hc

lemma quiet_toString (n : Nat) : Quiet (toString n) :=
  ⟨not_mem_toString n (by decide), not_mem_toString n (by decide)⟩

/-- Openings of arguments and elements. -/
def openings : List String :=
  ["<", "<&", "&["]

/-- What stands between an opening and the next character that is not part of a name is named. -/
lemma typeIn?_opening {opening tail : String}
    (hopening : ∃ o ∈ openings, o.toList <:+ opening.toList)
    (htype : Word type) (htail : tail.toList.head?.all isWritten = false) (hquiet : Quiet tail) :
    typeIn? (opening ++ (type ++ tail)).toList = some type := by
  obtain ⟨o, ho, front, hfront⟩ := hopening
  rw [String.toList_append, String.toList_append, ← hfront, List.append_assoc]
  refine typeIn?_append front ?_
  obtain ⟨hangle, hbracket⟩ := htype.quiet.append hquiet
  rw [String.toList_append] at hangle hbracket
  have hrest := typeIn?_eq_none hangle (.inr hbracket)
  have hname : nameAhead (type.toList ++ tail.toList) = type := by
    obtain ⟨d, ds, hd, hwritten⟩ := exists_of_head?_all htail
    rw [hd]
    exact htype.nameAhead_eq hwritten
  have hargument : opened? ('<' :: (type.toList ++ tail.toList)) =
      some (type.toList ++ tail.toList) := by
    obtain ⟨d, ds, hchars⟩ := List.exists_cons_of_ne_nil htype.ne_nil
    have hd : d ≠ '&' := by
      rintro rfl
      exact absurd (htype.isWritten '&' (by simp [hchars])) (by decide)
    rw [hchars]
    simp [opened?, hd]
  simp only [openings, List.mem_cons, List.not_mem_nil, or_false] at ho
  rcases ho with rfl | rfl | rfl
  · have hstep : typeIn? ("<".toList ++ (type.toList ++ tail.toList)) =
        (typeIn? (type.toList ++ tail.toList)).or
          ((opened? ('<' :: (type.toList ++ tail.toList))).map nameAhead) := rfl
    rw [hstep, hrest, hargument, Option.map_some, hname]
    rfl
  · have hborrowed : typeIn? ('&' :: (type.toList ++ tail.toList)) = none :=
      typeIn?_eq_none (by simpa using hangle) (.inr (by simpa using hbracket))
    have hstep : typeIn? ("<&".toList ++ (type.toList ++ tail.toList)) =
        (typeIn? ('&' :: (type.toList ++ tail.toList))).or
          (some (nameAhead (type.toList ++ tail.toList))) := rfl
    rw [hstep, hborrowed, hname]
    rfl
  · have hstep : typeIn? ("&[".toList ++ (type.toList ++ tail.toList)) =
        ((typeIn? (type.toList ++ tail.toList)).or none).or
          (some (nameAhead (type.toList ++ tail.toList))) := rfl
    rw [hstep, hrest, hname]
    rfl

/-! ## Lines that declare nothing -/

/-- A beginning after which a line says only what type it names. -/
def Ordinary (text : String) : Prop :=
  ∀ tail : List Char,
    factIn? (text.toList ++ tail) = (typeIn? (text.toList ++ tail)).map Fact.names

lemma Ordinary.append (h : Ordinary text) (more : String) : Ordinary (text ++ more) := by
  intro tail
  rw [String.toList_append, List.append_assoc]
  exact h _

/-- A line that starts like no import, item or attribute says at most what type it names. -/
lemma ordinary_of_head (htext : text.toList.head?.all ['u', 'p', '#'].contains = false) :
    Ordinary text := by
  intro tail
  obtain ⟨c, cs, hchars, hc⟩ := exists_of_head?_all htext
  simp only [List.contains_eq_mem, List.mem_cons, List.not_mem_nil, or_false,
    decide_eq_false_iff_not, not_or] at hc
  obtain ⟨hu, hp, hmark⟩ := hc
  rw [hchars]
  simp [factIn?, behind?, List.isPrefixOf?, Ne.symm hu, Ne.symm hp, hmark]

/-- No legal name starts with the sign of an attribute. -/
lemma head?_ne_of_legal (h : Name.Legal name) : (name.toList ++ cs).head? ≠ some '#' := by
  have hid := h.isIdentifier
  unfold Name.bare at hid
  split at hid
  · next ds hchars => simp [hchars]
  · obtain ⟨d, ds, hchars, hstart, -⟩ := Name.exists_cons_of_isIdentifier hid
    rw [hchars, List.cons_append, List.head?_cons, Ne, Option.some.injEq]
    rintro rfl
    exact absurd hstart (by decide)

/-- A line that starts with a name declares nothing. -/
lemma ordinary_name (h : Name.Legal name) (htext : text.toList.head?.all isWritten = false) :
    Ordinary (name ++ text) := by
  intro tail
  obtain ⟨c, cs, hchars, hc⟩ := exists_of_head?_all htext
  rw [String.toList_append, List.append_assoc, hchars]
  have huse : behind? "use" (name.toList ++ (c :: cs ++ tail)) = none :=
    isPrefixOf?_name "use" (by simp) h hc []
  have hstruct : behind? "pub struct" (name.toList ++ (c :: cs ++ tail)) = none :=
    isPrefixOf?_name "pub" (by simp) h hc "struct ".toList
  have henum : behind? "pub enum" (name.toList ++ (c :: cs ++ tail)) = none :=
    isPrefixOf?_name "pub" (by simp) h hc "enum ".toList
  rw [factIn?, huse, hstruct, henum, if_neg (head?_ne_of_legal h)]
  rfl

lemma ordinary_pub (h : text ∈ ["pub fn ", "pub const "]) : Ordinary text := by
  simp only [List.mem_cons, List.not_mem_nil, or_false] at h
  rcases h with rfl | rfl <;> exact fun _ => rfl

lemma Ordinary.factIn?_eq (h : Ordinary text) :
    factIn? text.toList = (typeIn? text.toList).map Fact.names := by
  simpa using h []

/-- An ordinary line in which nothing opens says nothing. -/
lemma Ordinary.silent (h : Ordinary text) (hquiet : Quiet text) : factIn? text.toList = none := by
  rw [h.factIn?_eq, typeIn?_eq_none hquiet.1 (.inr hquiet.2)]
  rfl

/-- A quiet text between fixed ones says nothing, if the line begins like none that declares. -/
lemma factIn?_between {front middle back : String}
    (hhead : front.toList.head?.all ['u', 'p', '#'].contains = false) (hfront : Quiet front)
    (hmiddle : Quiet middle) (hback : Quiet back) :
    factIn? (front ++ middle ++ back).toList = none := by
  have hordinary := ((ordinary_of_head hhead).append middle).append back
  exact hordinary.silent ((hfront.append hmiddle).append hback)

/-! ## Lines that say something -/

lemma factIn?_close : factIn? "\x7d".toList = none := rfl

/-- A line with `pub struct` or `pub enum` declares the type behind it. -/
lemma factIn?_declaration {front tail : String} (hfront : front ∈ ["pub struct ", "pub enum "])
    (hname : Word name) (htail : tail.toList.head?.all isWritten = false) :
    factIn? (front ++ name ++ tail).toList = some (.declares name) := by
  obtain ⟨c, cs, hchars, hc⟩ := exists_of_head?_all htail
  have hahead : ∀ ds, factIn? ("pub struct ".toList ++ ds) = some (.declares (nameAhead ds)) ∧
      factIn? ("pub enum ".toList ++ ds) = some (.declares (nameAhead ds)) :=
    fun _ => ⟨rfl, rfl⟩
  rw [String.toList_append, String.toList_append, List.append_assoc, hchars]
  simp only [List.mem_cons, List.not_mem_nil, or_false] at hfront
  rcases hfront with rfl | rfl
  · rw [(hahead _).1, hname.nameAhead_eq hc]
  · rw [(hahead _).2, hname.nameAhead_eq hc]

/-- A line names the type that stands in its last argument or element. -/
lemma Ordinary.names {opening : String} (h : Ordinary (text ++ opening)) (tail : String)
    (hopening : ∃ o ∈ openings, o.toList <:+ opening.toList) (htype : Word type)
    (htail : tail.toList.head?.all isWritten = false) (hquiet : Quiet tail) :
    factIn? (text ++ opening ++ type ++ tail).toList = some (.names type) := by
  rw [((h.append _).append _).factIn?_eq, String.append_assoc, String.append_assoc,
    String.toList_append, typeIn?_append _ (typeIn?_opening hopening htype htail hquiet)]
  rfl

/-! ## Parameter types -/

lemma facts_variantLines {variants : List Constant} (h : ∀ v ∈ variants, Name.Legal v.name) :
    facts (variantLines variants) = [] := by
  have hsilent : ∀ v ∈ variants,
      factIn? (v.name ++ " = " ++ toString v.value.toNat ++ ",").toList = none := by
    intro v hv
    refine (((ordinary_name (h v hv) (by decide)).append _).append _).silent ?_
    exact (((word_of_legal (h v hv)).quiet.append (by decide)).append
      (quiet_toString _)).append (by decide)
  cases variants with
  | nil => rfl
  | cons first others =>
      obtain ⟨hfirst, hothers⟩ := List.forall_mem_cons.mp hsilent
      have hdefault : factIn? "#[default]".toList = none := rfl
      rw [facts, variantLines, found_append, found_append, found_docs, found_code, found_code,
        hdefault, hfirst, found_described, List.filterMap_eq_nil_iff.mpr hothers]
      rfl

/-- The line that lists all members of an enumeration. -/
def Enumeration.allText (e : Enumeration) : String :=
  "pub const ALL: [Self; " ++ toString e.variants.length ++ "] = [" ++
    ", ".intercalate (e.variants.map fun c => "Self::" ++ c.name) ++ "];"

lemma Enumeration.not_mem_allText {e : Enumeration} (h : ∀ v ∈ e.variants, Name.Legal v.name)
    (hdigit : c.isDigit = false) (hwritten : isWritten c = false)
    (hfixed : ∀ t ∈ ["pub const ALL: [Self; ", "] = [", "];", ", ", "Self::"], c ∉ t.toList) :
    c ∉ e.allText.toList := by
  have hnames : c ∉ (", ".intercalate (e.variants.map fun v => "Self::" ++ v.name)).toList := by
    refine not_mem_intercalate (hfixed ", " (by simp)) (List.forall_mem_map.mpr fun v hv => ?_)
    exact not_mem_append (hfixed "Self::" (by simp)) ((word_of_legal (h v hv)).not_mem hwritten)
  have hfirst := hfixed "pub const ALL: [Self; " (by simp)
  have hmiddle := hfixed "] = [" (by simp)
  have hlast := hfixed "];" (by simp)
  exact not_mem_append (not_mem_append (not_mem_append (not_mem_append hfirst
    (not_mem_toString _ hdigit)) hmiddle) hnames) hlast

/-- It has square brackets, but nothing is borrowed in it. -/
lemma Enumeration.factIn?_allText {e : Enumeration} (h : ∀ v ∈ e.variants, Name.Legal v.name) :
    factIn? e.allText.toList = none := by
  have hangle : '<' ∉ e.allText.toList :=
    not_mem_allText h (by decide) (by decide) (by simp)
  have hborrow : '&' ∉ e.allText.toList :=
    not_mem_allText h (by decide) (by decide) (by simp)
  have hopens : Ordinary "pub const ALL: [Self; " := fun _ => rfl
  have hordinary : Ordinary e.allText := (((hopens.append _).append _).append _).append _
  rw [hordinary.factIn?_eq, typeIn?_eq_none hangle (.inl hborrow)]
  rfl

/-- An enumeration declares its type and names no other. -/
lemma Enumeration.facts_lines {e : Enumeration} (hname : Name.Legal e.name)
    (h : ∀ v ∈ e.variants, Name.Legal v.name) : facts e.lines = [.declares e.name] := by
  have hword := word_of_legal hname
  have hvariants : found factIn? (variantLines e.variants) = [] := facts_variantLines h
  have henum : factIn? ("pub enum " ++ e.name ++ " \x7b").toList = some (.declares e.name) :=
    factIn?_declaration (by simp) hword (by decide)
  have himpl : factIn? ("impl " ++ e.name ++ " \x7b").toList = none :=
    factIn?_between (by decide) (by decide) hword.quiet (by decide)
  have hall : factIn? ("pub const ALL: [Self; " ++ toString e.variants.length ++ "] = [" ++
      ", ".intercalate (e.variants.map fun c => "Self::" ++ c.name) ++ "];").toList = none :=
    factIn?_allText h
  simp only [facts, lines, found_append, found_docs, found_block factIn?_close, henum, himpl,
    hvariants, found_doc, found_code, hall]
  rfl

/-- A flag set declares its type and names no other. -/
lemma FlagSet.facts_lines {f : FlagSet} (hname : Name.Legal f.name)
    (h : ∀ c ∈ f.constants, Name.Legal c.name) : facts f.lines = [.declares f.name] := by
  have hword := word_of_legal hname
  have hfixed : found factIn? fixedLines = [] := by decide +kernel
  have hstruct : factIn? ("pub struct " ++ f.name ++ "(u32);").toList =
      some (.declares f.name) := factIn?_declaration (by simp) hword (by decide)
  have himpl : ∀ front ∈ ["impl ", "impl std::ops::BitOr for ", "impl std::ops::BitOrAssign for "],
      factIn? (front ++ f.name ++ " \x7b").toList = none := by
    intro front hfront
    have hfixed : ∀ t ∈ ["impl ", "impl std::ops::BitOr for ", "impl std::ops::BitOrAssign for "],
        t.toList.head?.all ['u', 'p', '#'].contains = false ∧ Quiet t := by
      decide +kernel
    obtain ⟨hhead, hquiet⟩ := hfixed front hfront
    exact factIn?_between hhead hquiet hword.quiet (by decide)
  have hconstant : ∀ c ∈ f.constants, factIn? (constantText c).toList = none := by
    intro c hc
    refine (((((ordinary_pub (by simp)).append _).append _).append _).append _).silent ?_
    exact (((Quiet.append (by decide) (word_of_legal (h c hc)).quiet).append (by decide)).append
      (quiet_toString _)).append (by decide)
  have hmask : factIn? ("Self(" ++ toString f.mask.toNat ++ ")").toList = none :=
    factIn?_between (by decide) (by decide) (quiet_toString _) (by decide)
  rw [facts, found_eq_of_silent factIn?_close hfixed himpl hmask, hstruct,
    List.filterMap_eq_nil_iff.mpr hconstant]
  rfl

/-- What a parameter type says: only that it is declared. -/
lemma ParameterItem.facts_lines {p : ParameterItem} (hname : Name.Legal p.name)
    (h : ∀ n ∈ p.memberNames, Name.Legal n) : facts p.lines = [.declares p.name] := by
  cases p with
  | enumeration e =>
      exact e.facts_lines hname fun v hv => h _ (.tail _ (List.mem_map.mpr ⟨v, hv, rfl⟩))
  | flagSet f =>
      exact f.facts_lines hname fun c hc =>
        h _ (List.mem_append_left _ (List.mem_map.mpr ⟨c, hc, rfl⟩))

/-! ## Object types -/

lemma facts_deriveLines (derives : List String) : facts (deriveLines derives) = [] := by
  have hattribute : ∀ cs, factIn? ("#[derive(".toList ++ cs) = none := fun _ => rfl
  unfold deriveLines
  split_ifs
  · rfl
  · rw [facts, found_code, String.toList_append, String.toList_append, List.append_assoc,
      hattribute]
    rfl

/-- What stands at the start of every function of a record or an aggregate. -/
lemma ordinary_pub_fn (name more : String) : Ordinary ("pub fn " ++ name ++ more) :=
  ((ordinary_pub (by simp)).append _).append _

namespace Field

variable {f : Field}

/-- The line of a field names the type it stores. -/
lemma factIn?_stored (hname : Name.Legal f.name) (htype : Word f.type) :
    factIn? (f.name ++ ": " ++ f.storedType ++ ",").toList = some (.names f.type) := by
  have hordinary : ∀ more, Ordinary (f.name ++ ": " ++ more) := fun more =>
    (ordinary_name hname (by decide)).append more
  have hplain := (hordinary "Option<").names (">" ++ ",") ⟨"<", by decide⟩ htype (by decide)
    (by decide)
  have hboxed := (hordinary "Option<Box<").names (">>" ++ ",") ⟨"<", by decide⟩ htype (by decide)
    (by decide)
  unfold storedType
  cases f.storage with
  | value => simpa only [String.append_assoc] using hplain
  | parameter => simpa only [String.append_assoc] using hplain
  | relation => simpa only [String.append_assoc] using hboxed

lemma factIn?_getter (htype : Word f.type) :
    factIn? ("pub fn " ++ f.name ++ "(&self) -> " ++ f.handedType ++ " \x7b").toList =
      some (.names f.type) := by
  have hordinary := (ordinary_pub_fn f.name "(&self) -> ").append
  have hplain := (hordinary "Option<").names (">" ++ " \x7b") ⟨"<", by decide⟩ htype (by decide)
    (by decide)
  have hborrowed := (hordinary "Option<&").names (">" ++ " \x7b") ⟨"<&", by decide⟩ htype
    (by decide) (by decide)
  unfold handedType
  cases f.storage with
  | value => simpa only [String.append_assoc] using hborrowed
  | parameter => simpa only [String.append_assoc] using hplain
  | relation => simpa only [String.append_assoc] using hborrowed

lemma factIn?_setter (htype : Word f.type) :
    factIn? ("pub fn " ++ f.setter ++ "(&mut self, value: Option<" ++ f.type ++ ">)" ++
      " \x7b").toList = some (.names f.type) := by
  have hnames := (ordinary_pub_fn f.setter "(&mut self, value: Option<").names (">)" ++ " \x7b")
    ⟨"<", by decide⟩ htype (by decide) (by decide)
  rwa [← String.append_assoc] at hnames

/-- A field is read and written by expressions that name no type. -/
lemma factIn?_getExpr (hname : Name.Legal f.name) : factIn? f.getExpr.toList = none := by
  have hquiet := (word_of_legal hname).quiet
  unfold getExpr
  cases f.storage with
  | value => exact factIn?_between (by decide) (by decide) hquiet (by decide)
  | parameter =>
      exact ((ordinary_of_head (by decide)).append _).silent (Quiet.append (by decide) hquiet)
  | relation => exact factIn?_between (by decide) (by decide) hquiet (by decide)

lemma factIn?_assignment (hname : Name.Legal f.name) :
    factIn? ("self." ++ f.name ++ " = " ++ f.setExpr ++ ";").toList = none := by
  have hquiet : Quiet f.setExpr := by
    unfold setExpr
    cases f.storage <;> decide
  refine (((((ordinary_of_head (by decide)).append _).append _).append _).append _).silent ?_
  exact (((Quiet.append (by decide) (word_of_legal hname).quiet).append (by decide)).append
    hquiet).append (by decide)

/-- The getter and the setter of a field name its type. -/
lemma facts_accessorLines (hname : Name.Legal f.name) (htype : Word f.type) :
    facts f.accessorLines = [Fact.names f.type, Fact.names f.type] := by
  simp only [facts, accessorLines, found_append, found_docs, found_block factIn?_close, found_code,
    factIn?_getter htype, factIn?_setter htype, factIn?_getExpr hname, factIn?_assignment hname]
  rfl

end Field

/-- What a record says: that it is declared, and the type of each property in its field, its getter
and its setter. -/
def Record.facts (r : Record) : List Fact :=
  .declares r.name :: (r.fields.map fun f => Fact.names f.type) ++
    r.fields.flatMap fun f => [Fact.names f.type, Fact.names f.type]

/-- The lines of a record say its facts, in order. -/
lemma Record.facts_lines {r : Record} (derives : List String) (hname : Name.Legal r.name)
    (hfields : ∀ f ∈ r.fields, Name.Legal f.name ∧ Word f.type) :
    Code.facts (r.lines derives) = r.facts := by
  have hword := word_of_legal hname
  have hstruct : ∀ tail : String, tail.toList.head?.all isWritten = false →
      factIn? ("pub struct " ++ r.name ++ tail).toList = some (.declares r.name) :=
    fun tail htail => factIn?_declaration (by simp) hword htail
  have himpl : factIn? ("impl " ++ r.name ++ " \x7b").toList = none :=
    factIn?_between (by decide) (by decide) hword.quiet (by decide)
  have hvalues : ∀ f ∈ r.fields, factIn? (f.name ++ ": None,").toList = none := by
    intro f hf
    refine (ordinary_name (hfields f hf).1 (by decide)).silent ?_
    exact (word_of_legal (hfields f hf).1).quiet.append (by decide)
  have hstored : (r.fields.filterMap fun f =>
      factIn? (f.name ++ ": " ++ f.storedType ++ ",").toList) =
        r.fields.map fun f => Fact.names f.type := by
    rw [List.filterMap_eq_map_iff_forall_eq_some]
    exact fun f hf => f.factIn?_stored (hfields f hf).1 (hfields f hf).2
  have haccessors : (r.fields.flatMap fun f => found factIn? f.accessorLines) =
      r.fields.flatMap fun f => [Fact.names f.type, Fact.names f.type] :=
    List.flatMap_congr fun f hf => f.facts_accessorLines (hfields f hf).1 (hfields f hf).2
  have hderives : found factIn? (deriveLines derives) = [] := facts_deriveLines derives
  have hblank : found factIn? [.blank] = [] := rfl
  have hnew : found factIn? (block "pub fn new() -> Self"
      (blockOrEmpty "Self" (r.fields.map fun f => code (f.name ++ ": None,")))) = [] := by
    have hself : factIn? ("Self" ++ " \x7b").toList = none := rfl
    have hempty : factIn? ("Self" ++ " \x7b\x7d").toList = none := rfl
    rw [found_block factIn?_close, found_blockOrEmpty factIn?_close hself hempty, found_map_code,
      List.filterMap_eq_nil_iff.mpr hvalues]
    rfl
  simp only [Code.facts, lines, found_append, found_docLines, hderives,
    found_blockOrEmpty factIn?_close (hstruct " \x7b" (by decide))
      (hstruct " \x7b\x7d" (by decide)),
    found_map_code, hstored, found_block factIn?_close ("impl " ++ r.name), himpl, found_separated,
    List.flatMap_cons, hnew, List.flatMap_map, haccessors, hblank]
  simp [Record.facts]

/-! ## Aggregates -/

/-- What an aggregate says: that it is declared, and the element of each collection, in its field if
there is one and in the two functions that hand it out. -/
def Aggregate.facts (a : Aggregate) : List Fact :=
  .declares a.name :: (a.fields.map fun c => Fact.names c.element) ++
    a.accessors.flatMap fun c => [Fact.names c.element, Fact.names c.element]

namespace Access

variable {c : Accessor}

/-- The head of an accessor names the element of the collection. -/
lemma factIn?_head (way : Access) (h : Word c.element) :
    factIn? (way.head c ++ " \x7b").toList = some (.names c.element) := by
  cases way with
  | read =>
      have hnames := (ordinary_pub_fn c.name "(&self) -> &[").names ("]" ++ " \x7b")
        ⟨"&[", by decide⟩ h (by decide) (by decide)
      rwa [← String.append_assoc] at hnames
  | write =>
      have hnames := (ordinary_pub_fn c.name "_mut(&mut self) -> &mut Vec<").names
        (">" ++ " \x7b") ⟨"<", by decide⟩ h (by decide) (by decide)
      rwa [← String.append_assoc] at hnames

/-- The body of an accessor names no type. -/
lemma factIn?_body (way : Access) (h : Name.Legal c.name) : factIn? (way.body c).toList = none := by
  have hquiet := (word_of_legal h).quiet
  cases hc : c.isOwn with
  | true =>
      rw [way.body_own hc]
      cases way <;>
        exact ((ordinary_of_head (by decide)).append _).silent (Quiet.append (by decide) hquiet)
  | false =>
      have hcallee : Quiet (way.function c.name) := by
        cases way with
        | read => exact hquiet
        | write => exact hquiet.append (by decide)
      rw [way.body_inherited hc]
      exact factIn?_between (by decide) (by decide) hcallee (by decide)

lemma facts_lines (way : Access) (hname : Name.Legal c.name) (helement : Word c.element) :
    Code.facts (way.lines c) = [Fact.names c.element] := by
  rw [lines, Code.facts, found_block factIn?_close, found_code, way.factIn?_head helement,
    way.factIn?_body hname]
  rfl

end Access

namespace Aggregate

variable {a : Aggregate}

lemma facts_baseLines (h : ∀ base ∈ a.base, Quiet base) : a.baseLines.flatMap Code.facts = [] := by
  unfold baseLines
  cases hbase : a.base with
  | none => rfl
  | some base =>
      have hquiet := h base hbase
      have hget : factIn? ("pub fn base(&self) -> &" ++ base ++ " \x7b").toList = none := by
        refine ((ordinary_pub_fn "base(&self) -> &" base).append _).silent ?_
        exact (Quiet.append (by decide) hquiet).append (by decide)
      have hgetMut : factIn? ("pub fn base_mut(&mut self) -> &mut " ++ base ++ " \x7b").toList =
          none := by
        refine ((ordinary_pub_fn "base_mut(&mut self) -> &mut " base).append _).silent ?_
        exact (Quiet.append (by decide) hquiet).append (by decide)
      simp only [List.flatMap_cons, Code.facts, found_block factIn?_close, found_code, hget,
        hgetMut]
      rfl

/-- The type of an aggregate names the elements of its own collections. -/
lemma facts_typeLines (hfields : ∀ c ∈ a.fields, Name.Legal c.name ∧ Word c.element)
    (hbase : ∀ base ∈ a.base, Quiet base) :
    Code.facts a.typeLines = a.fields.map fun c => Fact.names c.element := by
  have hbaseType : ∀ base ∈ a.base.toList, factIn? ("base: " ++ base ++ ",").toList = none := by
    intro base hb
    exact factIn?_between (by decide) (by decide) (hbase base (by simpa using hb)) (by decide)
  rw [typeLines, Code.facts, found_append, found_map_code, found_map_code,
    List.filterMap_eq_nil_iff.mpr hbaseType, List.nil_append,
    List.filterMap_eq_map_iff_forall_eq_some]
  intro c hc
  obtain ⟨hlegal, helement⟩ := hfields c hc
  exact (ordinary_name hlegal (by decide)).names ">," ⟨"<", by decide⟩ helement (by decide)
    (by decide)

/-- The first values of its fields name no type. -/
lemma facts_valueLines (hfields : ∀ c ∈ a.fields, Name.Legal c.name)
    (hbase : ∀ base ∈ a.base, Quiet base) : Code.facts a.valueLines = [] := by
  have hbaseValue : ∀ base ∈ a.base.toList,
      factIn? ("base: " ++ base ++ "::new(),").toList = none := by
    intro base hb
    exact factIn?_between (by decide) (by decide) (hbase base (by simpa using hb)) (by decide)
  have hvalues : ∀ c ∈ a.fields, factIn? (c.name ++ ": Vec::new(),").toList = none := by
    intro c hc
    refine (ordinary_name (hfields c hc) (by decide)).silent ?_
    exact (word_of_legal (hfields c hc)).quiet.append (by decide)
  rw [valueLines, Code.facts, found_append, found_map_code, found_map_code,
    List.filterMap_eq_nil_iff.mpr hbaseValue, List.filterMap_eq_nil_iff.mpr hvalues]
  rfl

/-- The lines of an aggregate say its facts, in order. -/
lemma facts_lines (derives : List String) (hname : Name.Legal a.name)
    (haccessors : ∀ c ∈ a.accessors, Name.Legal c.name ∧ Word c.element)
    (hbase : ∀ base ∈ a.base, Quiet base) : Code.facts (a.lines derives) = a.facts := by
  have hfields : ∀ c ∈ a.fields, Name.Legal c.name ∧ Word c.element := fun c hc =>
    haccessors c (List.mem_of_mem_filter hc)
  have hstruct : factIn? ("pub struct " ++ a.name ++ " \x7b").toList = some (.declares a.name) :=
    factIn?_declaration (by simp) (word_of_legal hname) (by decide)
  have himpl : factIn? ("impl " ++ a.name ++ " \x7b").toList = none :=
    factIn?_between (by decide) (by decide) (word_of_legal hname).quiet (by decide)
  have htypes : found factIn? a.typeLines = a.fields.map fun c => Fact.names c.element :=
    facts_typeLines hfields hbase
  have hnew : found factIn? (block "pub fn new() -> Self" (block "Self" a.valueLines)) = [] := by
    have hvalues : found factIn? a.valueLines = [] :=
      facts_valueLines (fun c hc => (hfields c hc).1) hbase
    rw [found_block factIn?_close, found_block factIn?_close, hvalues]
    rfl
  have hfunctions : (a.accessors.flatMap Accessor.lines).flatMap (found factIn?) =
      a.accessors.flatMap fun c => [Fact.names c.element, Fact.names c.element] := by
    rw [List.flatMap_assoc]
    refine List.flatMap_congr fun c hc => ?_
    have hway : ∀ way : Access, found factIn? (way.lines c) = [Fact.names c.element] := fun way =>
      way.facts_lines (haccessors c hc).1 (haccessors c hc).2
    rw [c.lines_eq, List.flatMap_cons, List.flatMap_singleton, hway, hway]
    rfl
  have hbaseLines : a.baseLines.flatMap (found factIn?) = [] := facts_baseLines hbase
  have hderives : found factIn? (deriveLines derives) = [] := facts_deriveLines derives
  have hblank : found factIn? [.blank] = [] := rfl
  simp only [Code.facts, lines_eq, found_append, found_docLines, hderives,
    found_block factIn?_close ("pub struct " ++ a.name), hstruct, htypes, hblank,
    found_block factIn?_close ("impl " ++ a.name), himpl, found_separated, functionLines,
    List.flatMap_cons, hnew, List.flatMap_append, hbaseLines, hfunctions]
  simp [Aggregate.facts]

end Aggregate

/-! ## Modules -/

namespace Module

variable {m : Module}

/-- What a module says, in the order in which it is written. -/
def facts (m : Module) : List Fact :=
  m.uses.map .uses ++ (m.parameters.map fun p => Fact.declares p.name) ++
    m.records.flatMap Record.facts ++ m.aggregate.facts

/-- A module whose names can be read back from its source. -/
structure Readable (m : Module) : Prop where
  declared : ∀ n ∈ m.declaredNames, Name.Legal n
  imported : ∀ u ∈ m.uses, ∀ n ∈ u.names, Word n
  types : ∀ r ∈ m.records, ∀ f ∈ r.fields, Word f.type
  elements : ∀ c ∈ m.aggregate.accessors, Word c.element
  base : ∀ base ∈ m.aggregate.base, Quiet base

/-- **The source of a module says what its contents say.** -/
theorem facts_lines (h : m.Readable) (derives : List String) :
    Code.facts (m.lines derives) = m.facts := by
  have hdeclared := h.declared
  simp only [declaredNames, List.forall_mem_cons, List.forall_mem_append, List.forall_mem_map]
    at hdeclared
  obtain ⟨-, hname, ⟨⟨⟨hparameters, hrecords⟩, hmembers⟩, hfunctions⟩, haccessors⟩ := hdeclared
  have huses : ((if m.uses.isEmpty then [] else [m.uses.map Use.line]).flatMap (found factIn?)) =
      m.uses.map .uses := by
    have hlines : found factIn? (m.uses.map Use.line) = m.uses.map .uses := by
      have hread : found factIn? (m.uses.map Use.line) = m.uses.filterMap fun u =>
          factIn? ("use " ++ u.source ++ "::" ++ useList u.names ++ ";").toList :=
        found_map_code _ m.uses
      refine hread.trans (List.filterMap_eq_map_iff_forall_eq_some.mpr fun u hu => ?_)
      exact Use.factIn?_line (h.imported u hu)
    split_ifs with hempty
    · rw [List.isEmpty_iff.mp hempty]
      rfl
    · rw [List.flatMap_singleton, hlines]
  have hparameterFacts : m.parameters.flatMap (fun p => found factIn? p.lines) =
      m.parameters.map fun p => Fact.declares p.name := by
    rw [List.map_eq_flatMap]
    refine List.flatMap_congr fun p hp => p.facts_lines (hparameters p hp) fun n hn => ?_
    exact hmembers n (List.mem_flatMap.mpr ⟨p, hp, List.mem_append_right _ hn⟩)
  have hrecordFacts : m.records.flatMap (fun r => found factIn? (r.lines derives)) =
      m.records.flatMap Record.facts := by
    refine List.flatMap_congr fun r hr => r.facts_lines derives (hrecords r hr) fun f hf => ?_
    refine ⟨hfunctions f.name (List.mem_flatMap.mpr ⟨r, hr, .tail _ ?_⟩), h.types r hr f hf⟩
    exact List.mem_flatMap.mpr ⟨f, hf, List.mem_cons_self⟩
  have haggregateFacts : found factIn? (m.aggregate.lines derives) = m.aggregate.facts := by
    refine m.aggregate.facts_lines derives hname (fun c hc => ?_) h.base
    refine ⟨haccessors c.name (.tail _ (.tail _ (.tail _ ?_))), h.elements c hc⟩
    exact List.mem_flatMap.mpr ⟨c, hc, List.mem_cons_self⟩
  simp only [Code.facts, lines, found_separated, List.flatMap_append, huses, List.flatMap_map,
    hparameterFacts, hrecordFacts, List.flatMap_singleton, haggregateFacts]
  rfl

end Module

end LevelSchema.Code
