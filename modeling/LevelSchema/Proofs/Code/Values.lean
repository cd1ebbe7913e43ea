import Mathlib.Data.Nat.BitIndices
import LevelSchema.Proofs.Code.Modules
import LevelSchema.Proofs.Code.Units
import LevelSchema.Proofs.Schema.Numbering

/-!
# Values of members, from the declaration to the source

The number of a member is decided when it is loaded, and stands in the generated source as the value
of a variant or of a constant.

**Masks.**  Generating combines the flags one by one and refuses a flag that is not a single bit
outside the mask so far.  Each step adds one bit, which is the same for `or` and for `+`
(`Combines.step`), so the mask of a flag set is the union and the sum of its flags and has one bit
for each of them (`combines_flagMask`).

**Read back.**  A variant or constant is read from a line of source as a name and a number
(`valueIn?`).  No other line of a parameter type looks like one, so what is found is the list of
members with their values, in the order of declaration (`ParameterItem.writtenIn_lines`).
-/

namespace LevelSchema

namespace Code

/-! ## Masks -/

/-- The mask is all of the values together: their union and their sum, with one bit for each. -/
structure Combines (values : List Nat) (mask : Nat) : Prop where
  or_eq : mask = values.foldl (· ||| ·) 0
  sum_eq : mask = values.sum
  bits : (mask.bitIndices.map (2 ^ ·)).Perm values

lemma combines_nil : Combines [] 0 :=
  ⟨rfl, rfl, by simp⟩

/-- Words without a common bit are added by `or`. -/
lemma toNat_or_of_and_eq_zero {a b : UInt32} (h : a &&& b = 0) :
    (a ||| b).toNat = a.toNat + b.toNat := by
  have hbits : a.toBitVec &&& b.toBitVec = 0#32 := by
    rw [← UInt32.toBitVec_and, h]
    rfl
  have hor := BitVec.add_eq_or_of_and_eq_zero a.toBitVec b.toBitVec hbits
  have hsum := BitVec.toNat_add_of_and_eq_zero hbits
  rw [hor] at hsum
  exact hsum

/-- A bit that is not in the mask becomes one more bit of it. -/
lemma perm_bitIndices_or {mask k : Nat} (h : mask.testBit k = false) :
    (mask ||| 2 ^ k).bitIndices.Perm (k :: mask.bitIndices) := by
  have hnew : k ∉ mask.bitIndices := by
    rw [Nat.mem_bitIndices, h]
    exact Bool.false_ne_true
  refine (List.perm_ext_iff_of_nodup Nat.bitIndices_nodup
    (List.nodup_cons.mpr ⟨hnew, Nat.bitIndices_nodup⟩)).mpr fun i => ?_
  rw [Nat.mem_bitIndices, Nat.testBit_or, Nat.testBit_two_pow, List.mem_cons, Nat.mem_bitIndices,
    Bool.or_eq_true, decide_eq_true_iff, or_comm, eq_comm]

/-- One more flag. -/
lemma Combines.step {values : List Nat} {mask v : UInt32} (h : Combines values mask.toNat)
    (hbit : isSingleBit v.toNat = true) (hand : mask &&& v = 0) :
    Combines (values ++ [v.toNat]) (mask ||| v).toNat := by
  obtain ⟨k, hk⟩ := Load.isSingleBit_iff.mp hbit
  have hfree : mask.toNat.testBit k = false := by
    have hzero : mask.toNat &&& 2 ^ k = 0 := by
      rw [← hk, ← UInt32.toNat_and, hand]
      rfl
    have htest := congrArg (Nat.testBit · k) hzero
    simpa [Nat.testBit_two_pow_self] using htest
  have hor : (mask ||| v).toNat = mask.toNat ||| v.toNat := UInt32.toNat_or mask v
  refine ⟨?_, ?_, ?_⟩
  · rw [List.foldl_append, ← h.or_eq, hor]
    rfl
  · rw [List.sum_append, ← h.sum_eq, toNat_or_of_and_eq_zero hand, List.sum_singleton]
  · have hbits := (perm_bitIndices_or hfree).map (2 ^ ·)
    rw [hor, hk]
    rw [List.map_cons] at hbits
    exact (hbits.trans (h.bits.cons _)).trans (List.perm_append_singleton _ _).symm

/-- The mask of a list of flags combines them with what was in the mask before. -/
lemma combines_flagMask {path : TypePath} {values : List Nat} {mask w : UInt32} {ms : List Member}
    (h : Combines values mask.toNat) (hmask : flagMask path mask ms = .ok w) :
    Combines (values ++ ms.map (·.value.toNat)) w.toNat := by
  induction ms generalizing values mask with
  | nil =>
      cases hmask
      rwa [List.map_nil, List.append_nil]
  | cons m ms ih =>
      rw [flagMask] at hmask
      split_ifs at hmask with hm
      rw [Bool.and_eq_true, beq_iff_eq] at hm
      have hrest := ih (h.step hm.1 hm.2) hmask
      rwa [List.append_assoc] at hrest

/-! ## Reading values -/

/-- The number in front, if what follows it is the given text and nothing else. -/
def numberBefore? (closing : String) (cs : List Char) : Option Nat :=
  if cs.takeWhile Char.isDigit ≠ [] ∧ cs.dropWhile Char.isDigit = closing.toList then
    some (Nat.ofDigitChars 10 (cs.takeWhile Char.isDigit) 0)
  else none

/-- The name in front and the number behind it, with the given texts between them and at the end. -/
def assigned? (mark closing : String) (cs : List Char) : Option (String × Nat) :=
  (mark.toList.isPrefixOf? (cs.dropWhile isWritten)).bind fun rest =>
    (numberBefore? closing rest).map (nameAhead cs, ·)

/-- The variant or constant that a line of code gives a value, and the value. -/
def valueIn? : ParameterKind → List Char → Option (String × Nat)
  | .enumeration, cs => assigned? " = " "," cs
  | .flagSet, cs => (behind? "pub const" cs).bind (assigned? ": Self = Self(" ");")

section Values

variable {name mark closing : String}

/-- Numbers are read back. -/
lemma numberBefore?_toString (n : Nat)
    (hclosing : closing.toList.head?.all Char.isDigit = false) :
    numberBefore? closing ((toString n).toList ++ closing.toList) = some n := by
  obtain ⟨c, cs, hchars, hc⟩ := exists_of_head?_all hclosing
  have hdigits : ∀ d ∈ Nat.toDigits 10 n, d.isDigit = true :=
    fun d hd => Nat.isDigit_of_mem_toDigits (by decide) (by decide) hd
  have htake : (Nat.toDigits 10 n ++ c :: cs).takeWhile Char.isDigit = Nat.toDigits 10 n := by
    rw [List.takeWhile_append_of_pos hdigits, List.takeWhile_cons_of_neg (by simp [hc]),
      List.append_nil]
  have hdrop : (Nat.toDigits 10 n ++ c :: cs).dropWhile Char.isDigit = c :: cs := by
    rw [List.dropWhile_append_of_pos hdigits, List.dropWhile_cons_of_neg (by simp [hc])]
  rw [numberBefore?, Nat.toString_eq_ofList_toDigits, String.toList_ofList, hchars, htake, hdrop,
    if_pos ⟨Nat.toDigits_ne_nil, rfl⟩, Nat.ofDigitChars_toDigits (by decide) (by decide)]

/-- A name with a number behind it is read back. -/
lemma assigned?_eq (hname : Word name) (n : Nat)
    (hmark : mark.toList.head?.all isWritten = false)
    (hclosing : closing.toList.head?.all Char.isDigit = false) :
    assigned? mark closing (name ++ mark ++ toString n ++ closing).toList = some (name, n) := by
  obtain ⟨c, cs, hchars, hc⟩ := exists_of_head?_all hmark
  have htext : (name ++ mark ++ toString n ++ closing).toList =
      name.toList ++ c :: (cs ++ ((toString n).toList ++ closing.toList)) := by
    simp [hchars]
  have hprefix : mark.toList.isPrefixOf? (c :: (cs ++ ((toString n).toList ++ closing.toList))) =
      some ((toString n).toList ++ closing.toList) := by
    rw [List.isPrefixOf?_eq_some_iff_append_eq, hchars]
    rfl
  rw [assigned?, htext, hname.dropWhile_eq hc, hname.nameAhead_eq hc, hprefix, Option.bind_some,
    numberBefore?_toString n hclosing]
  rfl

end Values

/-! ## Enumerations -/

lemma found_variantLines {vs : List Constant} (h : ∀ c ∈ vs, Word c.name) :
    found (valueIn? .enumeration) (variantLines vs) = vs.map fun c => (c.name, c.value.toNat) := by
  have hvariant : ∀ c ∈ vs, valueIn? .enumeration
      (c.name ++ " = " ++ toString c.value.toNat ++ ",").toList =
        some (c.name, c.value.toNat) :=
    fun c hc => assigned?_eq (h c hc) _ (by decide) (by decide)
  have hdefault : valueIn? .enumeration "#[default]".toList = none := rfl
  cases vs with
  | nil => rfl
  | cons first others =>
      obtain ⟨hfirst, hothers⟩ := List.forall_mem_cons.mp hvariant
      rw [variantLines, found_append, found_append, found_docs, found_code, found_code, hdefault,
        hfirst, found_described, List.filterMap_eq_map_iff_forall_eq_some.mpr hothers]
      rfl

/-- A block for a type is not read as a variant, since no name starts with the mark between a
variant and its value. -/
lemma valueIn?_impl {name : String} (h : Word name) :
    valueIn? .enumeration ("impl " ++ name ++ " \x7b").toList = none := by
  obtain ⟨c, cs, hchars⟩ := List.exists_cons_of_ne_nil h.ne_nil
  have hc : '=' ≠ c := by
    rintro rfl
    exact nomatch h.isWritten '=' (by simp [hchars])
  have hdrop : ("impl ".toList ++ (c :: cs ++ " \x7b".toList)).dropWhile isWritten =
    ' ' :: c :: (cs ++ " \x7b".toList) := rfl
  have hmark : " = ".toList = [' ', '=', ' '] := rfl
  rw [String.toList_append, String.toList_append, List.append_assoc, hchars, valueIn?, assigned?,
    hdrop, hmark]
  simp [List.isPrefixOf?, hc]

/-- The variants of an enumeration with their values, and nothing else. -/
lemma Enumeration.found_lines {e : Enumeration} (hname : Word e.name)
    (h : ∀ c ∈ e.variants, Word c.name) : found (valueIn? .enumeration) e.lines =
      e.variants.map fun c => (c.name, c.value.toNat) := by
  have hclose : valueIn? .enumeration "\x7d".toList = none := rfl
  have hderives : valueIn? .enumeration
      "#[derive(Debug, Clone, Copy, PartialEq, Eq, Hash, Default)]".toList = none := rfl
  have henum : valueIn? .enumeration ("pub enum " ++ e.name ++ " \x7b").toList = none := by
    rw [String.toList_append, String.toList_append, List.append_assoc]
    rfl
  have hall : valueIn? .enumeration ("pub const ALL: [Self; " ++ toString e.variants.length ++
      "] = [" ++ ", ".intercalate (e.variants.map fun c => "Self::" ++ c.name) ++
        "];").toList = none := by
    simp only [String.toList_append, List.append_assoc]
    rfl
  simp only [lines, parameterDerives, found_append, found_docs, found_code, hderives,
    found_block hclose, henum, found_variantLines h, found_blank, valueIn?_impl hname,
    found_doc, hall, List.append_assoc]
  -- the lines that are left are fixed, and nothing is read from them
  exact List.append_nil _

/-! ## Flag sets -/

namespace FlagSet

variable {f : FlagSet}

/-- Lines that open like this hold no constant. -/
lemma valueIn?_eq_none {front : String} (h : front ∈ ["pub struct ", "Self(", "impl ",
    "impl std::ops::BitOr for ", "impl std::ops::BitOrAssign for "])
    (back more : String) : valueIn? .flagSet (front ++ back ++ more).toList = none := by
  rw [String.toList_append, String.toList_append, List.append_assoc]
  simp only [List.mem_cons, List.not_mem_nil, or_false] at h
  rcases h with rfl | rfl | rfl | rfl | rfl <;> rfl

lemma valueIn?_close : valueIn? .flagSet "\x7d".toList = none := rfl

lemma valueIn?_constantText {c : Constant} (h : Word c.name) :
    valueIn? .flagSet (constantText c).toList = some (c.name, c.value.toNat) := by
  have hbehind : behind? "pub const" (constantText c).toList =
      some (c.name ++ ": Self = Self(" ++ toString c.value.toNat ++ ");").toList := by
    simp only [constantText, String.toList_append, List.append_assoc]
    rfl
  rw [valueIn?, hbehind, Option.bind_some]
  exact assigned?_eq h _ (by decide) (by decide)

/-- The constants of a flag set with their values, and nothing else. -/
lemma found_lines (h : ∀ c ∈ f.constants, Word c.name) :
    found (valueIn? .flagSet) f.lines = f.constants.map fun c => (c.name, c.value.toNat) := by
  have hfixed : found (valueIn? .flagSet) fixedLines = [] := by decide +kernel
  have hconstants : (f.constants.filterMap fun c => valueIn? .flagSet (constantText c).toList) =
      f.constants.map fun c => (c.name, c.value.toNat) :=
    List.filterMap_eq_map_iff_forall_eq_some.mpr fun c hc => valueIn?_constantText (h c hc)
  rw [found_eq_of_silent valueIn?_close hfixed (fun front hfront => ?_),
    valueIn?_eq_none List.mem_cons_self, hconstants]
  · rfl
  · exact valueIn?_eq_none (List.mem_cons_of_mem _ List.mem_cons_self) _ _
  · exact valueIn?_eq_none (List.mem_cons_of_mem _ (List.mem_cons_of_mem _ hfront)) _ _

lemma isInfix_allFunction (f : FlagSet) :
    (allFunction f.mask.toNat).map Line.indent <:+: f.lines := by
  have hfunctions : allFunction f.mask.toNat <:+: separated (maskFunctions f.mask.toNat) :=
    isInfix_separated (List.mem_cons_of_mem _ List.mem_cons_self)
  have hbody : allFunction f.mask.toNat <:+:
      (f.constants.flatMap fun c => docs c.description ++ [code (constantText c)]) ++
        .blank :: separated (maskFunctions f.mask.toNat) :=
    hfunctions.trans ((List.suffix_cons _ _).isInfix.trans (List.suffix_append _ _).isInfix)
  have hblock := (hbody.map Line.indent).trans (isInfix_block ("impl " ++ f.name) _)
  rw [lines_eq]
  refine hblock.trans ((List.prefix_append _ (.blank :: f.operatorLines)).isInfix.trans ?_)
  exact (List.suffix_append_of_suffix (List.suffix_append [_, _, _] _)).isInfix

end FlagSet

end Code

open Code

/-! ## Parameter types -/

/-- How members are spelled in the source. -/
def ParameterKind.spelling : ParameterKind → String → String
  | .enumeration => Name.escape
  | .flagSet => Name.screaming

/-- The line that declares a parameter type. -/
def ParameterType.headerText (t : ParameterType) : String :=
  match t.kind with
  | .enumeration => "pub enum " ++ Name.escape t.name.value ++ " \x7b"
  | .flagSet => "pub struct " ++ Name.escape t.name.value ++ "(u32);"

/-- The source declares the type and gives every member its value, in the order of declaration.  In
a flag set, the function for all flags hands out what they combine to. -/
structure ParameterType.WrittenIn (t : ParameterType) (lines : List Line) : Prop where
  header : code t.headerText ∈ lines
  values : found (valueIn? t.kind) lines =
    t.members.map fun m => (t.kind.spelling m.name.value, m.value.toNat)
  all_flags : t.kind = .flagSet → ∃ mask, (allFunction mask).map Line.indent <:+: lines ∧
    Combines (t.members.map (·.value.toNat)) mask

lemma word_escape {name : String} (h : Name.isIdentifier name = true) : Word (Name.escape name) :=
  word_of_isIdentifier_bare (by rwa [Name.bare_escape h])

lemma word_screaming {name : String} (h : Name.isIdentifier name = true) :
    Word (Name.screaming name) := by
  have hscreaming := Name.isIdentifier_screaming h
  exact word_of_isIdentifier_bare (by rwa [Name.bare_of_isIdentifier hscreaming])

/-- **What is generated from a parameter type gives its members their values.** -/
theorem ParameterType.writtenIn_of_ofType {t : ParameterType} {level : String}
    {item : ParameterItem} (hname : Name.isIdentifier t.name.value = true)
    (hmembers : ∀ m ∈ t.members, Name.isIdentifier m.name.value = true)
    (h : ParameterItem.ofType level t = .ok item) : t.WrittenIn item.lines := by
  rcases ParameterItem.ofType_eq_ok h with ⟨hkind, rfl⟩ | ⟨hkind, mask, hmask, rfl⟩
  · refine ⟨?_, ?_, by simp [hkind]⟩
    · rw [ParameterType.headerText, hkind]
      refine List.mem_append_left _ (List.mem_append_left _ (List.mem_append_right _ ?_))
      exact List.mem_append_left _ List.mem_cons_self
    · rw [ParameterItem.lines, hkind, Enumeration.found_lines, List.map_map]
      · rfl
      · exact word_escape hname
      · exact List.forall_mem_map.mpr fun m hm => word_escape (hmembers m hm)
  · have hempty : Combines [] (0 : UInt32).toNat := combines_nil
    refine ⟨?_, ?_, fun _ => ⟨mask.toNat, ?_, ?_⟩⟩
    · rw [ParameterType.headerText, hkind, ParameterItem.lines, FlagSet.lines_eq]
      exact List.mem_append_right _ (List.mem_cons_of_mem _ List.mem_cons_self)
    · rw [ParameterItem.lines, hkind, FlagSet.found_lines, List.map_map]
      · rfl
      · exact List.forall_mem_map.mpr fun m hm => word_screaming (hmembers m hm)
    · exact FlagSet.isInfix_allFunction ⟨_, _, _, mask⟩
    · exact combines_flagMask hempty hmask

/-- What loading makes of the members of a declared parameter type: they keep their names and order,
and their values are the numbers of the declaration, which differ and fit in 32 bits; without
written numbers these are the positions.  The values of a flag set are single bits, and no two have
a bit in common. -/
structure ParameterDecl.Numbers (d : ParameterDecl) (t : ParameterType) : Prop where
  kind : t.kind = .flagSet ↔ d.multiple = true
  names : t.members.map (·.name) = d.members.map (·.name)
  values : t.members.map (·.value.toNat) = Load.numbered 0 (d.members.map MemberDecl.written)
  nodup : (Load.numbered 0 (d.members.map MemberDecl.written)).Nodup
  in_range : ∀ n ∈ Load.numbered 0 (d.members.map MemberDecl.written), n < 2 ^ 32
  positions : (∀ m ∈ d.members, m.value = none) →
    t.members.map (·.value.toNat) = List.range d.members.length
  single_bits : t.kind = .flagSet → ∀ m ∈ t.members, ∃ k < 32, m.value.toNat = 2 ^ k
  disjoint : t.kind = .flagSet → t.members.Pairwise fun m n => m.value &&& n.value = 0

lemma ParameterDecl.kind_toType (d : ParameterDecl) :
    d.toType.kind = .flagSet ↔ d.multiple = true := by
  rw [ParameterDecl.toType, Load.kindOf]
  split_ifs with h <;> simp [h]

lemma ParameterDecl.Loadable.single_bits_toType {d : ParameterDecl} (h : d.Loadable)
    (hkind : d.toType.kind = .flagSet) {m : Member} (hm : m ∈ d.toType.members) :
    ∃ k < 32, m.value.toNat = 2 ^ k := by
  refine h.exists_two_pow_of_mem_numbers (d.kind_toType.mp hkind) ?_
  rw [← h.map_value_members]
  exact List.mem_map.mpr ⟨m, hm, rfl⟩

/-- Loading a type that is in order leaves one that can be generated. -/
lemma ParameterDecl.Loadable.consistent {d : ParameterDecl} (h : d.Loadable) :
    d.toType.Consistent := by
  have hbits : d.toType.kind = .flagSet → ∀ m ∈ d.toType.members,
      isSingleBit m.value.toNat = true := by
    intro hkind m hm
    obtain ⟨k, -, hk⟩ := h.single_bits_toType hkind hm
    exact Load.isSingleBit_iff.mpr ⟨k, hk⟩
  have hnodup : (d.toType.members.map (·.value)).Nodup := by
    refine List.Nodup.of_map UInt32.toNat ?_
    rw [List.map_map]
    exact h.map_value_members ▸ h.numbers_nodup
  refine ⟨fun _ hnil => h.members_ne_nil ?_, hbits,
    fun hkind => pairwise_disjoint_of_nodup (hbits hkind) hnodup⟩
  have hnames := d.map_name_members_toType
  rw [hnil] at hnames
  exact List.map_eq_nil_iff.mp hnames.symm

lemma ParameterDecl.Loadable.numbers_toType {d : ParameterDecl} (h : d.Loadable) :
    d.Numbers d.toType where
  kind := d.kind_toType
  names := d.map_name_members_toType
  values := h.map_value_members
  nodup := h.numbers_nodup
  in_range := h.numbers_lt
  positions hnone := by
    have hunwritten : ∀ w ∈ d.members.map MemberDecl.written, w = none :=
      List.forall_mem_map.mpr fun m hm => by rw [MemberDecl.written, hnone m hm, Option.map_none]
    rw [h.map_value_members, ParameterDecl.numbers, Load.numbered_of_unwritten hunwritten,
      List.length_map, List.range_eq_range']
  single_bits hkind _ hm := h.single_bits_toType hkind hm
  disjoint := h.consistent.disjoint

/-! ## Runs -/

/-- The module of a level has its parameter types, written with their values. -/
lemma Schema.WellFormed.exists_writtenIn {s : Schema} (hs : s.WellFormed) {P : PrimitiveSet}
    {resolved : ResolvedSchema} {primitivesPath : String} {modules : List Module} {l : Level}
    {t : ParameterType} (hresolve : s.resolve P = .ok resolved)
    (hmodules : resolved.levels.mapM (Module.ofLevel primitivesPath resolved) = .ok modules)
    (hl : l ∈ s.levels) (ht : t ∈ l.parameterTypes) :
    ∃ m ∈ modules, m.name = moduleName l.name.value ∧ ∃ item ∈ m.parameters,
      t.WrittenIn item.lines := by
  have hordered := (hs.bound_of_resolve hresolve).mem_orderedLevels.mpr hl
  obtain ⟨m, hm, r, hyields, hr⟩ :=
    exists_of_forall₂_of_mem (hs.forall₂_modules hresolve hmodules).flip hordered
  obtain ⟨parameters, hparameters, rfl⟩ := Module.ofLevel_eq_ok hr
  rw [hyields.parameterTypes] at hparameters
  obtain ⟨item, hitem, hgenerated⟩ := exists_of_forall₂_of_mem hparameters.flip ht
  have husable := (hs.levels l hl).usable _ (Schema.mem_typeNames_of_mem_parameterTypes ht)
  refine ⟨_, hm, congrArg moduleName hyields.name, item, hitem, ?_⟩
  refine ParameterType.writtenIn_of_ofType husable.isIdentifier (fun n hn => ?_) hgenerated
  exact (((hs.levels l hl).parameterTypes t ht).usable n hn).isIdentifier

/-- A run compiles a source in which the level declares the parameter type. -/
structure Session.Compiles (settings : Settings) (source : String) (artifact : Artifact)
    (l : LevelDecl) (d : ParameterDecl) : Prop where
  run : ∃ session, Session.start settings = .ok session ∧
    (session.compile source).result = .ok artifact
  declared : ∃ lexemes document, scan source = .ok lexemes ∧
    Document.ofLexemes lexemes = .ok document ∧ l ∈ document.levels ∧ .parameter d ∈ l.items

/-- What is declared in the source is written in the artifact. -/
lemma Session.Compiles.exists_writtenIn {settings : Settings} {source : String}
    {artifact : Artifact} {l : LevelDecl} {d : ParameterDecl}
    (h : Session.Compiles settings source artifact l d) :
    ∃ modules, artifact = .ofModules settings.emit modules ∧
      ∃ m ∈ modules, m.name = moduleName l.name.value ∧ ∃ item ∈ m.parameters,
        d.toType.WrittenIn item.lines := by
  obtain ⟨session, hstart, hcompile⟩ := h.run
  obtain ⟨lexemes, document, hscan, hdocument, hl, hd⟩ := h.declared
  obtain ⟨loaded, resolved, modules, hload, hresolve, hmodules, hartifact⟩ :=
    Session.exists_modules_of_compile hstart hcompile
  have hs := Schema.wellFormed_of_ofSource hload
  obtain ⟨lexemes', document', hscan', hdocument', hpasses, rfl⟩ :=
    Schema.ofSource_eq_ok_iff.mp hload
  cases hscan.symm.trans hscan'
  cases hdocument.symm.trans hdocument'
  have hvalue : (document.load.mapNotes LoadFinding.diagnostic).value = document.schema :=
    Document.value_load_of_passes hpasses
  rw [hvalue] at hs hresolve
  have hlevel : l.toLevel ∈ document.schema.levels := List.mem_map_of_mem hl
  have htype : d.toType ∈ l.toLevel.parameterTypes :=
    List.mem_map_of_mem (Load.mem_parametersIn.mpr hd)
  obtain ⟨m, hm, hname, hwritten⟩ := hs.exists_writtenIn hresolve hmodules hlevel htype
  exact ⟨modules, hartifact, m, hm, hname, hwritten⟩

/-- The names of the type and its members are identifiers, as those of every source are. -/
def ParameterDecl.IsNamed (d : ParameterDecl) : Prop :=
  Name.isIdentifier d.name.value = true ∧ ∀ m ∈ d.members, Name.isIdentifier m.name.value = true

lemma ParameterDecl.IsNamed.members_toType {d : ParameterDecl} (h : d.IsNamed) :
    ∀ m ∈ d.toType.members, Name.isIdentifier m.name.value = true := by
  intro m hm
  have hname : m.name ∈ d.toType.members.map (·.name) := List.mem_map_of_mem hm
  rw [d.map_name_members_toType] at hname
  obtain ⟨n, hn, heq⟩ := List.mem_map.mp hname
  exact heq ▸ h.2 n hn

/-- **Members are numbered once and for all.**  Numbering never leaves 32 bits, whatever the members
are.  Members of a parameter type that is accepted have the numbers of the declaration, and those of
a flag set are disjoint single bits.  Generating from the type succeeds, and its source gives every
member its number, in the order of declaration.  In every run in which the type is declared, this
source stands in a unit of the artifact, in one piece and as part of the module of the level. -/
theorem ParameterDecl.members_numbered_throughout :
    (Load.Counting Load.successor Load.toWord? ∧
      ∀ advance convert, Load.Counting advance convert → ∀ kind parameter scope ms,
        Load.membersWith advance convert kind parameter scope ms =
          Load.members kind parameter scope ms) ∧
    ∀ owner (d : ParameterDecl), Load.Passes (Load.parameterType owner d) →
      d.Numbers (Load.parameterType owner d).value ∧
      (∀ level, ∃ item,
        ParameterItem.ofType level (Load.parameterType owner d).value = .ok item ∧
          (d.IsNamed → (Load.parameterType owner d).value.WrittenIn item.lines)) ∧
      ∀ settings source artifact l, Session.Compiles settings source artifact l d →
        ∃ modules, artifact = .ofModules settings.emit modules ∧
          ∃ m ∈ modules, m.name = moduleName l.name.value ∧ ∃ u lines,
            artifact.Shows u m.name (m.lines (Artifact.derives settings.emit)) ∧
              lines <:+: m.lines (Artifact.derives settings.emit) ∧
                StandsIn (text (settings.emit.layout.nested lines)) u.contents ∧
                  (Load.parameterType owner d).value.WrittenIn lines := by
  refine ⟨⟨Load.counting_successor_toWord?, fun _ _ hcounting _ _ scope ms =>
    Load.membersWith_eq_members hcounting scope ms⟩, fun owner d hpasses => ?_⟩
  have hloadable : d.Loadable := Load.passes_parameterType_iff_loadable.mp hpasses
  rw [Load.value_parameterType_of_passes hpasses]
  refine ⟨hloadable.numbers_toType, fun level => ?_, fun settings source artifact l hrun => ?_⟩
  · obtain ⟨item, hitem⟩ := (ParameterItem.exists_ofType_iff level).mpr hloadable.consistent
    refine ⟨item, hitem, fun hnamed => ?_⟩
    exact ParameterType.writtenIn_of_ofType hnamed.1 hnamed.members_toType hitem
  · obtain ⟨modules, rfl, m, hm, hname, item, hitem, hwritten⟩ := hrun.exists_writtenIn
    obtain ⟨u, hshows⟩ := Artifact.exists_shows hm settings.emit
    have hpiece := m.isInfix_of_mem_parameters hitem (Artifact.derives settings.emit)
    exact ⟨modules, rfl, m, hm, hname, u, item.lines, hshows, hpiece, hshows.standsIn hpiece,
      hwritten⟩

/-- An enumeration that goes on from a written number, and a flag set with the highest bit. -/
def plotViews : String :=
  "AbstractionLevel Site\n    Parameter Use\n        Home\n        Work = 7\n        Shop\n" ++
    "    Parameter View [Multiple]\n        Sky = 2147483648\n        East = 4\n" ++
    "    Object Plot\n"

theorem plotViews_numbered : ∃ artifact l d e, Session.Compiles {} plotViews artifact l d ∧
    Session.Compiles {} plotViews artifact l e ∧
    (Load.parameterType "Site" d).value.members.map (·.value.toNat) = [0, 7, 8] ∧
    (Load.parameterType "Site" e).value.kind = .flagSet ∧
    (Load.parameterType "Site" e).value.members.map (·.value.toNat) = [2147483648, 4] ∧
    ∃ u ∈ artifact.units, ∃ lines, StandsIn (text (Layout.single.nested lines)) u.contents ∧
      (allFunction 2147483652).map Line.indent <:+: lines := by
  have hstart : Session.start {} = .ok ⟨{}, .idle, ""⟩ := by decide +kernel
  have hrun : ((Session.mk {} .idle "").compile plotViews).result.isOk = true := by decide +kernel
  have hread : (scan plotViews >>= Document.ofLexemes).toOption.map (fun document =>
      document.levels.map fun l => (Load.parametersIn l.items).map fun d =>
        (d.multiple, d.numbers, (Load.parameterType "Site" d).notes.isEmpty)) =
      some [[(false, [0, 7, 8], true), (true, [2147483648, 4], true)]] := by
    decide +kernel
  obtain ⟨artifact, hartifact⟩ := exists_of_isOk hrun
  obtain ⟨document, hparse, hshape⟩ := exists_of_toOption_map hread
  obtain ⟨lexemes, hscan, hdocument⟩ := bind_eq_ok_iff.mp hparse
  simp only [List.map_eq_cons_iff, List.map_eq_nil_iff, Prod.mk.injEq, List.isEmpty_iff] at hshape
  obtain ⟨l, -, hlevels, ⟨d, -, hitems, ⟨-, hd, hnotes⟩, e, -, rfl, ⟨hmultiple, he, hnotes'⟩,
    rfl⟩, rfl⟩ := hshape
  have hcompiles : ∀ x ∈ [d, e], Session.Compiles {} plotViews artifact l x := by
    intro x hx
    refine ⟨⟨_, hstart, hartifact⟩, lexemes, document, hscan, hdocument, by simp [hlevels], ?_⟩
    exact Load.mem_parametersIn.mp (hitems ▸ hx)
  have hpasses : ∀ x, (Load.parameterType "Site" x).notes = [] →
      Load.Passes (Load.parameterType "Site" x) := by
    intro x hx
    simp [Load.Passes, hx]
  obtain ⟨hnumbers, -, -⟩ :=
    ParameterDecl.members_numbered_throughout.2 "Site" d (hpasses d hnotes)
  obtain ⟨hnumbers', -, hruns⟩ :=
    ParameterDecl.members_numbered_throughout.2 "Site" e (hpasses e hnotes')
  have hkind := hnumbers'.kind.mpr hmultiple
  have hvalues := hnumbers'.values.trans he
  obtain ⟨-, -, m, -, -, u, lines, hshows, -, hstands, hwritten⟩ :=
    hruns {} plotViews artifact l (hcompiles e (by simp))
  obtain ⟨mask, hall, hmask⟩ := hwritten.all_flags hkind
  rw [hvalues] at hmask
  obtain rfl : mask = 2147483652 := hmask.sum_eq
  exact ⟨artifact, l, d, e, hcompiles d (by simp), hcompiles e (by simp), hnumbers.values.trans hd,
    hkind, hvalues, u, hshows.mem, lines, hstands, hall⟩

end LevelSchema
