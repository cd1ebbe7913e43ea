import LevelSchema.Code.Print
import LevelSchema.Proofs.Name
import LevelSchema.Proofs.Text.Lines

/-!
# Reading generated source

Something is read back from source by looking at its lines of code one by one (`Code.found`).  What
is found in a piece of source follows from how the piece is put together: blank lines and
documentation hold nothing, depth makes no difference, and a block holds what its header says and
then what its body holds.  None of this depends on what is looked for.

**Names.**  A name is read by taking characters as long as they can stand in one
(`Code.nameAhead`), so it is read back whole when it is a `Word` and something else follows.  A
legal name at the start of a line is never taken for a keyword (`Code.isPrefixOf?_name`).
-/

namespace LevelSchema.Code

/-! ## Names -/

/-- Whether a character can stand in a name, with or without the mark of a raw identifier. -/
def isWritten (c : Char) : Bool :=
  Name.isPart c || c == '#'

/-- What stands behind a word and a blank. -/
def behind? (word : String) (cs : List Char) : Option (List Char) :=
  (word.toList ++ [' ']).isPrefixOf? cs

/-- The name in front. -/
def nameAhead (cs : List Char) : String :=
  String.ofList (cs.takeWhile isWritten)

/-- Something that is written like a name. -/
structure Word (name : String) : Prop where
  ne_nil : name.toList ≠ []
  isWritten : ∀ c ∈ name.toList, isWritten c = true

section Names

variable {name : String} {c : Char} {cs : List Char}

lemma word_of_isIdentifier_bare (h : Name.isIdentifier (Name.bare name) = true) : Word name := by
  unfold Name.bare at h
  split at h
  · next cs hchars =>
      rw [Name.isIdentifier, String.toList_ofList] at h
      refine ⟨by simp [hchars], fun c hc => ?_⟩
      rw [hchars, List.mem_cons, List.mem_cons] at hc
      rcases hc with rfl | rfl | hc
      · rfl
      · rfl
      · simp [isWritten, Name.isPart_of_mem_identifier h hc]
  · refine ⟨?_, fun c hc => ?_⟩
    · obtain ⟨c, cs, hchars, -⟩ := Name.exists_cons_of_isIdentifier h
      simp [hchars]
    · simp [isWritten, Name.isPart_of_mem_identifier h hc]

/-- A legal name is a word. -/
lemma word_of_legal (h : Name.Legal name) : Word name :=
  word_of_isIdentifier_bare h.isIdentifier

/-- A word ends at the first character that no name has. -/
lemma Word.takeWhile_eq (h : Word name) (hc : Code.isWritten c = false) :
    (name.toList ++ c :: cs).takeWhile Code.isWritten = name.toList := by
  rw [List.takeWhile_append_of_pos h.isWritten, List.takeWhile_cons, hc]
  exact List.append_nil _

lemma Word.dropWhile_eq (h : Word name) (hc : Code.isWritten c = false) :
    (name.toList ++ c :: cs).dropWhile Code.isWritten = c :: cs := by
  rw [List.dropWhile_append_of_pos h.isWritten, List.dropWhile_cons_of_neg (by simp [hc])]

lemma Word.nameAhead_eq (h : Word name) (hc : Code.isWritten c = false) :
    nameAhead (name.toList ++ c :: cs) = name := by
  rw [nameAhead, h.takeWhile_eq hc, String.ofList_toList]

lemma isWritten_of_legal (h : Name.Legal name) (hc : c ∈ name.toList) : isWritten c = true :=
  (word_of_legal h).isWritten c hc

/-- A legal name is read back where something else follows it. -/
lemma nameAhead_eq (h : Name.Legal name) (hc : isWritten c = false) :
    nameAhead (name.toList ++ c :: cs) = name :=
  (word_of_legal h).nameAhead_eq hc

/-- A legal name is not taken for a keyword, whatever would have to follow that. -/
lemma isPrefixOf?_name (word : String) (hword : word ∈ ["pub", "const", "fn", "use"])
    (h : Name.Legal name) (hc : isWritten c = false) (more : List Char) :
    (word.toList ++ ' ' :: more).isPrefixOf? (name.toList ++ c :: cs) = none := by
  have hkeyword : ∀ w ∈ ["pub", "const", "fn", "use"], Name.isKeyword w = true ∧
      Name.bare w = w ∧ w.toList.all isWritten = true := by
    decide +kernel
  obtain ⟨hreserved, hbare, hchars⟩ := hkeyword word hword
  by_contra hsome
  obtain ⟨rest, hrest⟩ := Option.ne_none_iff_exists'.mp hsome
  rw [List.isPrefixOf?_eq_some_iff_append_eq, List.append_assoc, List.cons_append] at hrest
  have htake := congrArg (List.takeWhile isWritten) hrest
  rw [(word_of_legal h).takeWhile_eq hc, List.takeWhile_append_of_pos (List.all_eq_true.mp hchars),
    List.takeWhile_cons_of_neg (by decide), List.append_nil] at htake
  have hname : word = name := String.toList_injective htake
  have hmarked := h.marked_of_isKeyword
  rw [← hname, hbare] at hmarked
  have hlength := congrArg String.length (hmarked hreserved)
  simp [Name.rawMark] at hlength

end Names

/-! ## Lines -/

/-- Every line is written with a line feed behind it. -/
lemma toList_text (ls : List Line) :
    (text ls).toList = (ls.map fun l => l.render.toList).flatMap (· ++ ['\n']) := by
  simp [text, String.toList_join, List.flatMap_map]

/-- The text of lines in two parts. -/
lemma text_append (ls more : List Line) : text (ls ++ more) = text ls ++ text more := by
  rw [← String.toList_inj, String.toList_append, toList_text, toList_text, toList_text]
  simp

lemma text_flatMap {α : Type} (f : α → List Line) (as : List α) :
    text (as.flatMap f) = String.join (as.map fun a => text (f a)) := by
  rw [← String.toList_inj, toList_text, String.toList_join]
  simp [toList_text, List.flatMap_assoc, List.flatMap_map, List.map_flatMap]

/-- A description is written as documentation, line by line. -/
lemma exists_doc_of_mem_docs {description : Option String} {l : Line} (h : l ∈ docs description) :
    ∃ text, l = doc text ∧ '\n' ∉ text.toList := by
  cases description with
  | none => exact absurd h List.not_mem_nil
  | some text =>
      obtain ⟨cs, hcs, rfl⟩ := List.mem_map.mp h
      refine ⟨_, rfl, ?_⟩
      rw [String.toList_ofList]
      exact fun hmem => Text.not_mem_lines _ cs hcs (Text.mem_of_mem_trimEnd hmem)

variable {α : Type} {read : List Char → Option α}

/-- What is read from a line; only code is looked at. -/
def Line.read? (read : List Char → Option α) : Line → Option α
  | .code _ text => read text.toList
  | _ => none

/-- What is found in lines of source. -/
def found (read : List Char → Option α) (lines : List Line) : List α :=
  lines.filterMap (Line.read? read)

lemma found_append (ls ms : List Line) :
    found read (ls ++ ms) = found read ls ++ found read ms :=
  List.filterMap_append

/-- A line of code is read as it stands. -/
lemma found_code (text : String) (ls : List Line) :
    found read (code text :: ls) = (read text.toList).toList ++ found read ls := by
  have hread : (code text).read? read = read text.toList := rfl
  rw [found, List.filterMap_cons, hread]
  cases read text.toList <;> rfl

lemma found_blank (ls : List Line) : found read (.blank :: ls) = found read ls :=
  rfl

lemma found_doc (text : String) (ls : List Line) : found read (doc text :: ls) = found read ls :=
  rfl

/-- Nothing is found in a description. -/
lemma found_docs (description : Option String) : found read (docs description) = [] := by
  cases description with
  | none => rfl
  | some text => simp [found, docs, doc, Line.read?, List.filterMap_map, Function.comp_def]

lemma found_indent (body : List Line) : found read (body.map Line.indent) = found read body := by
  rw [found, found, List.filterMap_map]
  exact List.filterMap_congr fun l _ => by cases l <;> rfl

/-- A block gives what is found in its header and in its body. -/
lemma found_block (hclose : read "\x7d".toList = none) (header : String) (body : List Line) :
    found read (block header body) =
      (read (header ++ " \x7b").toList).toList ++ found read body := by
  rw [block, List.cons_append, found_code, found_append, found_indent, found_code, hclose]
  simp [found]

/-- A block without a body is read like its header. -/
lemma found_blockOrEmpty (hclose : read "\x7d".toList = none) {header : String} {item : Option α}
    (hopen : read (header ++ " \x7b").toList = item)
    (hempty : read (header ++ " \x7b\x7d").toList = item) (body : List Line) :
    found read (blockOrEmpty header body) = item.toList ++ found read body := by
  unfold blockOrEmpty
  split_ifs with hbody
  · rw [found_code, hempty, List.isEmpty_iff.mp hbody]
  · rw [found_block hclose, hopen]

/-- Blank lines between pieces give nothing. -/
lemma found_separated (pieces : List (List Line)) :
    found read (separated pieces) = pieces.flatMap (found read) := by
  fun_induction separated pieces with
  | case1 => rfl
  | case2 piece => simp
  | case3 piece pieces _ ih => rw [found_append, found_blank, ih, List.flatMap_cons]

/-- Of lines made one by one, each is read as it stands. -/
lemma found_map_code {β : Type} (f : β → String) (bs : List β) :
    found read (bs.map fun b => code (f b)) = bs.filterMap fun b => read (f b).toList := by
  rw [found, List.filterMap_map]
  rfl

/-- Descriptions hold nothing, so a list of described lines holds what the lines do. -/
lemma found_described {β : Type} (f : β → Option String) (g : β → String) (bs : List β) :
    found read (bs.flatMap fun b => docs (f b) ++ [code (g b)]) =
      bs.filterMap fun b => read (g b).toList := by
  induction bs with
  | nil => rfl
  | cons b bs ih =>
      rw [List.flatMap_cons, found_append, ih, found_append, found_docs, found_code,
        List.filterMap_cons]
      cases read (g b).toList <;> rfl

/-! ## Flag sets -/

/-- The function that hands out all flags. -/
def allFunction (mask : Nat) : List Line :=
  block "pub const fn all() -> Self" [code ("Self(" ++ toString mask ++ ")")]

/-- The functions of a flag set. -/
def maskFunctions (mask : Nat) : List (List Line) :=
  [block "pub const fn empty() -> Self" [code "Self(0)"],
   allFunction mask,
   block "pub const fn bits(self) -> u32" [code "self.0"],
   block "pub const fn contains(self, other: Self) -> bool" [code "self.0 & other.0 == other.0"],
   block "pub const fn is_empty(self) -> bool" [code "self.0 == 0"]]

namespace FlagSet

/-- The line of a constant. -/
def constantText (c : Constant) : String :=
  "pub const " ++ c.name ++ ": Self = Self(" ++ toString c.value.toNat ++ ");"

/-- The operators of a flag set. -/
def operatorLines (f : FlagSet) : List Line :=
  block ("impl std::ops::BitOr for " ++ f.name)
    ([code "type Output = Self;", .blank] ++
      block "fn bitor(self, rhs: Self) -> Self" [code "Self(self.0 | rhs.0)"]) ++
  .blank :: block ("impl std::ops::BitOrAssign for " ++ f.name)
    (block "fn bitor_assign(&mut self, rhs: Self)" [code "self.0 |= rhs.0;"])

/-- A flag set has a type, its constants, functions about masks, and operators. -/
lemma lines_eq (f : FlagSet) : f.lines =
    docs f.description ++ parameterDerives :: code ("pub struct " ++ f.name ++ "(u32);") ::
      .blank :: (block ("impl " ++ f.name)
        ((f.constants.flatMap fun c => docs c.description ++ [code (constantText c)]) ++
          .blank :: separated (maskFunctions f.mask.toNat)) ++
        .blank :: f.operatorLines) := by
  simp only [lines, operatorLines, List.append_assoc]
  rfl

/-- The lines that every flag set has. -/
def fixedLines : List Line :=
  [parameterDerives] ++ block "pub const fn empty() -> Self" [code "Self(0)"] ++
    block "pub const fn all() -> Self" [] ++
    block "pub const fn bits(self) -> u32" [code "self.0"] ++
    block "pub const fn contains(self, other: Self) -> bool" [code "self.0 & other.0 == other.0"] ++
    block "pub const fn is_empty(self) -> bool" [code "self.0 == 0"] ++
    ([code "type Output = Self;", .blank] ++
      block "fn bitor(self, rhs: Self) -> Self" [code "Self(self.0 | rhs.0)"]) ++
    block "fn bitor_assign(&mut self, rhs: Self)" [code "self.0 |= rhs.0;"]

/-- Where nothing is read from the fixed lines, what is found in a flag set stands in the line that
declares it and in its constants. -/
lemma found_eq_of_silent {f : FlagSet} (hclose : read "\x7d".toList = none)
    (hfixed : found read fixedLines = [])
    (himpl : ∀ front ∈ ["impl ", "impl std::ops::BitOr for ", "impl std::ops::BitOrAssign for "],
      read (front ++ f.name ++ " \x7b").toList = none)
    (hmask : read ("Self(" ++ toString f.mask.toNat ++ ")").toList = none) :
    found read f.lines = (read ("pub struct " ++ f.name ++ "(u32);").toList).toList ++
      f.constants.filterMap fun c => read (constantText c).toList := by
  -- both sides come down to what is read from single lines
  have hnil : found read [] = [] := rfl
  simp only [fixedLines, parameterDerives, found_append, found_code, found_blank,
    found_block hclose, hnil, List.append_eq_nil_iff, Option.toList_eq_nil_iff] at hfixed
  simp only [lines_eq, operatorLines, parameterDerives, found_append, found_docs, found_code,
    found_blank, found_block hclose, found_described, found_separated, maskFunctions, allFunction,
    List.flatMap_cons, List.flatMap_nil, himpl "impl " (by simp),
    himpl "impl std::ops::BitOr for " (by simp),
    himpl "impl std::ops::BitOrAssign for " (by simp), hmask, hfixed, hnil, Option.toList_none,
    List.nil_append, List.append_nil]

end FlagSet

/-! ## Object types and aggregates -/

lemma Record.found_docLines (r : Record) : found read r.docLines = [] := by
  unfold docLines
  rw [found_append, found_docs]
  cases r.specializes with
  | none => rfl
  | some parent => cases r.description <;> rfl

namespace Aggregate

/-- The documentation of an aggregate. -/
def docLines (a : Aggregate) : List Line :=
  [doc ("Object model of the `" ++ a.level ++ "` abstraction level."), doc "",
   doc "Collections are created with the aggregate and never replaced; only",
   doc "their contents change."]

/-- The fields of an aggregate with their types. -/
def typeLines (a : Aggregate) : List Line :=
  a.base.toList.map (fun base => code ("base: " ++ base ++ ",")) ++
    a.fields.map fun f => code (f.name ++ ": Vec<" ++ f.element ++ ">,")

/-- The fields of an aggregate with their first values. -/
def valueLines (a : Aggregate) : List Line :=
  a.base.toList.map (fun base => code ("base: " ++ base ++ "::new(),")) ++
    a.fields.map fun f => code (f.name ++ ": Vec::new(),")

/-- The functions of an aggregate. -/
def functionLines (a : Aggregate) : List (List Line) :=
  block "pub fn new() -> Self" (block "Self" a.valueLines) ::
    a.baseLines ++ a.accessors.flatMap Accessor.lines

/-- An aggregate has a type with its fields and functions on it. -/
lemma lines_eq (derives : List String) (a : Aggregate) : a.lines derives =
    a.docLines ++ deriveLines derives ++ block ("pub struct " ++ a.name) a.typeLines ++ [.blank] ++
      block ("impl " ++ a.name) (separated a.functionLines) :=
  rfl

lemma found_docLines (a : Aggregate) : found read a.docLines = [] :=
  rfl

end Aggregate

/-- What a collection is handed out for. -/
inductive Access
  | read
  | write

namespace Access

/-- The function that hands out the collection with the given name. -/
def function : Access → String → String
  | .read, name => name
  | .write, name => name ++ "_mut"

/-- How this function is declared. -/
def head : Access → Accessor → String
  | .read, c => "pub fn " ++ c.name ++ "(&self) -> &[" ++ c.element ++ "]"
  | .write, c => "pub fn " ++ c.name ++ "_mut(&mut self) -> &mut Vec<" ++ c.element ++ ">"

/-- The body of this function. -/
def body : Access → Accessor → String
  | .read, c => c.getExpr
  | .write, c => c.getMutExpr

/-- This function as it is written. -/
def lines (way : Access) (c : Accessor) : List Line :=
  block (way.head c) [code (way.body c)]

/-- What stands in front of a field that is handed out. -/
def borrow : Access → String
  | .read => "&self."
  | .write => "&mut self."

variable {c : Accessor}

/-- An own collection is borrowed where it is stored. -/
lemma body_own (way : Access) (hc : c.isOwn = true) : way.body c = way.borrow ++ c.name := by
  cases way <;> simp [body, borrow, Accessor.getExpr, Accessor.getMutExpr, hc]

/-- An inherited collection is asked from the base. -/
lemma body_inherited (way : Access) (hc : c.isOwn = false) :
    way.body c = "self.base." ++ way.function c.name ++ "()" := by
  cases way with
  | read => simp [body, function, Accessor.getExpr, hc]
  | write =>
      simp only [body, function, Accessor.getMutExpr, hc, String.append_assoc]
      rfl

end Access

/-- A collection has one accessor to read and one to write. -/
lemma Accessor.lines_eq (c : Accessor) : c.lines = [Access.read.lines c, Access.write.lines c] :=
  rfl

end LevelSchema.Code
