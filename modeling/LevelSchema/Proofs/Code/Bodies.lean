import LevelSchema.Proofs.Code.Items

/-!
# Fields and functions of generated types

Two more things are read back from the source of a type.

**Fields.**  A line with a name, a colon and a text gives a field its type or its first value
(`Code.fieldIn?`).  A record or an aggregate does both for each of its fields, and no other line of
it looks like that (`Record.fields_lines`, `Aggregate.fields_lines`).

**Functions.**  What a function does stands in the line behind the one that declares it, so two
lines are read at a time (`Code.functionsOf`).  The lemmas about it say what is read in front of
any rest; an aggregate then has the functions that are listed for it, with their bodies
(`Aggregate.functions_lines`).  `Aggregate.WrittenIn` collects what is read from an aggregate.
-/

namespace LevelSchema.Code

variable {name text more : String}

/-! ## Fields -/

/-- The field that a line gives a type or a value, and what it is given. -/
def fieldIn? (cs : List Char) : Option (String × String) :=
  (": ".toList.isPrefixOf? (cs.dropWhile isWritten)).map fun rest =>
    (nameAhead cs, String.ofList rest.dropLast)

/-- A field is read back with what it is given. -/
lemma fieldIn?_eq (h : Word name) (more : String) :
    fieldIn? (name ++ ": " ++ more ++ ",").toList = some (name, more) := by
  have htext : (name ++ ": " ++ more ++ ",").toList =
      name.toList ++ ':' :: ' ' :: (more.toList ++ [',']) := by
    simp
  have hprefix : ": ".toList.isPrefixOf? (':' :: ' ' :: (more.toList ++ [','])) =
      some (more.toList ++ [',']) := rfl
  rw [fieldIn?, htext, h.dropWhile_eq (by decide), h.nameAhead_eq (by decide), hprefix]
  simp

/-- A beginning after which a line gives nothing to a field. -/
def Fieldless (text : String) : Prop :=
  ∀ tail : List Char, fieldIn? (text.toList ++ tail) = none

/-- A longer text is no field either. -/
lemma Fieldless.append (h : Fieldless text) (more : String) : Fieldless (text ++ more) := by
  intro tail
  rw [String.toList_append, List.append_assoc]
  exact h _

lemma Fieldless.fieldIn?_eq_none (h : Fieldless text) : fieldIn? text.toList = none := by
  simpa using h []

/-- How the lines of a type begin that are not about its fields. -/
lemma fieldless_of_mem (h : text ∈ ["pub struct ", "impl ", "pub fn ", "#[derive(", "self.",
    "&self.", "&mut self."]) : Fieldless text := by
  simp only [List.mem_cons, List.not_mem_nil, or_false] at h
  rcases h with rfl | rfl | rfl | rfl | rfl | rfl | rfl <;> exact fun _ => rfl

lemma fieldIn?_close : fieldIn? "\x7d".toList = none := rfl

lemma fields_deriveLines (derives : List String) : found fieldIn? (deriveLines derives) = [] := by
  have hattribute : Fieldless "#[derive(" := fieldless_of_mem (by simp)
  unfold deriveLines
  split_ifs
  · rfl
  · rw [found_code, ((hattribute.append _).append _).fieldIn?_eq_none]
    rfl

/-- Lines that give each of the fields something. -/
lemma fields_map_code {α : Type} {name more line : α → String} {as : List α}
    (hline : ∀ a ∈ as, line a = name a ++ ": " ++ more a ++ ",") (h : ∀ a ∈ as, Word (name a)) :
    found fieldIn? (as.map fun a => code (line a)) = as.map fun a => (name a, more a) := by
  rw [found_map_code, List.filterMap_eq_map_iff_forall_eq_some]
  intro a ha
  rw [hline a ha]
  exact fieldIn?_eq (h a ha) (more a)

/-- A function gives nothing to a field, if its body does not. -/
lemma fields_function {header body : String} (hheader : Fieldless header) (hbody : Fieldless body) :
    found fieldIn? (block header [code body]) = [] := by
  rw [found_block fieldIn?_close, (hheader.append _).fieldIn?_eq_none, found_code,
    hbody.fieldIn?_eq_none]
  rfl

/-- The accessors of a field hold no field. -/
lemma Field.fields_accessorLines (f : Field) : found fieldIn? f.accessorLines = [] := by
  have hfn : Fieldless "pub fn " := fieldless_of_mem (by simp)
  have hself : Fieldless "self." := fieldless_of_mem (by simp)
  have hread : Fieldless f.getExpr := by
    unfold getExpr
    cases f.storage with
    | value => exact (hself.append _).append _
    | parameter => exact hself.append _
    | relation => exact (hself.append _).append _
  have hget := fields_function (((hfn.append f.name).append "(&self) -> ").append f.handedType)
    hread
  have hset := fields_function
    ((((hfn.append f.setter).append "(&mut self, value: Option<").append f.type).append ">)")
    ((((hself.append f.name).append " = ").append f.setExpr).append ";")
  rw [accessorLines, found_append, found_append, found_append, found_docs, hget, hset]
  rfl

/-- A record gives its fields their types, and then nothing as their first value. -/
lemma Record.fields_lines {r : Record} (derives : List String) (h : ∀ f ∈ r.fields, Word f.name) :
    found fieldIn? (r.lines derives) =
      (r.fields.map fun f => (f.name, f.storedType)) ++ r.fields.map fun f => (f.name, "None") := by
  have hstruct : Fieldless ("pub struct " ++ r.name) := (fieldless_of_mem (by simp)).append _
  have himpl : Fieldless ("impl " ++ r.name) := (fieldless_of_mem (by simp)).append _
  have htypes : found fieldIn?
      (r.fields.map fun f => code (f.name ++ ": " ++ f.storedType ++ ",")) =
        r.fields.map fun f => (f.name, f.storedType) := fields_map_code (fun _ _ => rfl) h
  have hvalues : found fieldIn? (r.fields.map fun f => code (f.name ++ ": None,")) =
      r.fields.map fun f => (f.name, "None") := by
    refine fields_map_code (fun f _ => ?_) h
    rw [String.append_assoc, String.append_assoc]
    rfl
  have hnew : found fieldIn? (block "pub fn new() -> Self"
      (blockOrEmpty "Self" (r.fields.map fun f => code (f.name ++ ": None,")))) =
        r.fields.map fun f => (f.name, "None") := by
    have hself : fieldIn? ("Self" ++ " \x7b").toList = none := rfl
    have hempty : fieldIn? ("Self" ++ " \x7b\x7d").toList = none := rfl
    rw [found_block fieldIn?_close, found_blockOrEmpty fieldIn?_close hself hempty, hvalues]
    rfl
  have haccessors : r.fields.flatMap (fun f => found fieldIn? f.accessorLines) = [] :=
    List.flatMap_eq_nil_iff.mpr fun f _ => f.fields_accessorLines
  simp only [lines, found_append, found_docLines, fields_deriveLines,
    found_blockOrEmpty fieldIn?_close (hstruct.append " \x7b").fieldIn?_eq_none
      (hstruct.append " \x7b\x7d").fieldIn?_eq_none, htypes, found_block fieldIn?_close
      ("impl " ++ r.name), (himpl.append " \x7b").fieldIn?_eq_none, found_separated,
    List.flatMap_cons, hnew, List.flatMap_map, haccessors]
  simp [found, Line.read?]

/-- The accessors of a collection hold no field. -/
lemma Access.fields_lines (way : Access) (c : Accessor) : found fieldIn? (way.lines c) = [] := by
  have hhead : Fieldless (way.head c) := by
    have hfn : Fieldless "pub fn " := fieldless_of_mem (by simp)
    cases way <;> exact (((hfn.append _).append _).append _).append _
  have hbody : Fieldless (way.body c) := by
    cases hc : c.isOwn with
    | true =>
        rw [way.body_own hc]
        cases way <;> exact (fieldless_of_mem (by simp [borrow])).append _
    | false =>
        have hself : Fieldless "self." := fieldless_of_mem (by simp)
        rw [way.body_inherited hc]
        exact ((hself.append "base.").append _).append _
  exact fields_function hhead hbody

namespace Aggregate

variable {a : Aggregate}

/-- The fields of an aggregate with their types, the base in front. -/
def fieldTypes (a : Aggregate) : List (String × String) :=
  a.base.toList.map (fun base => ("base", base)) ++
    a.fields.map fun f => (f.name, "Vec<" ++ f.element ++ ">")

/-- The fields of an aggregate with their first values. -/
def fieldValues (a : Aggregate) : List (String × String) :=
  a.base.toList.map (fun base => ("base", base ++ "::new()")) ++
    a.fields.map fun f => (f.name, "Vec::new()")

lemma word_base : Word "base" :=
  ⟨by decide, List.all_eq_true.mp (by decide)⟩

/-- In its type, the fields of an aggregate are the base and the collections. -/
lemma fields_typeLines (h : ∀ f ∈ a.fields, Word f.name) :
    found fieldIn? a.typeLines = a.fieldTypes := by
  rw [typeLines, fieldTypes, found_append]
  congr 1
  · refine fields_map_code (fun base _ => ?_) fun _ _ => word_base
    simp only [String.append_assoc]
    rfl
  · refine fields_map_code (fun f _ => ?_) h
    simp only [String.append_assoc]
    rfl

/-- When it is made, the same fields are given values. -/
lemma fields_valueLines (h : ∀ f ∈ a.fields, Word f.name) :
    found fieldIn? a.valueLines = a.fieldValues := by
  rw [valueLines, fieldValues, found_append]
  congr 1
  · refine fields_map_code (fun base _ => ?_) fun _ _ => word_base
    simp only [String.append_assoc]
    rfl
  · refine fields_map_code (fun f _ => ?_) h
    simp only [String.append_assoc]
    rfl

lemma fields_baseLines (a : Aggregate) : a.baseLines.flatMap (found fieldIn?) = [] := by
  have hfn : Fieldless "pub fn " := fieldless_of_mem (by simp)
  unfold baseLines
  cases a.base with
  | none => rfl
  | some base =>
      have hget := fields_function ((hfn.append "base(&self) -> &").append base)
        ((fieldless_of_mem (by simp)).append "base" : Fieldless ("&self." ++ "base"))
      have hgetMut := fields_function ((hfn.append "base_mut(&mut self) -> &mut ").append base)
        ((fieldless_of_mem (by simp)).append "base" : Fieldless ("&mut self." ++ "base"))
      exact List.append_eq_nil_iff.mpr ⟨hget, List.append_eq_nil_iff.mpr ⟨hgetMut, rfl⟩⟩

/-- An aggregate gives its fields their types and then their first values. -/
lemma fields_lines (derives : List String) (h : ∀ f ∈ a.fields, Word f.name) :
    found fieldIn? (a.lines derives) = a.fieldTypes ++ a.fieldValues := by
  have hstruct : Fieldless ("pub struct " ++ a.name) := (fieldless_of_mem (by simp)).append _
  have himpl : Fieldless ("impl " ++ a.name) := (fieldless_of_mem (by simp)).append _
  have hself : fieldIn? ("Self" ++ " \x7b").toList = none := rfl
  have hnew : fieldIn? ("pub fn new() -> Self" ++ " \x7b").toList = none := rfl
  have haccessors : (a.accessors.flatMap Accessor.lines).flatMap (found fieldIn?) = [] := by
    rw [List.flatMap_assoc, List.flatMap_eq_nil_iff]
    intro c _
    rw [c.lines_eq, List.flatMap_cons, List.flatMap_singleton, Access.fields_lines,
      Access.fields_lines]
    rfl
  simp only [lines_eq, found_append, found_docLines, fields_deriveLines,
    found_block fieldIn?_close, (hstruct.append " \x7b").fieldIn?_eq_none,
    (himpl.append " \x7b").fieldIn?_eq_none, fields_typeLines h, found_separated, functionLines,
    List.flatMap_cons, List.flatMap_append, hnew, hself, fields_valueLines h, fields_baseLines,
    haccessors]
  simp [found, Line.read?]

end Aggregate

/-! ## Functions -/

/-- A function of the source: its name, the line that declares it and the line behind that. -/
structure Function where
  name : String
  head : String
  body : String
deriving DecidableEq

/-- The texts of lines of code. -/
def texts (ls : List Line) : List String :=
  found (fun cs => some (String.ofList cs)) ls

/-- The functions in lines of code. -/
def functionsOf : List String → List Function
  | head :: body :: rest =>
      ((itemIn? head.toList).map fun name => ⟨name, head, body⟩).toList ++
        functionsOf (body :: rest)
  | _ => []

/-- The functions in lines of source. -/
def functions (ls : List Line) : List Function :=
  functionsOf (texts ls)

lemma texts_append (ls ms : List Line) : texts (ls ++ ms) = texts ls ++ texts ms :=
  found_append ls ms

lemma texts_code (text : String) (ls : List Line) : texts (code text :: ls) = text :: texts ls := by
  rw [texts, found_code, String.ofList_toList]
  rfl

/-- The texts of a block are its header, those of its body and the closing brace. -/
lemma texts_block (header : String) (body : List Line) :
    texts (block header body) = (header ++ " \x7b") :: (texts body ++ ["\x7d"]) := by
  rw [block, List.cons_append, texts_code, texts_append, texts_code, texts, found_indent]
  rfl

lemma texts_separated (pieces : List (List Line)) :
    texts (separated pieces) = pieces.flatMap texts :=
  found_separated pieces

section Reading

variable {header first : String} {body ls : List Line}

/-- A line that declares nothing is passed over. -/
lemma functionsOf_silent (h : itemIn? text.toList = none) (rest : List String) :
    functionsOf (text :: rest) = functionsOf rest := by
  cases rest with
  | nil => rfl
  | cons next rest => simp [functionsOf, h]

/-- Lines that declare nothing are passed over. -/
lemma functionsOf_silent_append (h : items ls = []) (rest : List String) :
    functionsOf (texts ls ++ rest) = functionsOf rest := by
  induction ls with
  | nil => rfl
  | cons l ls ih =>
      obtain ⟨hl, hls⟩ := List.forall_mem_cons.mp (List.filterMap_eq_nil_iff.mp h)
      have hrest := ih (List.filterMap_eq_nil_iff.mpr hls)
      cases l with
      | blank => exact hrest
      | doc depth text => exact hrest
      | code depth text =>
          have htexts : texts (.code depth text :: ls) = text :: texts ls := texts_code text ls
          rw [htexts, List.cons_append, functionsOf_silent hl, hrest]

/-- A function is read with the first line of its body. -/
lemma functionsOf_block (hheader : Opens (some name) header)
    (hfirst : (texts body).head? = some first) (hbody : items body = []) (rest : List String) :
    functionsOf (texts (block header body) ++ rest) =
      ⟨name, header ++ " \x7b", first⟩ :: functionsOf rest := by
  have hclose : itemIn? "\x7d".toList = none := rfl
  obtain ⟨more, hmore⟩ := List.head?_eq_some_iff.mp hfirst
  have hrest : functionsOf (texts body ++ "\x7d" :: rest) = functionsOf rest := by
    rw [functionsOf_silent_append hbody, functionsOf_silent hclose]
  rw [texts_block, List.cons_append, List.append_assoc, List.singleton_append]
  rw [hmore, List.cons_append] at hrest ⊢
  rw [functionsOf, (hheader.append _).itemIn?_eq, hrest]
  rfl

end Reading

namespace Access

/-- The function that hands out a collection, as it is read. -/
def written (way : Access) (c : Accessor) : Function :=
  ⟨way.function c.name, way.head c ++ " \x7b", way.body c⟩

/-- An accessor is read as one function, with its head and its body. -/
lemma functionsOf_lines (way : Access) {c : Accessor} (h : Name.Legal (way.function c.name))
    (rest : List String) :
    functionsOf (texts (way.lines c) ++ rest) = way.written c :: functionsOf rest := by
  refine functionsOf_block (way.opens_head h) ?_ (items_code (way.opens_body c) []) rest
  rw [texts_code]
  rfl

end Access

namespace Aggregate

variable {a : Aggregate}

/-- The functions that hand out the base. -/
def baseFunctions (a : Aggregate) : List Function :=
  a.base.toList.flatMap fun base =>
    [⟨"base", "pub fn base(&self) -> &" ++ base ++ " \x7b", "&self.base"⟩,
     ⟨"base_mut", "pub fn base_mut(&mut self) -> &mut " ++ base ++ " \x7b", "&mut self.base"⟩]

/-- The functions of an aggregate: the constructor, those that hand out the base, and two for each
collection. -/
def functions (a : Aggregate) : List Function :=
  ⟨"new", "pub fn new() -> Self \x7b", "Self \x7b"⟩ :: a.baseFunctions ++
    a.accessors.flatMap fun c => [Access.read.written c, Access.write.written c]

lemma functionsOf_baseLines (a : Aggregate) (rest : List String) :
    functionsOf (a.baseLines.flatMap texts ++ rest) = a.baseFunctions ++ functionsOf rest := by
  unfold baseLines baseFunctions
  cases a.base with
  | none => rfl
  | some base =>
      have hget : Opens (some "base") ("pub fn base(&self) -> &" ++ base) :=
        Opens.append (fun _ => rfl) _
      have hgetMut : Opens (some "base_mut") ("pub fn base_mut(&mut self) -> &mut " ++ base) :=
        Opens.append (fun _ => rfl) _
      rw [List.flatMap_cons, List.flatMap_singleton, List.append_assoc,
        functionsOf_block hget rfl rfl, functionsOf_block hgetMut rfl rfl]
      rfl

/-- Accessors are read one after the other. -/
lemma functionsOf_accessors {cs : List Accessor}
    (h : ∀ c ∈ cs, ∀ way : Access, Name.Legal (way.function c.name)) (rest : List String) :
    functionsOf ((cs.flatMap Accessor.lines).flatMap texts ++ rest) =
      (cs.flatMap fun c => [Access.read.written c, Access.write.written c]) ++
        functionsOf rest := by
  induction cs with
  | nil => rfl
  | cons c cs ih =>
      obtain ⟨hc, hcs⟩ := List.forall_mem_cons.mp h
      rw [List.flatMap_cons, c.lines_eq, List.flatMap_append, List.flatMap_cons,
        List.flatMap_singleton, List.append_assoc, List.append_assoc,
        Access.functionsOf_lines _ (hc _), Access.functionsOf_lines _ (hc _), ih hcs]
      rfl

/-- **An aggregate has the functions that are listed for it, with their bodies.** -/
theorem functions_lines (derives : List String) (h : ∀ n ∈ a.functionNames, Name.Legal n) :
    Code.functions (a.lines derives) = a.functions := by
  have hfields : ∀ c ∈ a.fields, Name.Legal c.name := fun c hc => legal_of_mem_fields h hc
  have hstruct : Opens none ("pub struct " ++ a.name) := (opens_pub_type (by simp)).append _
  have himpl : Opens none ("impl " ++ a.name ++ " \x7b") :=
    ((opens_of_head (by decide)).append _).append _
  have hclose : itemIn? "\x7d".toList = none := rfl
  have hnew : Opens (some "new") "pub fn new() -> Self" := fun _ => rfl
  have hfront : items (a.docLines ++ deriveLines derives ++
      block ("pub struct " ++ a.name) a.typeLines ++ [.blank]) = [] := by
    simp only [items_append, items_deriveLines, items_block hstruct, items_typeLines hfields]
    rfl
  rw [Code.functions, lines_eq, texts_append, functionsOf_silent_append hfront, texts_block,
    functionsOf_silent himpl.itemIn?_eq, texts_separated, functionLines, List.cons_append,
    List.flatMap_cons, List.flatMap_append, List.append_assoc, List.append_assoc,
    functionsOf_block hnew (by rw [texts_block]; rfl) (items_self hfields), functionsOf_baseLines,
    functionsOf_accessors fun c hc => legal_function h hc, functionsOf_silent hclose]
  simp [functions, functionsOf]

/-- The source declares the aggregate, gives its fields their types and first values, and has its
functions with their bodies. -/
structure WrittenIn (a : Aggregate) (lines : List Line) : Prop where
  header : code ("pub struct " ++ a.name ++ " \x7b") ∈ lines
  fields : found fieldIn? lines = a.fieldTypes ++ a.fieldValues
  functions : Code.functions lines = a.functions

/-- The fields and functions of an aggregate are read back from its lines. -/
lemma writtenIn_lines (derives : List String) (h : ∀ n ∈ a.functionNames, Name.Legal n) :
    a.WrittenIn (a.lines derives) where
  header := by
    rw [lines_eq]
    refine List.mem_append_left _ (List.mem_append_left _ (List.mem_append_right _ ?_))
    exact List.mem_cons_self
  fields := fields_lines derives fun _ hf => word_of_legal (legal_of_mem_fields h hf)
  functions := functions_lines derives h

end Aggregate

end LevelSchema.Code
