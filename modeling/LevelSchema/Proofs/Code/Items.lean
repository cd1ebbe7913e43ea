import LevelSchema.Proofs.Code.Lines

/-!
# What generated source declares

The functions and constants of a piece of source are read back from its lines: a line declares one
if it starts with `fn` or `const`, possibly after `pub`, and the name comes next (`Code.items`).

**Written names.**  What stands in the source of a record, an aggregate or a parameter type is
exactly the list of names given here for it (`ParameterItem.items_lines`, `Record.items_lines`,
`Aggregate.items_lines`).  This needs the names to be legal.  Otherwise a field called `fn` would be
read as a function, and a name with a blank in it would be cut short.
-/

namespace LevelSchema

/-! ## Reading names -/

namespace Code

/-- The function or constant declared in front. -/
def itemAhead? (cs : List Char) : Option String :=
  match behind? "const" cs with
  | some rest => some (nameAhead ((behind? "fn" rest).getD rest))
  | none => (behind? "fn" cs).map nameAhead

/-- The function or constant declared by a line of code, public or not. -/
def itemIn? (cs : List Char) : Option String :=
  itemAhead? ((behind? "pub" cs).getD cs)

/-- The function or constant declared by a line. -/
def Line.item? : Line → Option String
  | .code _ text => itemIn? text.toList
  | _ => none

/-- The functions and constants declared by lines of source. -/
def items (lines : List Line) : List String :=
  lines.filterMap Line.item?

variable {name word : String} {c : Char} {cs rest : List Char}

/-- A legal name is not taken for a keyword. -/
lemma behind?_name (hword : word ∈ ["pub", "const", "fn", "use"]) (h : Name.Legal name)
    (hc : isWritten c = false) : behind? word (name.toList ++ c :: cs) = none :=
  isPrefixOf?_name word hword h hc []

/-! ## Openings of lines -/

/-- A text that decides what a line declares, however the line goes on. -/
def Opens (item : Option String) (text : String) : Prop :=
  ∀ tail : List Char, itemIn? (text.toList ++ tail) = item

variable {item : Option String} {text : String}

/-- A longer text opens a line in the same way. -/
lemma Opens.append (h : Opens item text) (more : String) : Opens item (text ++ more) := by
  intro tail
  rw [String.toList_append, List.append_assoc]
  exact h _

lemma Opens.itemIn?_eq (h : Opens item text) : itemIn? text.toList = item := by
  simpa using h []

lemma exists_of_head?_all {p : Char → Bool} (h : text.toList.head?.all p = false) :
    ∃ c cs, text.toList = c :: cs ∧ p c = false := by
  cases hchars : text.toList with
  | nil => simp [hchars] at h
  | cons c cs => exact ⟨c, cs, rfl, by simpa [hchars] using h⟩

/-- A line that does not start like a keyword declares nothing. -/
lemma opens_of_head (htext : text.toList.head?.all ['p', 'c', 'f'].contains = false) :
    Opens none text := by
  intro tail
  obtain ⟨c, cs, hchars, hc⟩ := exists_of_head?_all htext
  simp only [List.contains_eq_mem, List.mem_cons, List.not_mem_nil, or_false,
    decide_eq_false_iff_not, not_or] at hc
  obtain ⟨hp, hc, hf⟩ := hc
  rw [hchars]
  simp [itemIn?, itemAhead?, behind?, List.isPrefixOf?, Ne.symm hp, Ne.symm hc, Ne.symm hf]

/-- A line that starts with a name declares nothing. -/
lemma opens_name (h : Name.Legal name) (htext : text.toList.head?.all isWritten = false) :
    Opens none (name ++ text) := by
  intro tail
  obtain ⟨c, cs, hchars, hc⟩ := exists_of_head?_all htext
  rw [String.toList_append, List.append_assoc, hchars]
  simp [itemIn?, itemAhead?, behind?_name, h, hc]

/-- A line with `pub fn` declares the name behind it. -/
lemma opens_pub_fn (h : Name.Legal name) (htext : text.toList.head?.all isWritten = false) :
    Opens (some name) ("pub fn " ++ name ++ text) := by
  intro tail
  obtain ⟨c, cs, hchars, hc⟩ := exists_of_head?_all htext
  have hpub : ∀ ds, behind? "pub" ("pub fn ".toList ++ ds) = some ("fn ".toList ++ ds) :=
    fun _ => rfl
  have hconst : ∀ ds, behind? "const" ("fn ".toList ++ ds) = none := fun _ => rfl
  have hfn : ∀ ds, behind? "fn" ("fn ".toList ++ ds) = some ds := fun _ => rfl
  rw [String.toList_append, String.toList_append, List.append_assoc, List.append_assoc, hchars,
    itemIn?, hpub, Option.getD_some, itemAhead?, hconst, hfn]
  exact congrArg some (nameAhead_eq h hc)

/-- A line with `pub const` declares the name behind it. -/
lemma opens_pub_const (h : Name.Legal name) (htext : text.toList.head?.all isWritten = false) :
    Opens (some name) ("pub const " ++ name ++ text) := by
  intro tail
  obtain ⟨c, cs, hchars, hc⟩ := exists_of_head?_all htext
  have hpub : ∀ ds, behind? "pub" ("pub const ".toList ++ ds) = some ("const ".toList ++ ds) :=
    fun _ => rfl
  have hconst : ∀ ds, behind? "const" ("const ".toList ++ ds) = some ds := fun _ => rfl
  have hfn : ∀ ds, behind? "fn" (name.toList ++ c :: ds) = none :=
    fun _ => behind?_name (by simp) h hc
  rw [String.toList_append, String.toList_append, List.append_assoc, List.append_assoc, hchars,
    itemIn?, hpub, Option.getD_some, itemAhead?, hconst]
  simp only [List.cons_append, hfn, Option.getD_none, nameAhead_eq h hc]

lemma opens_pub_type (h : text ∈ ["pub enum ", "pub struct "]) : Opens none text := by
  simp only [List.mem_cons, List.not_mem_nil, or_false] at h
  rcases h with rfl | rfl <;> exact fun _ => rfl

/-! ## Pieces of source -/

lemma items_eq_found (ls : List Line) : items ls = found itemIn? ls :=
  List.filterMap_congr fun l _ => by cases l <;> rfl

lemma items_append (ls ms : List Line) : items (ls ++ ms) = items ls ++ items ms :=
  List.filterMap_append

lemma items_code (h : Opens item text) (ls : List Line) :
    items (code text :: ls) = item.toList ++ items ls := by
  rw [items_eq_found, found_code, h.itemIn?_eq, items_eq_found]

lemma items_blank (ls : List Line) : items (.blank :: ls) = items ls :=
  rfl

lemma items_doc (text : String) (ls : List Line) : items (doc text :: ls) = items ls :=
  rfl

lemma items_docs (description : Option String) : items (docs description) = [] := by
  rw [items_eq_found, found_docs]

/-- A block declares what its header does, and then what its body does. -/
lemma items_block {header : String} (h : Opens item header) (body : List Line) :
    items (block header body) = item.toList ++ items body := by
  rw [items_eq_found, found_block rfl, (h.append _).itemIn?_eq, items_eq_found]

lemma items_blockOrEmpty {header : String} (h : Opens item header) (body : List Line) :
    items (blockOrEmpty header body) = item.toList ++ items body := by
  rw [items_eq_found, found_blockOrEmpty rfl (h.append _).itemIn?_eq (h.append _).itemIn?_eq,
    items_eq_found]

/-- Blank lines between pieces declare nothing. -/
lemma items_separated (pieces : List (List Line)) :
    items (separated pieces) = pieces.flatMap items := by
  rw [items_eq_found, found_separated]
  exact List.flatMap_congr fun piece _ => (items_eq_found piece).symm

/-- Lines of which none declares anything. -/
lemma items_map_code {α : Type} {f : α → String} {as : List α} (h : ∀ a ∈ as, Opens none (f a)) :
    items (as.map fun a => code (f a)) = [] := by
  rw [items_eq_found, found_map_code, List.filterMap_eq_nil_iff]
  exact fun a ha => (h a ha).itemIn?_eq

lemma items_deriveLines (derives : List String) : items (deriveLines derives) = [] := by
  unfold deriveLines
  split_ifs
  · rfl
  · exact items_code (((opens_of_head (by decide)).append _).append _) []

/-! ## Lists of names -/

/-- The functions of a record: the constructor, getters and setters. -/
def Record.functionNames (r : Record) : List String :=
  "new" :: r.fields.flatMap fun f => [f.name, f.setter]

/-- The functions of an aggregate that hand out its collections. -/
def Aggregate.accessorNames (a : Aggregate) : List String :=
  a.accessors.flatMap fun c => [c.name, c.name ++ "_mut"]

/-- The functions of an aggregate; those that hand out a base are counted even where there is none.
-/
def Aggregate.functionNames (a : Aggregate) : List String :=
  "new" :: "base" :: "base_mut" :: a.accessorNames

/-- The functions of every flag set. -/
def flagFunctions : List String :=
  ["empty", "all", "bits", "contains", "is_empty", "bitor", "bitor_assign"]

/-- The functions and constants of a parameter type. -/
def ParameterItem.itemNames : ParameterItem → List String
  | .enumeration _ => ["ALL", "value"]
  | .flagSet f => f.constants.map (·.name) ++ flagFunctions

/-- The names that reach a parameter type's members from outside: the variants of an enumeration and
the list of all of them, or what a flag set declares. -/
def ParameterItem.memberNames : ParameterItem → List String
  | .enumeration e => "ALL" :: e.variants.map (·.name)
  | .flagSet f => f.constants.map (·.name) ++ flagFunctions

/-- Every name that a module declares. -/
def Module.declaredNames (m : Module) : List String :=
  m.name :: m.aggregate.name :: (m.parameters.map (·.name) ++ m.records.map (·.name) ++
    m.parameters.flatMap (fun p => p.itemNames ++ p.memberNames) ++
      m.records.flatMap (·.functionNames) ++ m.aggregate.functionNames)

/-! ## Reading them back -/

/-- The constructor declares itself and nothing else. -/
lemma items_new {body : List Line} (h : items body = []) :
    items (block "pub fn new() -> Self" body) = ["new"] := by
  have hopens : Opens (some "new") "pub fn new() -> Self" := fun _ => rfl
  rw [items_block hopens, h]
  rfl

/-- Descriptions declare nothing, so a list of described lines declares what the lines do. -/
lemma items_described {α : Type} {f : α → Option String} {g : α → String} {n : α → Option String}
    {as : List α} (h : ∀ a ∈ as, Opens (n a) (g a)) :
    items (as.flatMap fun a => docs (f a) ++ [code (g a)]) = as.filterMap n := by
  rw [items_eq_found, found_described]
  exact List.filterMap_congr fun a ha => (h a ha).itemIn?_eq

lemma items_variantLines {variants : List Constant} (h : ∀ v ∈ variants, Name.Legal v.name) :
    items (variantLines variants) = [] := by
  have hvariant : ∀ v ∈ variants, Opens none (v.name ++ " = " ++ toString v.value.toNat ++ ",") :=
    fun v hv => ((opens_name (h v hv) (by decide)).append _).append _
  cases variants with
  | nil => rfl
  | cons first others =>
      obtain ⟨hfirst, hothers⟩ := List.forall_mem_cons.mp hvariant
      have hdefault : Opens none "#[default]" := opens_of_head (by decide)
      rw [variantLines, items_append, items_append, items_docs, items_code hdefault,
        items_code hfirst, items_described hothers, List.filterMap_none]
      rfl

/-- An enumeration declares the same two items, whatever its variants are. -/
lemma Enumeration.items_lines {e : Enumeration} (h : ∀ v ∈ e.variants, Name.Legal v.name) :
    items e.lines = ["ALL", "value"] := by
  have henum : Opens none ("pub enum " ++ e.name) := (opens_pub_type (by simp)).append _
  have himpl : Opens none ("impl " ++ e.name) := (opens_of_head (by decide)).append _
  have hopens : Opens (some "ALL") "pub const ALL: [Self; " := fun _ => rfl
  have hall : Opens (some "ALL") ("pub const ALL: [Self; " ++ toString e.variants.length ++
      "] = [" ++ ", ".intercalate (e.variants.map fun c => "Self::" ++ c.name) ++ "];") :=
    (((hopens.append _).append _).append _).append _
  simp only [lines, items_append, items_docs, items_block henum, items_block himpl,
    items_variantLines h, items_doc, items_code hall]
  rfl

/-- A flag set declares its constants and the functions of every flag set. -/
lemma FlagSet.items_lines {f : FlagSet} (h : ∀ c ∈ f.constants, Name.Legal c.name) :
    items f.lines = f.constants.map (·.name) ++ flagFunctions := by
  have hderives : ∀ ls, items (parameterDerives :: ls) = items ls := fun _ => rfl
  have hstruct : Opens none ("pub struct " ++ f.name ++ "(u32);") :=
    ((opens_pub_type (by simp)).append _).append _
  have himpl : Opens none ("impl " ++ f.name) := (opens_of_head (by decide)).append _
  have hor : Opens none ("impl std::ops::BitOr for " ++ f.name) :=
    (opens_of_head (by decide)).append _
  have hassign : Opens none ("impl std::ops::BitOrAssign for " ++ f.name) :=
    (opens_of_head (by decide)).append _
  have hconstant : ∀ c ∈ f.constants, Opens (some c.name)
      ("pub const " ++ c.name ++ ": Self = Self(" ++ toString c.value.toNat ++ ");") :=
    fun c hc => ((opens_pub_const (h c hc) (by decide)).append _).append _
  have hmask : items [code ("Self(" ++ toString f.mask.toNat ++ ")")] = [] :=
    items_code (((opens_of_head (by decide)).append _).append _) []
  have hopens : Opens (some "all") "pub const fn all() -> Self" := fun _ => rfl
  simp only [lines, items_append, items_docs, items_block himpl, items_block hor,
    items_block hassign, items_described hconstant, hderives, items_code hstruct, items_blank,
    items_separated, List.flatMap_cons, items_block hopens, hmask, List.filterMap_eq_map',
    List.append_assoc]
  rfl

/-- The lines of a parameter type declare its items, in order. -/
lemma ParameterItem.items_lines {p : ParameterItem} (h : ∀ n ∈ p.memberNames, Name.Legal n) :
    items p.lines = p.itemNames := by
  cases p with
  | enumeration e =>
      exact e.items_lines fun v hv => h _ (.tail _ (List.mem_map.mpr ⟨v, hv, rfl⟩))
  | flagSet f =>
      exact f.items_lines fun c hc => h _ (List.mem_append_left _ (List.mem_map.mpr ⟨c, hc, rfl⟩))

/-- A field gives a function to read it and one to set it. -/
lemma Field.items_accessorLines {f : Field} (hname : Name.Legal f.name)
    (hsetter : Name.Legal f.setter) : items f.accessorLines = [f.name, f.setter] := by
  have hget : Opens (some f.name) ("pub fn " ++ f.name ++ "(&self) -> " ++ f.handedType) :=
    (opens_pub_fn hname (by decide)).append _
  have hset : Opens (some f.setter)
      ("pub fn " ++ f.setter ++ "(&mut self, value: Option<" ++ f.type ++ ">)") :=
    ((opens_pub_fn hsetter (by decide)).append _).append _
  have hself : ∀ t, Opens none ("self." ++ t) := fun t => (opens_of_head (by decide)).append t
  have hread : items [code f.getExpr] = [] := by
    unfold Field.getExpr
    cases f.storage
    · exact items_code ((hself _).append _) []
    · exact items_code (hself _) []
    · exact items_code ((hself _).append _) []
  have hwrite : items [code ("self." ++ f.name ++ " = " ++ f.setExpr ++ ";")] = [] :=
    items_code ((((hself _).append _).append _).append _) []
  rw [accessorLines, items_append, items_append, items_append, items_docs, items_block hget,
    items_block hset, hread, hwrite]
  rfl

lemma Record.items_docLines (r : Record) : items r.docLines = [] := by
  rw [items_eq_found, r.found_docLines]

/-- The lines of a record declare its functions, in order. -/
lemma Record.items_lines {r : Record} (derives : List String)
    (h : ∀ n ∈ r.functionNames, Name.Legal n) : items (r.lines derives) = r.functionNames := by
  have hlegal : ∀ f ∈ r.fields, Name.Legal f.name ∧ Name.Legal f.setter := by
    intro f hf
    have hmem : ∀ n ∈ [f.name, f.setter], Name.Legal n := fun n hn =>
      h n (.tail _ (List.mem_flatMap.mpr ⟨f, hf, hn⟩))
    exact ⟨hmem _ (by simp), hmem _ (by simp)⟩
  have hstruct : Opens none ("pub struct " ++ r.name) := (opens_pub_type (by simp)).append _
  have himpl : Opens none ("impl " ++ r.name) := (opens_of_head (by decide)).append _
  have hself : Opens none "Self" := opens_of_head (by decide)
  have htypes : items (r.fields.map fun f => code (f.name ++ ": " ++ f.storedType ++ ",")) = [] :=
    items_map_code fun f hf => ((opens_name (hlegal f hf).1 (by decide)).append _).append _
  have hvalues : items (blockOrEmpty "Self" (r.fields.map fun f => code (f.name ++ ": None,"))) =
      [] := by
    rw [items_blockOrEmpty hself, items_map_code]
    · rfl
    · exact fun f hf => opens_name (hlegal f hf).1 (by decide)
  have haccessors : r.fields.flatMap (fun f => items f.accessorLines) =
      r.fields.flatMap fun f => [f.name, f.setter] :=
    List.flatMap_congr fun f hf => f.items_accessorLines (hlegal f hf).1 (hlegal f hf).2
  simp only [lines, items_append, items_docLines, items_deriveLines, items_blockOrEmpty hstruct,
    htypes, items_block himpl, items_separated, List.flatMap_cons, items_new hvalues,
    List.flatMap_map, haccessors]
  rfl

namespace Aggregate

variable {a : Aggregate}

/-- Only an aggregate with a base gives access to it. -/
lemma items_baseLines (a : Aggregate) : a.baseLines.flatMap items =
    if a.base.isSome then ["base", "base_mut"] else [] := by
  unfold baseLines
  cases a.base with
  | none => rfl
  | some base =>
      have hget : Opens (some "base") ("pub fn base(&self) -> &" ++ base) :=
        Opens.append (fun _ => rfl) _
      have hmut : Opens (some "base_mut") ("pub fn base_mut(&mut self) -> &mut " ++ base) :=
        Opens.append (fun _ => rfl) _
      simp only [List.flatMap_cons, items_block hget, items_block hmut]
      rfl

/-- The functions that hand out a collection have legal names, whatever it is handed out for. -/
lemma legal_function (h : ∀ n ∈ a.functionNames, Name.Legal n) {c : Accessor}
    (hc : c ∈ a.accessors) (way : Access) : Name.Legal (way.function c.name) := by
  refine h _ (.tail _ (.tail _ (.tail _ (List.mem_flatMap.mpr ⟨c, hc, ?_⟩))))
  cases way with
  | read => exact List.mem_cons_self
  | write => exact .tail _ List.mem_cons_self

lemma legal_of_mem_fields (h : ∀ n ∈ a.functionNames, Name.Legal n) {c : Accessor}
    (hc : c ∈ a.fields) : Name.Legal c.name :=
  legal_function h (List.mem_of_mem_filter hc) .read

lemma opens_base (text : String) : Opens none ("base: " ++ text) :=
  (opens_of_head (by decide)).append text

/-- The fields of an aggregate are no items. -/
lemma items_typeLines (h : ∀ c ∈ a.fields, Name.Legal c.name) : items a.typeLines = [] := by
  rw [typeLines, items_append, items_map_code fun base _ => (opens_base base).append _,
    items_map_code]
  · rfl
  · exact fun c hc => ((opens_name (h c hc) (by decide)).append _).append _

lemma items_valueLines (h : ∀ c ∈ a.fields, Name.Legal c.name) : items a.valueLines = [] := by
  rw [valueLines, items_append, items_map_code fun base _ => (opens_base base).append _,
    items_map_code]
  · rfl
  · exact fun c hc => opens_name (h c hc) (by decide)

/-- The body of the constructor declares nothing. -/
lemma items_self (h : ∀ c ∈ a.fields, Name.Legal c.name) :
    items (block "Self" a.valueLines) = [] := by
  rw [items_block (opens_of_head (by decide)), items_valueLines h]
  rfl

end Aggregate

namespace Access

variable {c : Accessor}

lemma opens_head (way : Access) (h : Name.Legal (way.function c.name)) :
    Opens (some (way.function c.name)) (way.head c) := by
  cases way with
  | read => exact ((opens_pub_fn h (by decide)).append _).append _
  | write =>
      have hheader : "pub fn " ++ c.name ++ "_mut(&mut self) -> &mut Vec<" =
          "pub fn " ++ (c.name ++ "_mut") ++ "(&mut self) -> &mut Vec<" := by
        simp only [String.append_assoc]
        rfl
      rw [head, hheader]
      exact ((opens_pub_fn h (by decide)).append _).append _

lemma opens_body (way : Access) (c : Accessor) : Opens none (way.body c) := by
  cases hc : c.isOwn with
  | true =>
      rw [way.body_own hc]
      cases way <;> exact (opens_of_head (by decide)).append _
  | false =>
      rw [way.body_inherited hc]
      exact ((opens_of_head (by decide)).append _).append _

/-- An accessor declares one function. -/
lemma items_lines (way : Access) (h : Name.Legal (way.function c.name)) :
    items (way.lines c) = [way.function c.name] := by
  rw [lines, items_block (way.opens_head h), items_code (way.opens_body c)]
  rfl

end Access

/-- The lines of an aggregate declare its functions, in order. -/
lemma Aggregate.items_lines {a : Aggregate} (derives : List String)
    (h : ∀ n ∈ a.functionNames, Name.Legal n) : items (a.lines derives) =
      "new" :: (if a.base.isSome then ["base", "base_mut"] else []) ++ a.accessorNames := by
  have hfields : ∀ c ∈ a.fields, Name.Legal c.name := fun c hc => legal_of_mem_fields h hc
  have haccessors : (a.accessors.flatMap Accessor.lines).flatMap items = a.accessorNames := by
    rw [List.flatMap_assoc]
    refine List.flatMap_congr fun c hc => ?_
    have hway := fun way : Access => way.items_lines (legal_function h hc way)
    rw [c.lines_eq, List.flatMap_cons, List.flatMap_singleton, hway, hway]
    rfl
  have hstruct : Opens none ("pub struct " ++ a.name) := (opens_pub_type (by simp)).append _
  have himpl : Opens none ("impl " ++ a.name) := (opens_of_head (by decide)).append _
  simp only [lines_eq, items_append, items_deriveLines, items_block hstruct,
    items_typeLines hfields, items_block himpl, items_separated, functionLines, List.flatMap_cons,
    List.flatMap_append, items_new (items_self hfields), items_baseLines, haccessors]
  rfl

end Code

end LevelSchema
