import LevelSchema.Proofs.Code.Binding

/-!
# Lines stay lines

Generated source is made of lines, but it is handed out as text.  The lines can be read back from
the text only if none of them holds a line feed (`Code.madeOf_text`), and moving a piece of source
inwards moves each row of its text only if no line of code is empty (`Code.map_render_indent`).
Lines with both properties **fit**.

**What can break a line.**  The words of the templates stay on their lines, so it is the texts taken
from a schema and from the settings that matter: names of modules, types, fields and functions, the
place of the primitives, and the derives (`Code.Module.fit_lines`).  Descriptions do not: they are
cut into lines before they are written.
-/

namespace LevelSchema

namespace Code

variable {s t : String}

/-! ## Texts on one line -/

/-- A text without line feeds. -/
def OneLine (s : String) : Prop :=
  '\n' ∉ s.toList

instance (s : String) : Decidable (OneLine s) :=
  inferInstanceAs (Decidable ('\n' ∉ s.toList))

/-- For texts that are written out: their characters are compared without being decoded first. -/
lemma oneLine_ofList {cs : List Char} (h : '\n' ∉ cs) : OneLine (String.ofList cs) := by
  rwa [OneLine, String.toList_ofList]

/-- A text in two parts stays on its line if both do. -/
@[simp]
lemma oneLine_append : OneLine (s ++ t) ↔ OneLine s ∧ OneLine t := by
  simp [OneLine]

@[simp]
lemma oneLine_repr (n : Nat) : OneLine n.repr :=
  not_mem_toString n (by decide)

/-- A word has no line break. -/
lemma Word.oneLine (h : Word s) : OneLine s :=
  h.not_mem (by decide)

lemma oneLine_of_isIdentifier (h : Name.isIdentifier s = true) : OneLine s :=
  (word_of_isIdentifier_bare (by rwa [Name.bare_of_isIdentifier h])).oneLine

/-- Every character of a path but the separator is in one of its segments. -/
lemma mem_pathSegments {c : Char} {cs : List Char} (hc : c ≠ ':') (h : c ∈ cs) :
    ∃ segment ∈ pathSegments cs, c ∈ segment := by
  fun_induction pathSegments cs with
  | case1 => exact nomatch h
  | case2 cs ih =>
      obtain ⟨segment, hsegment, hmem⟩ := ih (by simpa [hc] using h)
      exact ⟨segment, List.mem_cons_of_mem _ hsegment, hmem⟩
  | case3 d cs hd hsegments ih =>
      rw [hsegments] at ih
      obtain rfl | h := List.mem_cons.mp h
      · exact ⟨_, List.mem_cons_self, List.mem_cons_self⟩
      · exact nomatch ih h
  | case4 d cs hd segment segments hsegments ih =>
      rw [hsegments] at ih
      obtain rfl | h := List.mem_cons.mp h
      · exact ⟨_, List.mem_cons_self, List.mem_cons_self⟩
      · simp only [List.exists_mem_cons_iff] at ih ⊢
        exact (ih h).imp_left (List.mem_cons_of_mem _)

/-- A path has no line break, since none of its segments has one. -/
lemma oneLine_of_isPath (h : isPath s = true) : OneLine s := by
  intro hmem
  obtain ⟨segment, hsegment, hmem⟩ := mem_pathSegments (by decide) hmem
  have hpart := Name.isPart_of_mem_identifier (List.all_eq_true.mp h segment hsegment) hmem
  exact absurd hpart (by decide)

/-! ## Lines that fit -/

/-- A line that is one row when it is written, and not an empty one unless it is blank. -/
def Line.Fits : Line → Prop
  | .blank => True
  | .code _ text => text ≠ "" ∧ OneLine text
  | .doc _ text => OneLine text

/-- Lines that all fit. -/
def Fit (ls : List Line) : Prop :=
  ∀ l ∈ ls, l.Fits

variable {ls ms : List Line} {α : Type}

@[simp]
lemma fits_blank : Line.blank.Fits :=
  trivial

@[simp]
lemma fits_code : (code s).Fits ↔ s ≠ "" ∧ OneLine s :=
  .rfl

@[simp]
lemma fits_doc : (doc s).Fits ↔ OneLine s :=
  .rfl

@[simp]
lemma fit_nil : Fit [] :=
  List.forall_mem_nil _

@[simp]
lemma fit_cons {l : Line} : Fit (l :: ls) ↔ l.Fits ∧ Fit ls :=
  List.forall_mem_cons

/-- Lines fit in two parts if both do. -/
@[simp]
lemma fit_append : Fit (ls ++ ms) ↔ Fit ls ∧ Fit ms :=
  List.forall_mem_append

@[simp]
lemma fit_flatMap {as : List α} {f : α → List Line} :
    Fit (as.flatMap f) ↔ ∀ a ∈ as, Fit (f a) := by
  simp only [Fit, List.mem_flatMap]
  exact ⟨fun h a ha l hl => h l ⟨a, ha, hl⟩, fun h l ⟨a, ha, hl⟩ => h a ha l hl⟩

@[simp]
lemma fit_map {as : List α} {f : α → Line} : Fit (as.map f) ↔ ∀ a ∈ as, (f a).Fits :=
  List.forall_mem_map

/-- Indentation does not matter for whether a line fits. -/
@[simp]
lemma fits_indent {l : Line} : l.indent.Fits ↔ l.Fits := by
  cases l <;> rfl

/-- A block fits if its head is one line and its body fits. -/
@[simp]
lemma fit_block : Fit (block s ls) ↔ OneLine s ∧ Fit ls := by
  have hopen : OneLine " \x7b" := by decide
  have hclose : OneLine "\x7d" := by decide
  have hbody : Fit (ls.map Line.indent) ↔ Fit ls :=
    fit_map.trans (forall₂_congr fun _ _ => fits_indent)
  simp [block, hopen, hclose, hbody, -fit_map]

@[simp]
lemma fit_blockOrEmpty : Fit (blockOrEmpty s ls) ↔ OneLine s ∧ Fit ls := by
  have hempty : OneLine " \x7b\x7d" := by decide
  unfold blockOrEmpty
  split_ifs with h
  · simp [hempty, List.isEmpty_iff.mp h]
  · exact fit_block

/-- Blank lines between pieces always fit. -/
@[simp]
lemma fit_separated {pieces : List (List Line)} : Fit (separated pieces) ↔ ∀ p ∈ pieces, Fit p := by
  fun_induction separated pieces with
  | case1 => simp
  | case2 piece => simp
  | case3 piece pieces _ ih => simp [ih]

/-- A description fits whatever it says, since it is split at its line breaks. -/
@[simp]
lemma fit_docs (description : Option String) : Fit (docs description) := by
  intro l hl
  obtain ⟨text, rfl, htext⟩ := exists_doc_of_mem_docs hl
  exact htext

/-! ## Reading rows back -/

/-- The rows of a text, without the line feeds that end them. -/
def rowsOf (text : String) : List String :=
  (Text.lines text.toList).map String.ofList

/-- The text has the given rows, and a line feed behind each of them. -/
structure MadeOf (text : String) (rows : List String) : Prop where
  rowsOf_eq : rowsOf text = rows
  text_eq : text = String.join (rows.map (· ++ "\n"))

/-- A row moved inwards; an empty one stays empty. -/
def indented (row : String) : String :=
  if row = "" then "" else "    " ++ row

/-- A line that fits is written on one line. -/
lemma Line.Fits.oneLine_render {l : Line} (h : l.Fits) : OneLine l.render := by
  have hmargin (depth : Nat) : OneLine (margin depth) := by
    simp [OneLine, margin]
  cases l with
  | blank => decide
  | code depth text => exact oneLine_append.mpr ⟨hmargin depth, h.2⟩
  | doc depth text =>
      refine oneLine_append.mpr ⟨hmargin depth, ?_⟩
      split_ifs
      · decide
      · exact oneLine_append.mpr ⟨by decide, h⟩

/-- Lines that fit are read back as they were written. -/
lemma madeOf_text (h : Fit ls) : MadeOf (text ls) (ls.map Line.render) := by
  have hrows : ∀ row ∈ ls.map fun l => l.render.toList, '\n' ∉ row :=
    List.forall_mem_map.mpr fun l hl => (h l hl).oneLine_render
  refine ⟨?_, by rw [List.map_map]; rfl⟩
  rw [rowsOf, toList_text, Text.lines_flatMap hrows, List.map_map]
  exact List.map_congr_left fun l _ => String.ofList_toList

/-- One more level of indentation is four more blanks. -/
lemma margin_succ (depth : Nat) : Line.margin (depth + 1) = "    " ++ Line.margin depth := by
  refine String.toList_injective ?_
  rw [Line.margin, Line.margin, Nat.mul_succ, Nat.add_comm, List.replicate_add]
  simp

/-- A line that fits is empty only if it is blank, so its row is moved like the line. -/
lemma Line.Fits.render_indent {l : Line} (h : l.Fits) : l.indent.render = indented l.render := by
  have hmoved (depth : Nat) {text : String} (htext : text ≠ "") :
      margin (depth + 1) ++ text = indented (margin depth ++ text) := by
    rw [indented, if_neg fun hempty => htext (String.append_eq_empty_iff.mp hempty).2, margin_succ,
      String.append_assoc]
  cases l with
  | blank => rfl
  | code depth text => exact hmoved depth h.1
  | doc depth text =>
      refine hmoved depth ?_
      split_ifs <;> simp

/-- Lines that fit are indented after they are written as well as before. -/
lemma map_render_indent (h : Fit ls) :
    (ls.map Line.indent).map Line.render = (ls.map Line.render).map indented := by
  rw [List.map_map, List.map_map]
  exact List.map_congr_left fun l hl => (h l hl).render_indent

/-! ## Modules

A part of a module fits if the texts it is written with, descriptions apart, stay on one line.  Then
so do the lines that it is written as. -/

/-- A parameter type whose texts stay on one line. -/
structure ParameterItem.Fits (item : ParameterItem) : Prop where
  name : OneLine item.name
  members : ∀ n ∈ item.memberNames, OneLine n

/-- A field whose texts stay on one line. -/
structure Field.Fits (f : Field) : Prop where
  name : OneLine f.name
  setter : OneLine f.setter
  type : OneLine f.type

/-- A record whose texts stay on one line. -/
structure Record.Fits (r : Record) : Prop where
  name : OneLine r.name
  specializes : ∀ parent ∈ r.specializes, OneLine parent
  fields : ∀ f ∈ r.fields, f.Fits

/-- An accessor whose texts stay on one line. -/
structure Accessor.Fits (a : Accessor) : Prop where
  name : OneLine a.name
  element : OneLine a.element

/-- An aggregate whose texts stay on one line. -/
structure Aggregate.Fits (a : Aggregate) : Prop where
  level : OneLine a.level
  name : OneLine a.name
  base : ∀ base ∈ a.base, OneLine base
  accessors : ∀ c ∈ a.accessors, c.Fits

/-- Names brought in whose texts stay on one line. -/
structure Use.Fits (u : Use) : Prop where
  source : OneLine u.source
  names : ∀ n ∈ u.names, OneLine n

/-- A module whose texts stay on one line. -/
structure Module.Fits (m : Module) : Prop where
  name : OneLine m.name
  uses : ∀ u ∈ m.uses, u.Fits
  parameters : ∀ p ∈ m.parameters, p.Fits
  records : ∀ r ∈ m.records, r.Fits
  aggregate : m.aggregate.Fits

variable {derives : List String}

/-- An import of names that fit is one line. -/
lemma Use.Fits.fits_line {u : Use} (h : u.Fits) : u.line.Fits := by
  have hnames : OneLine (useList u.names) := by
    unfold useList
    split
    · next name hname => exact h.names name (hname ▸ List.mem_singleton_self _)
    · have hlist : OneLine (", ".intercalate u.names) := not_mem_intercalate (by decide) h.names
      simp +decide [hlist]
  simp +decide [line, h.source, hnames]

lemma fit_variantLines {cs : List Constant} (h : ∀ c ∈ cs, OneLine c.name) :
    Fit (variantLines cs) := by
  cases cs with
  | nil => exact fit_nil
  | cons c cs =>
      obtain ⟨hc, hcs⟩ := List.forall_mem_cons.mp h
      simp +contextual +decide [variantLines, hc, hcs]

/-- A parameter type whose names fit has lines that do. -/
lemma ParameterItem.Fits.fit_lines {item : ParameterItem} (h : item.Fits) : Fit item.lines := by
  obtain ⟨hname, hmembers⟩ := h
  cases item with
  | enumeration e =>
      have hvariants : ∀ c ∈ e.variants, OneLine c.name := fun c hc =>
        hmembers _ (List.mem_cons_of_mem _ (List.mem_map_of_mem hc))
      have hall : OneLine (", ".intercalate (e.variants.map fun c => "Self::" ++ c.name)) :=
        not_mem_intercalate (by decide) (List.forall_mem_map.mpr fun c hc =>
          oneLine_append.mpr ⟨by decide, hvariants c hc⟩)
      have hname : OneLine e.name := hname
      simp only [lines, Enumeration.lines, parameterDerives, Nat.toString_eq_repr, fit_append,
        fit_docs, fit_cons, fits_code, fits_doc, fits_blank, fit_nil, fit_block, oneLine_append,
        oneLine_repr, hname, hall, fit_variantLines hvariants, ne_eq, String.reduceEq,
        String.append_eq_empty_iff, false_and, not_false_eq_true, true_and, and_true]
      and_intros <;> exact oneLine_ofList (by decide)
  | flagSet f =>
      have hconstants : ∀ c ∈ f.constants, OneLine c.name := fun c hc =>
        hmembers _ (List.mem_append_left _ (List.mem_map_of_mem hc))
      have hname : OneLine f.name := hname
      simp only [lines, FlagSet.lines, parameterDerives, Nat.toString_eq_repr, fit_append,
        fit_docs, fit_cons, fits_code, fits_blank, fit_nil, fit_block, fit_flatMap, fit_separated,
        List.forall_mem_cons, List.not_mem_nil, IsEmpty.forall_iff, implies_true, oneLine_append,
        oneLine_repr, hname, ne_eq, String.reduceEq, String.append_eq_empty_iff, false_and,
        not_false_eq_true, true_and, and_true]
      -- beside the names of the constants only words of the template are left
      refine ⟨⟨⟨?_, ?_, fun c hc => ⟨⟨⟨?_, hconstants c hc⟩, ?_⟩, ?_⟩, ?_⟩, ?_⟩, ?_⟩
      all_goals and_intros <;> exact oneLine_ofList (by decide)

/-- The derived traits are one line, however many there are. -/
lemma fit_deriveLines (h : ∀ d ∈ derives, OneLine d) : Fit (deriveLines derives) := by
  have hderives : OneLine (", ".intercalate derives) := not_mem_intercalate (by decide) h
  unfold deriveLines
  split_ifs
  · exact fit_nil
  · simp +decide [hderives]

namespace Field.Fits

variable {f : Field}

lemma oneLine_storedType (h : f.Fits) : OneLine f.storedType := by
  cases hstorage : f.storage <;> simp +decide [storedType, hstorage, h.type]

lemma oneLine_handedType (h : f.Fits) : OneLine f.handedType := by
  cases hstorage : f.storage <;> simp +decide [handedType, hstorage, h.type]

lemma fits_getExpr (h : f.Fits) : (code f.getExpr).Fits := by
  cases hstorage : f.storage <;> simp +decide [getExpr, hstorage, h.name]

lemma oneLine_setExpr (f : Field) : OneLine f.setExpr := by
  cases hstorage : f.storage <;> simp +decide [setExpr, hstorage]

/-- The accessors of a field fit if the field does. -/
lemma fit_accessorLines (h : f.Fits) : Fit f.accessorLines := by
  have hset : (code ("self." ++ f.name ++ " = " ++ f.setExpr ++ ";")).Fits := by
    simp +decide [h.name, oneLine_setExpr]
  simp +decide [accessorLines, h.name, h.setter, h.type, h.oneLine_handedType, h.fits_getExpr,
    hset, -fits_code]

end Field.Fits

namespace Record.Fits

variable {r : Record}

lemma fit_docLines (h : r.Fits) : Fit r.docLines := by
  unfold docLines
  cases hparent : r.specializes with
  | none => simp
  | some parent =>
      have hparent := h.specializes parent hparent
      split_ifs <;> simp +decide [hparent]

/-- A record whose names fit has lines that do. -/
lemma fit_lines (hderives : ∀ d ∈ derives, OneLine d) (h : r.Fits) : Fit (r.lines derives) := by
  have hstored : ∀ f ∈ r.fields, OneLine f.storedType := fun f hf =>
    (h.fields f hf).oneLine_storedType
  have haccessors : ∀ f ∈ r.fields, Fit f.accessorLines := fun f hf =>
    (h.fields f hf).fit_accessorLines
  have hnames : ∀ f ∈ r.fields, OneLine f.name := fun f hf => (h.fields f hf).name
  simp +contextual +decide [lines, h.fit_docLines, fit_deriveLines hderives, h.name, hstored,
    hnames, haccessors]

end Record.Fits

namespace Accessor.Fits

variable {a : Accessor}

lemma fits_getExpr (h : a.Fits) : (code a.getExpr).Fits := by
  unfold getExpr
  split_ifs <;> simp +decide [h.name]

lemma fits_getMutExpr (h : a.Fits) : (code a.getMutExpr).Fits := by
  unfold getMutExpr
  split_ifs <;> simp +decide [h.name]

/-- Each accessor of a collection fits if its names do. -/
lemma fit_of_mem_lines (h : a.Fits) : ∀ piece ∈ a.lines, Fit piece := by
  simp +decide [lines, h.name, h.element, h.fits_getExpr, h.fits_getMutExpr, -fits_code]

end Accessor.Fits

namespace Aggregate.Fits

variable {a : Aggregate}

lemma fit_of_mem_baseLines (h : a.Fits) : ∀ piece ∈ a.baseLines, Fit piece := by
  unfold baseLines
  cases hbase : a.base with
  | none => simp
  | some base => simp +decide [h.base base hbase]

/-- An aggregate whose names fit has lines that do. -/
lemma fit_lines (hderives : ∀ d ∈ derives, OneLine d) (h : a.Fits) : Fit (a.lines derives) := by
  have hfields : ∀ c ∈ a.fields, c.Fits := fun c hc => h.accessors c (List.mem_of_mem_filter hc)
  have haccessors : ∀ piece ∈ a.accessors.flatMap Accessor.lines, Fit piece :=
    List.forall_mem_flatMap.mpr fun c hc => (h.accessors c hc).fit_of_mem_lines
  simp only [lines, fit_append, fit_cons, fits_doc, fits_code, fits_blank, fit_nil, fit_map,
    fit_block, fit_separated, List.forall_mem_append, List.forall_mem_cons,
    fit_deriveLines hderives, oneLine_append, h.level, h.name, Option.mem_toList, ne_eq,
    String.reduceEq, String.append_eq_empty_iff, false_and, and_false, not_false_eq_true, true_and,
    and_true]
  -- beside the texts of the aggregate only words of the template are left
  refine ⟨⟨?_, ?_, fun base hbase => ⟨⟨?_, h.base base hbase⟩, ?_⟩, fun c hc =>
    ⟨⟨⟨(hfields c hc).name, ?_⟩, (hfields c hc).element⟩, ?_⟩⟩, ?_, ⟨⟨?_, ?_, fun base hbase =>
      ⟨⟨?_, h.base base hbase⟩, ?_⟩, fun c hc => ⟨(hfields c hc).name, ?_⟩⟩,
        h.fit_of_mem_baseLines⟩, haccessors⟩
  all_goals and_intros <;> exact oneLine_ofList (by decide)

end Aggregate.Fits

/-- **A module whose names fit has lines that do**, so it is written line by line. -/
lemma Module.Fits.fit_lines {m : Module} (hderives : ∀ d ∈ derives, OneLine d) (h : m.Fits) :
    Fit (m.lines derives) := by
  have huses : ∀ piece ∈ (if m.uses.isEmpty then [] else [m.uses.map Use.line]), Fit piece := by
    split_ifs
    · simp
    · simpa using fun u hu => (h.uses u hu).fits_line
  rw [lines, fit_separated]
  simp only [List.forall_mem_append, List.forall_mem_map, List.forall_mem_singleton]
  exact ⟨⟨⟨huses, fun p hp => (h.parameters p hp).fit_lines⟩,
    fun r hr => (h.records r hr).fit_lines hderives⟩, h.aggregate.fit_lines hderives⟩

/-- Names that can be read back stay on their lines.  The other texts of a module are no names. -/
lemma Module.Readable.fits {m : Module} (h : m.Readable)
    (hsources : ∀ u ∈ m.uses, OneLine u.source)
    (hparents : ∀ r ∈ m.records, ∀ parent ∈ r.specializes, OneLine parent)
    (hlevel : OneLine m.aggregate.level) (hbase : ∀ base ∈ m.aggregate.base, OneLine base) :
    m.Fits := by
  have hdeclared : ∀ n ∈ m.declaredNames, OneLine n := fun n hn =>
    (word_of_legal (h.declared n hn)).oneLine
  simp only [declaredNames, List.forall_mem_cons, List.forall_mem_append, List.forall_mem_map,
    List.forall_mem_flatMap] at hdeclared
  obtain ⟨hmodule, hname, ⟨⟨⟨hparameters, hrecords⟩, hmembers⟩, hfunctions⟩, haccessors⟩ :=
    hdeclared
  refine ⟨hmodule, fun u hu => ⟨hsources u hu, fun n hn => (h.imported u hu n hn).oneLine⟩,
    fun p hp => ⟨hparameters p hp, (hmembers p hp).2⟩, fun r hr => ⟨hrecords r hr, hparents r hr,
      fun f hf => ?_⟩, hlevel, hname, hbase, fun c hc => ?_⟩
  · have hmem : ∀ n ∈ [f.name, f.setter], n ∈ r.functionNames := fun n hn =>
      List.mem_cons_of_mem _ (List.mem_flatMap.mpr ⟨f, hf, hn⟩)
    exact ⟨hfunctions r hr _ (hmem _ (by simp)), hfunctions r hr _ (hmem _ (by simp)),
      (h.types r hr f hf).oneLine⟩
  · have hmem : c.name ∈ m.aggregate.accessorNames :=
      List.mem_flatMap.mpr ⟨c, hc, List.mem_cons_self⟩
    exact ⟨haccessors _ (by simp [Aggregate.functionNames, hmem]), (h.elements c hc).oneLine⟩

end Code

namespace Schema

open Code

variable {s : Schema} {P : PrimitiveSet} {l : Level} {r : ResolvedLevel} {x : PlacedObject}
  {o : ResolvedObject} {primitivesPath : String} {resolved : ResolvedSchema} {m : Module}

/-- The paths of object types stay on one line. -/
lemma oneLine_qualified (hs : s.WellFormed) (hx : x ∈ s.objects) : OneLine x.path.qualified := by
  obtain ⟨hlevel, hdecl⟩ := mem_objects.mp hx
  have hname := (hs.levels x.level hlevel).usable _ (mem_typeNames_of_mem_objectTypes hdecl)
  simp +decide [TypePath.qualified, Name.nested, PlacedObject.path,
    oneLine_of_isIdentifier hname.isIdentifier,
    oneLine_of_isIdentifier (hs.usable x.level hlevel).isIdentifier]

lemma ObjectYields.oneLine_of_specializes (hs : s.WellFormed) (hx : x ∈ s.objects)
    (ho : s.ObjectYields P x o) {parent : String} (h : parent ∈ (Record.ofKnown o).specializes) :
    OneLine parent := by
  obtain ⟨path, hpath, rfl⟩ := Option.map_eq_some_iff.mp h
  obtain ⟨chain, hchain, hancestors, -⟩ := ho.lineage
  have hmem := List.mem_of_getLast? hpath
  rw [hancestors] at hmem
  obtain ⟨y, hy, rfl⟩ := List.mem_map.mp hmem
  exact oneLine_qualified hs (mem_objects_of_lineage hx hchain (List.dropLast_subset chain hy))

/-- A module brings names in from the modules of levels and from the place of the primitives. -/
lemma LevelYields.oneLine_source (hs : s.Bound P) (hl : l ∈ s.levels) (hr : s.LevelYields P l r)
    (hpath : OneLine primitivesPath) {u : Use} (hu : u ∈ broughtIn primitivesPath r) :
    OneLine u.source := by
  rw [broughtIn_eq, List.mem_append] at hu
  rcases hu with hu | hu
  · obtain ⟨⟨source, names⟩, hg, rfl⟩ := List.mem_map.mp hu
    obtain ⟨n, hn⟩ := List.exists_mem_of_ne_nil _ (ne_nil_of_mem_groupByModule hg)
    have hi : (source, n) ∈ importedTypes r := by
      rw [← pairs_groupByModule (importedTypes r)]
      exact List.mem_flatMap.mpr ⟨_, hg, List.mem_map.mpr ⟨n, hn, rfl⟩⟩
    obtain ⟨p, ⟨k, hk, hlevel, -⟩, -, heq, -⟩ := hr.exists_sees_of_mem_importedTypes hs hl hi
    obtain ⟨rfl, -⟩ := Prod.mk.inj heq
    have husable := hs.usable k (mem_levels_of_reflTransGen hl hk)
    rw [oneLine_append, ← hlevel]
    exact ⟨by decide, (word_of_legal husable.legal_escape_snake).oneLine⟩
  · unfold primitiveUses at hu
    split_ifs at hu
    · exact nomatch hu
    · exact List.mem_singleton.mp hu ▸ hpath

/-- **All lines of a generated module are lines.** -/
theorem LevelYields.fits (hs : s.Bound P) (hP : ∀ n ∈ P.names, Name.isIdentifier n = true)
    (hpath : OneLine primitivesPath) (hl : l ∈ s.levels) (hr : s.LevelYields P l r)
    (hm : Module.ofLevel primitivesPath resolved r = .ok m) : m.Fits := by
  have hreadable := hr.readable hs hP hl hm
  obtain ⟨parameters, hparameters, rfl⟩ := Module.ofLevel_eq_ok hm
  refine hreadable.fits (fun u hu => hr.oneLine_source hs hl hpath hu) ?_ ?_ ?_
  · refine List.forall_mem_map.mpr fun o ho parent hparent => ?_
    obtain ⟨x, hx, -, hyields⟩ := hr.exists_objectYields hl ho
    exact hyields.oneLine_of_specializes hs.toWellFormed hx hparent
  · have hlevel := oneLine_of_isIdentifier (hs.usable l hl).isIdentifier
    rwa [← hr.name] at hlevel
  · intro base hbase
    obtain ⟨parent, hparent, rfl⟩ := Option.map_eq_some_iff.mp hbase
    obtain ⟨hmodule, hname⟩ :=
      hr.legal_of_mem_ancestors hs.toWellFormed hl (List.mem_of_getLast? hparent)
    simp +decide [(word_of_legal hmodule).oneLine, (word_of_legal hname).oneLine]

end Schema

end LevelSchema
