import LevelSchema.Proofs.Code.Lines
import LevelSchema.Proofs.Code.Rewording

/-!
# Descriptions do not reach the code

Descriptions can hold any text, and they are written at five places between lines of code.  Whatever
they say, they come to lines of documentation and nothing else: when these are deleted from the
files of two schemas that differ in descriptions only, the same is left
(`ResolvedSchema.emit_without_descriptions`).

**Generating.**  Forgetting descriptions keeps all that generating reads
(`ResolvedSchema.reworded_undescribed`), so faults do not depend on descriptions, and what is
generated differs in its descriptions only.

**Writing.**  The essence of some lines is what is left without the documentation that stays on its
line.  That of a module stays when descriptions are reworded (`Code.Module.essence_lines`).  Names
may hold line feeds in a schema that is built by hand, and then a line of code or of documentation
takes several rows; but it takes the same rows whatever stands around it, because each line is ended
before the next begins (`Code.withoutDocRows_text_eq`).
-/

namespace LevelSchema

/-! ## Forgetting descriptions -/

/-- A member without its description. -/
def Member.undescribed (m : Member) : Member :=
  { m with description := none }

/-- A parameter type without descriptions. -/
def ParameterType.undescribed (p : ParameterType) : ParameterType :=
  { p with description := none, members := p.members.map Member.undescribed }

/-- A property without its description. -/
def ResolvedProperty.undescribed (p : ResolvedProperty) : ResolvedProperty :=
  { p with description := none }

/-- An object type without descriptions. -/
def ResolvedObject.undescribed (o : ResolvedObject) : ResolvedObject :=
  { o with description := none, properties := o.properties.map ResolvedProperty.undescribed }

/-- A level without descriptions. -/
def ResolvedLevel.undescribed (l : ResolvedLevel) : ResolvedLevel :=
  { l with
    description := none
    parameterTypes := l.parameterTypes.map ParameterType.undescribed
    objectTypes := l.objectTypes.map ResolvedObject.undescribed }

/-- A resolved schema without descriptions. -/
def ResolvedSchema.undescribed (s : ResolvedSchema) : ResolvedSchema :=
  ⟨s.levels.map ResolvedLevel.undescribed⟩

/-- Leaving the descriptions out is a rewording. -/
lemma ParameterType.reworded_undescribed (t : ParameterType) :
    t.Reworded (fun _ => none) t.undescribed :=
  ⟨rfl, rfl, rfl, forall₂_map_self (fun _ => ⟨rfl, rfl, rfl⟩) t.members⟩

lemma ResolvedObject.reworded_undescribed (o : ResolvedObject) :
    o.Reworded (fun _ => none) o.undescribed :=
  ⟨rfl, rfl, rfl, forall₂_map_self (fun _ => ⟨rfl, rfl, rfl⟩) o.properties⟩

lemma ResolvedLevel.reworded_undescribed (l : ResolvedLevel) :
    l.Reworded (fun _ => none) l.undescribed :=
  ⟨rfl, rfl, rfl, rfl, forall₂_map_self ParameterType.reworded_undescribed l.parameterTypes,
    forall₂_map_self ResolvedObject.reworded_undescribed l.objectTypes⟩

/-- Forgetting descriptions keeps all that generating reads. -/
lemma ResolvedSchema.reworded_undescribed (s : ResolvedSchema) :
    s.Reworded (fun _ => none) s.undescribed :=
  forall₂_map_self ResolvedLevel.reworded_undescribed s.levels

namespace Code

/-! ## Writing -/

/-- Whether a line is documentation that stays on its line. -/
def Line.isRemark : Line → Bool
  | .doc _ text => !text.toList.contains '\n'
  | _ => false

/-- Lines without the documentation that stays on its line. -/
def essence (ls : List Line) : List Line :=
  ls.filter fun l => !l.isRemark

section Writing

variable {w : Rewording} {ls ms : List Line}

@[simp] lemma essence_nil : essence [] = [] :=
  rfl

@[simp] lemma essence_append (ls ms : List Line) :
    essence (ls ++ ms) = essence ls ++ essence ms :=
  List.filter_append ..

@[simp] lemma essence_code (text : String) (ls : List Line) :
    essence (code text :: ls) = code text :: essence ls :=
  rfl

@[simp] lemma essence_blank (ls : List Line) : essence (.blank :: ls) = .blank :: essence ls :=
  rfl

/-- A description is left out as a whole. -/
@[simp] lemma essence_docs (description : Option String) : essence (docs description) = [] := by
  refine List.filter_eq_nil_iff.mpr fun l hl => ?_
  obtain ⟨text, rfl, htext⟩ := exists_doc_of_mem_docs hl
  simpa [doc, Line.isRemark] using htext

@[simp] lemma essence_map_indent (ls : List Line) :
    essence (ls.map Line.indent) = (essence ls).map Line.indent := by
  have hindent : (fun l : Line => !l.isRemark) ∘ Line.indent = fun l => !l.isRemark := by
    funext l
    cases l <;> rfl
  rw [essence, List.filter_map, hindent, essence]

/-- In a block, the header and the closing line stay. -/
@[simp] lemma essence_block (header : String) (body : List Line) :
    essence (block header body) = block header (essence body) := by
  simp [block]

@[simp] lemma essence_map_code {α : Type} (f : α → String) (as : List α) :
    essence (as.map fun a => code (f a)) = as.map fun a => code (f a) :=
  List.filter_eq_self.mpr (List.forall_mem_map.mpr fun _ _ => rfl)

/-- Blank lines between pieces stay. -/
@[simp] lemma essence_separated (pieces : List (List Line)) :
    essence (separated pieces) = separated (pieces.map essence) := by
  fun_induction separated pieces with
  | case1 => rfl
  | case2 piece => rfl
  | case3 piece pieces hpieces ih =>
      rw [essence_append, essence_blank, ih, List.map_cons, separated]
      simpa using hpieces

@[simp] lemma essence_flatMap {α : Type} (f : α → List Line) (as : List α) :
    essence (as.flatMap f) = as.flatMap fun a => essence (f a) := by
  induction as with
  | nil => rfl
  | cons a as ih => rw [List.flatMap_cons, essence_append, ih, List.flatMap_cons]

lemma essence_variantLines (cs : List Constant) :
    essence (variantLines (cs.map (Constant.reword w))) = essence (variantLines cs) := by
  cases cs with
  | nil => rfl
  | cons c cs => simp [variantLines, List.flatMap_map]

/-- Other words in a parameter type leave its essence. -/
lemma ParameterItem.essence_lines (p : ParameterItem) :
    essence (p.reword w).lines = essence p.lines := by
  cases p with
  | enumeration e =>
      simp only [reword, lines, Enumeration.lines, essence_append, essence_docs,
        essence_block, essence_variantLines, List.length_map, List.map_map, Function.comp_def,
        Constant.reword_name]
  | flagSet f =>
      simp only [reword, lines, FlagSet.lines, essence_append, essence_docs, essence_block,
        essence_flatMap, List.flatMap_map, Constant.reword_name, Constant.reword_value]

lemma Field.essence_accessorLines (f : Field) :
    essence (f.reword w).accessorLines = essence f.accessorLines := by
  simp [accessorLines, handedType, getExpr, setExpr]

/-- The blank line of documentation between a description and what a record specializes is a
remark. -/
lemma Record.essence_docLines (r : Record) :
    essence (r.reword w).docLines = essence r.docLines := by
  have hblank : ∀ description : Option String,
      essence (if description.isSome then [doc ""] else []) = [] := by
    intro description
    cases description <;> rfl
  simp only [docLines, essence_append, essence_docs, reword_specializes]
  cases r.specializes with
  | none => rfl
  | some parent => simp only [essence_append, hblank]

/-- Other words in a record leave its essence. -/
lemma Record.essence_lines (derives : List String) (r : Record) :
    essence ((r.reword w).lines derives) = essence (r.lines derives) := by
  have hfields : ∀ {α : Type} (g : Field → α), (∀ f, g (f.reword w) = g f) →
      (r.reword w).fields.map g = r.fields.map g := by
    intro α g hg
    rw [reword_fields, List.map_map]
    exact List.map_congr_left fun f _ => hg f
  have haccessors : ((r.reword w).fields.map Field.accessorLines).map essence =
      (r.fields.map Field.accessorLines).map essence := by
    rw [List.map_map, List.map_map]
    exact hfields _ Field.essence_accessorLines
  simp only [lines, essence_append, essence_docLines, essence_block, essence_separated,
    List.map_cons, haccessors, reword_name]
  rw [hfields _ fun _ => rfl, hfields _ fun _ => rfl]

/-- **What a module comes to does not depend on descriptions, up to remarks.** -/
lemma Module.essence_lines (derives : List String) (m : Module) :
    essence ((m.reword w).lines derives) = essence (m.lines derives) := by
  simp only [lines, essence_separated, List.map_append, reword_uses, reword_parameters,
    reword_records, reword_aggregate, List.map_map, Function.comp_def,
    ParameterItem.essence_lines, Record.essence_lines]

/-! ## Rows -/

/-- Documentation is dropped from a text line by line. -/
lemma dropDocRows_text (ls : List Line) : Text.dropDocRows (text ls).toList =
    ls.flatMap fun l => Text.dropDocRows (l.render.toList ++ ['\n']) := by
  rw [toList_text]
  induction ls with
  | nil => rfl
  | cons l ls ih =>
      rw [List.map_cons, List.flatMap_cons, List.append_assoc, List.singleton_append,
        Text.dropDocRows_append_lineFeed, ih, List.flatMap_cons]

/-- Documentation that stays on its line is dropped. -/
lemma dropDocRows_render {l : Line} (h : l.isRemark = true) :
    Text.dropDocRows (l.render.toList ++ ['\n']) = [] := by
  cases l with
  | blank => exact nomatch h
  | code depth text => exact nomatch h
  | doc depth text =>
      have htext : '\n' ∉ text.toList := by simpa [Line.isRemark] using h
      obtain ⟨rest, hrest, hline⟩ : ∃ rest, (Line.doc depth text).render.toList =
          List.replicate (4 * depth) ' ' ++ ("///".toList ++ rest) ∧ '\n' ∉ rest := by
        rw [Line.render, String.toList_append, Line.margin, String.toList_ofList]
        split_ifs
        · exact ⟨[], by simp, by simp⟩
        · refine ⟨' ' :: text.toList, ?_, ?_⟩
          · rw [String.toList_append]
            rfl
          · simpa using htext
      rw [hrest]
      refine Text.dropDocRows_of_isDocRow ?_ ?_
      · simp [hline, List.mem_replicate]
      · rw [Text.isDocRow, List.append_assoc, List.dropWhile_append_of_pos (by simp)]
        simp

/-- **Rows of documentation are the only trace of remarks.** -/
lemma withoutDocRows_text_eq (h : essence ls = essence ms) :
    Text.withoutDocRows (text ls) = Text.withoutDocRows (text ms) := by
  have hessence : ∀ ls : List Line, Text.dropDocRows (text ls).toList =
      (essence ls).flatMap fun l => Text.dropDocRows (l.render.toList ++ ['\n']) := by
    intro ls
    rw [dropDocRows_text]
    induction ls with
    | nil => rfl
    | cons l ls ih =>
        rw [List.flatMap_cons, ih]
        cases hremark : l.isRemark with
        | true =>
            have hcons : essence (l :: ls) = essence ls :=
              List.filter_cons_of_neg (by simp [hremark])
            rw [hcons, dropDocRows_render hremark, List.nil_append]
        | false =>
            have hcons : essence (l :: ls) = l :: essence ls :=
              List.filter_cons_of_pos (by simp [hremark])
            rw [hcons, List.flatMap_cons]
  rw [Text.withoutDocRows, Text.withoutDocRows, hessence, h, hessence]

end Writing

end Code

/-! ## Artifacts -/

namespace Artifact

open Code

variable {settings : EmitSettings} {modules modules' : List Module}

/-- Units with the same file name and the same rows beside those of documentation. -/
structure SameCode (u u' : GeneratedUnit) : Prop where
  fileName : u'.fileName = u.fileName
  contents : Text.withoutDocRows u'.contents = Text.withoutDocRows u.contents

lemma SameCode.trans {u u' u'' : GeneratedUnit} (h : SameCode u u') (h' : SameCode u' u'') :
    SameCode u u'' :=
  ⟨h'.fileName.trans h.fileName, h'.contents.trans h.contents⟩

lemma SameCode.symm {u u' : GeneratedUnit} (h : SameCode u u') : SameCode u' u :=
  ⟨h.fileName.symm, h.contents.symm⟩

/-- Modules with other descriptions are laid out to the same code. -/
lemma sameCode_reword (w : Rewording) (settings : EmitSettings) (modules : List Module) :
    List.Forall₂ SameCode (ofModules settings modules).units
      (ofModules settings (modules.map (Module.reword w))).units := by
  unfold ofModules
  cases settings.layout with
  | single =>
      refine .cons ⟨rfl, withoutDocRows_text_eq ?_⟩ .nil
      simp only [singleLines, essence_append, essence_flatMap, List.flatMap_map, essence_blank,
        List.cons_append, essence_docs, essence_block, Module.essence_lines,
        Module.reword_name]
  | perLevel =>
      refine .cons ⟨rfl, withoutDocRows_text_eq ?_⟩ ?_
      · simp only [rootLines, essence_append, essence_flatMap, List.flatMap_map, essence_docs,
          Module.reword_name]
      · rw [List.map_map, List.forall₂_map_left_iff, List.forall₂_map_right_iff]
        refine List.forall₂_same.mpr fun m _ => ⟨rfl, withoutDocRows_text_eq ?_⟩
        simp only [moduleLines, essence_append, Module.essence_lines]

end Artifact

namespace ResolvedSchema

open Code Artifact

variable {s s' : ResolvedSchema} {settings : EmitSettings}

/-- **Descriptions do not reach the code.**  Two resolved schemas that differ in descriptions only,
of whatever origin and under whatever settings, have the same fault or none; and if they have none,
the same files, whose contents are the same once the rows that start with three slashes are
deleted. -/
theorem emit_without_descriptions (h : s'.undescribed = s.undescribed) (settings : EmitSettings) :
    (∀ fault, s'.emit settings = .error fault ↔ s.emit settings = .error fault) ∧
      ∀ artifact artifact', s.emit settings = .ok artifact → s'.emit settings = .ok artifact' →
        artifact'.layout = artifact.layout ∧
          List.Forall₂ SameCode artifact.units artifact'.units := by
  have hmodules := s.reworded_undescribed.mapM_ofLevel settings.primitivesPath
  rw [← h, s'.reworded_undescribed.mapM_ofLevel] at hmodules
  unfold emit
  cases hs : s.levels.mapM (Module.ofLevel settings.primitivesPath s) with
  | error fault =>
      cases hs' : s'.levels.mapM (Module.ofLevel settings.primitivesPath s') with
      | error fault' =>
          rw [hs, hs'] at hmodules
          cases hmodules
          exact ⟨fun _ => Iff.rfl, nofun⟩
      | ok modules' =>
          rw [hs, hs'] at hmodules
          exact nomatch hmodules
  | ok modules =>
      cases hs' : s'.levels.mapM (Module.ofLevel settings.primitivesPath s') with
      | error fault' =>
          rw [hs, hs'] at hmodules
          exact nomatch hmodules
      | ok modules' =>
          rw [hs, hs'] at hmodules
          have hsame : modules'.map (Module.reword fun _ => none) =
              modules.map (Module.reword fun _ => none) := Except.ok.inj hmodules
          refine ⟨fun _ => iff_of_false nofun nofun, fun artifact artifact' hemit hemit' => ?_⟩
          obtain rfl := pure_eq_ok_iff.mp hemit
          obtain rfl := pure_eq_ok_iff.mp hemit'
          refine ⟨rfl, ?_⟩
          have hleft := sameCode_reword (fun _ => none) settings modules
          have hright := (sameCode_reword (fun _ => none) settings modules').flip.imp
            fun _ _ => SameCode.symm
          rw [hsame] at hright
          refine (forall₂_comp hleft hright).imp ?_
          rintro u u' ⟨_, hu, hu'⟩
          exact hu.trans hu'

/-- A schema with a level whose only object type specializes another, described by the given
texts. -/
def describedSite (level object : Option String) : ResolvedSchema :=
  ⟨[⟨"Site", level, ⟨0, 0⟩, [], [],
    [⟨⟨"Site", "Plot"⟩, object, ⟨0, 0⟩, [⟨"Site", "Land\n\x7d"⟩], []⟩], []⟩]⟩

/-- A description whose lines could be taken for code. -/
def codeLike : String := "\x7d\npub mod site \x7b\n\n\""

/-- A description that looks like code stays out of it, and so does a name that takes two rows. -/
theorem describedSite_same_code : ∃ artifact artifact',
    (describedSite none none).emit {} = .ok artifact ∧
    (describedSite (some codeLike) (some "")).emit {} = .ok artifact' ∧
      List.Forall₂ SameCode artifact.units artifact'.units := by
  have hrun : ((describedSite none none).emit {}).isOk = true := by decide +kernel
  have hrun' : ((describedSite (some codeLike) (some "")).emit {}).isOk = true := by
    decide +kernel
  have hsame : (describedSite (some codeLike) (some "")).undescribed =
      (describedSite none none).undescribed := rfl
  obtain ⟨artifact, hemit⟩ := exists_of_isOk hrun
  obtain ⟨artifact', hemit'⟩ := exists_of_isOk hrun'
  exact ⟨artifact, artifact', hemit, hemit',
    ((emit_without_descriptions hsame {}).2 artifact artifact' hemit hemit').2⟩

end ResolvedSchema

end LevelSchema
