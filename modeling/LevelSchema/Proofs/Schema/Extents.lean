import LevelSchema.Proofs.Document.Extents
import LevelSchema.Proofs.Schema.Loadable

/-!
# How far the declarations of a schema extend

Loading keeps the places of declarations, so what holds of a document holds of its schema: levels
and types cover what is declared in them, and levels come one after the other.

**The gap.**  An object type that extends another one and has no properties ends with its own name,
in front of the clause.  If it is also the last declaration, its level ends there too
(`bareHouse_clause_not_covered`).  There is no other gap: `Level.Enclosed` has an equivalence for
each clause.
-/

namespace LevelSchema

open Load

instance (s t : Span) : Decidable (s.Covers t) :=
  inferInstanceAs (Decidable (_ ∧ _))

/-! ## What is covered -/

/-- A parameter type begins with its keyword and covers its name and its members. -/
structure ParameterType.Enclosed (source : String) (p : ParameterType) : Prop where
  keyword : p.span.OpensWith source Keyword.parameter.spelling
  name : p.span.Covers p.name.span
  members : ∀ m ∈ p.members, p.span.Covers m.name.span

/-- An object type begins with its keyword and covers its name and its properties, and what it
extends if there are properties. -/
structure ObjectType.Enclosed (source : String) (o : ObjectType) : Prop where
  keyword : o.span.OpensWith source Keyword.object.spelling
  name : o.span.Covers o.name.span
  properties : ∀ p ∈ o.properties, o.span.Covers p.type.span ∧ o.span.Covers p.name.span
  parent : ∀ n ∈ o.parent, o.span.Covers n.span ↔ o.properties ≠ []

/-- The names of the types that a level declares. -/
def Level.declaredNames (l : Level) : List (Located String) :=
  l.parameterTypes.map (·.name) ++ l.objectTypes.map (·.name)

/-- A level begins with its keyword and covers its name, what it extends, and everything in it but
for one clause: that of an object type without properties behind which no type is declared. -/
structure Level.Enclosed (source : String) (l : Level) : Prop where
  keyword : l.span.OpensWith source Keyword.abstractionLevel.spelling
  name : l.span.Covers l.name.span
  parent : ∀ n ∈ l.parent, l.span.Covers n.span
  parameterTypes : ∀ p ∈ l.parameterTypes, p.Enclosed source ∧ l.span.Covers p.span ∧
    l.span.Covers p.name.span ∧ ∀ m ∈ p.members, l.span.Covers m.name.span
  objectTypes : ∀ o ∈ l.objectTypes, o.Enclosed source ∧ l.span.Covers o.span ∧
    l.span.Covers o.name.span ∧
      ∀ p ∈ o.properties, l.span.Covers p.type.span ∧ l.span.Covers p.name.span
  extended : ∀ o ∈ l.objectTypes, ∀ n ∈ o.parent, l.span.Covers n.span ↔
    o.properties ≠ [] ∨ ∃ m ∈ l.declaredNames, n.span.stop ≤ m.span.start

/-! ## From a document -/

variable {source : String}

/-- A loaded parameter type is enclosed as its declaration is. -/
lemma ParameterDecl.enclosed_toType {p : ParameterDecl}
    (h : (LevelItem.parameter p).Enclosed source) : p.toType.Enclosed source := by
  refine ⟨h.keyword, h.name, fun m hm => h.inner m.name ?_⟩
  have hname := List.mem_map_of_mem (f := Member.name) hm
  rwa [p.map_name_members_toType] at hname

lemma ObjectDecl.inner_ne_nil_iff (o : ObjectDecl) :
    (LevelItem.object o).inner ≠ [] ↔ o.toType.properties ≠ [] := by
  rw [← LevelItem.parts_ne_nil_iff]
  simp [LevelItem.parts, toType]

/-- A loaded object type is enclosed as its declaration is. -/
lemma ObjectDecl.enclosed_toType {o : ObjectDecl} (h : (LevelItem.object o).Enclosed source) :
    o.toType.Enclosed source := by
  refine ⟨h.keyword, h.name, List.forall_mem_map.mpr fun p hp => ?_, fun n hn => ?_⟩
  · have hinner : ∀ n ∈ p.names, o.span.Covers n.span := fun n hn =>
      h.inner n (List.mem_flatMap_of_mem hp hn)
    exact ⟨hinner _ List.mem_cons_self, hinner _ (List.mem_cons_of_mem _ List.mem_cons_self)⟩
  · rw [← o.inner_ne_nil_iff]
    exact h.parent n hn

/-- What a loaded level declares are the items of its declaration. -/
lemma LevelDecl.mem_declaredNames_iff {l : LevelDecl} {n : Located String} :
    n ∈ l.toLevel.declaredNames ↔ ∃ i ∈ l.items, i.name = n := by
  simp only [Level.declaredNames, toLevel, List.map_map, List.mem_append, List.mem_map,
    mem_parametersIn, mem_objectsIn]
  constructor
  · rintro (⟨p, hp, rfl⟩ | ⟨o, ho, rfl⟩)
    · exact ⟨.parameter p, hp, rfl⟩
    · exact ⟨.object o, ho, rfl⟩
  · rintro ⟨p | o, hi, rfl⟩
    · exact .inl ⟨p, hi, rfl⟩
    · exact .inr ⟨o, hi, rfl⟩

/-- A loaded level is enclosed as its declaration is. -/
lemma LevelDecl.enclosed_toLevel {l : LevelDecl} (h : l.Enclosed source) (hitems : l.items ≠ []) :
    l.toLevel.Enclosed source := by
  refine ⟨h.keyword, h.name, fun n hn => (h.parent n hn).mpr hitems, ?_, ?_, ?_⟩
  · intro p hp
    obtain ⟨p, hparameter, rfl⟩ := List.mem_map.mp hp
    obtain ⟨hcovers, hitem⟩ := h.items _ (mem_parametersIn.mp hparameter)
    have htype := p.enclosed_toType hitem
    exact ⟨htype, hcovers, hcovers.trans htype.name, fun m hm => hcovers.trans (htype.members m hm)⟩
  · intro o ho
    obtain ⟨o, hobject, rfl⟩ := List.mem_map.mp ho
    obtain ⟨hcovers, hitem⟩ := h.items _ (mem_objectsIn.mp hobject)
    have htype := o.enclosed_toType hitem
    exact ⟨htype, hcovers, hcovers.trans htype.name, fun p hp =>
      ⟨hcovers.trans (htype.properties p hp).1, hcovers.trans (htype.properties p hp).2⟩⟩
  · intro o ho n hn
    obtain ⟨o, hobject, rfl⟩ := List.mem_map.mp ho
    have hextended := h.extended _ (mem_objectsIn.mp hobject) n hn
    rw [o.inner_ne_nil_iff] at hextended
    show l.span.Covers n.span ↔ _
    simpa [mem_declaredNames_iff] using hextended

namespace Schema

variable {loaded : Noted Diagnostic Schema}

/-- **Levels and types cover what is declared in them.**  In a schema that was loaded from a text,
every level begins with its keyword and covers its name, what it extends, its types, and the names
in them; every type begins with its keyword and covers the names in its body.  What an object type
extends is covered by the type exactly if it has properties, and by the level exactly if the type
has properties or another type is declared behind it.  Each level ends before the next one
begins. -/
theorem declarations_enclosed (h : ofSource source = .ok loaded) :
    (∀ l ∈ loaded.value.levels, l.Enclosed source) ∧
      loaded.value.levels.Pairwise fun l l' => l.span.stop ≤ l'.span.start := by
  obtain ⟨ls, d, hscan, hread, hpasses, rfl⟩ := ofSource_eq_ok_iff.mp h
  obtain ⟨rows, hsaid, horder, hshows⟩ := Document.exists_rows hscan hread
  have hload := Document.passes_load_iff_loadable.mp hpasses
  have hvalue : (d.load.mapNotes LoadFinding.diagnostic).value = d.schema :=
    Document.value_load_of_passes hpasses
  rw [hvalue]
  constructor
  · refine List.forall_mem_map.mpr fun l hl => ?_
    obtain ⟨o, ho⟩ := (hload.levels l hl).exists_object
    obtain ⟨said, hlevel, hsub⟩ := hsaid.exists_of_mem hl
    refine LevelDecl.enclosed_toLevel ?_ (List.ne_nil_of_mem ho)
    exact LevelDecl.enclosed hlevel (horder.sublist hsub) fun w hw => hshows w (hsub.subset hw)
  · refine List.pairwise_map.mpr (hsaid.pairwise horder ?_)
    intro l l' said said' hl hl' hwords hwords' hprecede
    exact hprecede.stop_le_start (LevelDecl.delimited hl hwords) (LevelDecl.delimited hl' hwords')

/-- Types with a clause: one without a body in front of another type, one with a body, and one
without a body that comes last. -/
def clausesOnSite : String :=
  "AbstractionLevel Site\n    Object House extends Plot\n    Object Plot\n        Curve Edge\n" ++
    "AbstractionLevel City extends Site\n    Object Park extends Plot\n        Curve Path\n" ++
    "    Object Tower extends House\n"

theorem clausesOnSite_enclosed : ∃ loaded, ofSource clausesOnSite = .ok loaded ∧
    loaded.value.levels.map (·.span) = [⟨0, 86⟩, ⟨87, 186⟩] ∧
    (∀ l ∈ loaded.value.levels, l.Enclosed clausesOnSite) ∧
      loaded.value.levels.Pairwise fun l l' => l.span.stop ≤ l'.span.start := by
  have hrun : (ofSource clausesOnSite).toOption.map (·.value.levels.map (·.span)) =
      some [⟨0, 86⟩, ⟨87, 186⟩] := by
    decide +kernel
  obtain ⟨loaded, hload, hspans⟩ := exists_of_toOption_map hrun
  exact ⟨loaded, hload, hspans, declarations_enclosed hload⟩

/-- A type with a clause and nothing else, at the end of the text. -/
def bareHouse : String :=
  "AbstractionLevel Site\n    Object Plot\n    Object House extends Plot\n"

/-- The type and the level both end with the name of the type, and the clause stands behind. -/
theorem bareHouse_clause_not_covered : ∃ loaded, ofSource bareHouse = .ok loaded ∧
    ∃ l ∈ loaded.value.levels, ∃ o ∈ l.objectTypes, ∃ n ∈ o.parent,
      o.span = ⟨42, 54⟩ ∧ l.span = ⟨0, 54⟩ ∧ n.span = ⟨63, 67⟩ ∧
        ¬ o.span.Covers n.span ∧ ¬ l.span.Covers n.span := by
  have hrun : (ofSource bareHouse).toOption.map (fun loaded => decide
      (∃ l ∈ loaded.value.levels, ∃ o ∈ l.objectTypes, ∃ n ∈ o.parent,
        o.span = ⟨42, 54⟩ ∧ l.span = ⟨0, 54⟩ ∧ n.span = ⟨63, 67⟩)) = some true := by
    decide +kernel
  obtain ⟨loaded, hload, hplaces⟩ := exists_of_toOption_map hrun
  obtain ⟨l, hl, o, ho, n, hn, htype, hlevel, hclause⟩ := of_decide_eq_true hplaces
  refine ⟨loaded, hload, l, hl, o, ho, n, hn, htype, hlevel, hclause, ?_, ?_⟩
  · rw [htype, hclause]
    decide
  · rw [hlevel, hclause]
    decide

end Schema

end LevelSchema
