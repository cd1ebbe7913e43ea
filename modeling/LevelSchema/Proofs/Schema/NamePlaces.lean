import LevelSchema.Proofs.Document.Words
import LevelSchema.Proofs.Schema.Loadable

/-!
# Where the names of a schema stand

A name in a schema comes with the place it was read from, and what stands at that place in the text
is the name.  No two names share a byte, and names are in the schema in the order of the text.

**Order within a level.**  A level keeps parameter types and object types apart, so the names of
its declarations are not all in order.  Those of each kind are, and of a parameter type and an
object type one stands in front of the other as a whole: declarations do not reach into each other.
-/

namespace LevelSchema

/-- Places that have no byte in common. -/
def Span.Apart (s t : Span) : Prop :=
  s.stop ≤ t.start ∨ t.stop ≤ s.start

/-! ## The names of a schema -/

/-- The name of a parameter type and those of its members. -/
def ParameterType.names (p : ParameterType) : List (Located String) :=
  p.name :: p.members.map (·.name)

/-- The name of the type of a property, and its own. -/
def Property.names (p : Property) : List (Located String) :=
  [p.type.map TypeRef.name, p.name]

/-- The name of an object type, what it extends, and the names of its properties. -/
def ObjectType.names (o : ObjectType) : List (Located String) :=
  o.name :: (o.parent.toList ++ o.properties.flatMap Property.names)

namespace Level

/-- The name of a level and what it extends. -/
def headNames (l : Level) : List (Located String) :=
  l.name :: l.parent.toList

/-- The names in the declarations of a level, parameter types first. -/
def bodyNames (l : Level) : List (Located String) :=
  l.parameterTypes.flatMap ParameterType.names ++ l.objectTypes.flatMap ObjectType.names

/-- All names of a level. -/
def names (l : Level) : List (Located String) :=
  l.headNames ++ l.bodyNames

/-- The names of a level are in the order of the text, as far as they are kept in it. -/
structure InSourceOrder (l : Level) : Prop where
  head : InOrder l.headNames
  head_first : Precede l.headNames l.bodyNames
  parameterTypes : InOrder (l.parameterTypes.flatMap ParameterType.names)
  objectTypes : InOrder (l.objectTypes.flatMap ObjectType.names)
  kinds : ∀ p ∈ l.parameterTypes, ∀ o ∈ l.objectTypes,
    Precede p.names o.names ∨ Precede o.names p.names

end Level

namespace Schema

/-- All names of a schema. -/
def names (s : Schema) : List (Located String) :=
  s.levels.flatMap Level.names

/-- Levels are in the order of the text, and so are the names of each. -/
structure InSourceOrder (s : Schema) : Prop where
  levels : ∀ l ∈ s.levels, l.InSourceOrder
  levels_in_order : s.levels.Pairwise fun l l' => Precede l.names l'.names

end Schema

/-! ## Names in order are apart -/

/-- Words in the order of the text do not overlap. -/
lemma InOrder.apart {words : List (Located String)} (h : InOrder words) :
    words.Pairwise fun w w' => w.span.Apart w'.span :=
  h.pairwise.imp .inl

/-- So the names of a level do not overlap. -/
lemma Level.InSourceOrder.apart {l : Level} (h : l.InSourceOrder) :
    l.names.Pairwise fun n m => n.span.Apart m.span := by
  refine List.pairwise_append.mpr ⟨h.head.apart, List.pairwise_append.mpr
    ⟨h.parameterTypes.apart, h.objectTypes.apart, fun n hn m hm => ?_⟩, fun n hn m hm => ?_⟩
  · obtain ⟨p, hp, hn⟩ := List.mem_flatMap.mp hn
    obtain ⟨o, ho, hm⟩ := List.mem_flatMap.mp hm
    rcases h.kinds p hp o ho with hfirst | hfirst
    · exact .inl (hfirst n hn m hm)
    · exact .inr (hfirst m hm n hn)
  · exact .inl (h.head_first n hn m hm)

/-- So the names of a schema do not overlap. -/
lemma Schema.InSourceOrder.apart {s : Schema} (h : s.InSourceOrder) :
    s.names.Pairwise fun n m => n.span.Apart m.span :=
  List.pairwise_flatMap.mpr ⟨fun l hl => (h.levels l hl).apart,
    h.levels_in_order.imp fun hfirst n hn m hm => .inl (hfirst n hn m hm)⟩

/-! ## From a document -/

open Load

lemma ParameterDecl.names_toType (d : ParameterDecl) :
    d.toType.names = (LevelItem.parameter d).names :=
  congrArg (d.name :: ·) d.map_name_members_toType

lemma ObjectDecl.names_toType (d : ObjectDecl) :
    d.toType.names = (LevelItem.object d).names := by
  rw [ObjectType.names, ObjectDecl.toType, List.flatMap_map]
  rfl

/-- The names of some declarations, among those of all. -/
lemma flatMap_filterMap_sublist {α β γ : Type} {g : α → Option β} {f : β → List γ}
    {h : α → List γ} (hg : ∀ a, ∀ b ∈ g a, f b = h a) (as : List α) :
    ((as.filterMap g).flatMap f).Sublist (as.flatMap h) := by
  induction as with
  | nil => exact List.nil_sublist _
  | cons a as ih =>
      rw [List.flatMap_cons]
      cases hb : g a with
      | none =>
          rw [List.filterMap_cons_none hb]
          exact List.sublist_append_of_sublist_right ih
      | some b =>
          rw [List.filterMap_cons_some hb, List.flatMap_cons, hg a b hb]
          exact (List.Sublist.refl _).append ih

namespace LevelDecl

variable (d : LevelDecl)

lemma parameterNames_sublist : (d.toLevel.parameterTypes.flatMap ParameterType.names).Sublist
    (d.items.flatMap LevelItem.names) := by
  rw [toLevel, List.flatMap_map]
  refine flatMap_filterMap_sublist ?_ d.items
  rintro (p | o) _ ⟨⟩
  exact p.names_toType

lemma objectNames_sublist : (d.toLevel.objectTypes.flatMap ObjectType.names).Sublist
    (d.items.flatMap LevelItem.names) := by
  rw [toLevel, List.flatMap_map]
  refine flatMap_filterMap_sublist ?_ d.items
  rintro (p | o) _ ⟨⟩
  exact o.names_toType

lemma bodyNames_subset : d.toLevel.bodyNames ⊆ d.items.flatMap LevelItem.names :=
  List.append_subset.mpr ⟨d.parameterNames_sublist.subset, d.objectNames_sublist.subset⟩

/-- A level has no names but those of its declaration. -/
lemma names_subset : d.toLevel.names ⊆ d.names := by
  refine List.append_subset.mpr ⟨?_, List.Subset.trans d.bodyNames_subset ?_⟩
  · exact List.cons_subset_cons _ (List.subset_append_left _ _)
  · exact List.subset_cons_of_subset _ (List.subset_append_right _ _)

/-- Grouping a level's items by kind keeps the order within each group. -/
lemma inSourceOrder (h : InOrder d.names) : d.toLevel.InSourceOrder := by
  have hsplit : InOrder (d.toLevel.headNames ++ d.items.flatMap LevelItem.names) := h
  obtain ⟨hhead, hitems, hfirst⟩ := inOrder_append_iff.mp hsplit
  refine ⟨hhead, fun n hn m hm => hfirst n hn m (d.bodyNames_subset hm),
    hitems.sublist d.parameterNames_sublist, hitems.sublist d.objectNames_sublist, ?_⟩
  intro p hp o ho
  obtain ⟨p, hparameter, rfl⟩ := List.mem_map.mp hp
  obtain ⟨o, hobject, rfl⟩ := List.mem_map.mp ho
  rw [p.names_toType, o.names_toType]
  exact rel_or_rel_of_pairwise (inOrder_flatMap_iff.mp hitems).2
    (mem_parametersIn.mp hparameter) (mem_objectsIn.mp hobject) nofun

end LevelDecl

namespace Document

variable {d : Document}

/-- A schema has no names but those of its document. -/
lemma names_schema_subset (d : Document) : d.schema.names ⊆ d.names := by
  intro n hn
  obtain ⟨_, hlevel, hn⟩ := List.mem_flatMap.mp hn
  obtain ⟨l, hl, rfl⟩ := List.mem_map.mp hlevel
  exact List.mem_flatMap.mpr ⟨l, hl, l.names_subset hn⟩

/-- A schema keeps the order of its document's names, level by level. -/
lemma inSourceOrder (h : InOrder d.names) : d.schema.InSourceOrder := by
  obtain ⟨hlevels, hpairwise⟩ := inOrder_flatMap_iff.mp h
  constructor
  · intro _ hlevel
    obtain ⟨l, hl, rfl⟩ := List.mem_map.mp hlevel
    exact l.inSourceOrder (hlevels l hl)
  · refine List.pairwise_map.mpr (hpairwise.imp ?_)
    exact fun hfirst n hn m hm =>
      hfirst n (LevelDecl.names_subset _ hn) m (LevelDecl.names_subset _ hm)

end Document

namespace Schema

variable {source : String} {loaded : Noted Diagnostic Schema}

/-- **Every name of a schema stands at its place.**  In a text that loads, what stands at the place
of a name is the name.  No two names have a byte in common, and they are in the order of the
text. -/
theorem names_shown_in_order (h : ofSource source = .ok loaded) :
    (∀ n ∈ loaded.value.names, n.span.Shows source n.value ∧ n.span.start < n.span.stop) ∧
      loaded.value.names.Pairwise (fun n m => n.span.Apart m.span) ∧
      loaded.value.InSourceOrder := by
  obtain ⟨ls, d, hscan, hread, hpasses, rfl⟩ := ofSource_eq_ok_iff.mp h
  obtain ⟨rows, hsaid, horder, hshows⟩ := Document.exists_rows hscan hread
  have hsub := Grammar.sublist_wordsOf_document hsaid
  have hnames := horder.sublist hsub
  have hvalue : (d.load.mapNotes LoadFinding.diagnostic).value = d.schema :=
    Document.value_load_of_passes hpasses
  rw [hvalue]
  refine ⟨fun n hn => ?_, (Document.inSourceOrder hnames).apart, Document.inSourceOrder hnames⟩
  have hn := d.names_schema_subset hn
  exact ⟨hshows n (hsub.subset hn), hnames.nonempty n hn⟩

/-- A parameter type between two object types, with a keyword for its member and another one for the
name of a property. -/
def useBetweenPlots : String :=
  "AbstractionLevel Site\n    Object Plot\n    Parameter Use // of land\n        Object\n" ++
    "    Object House extends Plot\n        Use Multiple\n" ++
    "AbstractionLevel City extends Site\n    Object Tower\n"

/-- The names in it.  Those of the parameter type come before those of the first object type, which
stands in front of it. -/
def useBetweenPlotsNames : List (Located String) :=
  [⟨"Site", ⟨17, 21⟩⟩, ⟨"Use", ⟨52, 55⟩⟩, ⟨"Object", ⟨75, 81⟩⟩, ⟨"Plot", ⟨33, 37⟩⟩,
    ⟨"House", ⟨93, 98⟩⟩, ⟨"Plot", ⟨107, 111⟩⟩, ⟨"Use", ⟨120, 123⟩⟩, ⟨"Multiple", ⟨124, 132⟩⟩,
    ⟨"City", ⟨150, 154⟩⟩, ⟨"Site", ⟨163, 167⟩⟩, ⟨"Tower", ⟨179, 184⟩⟩]

theorem useBetweenPlots_names_in_order : ∃ loaded, ofSource useBetweenPlots = .ok loaded ∧
    loaded.value.names = useBetweenPlotsNames ∧
    (∀ n ∈ useBetweenPlotsNames,
      n.span.Shows useBetweenPlots n.value ∧ n.span.start < n.span.stop) ∧
    useBetweenPlotsNames.Pairwise (fun n m => n.span.Apart m.span) ∧
    loaded.value.InSourceOrder := by
  have hrun : (ofSource useBetweenPlots).toOption.map (·.value.names) =
      some useBetweenPlotsNames := by
    decide +kernel
  obtain ⟨loaded, hload, hnames⟩ := exists_of_toOption_map hrun
  obtain ⟨hshown, hapart, horder⟩ := names_shown_in_order hload
  rw [hnames] at hshown hapart
  exact ⟨loaded, hload, hnames, hshown, hapart, horder⟩

end Schema

end LevelSchema
