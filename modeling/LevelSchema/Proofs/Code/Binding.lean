import LevelSchema.Proofs.Code.Facts
import LevelSchema.Proofs.Code.Modules

/-!
# What the types named in a module stand for

Generated source names types without the levels that declare them.  What a name stands for there is
read off the source alone: the types that the module declares and those it brings in
(`Code.origins`).  The model on the other hand refers to types by level and name, and
`Code.originOf` says where such a type has to come from.

**The two agree** (`Schema.LevelYields.origins_eq`).  Every type that is named comes from one place
only, because no two names of a module are equal, and it is the place that the model refers to,
because a level sees only one type of each name.  What is brought in is sorted, so that there is one
line for each module, and levels are written after those they extend.

**What is left out.**  A configured primitive can be a word that no mark helps, such as `Self`.  It
is brought in like others, but where it is named it does not stand for what was brought in.  And the
place of the primitives can be the module of a level, which then has two lines.
-/

namespace LevelSchema

/-- The level declares the type that is referred to, and as a type of this kind. -/
def ResolvedLevel.Declares (r : ResolvedLevel) : TypeRef → Prop
  | .parameter path => path.level = r.name ∧ path.name ∈ r.parameterTypes.map (·.name.value)
  | .object path => path.level = r.name ∧ path.name ∈ r.objectTypes.map (·.path.name)
  | .primitive _ | .unresolved _ => False

namespace Code

/-! ## Reading names -/

/-- Where a type comes from that is named in a module. -/
inductive Origin
  | own
  | path (source : String)
deriving DecidableEq

namespace Fact

/-- The names that are put into scope, each with its origin. -/
def bindings : Fact → List (String × Origin)
  | .declares name => [(name, .own)]
  | .uses u => u.names.map fun n => (n, .path u.source)
  | .names _ => []

def imports : Fact → List Use
  | .uses u => [u]
  | .declares _ | .names _ => []

def named : Fact → List String
  | .names type => [type]
  | .declares _ | .uses _ => []

end Fact

/-- Everything that a name stands for, one origin for each time it is put into scope.  Marks make no
difference, and a word that no mark helps stands for nothing that was put into scope. -/
def origins (facts : List Fact) (name : String) : List Origin :=
  if Name.isUnescapable (Name.bare name) then []
  else ((facts.flatMap Fact.bindings).filter fun b => Name.bare b.1 = Name.bare name).map (·.2)

def usesIn (facts : List Fact) : List Use :=
  facts.flatMap Fact.imports

def typesIn (facts : List Fact) : List String :=
  facts.flatMap Fact.named

/-- A name that is put into scope once has one origin. -/
lemma origins_eq_singleton {facts : List Fact} {name : String} {o : Origin}
    (h : ((facts.flatMap Fact.bindings).map fun b => Name.bare b.1).Nodup)
    (hmem : (name, o) ∈ facts.flatMap Fact.bindings)
    (hname : Name.isUnescapable (Name.bare name) = false) : origins facts name = [o] := by
  have hone : (facts.flatMap Fact.bindings).filter (fun b => Name.bare b.1 = Name.bare name) =
      [(name, o)] := by
    refine List.perm_singleton.mp ((List.perm_ext_iff_of_nodup (h.of_map.filter _)
      (List.nodup_singleton _)).mpr fun b => ?_)
    rw [List.mem_filter, decide_eq_true_eq, List.mem_singleton]
    constructor
    · rintro ⟨hb, hbare⟩
      exact List.inj_on_of_nodup_map h hb hmem hbare
    · rintro rfl
      exact ⟨hmem, rfl⟩
  rw [origins, hname, hone]
  rfl

lemma Record.bindings_facts (r : Record) :
    r.facts.flatMap Fact.bindings = [(r.name, Origin.own)] := by
  simp [facts, Fact.bindings, List.flatMap_map, List.flatMap_assoc, List.flatMap_eq_nil_iff]

lemma Aggregate.bindings_facts (a : Aggregate) :
    a.facts.flatMap Fact.bindings = [(a.name, Origin.own)] := by
  simp [facts, Fact.bindings, List.flatMap_map, List.flatMap_assoc, List.flatMap_eq_nil_iff]

lemma Record.usesIn_facts (r : Record) : usesIn r.facts = [] := by
  simp [usesIn, facts, Fact.imports, List.flatMap_map, List.flatMap_assoc, List.flatMap_eq_nil_iff]

lemma Aggregate.usesIn_facts (a : Aggregate) : usesIn a.facts = [] := by
  simp [usesIn, facts, Fact.imports, List.flatMap_map, List.flatMap_assoc, List.flatMap_eq_nil_iff]

lemma Record.typesIn_facts (r : Record) : typesIn r.facts =
    r.fields.map (·.type) ++ r.fields.flatMap fun f => [f.type, f.type] := by
  simp [typesIn, facts, Fact.named, List.flatMap_assoc, List.map_eq_flatMap]

lemma Aggregate.typesIn_facts (a : Aggregate) : typesIn a.facts =
    a.fields.map (·.element) ++ a.accessors.flatMap fun c => [c.element, c.element] := by
  simp [typesIn, facts, Fact.named, List.flatMap_assoc, List.map_eq_flatMap]

namespace Module

/-- A module binds what it imports to where it is from, and what it declares to itself. -/
lemma bindings_facts (m : Module) : m.facts.flatMap Fact.bindings =
    m.uses.flatMap (fun u => u.names.map fun n => (n, Origin.path u.source)) ++
      (m.parameters.map (·.name) ++ m.records.map (·.name) ++ [m.aggregate.name]).map
        fun n => (n, Origin.own) := by
  simp only [facts, List.flatMap_append, List.flatMap_map, List.flatMap_assoc, Fact.bindings,
    Record.bindings_facts, Aggregate.bindings_facts, List.map_append, List.map_map,
    List.append_assoc, List.map_singleton, ← List.map_eq_flatMap, Function.comp_def]

/-- The imports among the facts of a module are its imports. -/
lemma usesIn_facts (m : Module) : usesIn m.facts = m.uses := by
  have hrecords : m.records.flatMap (fun r => r.facts.flatMap Fact.imports) = [] :=
    List.flatMap_eq_nil_iff.mpr fun r _ => r.usesIn_facts
  have haggregate : m.aggregate.facts.flatMap Fact.imports = [] := m.aggregate.usesIn_facts
  simp [usesIn, facts, List.flatMap_map, List.flatMap_assoc, hrecords, haggregate, Fact.imports,
    List.flatMap_eq_nil_iff]

/-- The types that a module names are those of its records and of its aggregate. -/
lemma typesIn_facts (m : Module) : typesIn m.facts =
    m.records.flatMap (fun r => typesIn r.facts) ++ typesIn m.aggregate.facts := by
  have huses : (m.uses.map Fact.uses).flatMap Fact.named = [] := by
    simp [Fact.named, List.flatMap_eq_nil_iff]
  have hparameters : (m.parameters.map fun p => Fact.declares p.name).flatMap Fact.named = [] := by
    simp [Fact.named, List.flatMap_eq_nil_iff]
  simp only [typesIn, facts, List.flatMap_append, huses, hparameters, List.flatMap_assoc,
    List.nil_append]

/-- The scope of a module, as its source puts it together. -/
lemma names_bindings_perm (m : Module) :
    ((m.facts.flatMap Fact.bindings).map (·.1)).Perm m.scopeNames := by
  have hnames : (m.facts.flatMap Fact.bindings).map (·.1) = m.uses.flatMap (·.names) ++
      (m.parameters.map (·.name) ++ m.records.map (·.name) ++ [m.aggregate.name]) := by
    simp [bindings_facts, List.map_flatMap, Function.comp_def]
  rw [hnames, scopeNames, List.append_cons _ m.aggregate.name (m.uses.flatMap (·.names))]
  exact List.perm_append_comm

end Module

/-! ## What the model refers to -/

/-- The types that the module of a level names, in the order in which it is written: those of the
properties of each object type, for the fields and then for getters and setters, and the elements of
the collections, for the fields of the level's own and then for all functions. -/
def mentions (r : ResolvedLevel) : List TypeRef :=
  r.objectTypes.flatMap (fun o =>
    o.properties.map (·.type) ++ o.properties.flatMap fun p => [p.type, p.type]) ++
  (r.ownCollections.map fun c => TypeRef.object c.object) ++
    r.collections.flatMap fun c => [TypeRef.object c.object, TypeRef.object c.object]

/-- Where a type has to come from in the module of a level. -/
def originOf (primitivesPath level : String) : TypeRef → Origin
  | .parameter path | .object path =>
      if path.level = level then .own else .path ("super::" ++ moduleName path.level)
  | .primitive _ | .unresolved _ => .path primitivesPath

section Mentions

variable {r : ResolvedLevel} {t : TypeRef}

/-- A type is a level's own if the level declares it. -/
lemma originOf_eq_own_iff {primitivesPath level : String} :
    originOf primitivesPath level t = .own ↔
      ∃ p : TypePath, (t = .parameter p ∨ t = .object p) ∧ p.level = level := by
  cases t <;> simp [originOf]

/-- A level mentions the types of its properties and the elements of its collections. -/
lemma mem_mentions : t ∈ mentions r ↔
    t ∈ propertyTypes r ∨ ∃ c ∈ r.collections, TypeRef.object c.object = t := by
  simp only [mentions, propertyTypes, ResolvedLevel.ownCollections, List.mem_append,
    List.mem_flatMap, List.mem_map, List.mem_filter, List.mem_cons, List.not_mem_nil, or_false]
  constructor
  · rintro ((⟨o, ho, ⟨p, hp, rfl⟩ | ⟨p, hp, rfl | rfl⟩⟩ | ⟨c, hc, rfl⟩) | ⟨c, hc, rfl | rfl⟩)
    · exact .inl ⟨o, ho, p, hp, rfl⟩
    · exact .inl ⟨o, ho, p, hp, rfl⟩
    · exact .inl ⟨o, ho, p, hp, rfl⟩
    · exact .inr ⟨c, hc.1, rfl⟩
    · exact .inr ⟨c, hc, rfl⟩
    · exact .inr ⟨c, hc, rfl⟩
  · rintro (⟨o, ho, p, hp, rfl⟩ | ⟨c, hc, rfl⟩)
    · exact .inl (.inl ⟨o, ho, .inl ⟨p, hp, rfl⟩⟩)
    · exact .inr ⟨c, hc, .inl rfl⟩

lemma mem_mentionedPaths {path : TypePath} : path ∈ mentionedPaths r ↔
    TypeRef.parameter path ∈ mentions r ∨ TypeRef.object path ∈ mentions r := by
  simp only [mentionedPaths, mem_mentions, List.mem_append, List.mem_filterMap, List.mem_map]
  constructor
  · rintro (⟨t, ht, hpath⟩ | ⟨c, hc, rfl⟩)
    · cases t with
      | parameter p => exact .inl (.inl (Option.some.inj hpath ▸ ht))
      | object p => exact .inr (.inl (Option.some.inj hpath ▸ ht))
      | primitive n => exact nomatch hpath
      | unresolved n => exact nomatch hpath
    · exact .inr (.inr ⟨c, hc, rfl⟩)
  · rintro ((ht | ⟨c, -, hc⟩) | (ht | ⟨c, hc, heq⟩))
    · exact .inl ⟨_, ht, rfl⟩
    · exact nomatch hc
    · exact .inl ⟨_, ht, rfl⟩
    · exact .inr ⟨c, hc, TypeRef.object.inj heq⟩

lemma mem_mentionedPrimitives {name : String} :
    name ∈ mentionedPrimitives r ↔ TypeRef.primitive name ∈ mentions r := by
  simp only [mentionedPrimitives, mem_mentions, List.mem_filterMap]
  constructor
  · rintro ⟨t, ht, hname⟩
    cases t with
    | primitive n => exact .inl (Option.some.inj hname ▸ ht)
    | _ => exact nomatch hname
  · rintro (ht | ⟨c, -, hc⟩)
    · exact ⟨_, ht, rfl⟩
    · exact nomatch hc

/-- **A module names the types that its level refers to.** -/
theorem typesIn_ofLevel {primitivesPath : String} {s : ResolvedSchema} {m : Module}
    (hm : Module.ofLevel primitivesPath s r = .ok m) :
    typesIn m.facts = (mentions r).map fun t => Name.escape t.name := by
  obtain ⟨parameters, -, rfl⟩ := Module.ofLevel_eq_ok hm
  simp only [Module.typesIn_facts, Record.typesIn_facts, Aggregate.typesIn_facts, mentions,
    List.map_append, List.map_flatMap, List.flatMap_map, List.map_map, List.append_assoc,
    Aggregate.fields, Aggregate.ofLevel, List.filter_map, ResolvedLevel.ownCollections,
    Function.comp_def, Record.ofKnown, Field.ofKnown, List.map_cons, List.map_nil, TypeRef.name]

/-- What is imported from where: types from the modules of levels, and primitive types. -/
lemma mem_pairs_broughtIn {primitivesPath name source : String} :
    (∃ u ∈ broughtIn primitivesPath r, u.source = source ∧ name ∈ u.names) ↔
      (∃ i ∈ importedTypes r, i.2 = name ∧ "super::" ++ i.1 = source) ∨
        name ∈ importedPrimitives r ∧ primitivesPath = source := by
  have hpairs : (name, source) ∈
      (broughtIn primitivesPath r).flatMap (fun u => u.names.map fun n => (n, u.source)) ↔
        ∃ u ∈ broughtIn primitivesPath r, u.source = source ∧ name ∈ u.names := by
    simp [and_comm]
  rw [← hpairs, pairs_broughtIn]
  simp

/-- **What is brought in is what is named and comes from elsewhere.** -/
theorem exists_use_iff {primitivesPath name source : String}
    (hresolved : ∀ n, TypeRef.unresolved n ∉ mentions r) :
    (∃ u ∈ broughtIn primitivesPath r, u.source = source ∧ name ∈ u.names) ↔
      ∃ t ∈ mentions r, originOf primitivesPath r.name t = .path source ∧
        Name.escape t.name = name := by
  rw [mem_pairs_broughtIn]
  constructor
  · rintro (⟨i, hi, rfl, rfl⟩ | ⟨hname, rfl⟩)
    · obtain ⟨path, hpath, hlevel, rfl⟩ := mem_importedTypes.mp hi
      rcases mem_mentionedPaths.mp hpath with ht | ht
      · exact ⟨_, ht, if_neg hlevel, rfl⟩
      · exact ⟨_, ht, if_neg hlevel, rfl⟩
    · obtain ⟨n, hn, rfl⟩ := mem_importedPrimitives.mp hname
      exact ⟨_, mem_mentionedPrimitives.mp hn, rfl, rfl⟩
  · rintro ⟨t, ht, horigin, rfl⟩
    have hdeclared : ∀ path : TypePath, path ∈ mentionedPaths r →
        (if path.level = r.name then Origin.own else .path ("super::" ++ moduleName path.level)) =
          .path source →
        ∃ i ∈ importedTypes r, i.2 = Name.escape path.name ∧ "super::" ++ i.1 = source := by
      intro path hpath horigin
      split_ifs at horigin with hlevel
      exact ⟨_, mem_importedTypes.mpr ⟨path, hpath, hlevel, rfl⟩, rfl, Origin.path.inj horigin⟩
    cases t with
    | parameter path => exact .inl (hdeclared path (mem_mentionedPaths.mpr (.inl ht)) horigin)
    | object path => exact .inl (hdeclared path (mem_mentionedPaths.mpr (.inr ht)) horigin)
    | primitive n =>
        exact .inr ⟨mem_importedPrimitives.mpr ⟨n, mem_mentionedPrimitives.mpr ht, rfl⟩,
          Origin.path.inj horigin⟩
    | unresolved n => exact absurd ht (hresolved n)

end Mentions

/-- What the source of a module says. -/
def Module.said (settings : EmitSettings) (m : Module) : List Fact :=
  Code.facts (m.lines (Artifact.derives settings))

/-- The types that are named in the source of the module of a level stand for what the level refers
to.  They are the types that the level mentions, in this order; each has one origin, the one that
the model gives it, and there its declaration stands.  What is brought in is mentioned, with one
line for each module and one for primitives.  All levels and modules of the run are given as well,
to find the declarations and to say what comes first. -/
structure Binds (settings : Settings) (levels : List ResolvedLevel) (modules : List Module)
    (r : ResolvedLevel) (m : Module) : Prop where
  name : m.name = moduleName r.name
  types : typesIn (m.said settings.emit) = (mentions r).map fun t => Name.escape t.name
  origins : ∀ t ∈ mentions r, Name.isUnescapable t.name = false →
    Code.origins (m.said settings.emit) (Name.escape t.name) =
      [originOf settings.emit.primitivesPath r.name t]
  unescapable : ∀ t ∈ mentions r, Name.isUnescapable t.name = true →
    ∃ n ∈ settings.extraPrimitives, t = .primitive n
  declared : ∀ t ∈ mentions r, (∃ n ∈ settings.primitives.names, t = .primitive n) ∨
    ∃ owner ∈ levels, (owner.name = r.name ∨ owner.name ∈ r.ancestors) ∧ owner.Declares t ∧
      ∃ m' ∈ modules, m'.name = moduleName owner.name ∧
        Fact.declares (Name.escape t.name) ∈ m'.said settings.emit
  mentioned : ∀ u ∈ usesIn (m.said settings.emit), ∀ n ∈ u.names, ∃ t ∈ mentions r,
    originOf settings.emit.primitivesPath r.name t = .path u.source ∧ Name.escape t.name = n
  uses : ∃ types primitives, usesIn (m.said settings.emit) = types ++ primitives ∧
    (types.map (·.source)).Nodup ∧
    (∀ u ∈ types, ∃ a ∈ r.ancestors, u.source = "super::" ++ moduleName a) ∧
    primitives.length ≤ 1 ∧ (∀ u ∈ primitives, u.source = settings.emit.primitivesPath) ∧
    (((types ++ primitives).map (·.source)).Nodup ↔
      primitives = [] ∨ settings.emit.primitivesPath ∉ types.map (·.source))
  ordered : ∀ a ∈ r.ancestors, [moduleName a, m.name].Sublist (modules.map (·.name))

lemma length_primitiveUses (primitivesPath : String) (r : ResolvedLevel) :
    (primitiveUses primitivesPath r).length ≤ 1 := by
  unfold primitiveUses
  split_ifs <;> simp

lemma source_of_mem_primitiveUses {primitivesPath : String} {r : ResolvedLevel} {u : Use}
    (hu : u ∈ primitiveUses primitivesPath r) : u.source = primitivesPath := by
  unfold primitiveUses at hu
  split_ifs at hu
  · exact nomatch hu
  · rw [List.mem_singleton.mp hu]

/-- Lines differ in their sources unless the primitives are brought in from a module as well. -/
lemma nodup_sources_iff (primitivesPath : String) (r : ResolvedLevel) :
    ((typeUses r ++ primitiveUses primitivesPath r).map (·.source)).Nodup ↔
      primitiveUses primitivesPath r = [] ∨
        primitivesPath ∉ (typeUses r).map (·.source) := by
  have htypes := nodup_source_typeUses r
  unfold primitiveUses
  split_ifs
  · simpa using htypes
  · rw [List.map_append, List.map_singleton, List.nodup_append_comm, List.singleton_append,
      List.nodup_cons, false_or]
    exact and_iff_left htypes

end Code

/-! ## Modules of resolved levels -/

namespace Schema

open Code

variable {s : Schema} {P : PrimitiveSet} {l : Level} {r : ResolvedLevel} {resolved : ResolvedSchema}
  {m : Module} {primitivesPath name : String} {t : TypeRef}

/-- What a level mentions is denoted there by its name. -/
lemma LevelYields.denotes_of_mem_mentions (hs : s.Bound P) (hr : s.LevelYields P l r)
    (hl : l ∈ s.levels) (ht : t ∈ mentions r) : s.Denotes P l t.name t := by
  rcases mem_mentions.mp ht with ht | ⟨c, hc, rfl⟩
  · exact hr.denotes_of_mem hs hl ht
  · exact hr.denotes_of_mem_collections hs hc

/-- A level of a bound schema mentions no unresolved type. -/
lemma LevelYields.unresolved_not_mem_mentions (hs : s.Bound P) (hr : s.LevelYields P l r)
    (hl : l ∈ s.levels) (n : String) : TypeRef.unresolved n ∉ mentions r := by
  intro ht
  obtain ⟨_, -, hdeclares⟩ | ⟨hprimitive, -⟩ := (hr.denotes_of_mem_mentions hs hl ht).declared
  · exact hdeclares
  · exact nomatch hprimitive

/-- A name that denotes a type is usable, or it is a primitive. -/
lemma Denotes.usable_or (hs : s.WellFormed) (hl : l ∈ s.levels) (h : s.Denotes P l name t) :
    Load.Usable .type name ∨ t = .primitive name ∧ name ∈ P.names := by
  refine h.declared.imp_left ?_
  rintro ⟨m, hm, hdeclares⟩
  have hname := hdeclares.mem_typeNames
  rw [h.name_eq] at hname
  exact (hs.levels m (mem_levels_of_reflTransGen hl hm)).usable _ hname

/-- A type that carries the name of the level is declared by it. -/
lemma Denotes.declares_of_level_eq (hs : s.WellFormed) (hl : l ∈ s.levels)
    (h : s.Denotes P l name t) {p : TypePath} (ht : t = .parameter p ∨ t = .object p)
    (hlevel : p.level = l.name.value) : l.Declares t := by
  obtain ⟨m, hlm, hm⟩ | ⟨hprimitive, -⟩ := h.declared
  · have hname : m.name.value = l.name.value := by
      rcases ht with rfl | rfl
      · exact hm.1.symm.trans hlevel
      · exact hm.1.symm.trans hlevel
    exact hs.linked.eq_of_name_eq (mem_levels_of_reflTransGen hl hlm) hl hname ▸ hm
  · rcases ht with rfl | rfl
    · exact nomatch hprimitive
    · exact nomatch hprimitive

lemma Denotes.isIdentifier (hs : s.WellFormed) (hP : ∀ n ∈ P.names, Name.isIdentifier n = true)
    (hl : l ∈ s.levels) (h : s.Denotes P l name t) : Name.isIdentifier name = true := by
  rcases h.usable_or hs hl with husable | ⟨-, hmem⟩
  · exact husable.isIdentifier
  · exact hP name hmem

lemma LevelYields.legal_of_mem_ancestors (hs : s.WellFormed) (hl : l ∈ s.levels)
    (hr : s.LevelYields P l r) (hname : name ∈ r.ancestors) :
    Name.Legal (moduleName name) ∧ Name.Legal (Name.escape name) := by
  obtain ⟨m, hm, rfl⟩ := (hr.mem_ancestors_iff hs).mp hname
  have husable := hs.usable m (mem_levels_of_reflTransGen hl hm.to_reflTransGen)
  exact ⟨husable.legal_escape_snake, husable.legal_escape⟩

/-- The names of a generated module can be read back from its source. -/
lemma LevelYields.readable (hs : s.Bound P) (hP : ∀ n ∈ P.names, Name.isIdentifier n = true)
    (hl : l ∈ s.levels) (hr : s.LevelYields P l r)
    (hm : Module.ofLevel primitivesPath resolved r = .ok m) : m.Readable := by
  have hword : ∀ t ∈ mentions r, Word (Name.escape t.name) := by
    intro t ht
    have hid := (hr.denotes_of_mem_mentions hs hl ht).isIdentifier hs.toWellFormed hP hl
    exact word_of_isIdentifier_bare (by rwa [Name.bare_escape hid])
  have hlegal : ∀ n ∈ m.declaredNames, Name.Legal n := fun n hn =>
    hr.legal_of_mem_declaredNames hs.toWellFormed hl hm hn
  obtain ⟨parameters, hparameters, rfl⟩ := Module.ofLevel_eq_ok hm
  refine ⟨hlegal, ?_, ?_, ?_, ?_⟩
  · intro u hu n hn
    obtain ⟨t, ht, -, rfl⟩ := (exists_use_iff (hr.unresolved_not_mem_mentions hs hl)).mp
      ⟨u, hu, rfl, hn⟩
    exact hword t ht
  · refine List.forall_mem_map.mpr fun o ho => List.forall_mem_map.mpr fun p hp => ?_
    refine hword p.type (mem_mentions.mpr (.inl ?_))
    exact List.mem_flatMap.mpr ⟨o, ho, List.mem_map.mpr ⟨p, hp, rfl⟩⟩
  · exact List.forall_mem_map.mpr fun c hc => hword _ (mem_mentions.mpr (.inr ⟨c, hc, rfl⟩))
  · intro base hbase
    obtain ⟨parent, hparent, rfl⟩ := Option.map_eq_some_iff.mp hbase
    obtain ⟨hmodule, hname⟩ :=
      hr.legal_of_mem_ancestors hs.toWellFormed hl (List.mem_of_getLast? hparent)
    exact ((Quiet.append (by decide) (word_of_legal hmodule).quiet).append (by decide)).append
      (word_of_legal hname).quiet

/-- The source of a module declares the types of its level. -/
lemma LevelYields.declares_mem_facts (hr : s.LevelYields P l r)
    (hm : Module.ofLevel primitivesPath resolved r = .ok m) (h : l.Declares t) :
    Fact.declares (Name.escape t.name) ∈ m.facts := by
  obtain ⟨parameters, hparameters, rfl⟩ := Module.ofLevel_eq_ok hm
  have hnames := hr.map_name_parameters hparameters
  have hrecords := hr.map_name_records
  cases t with
  | parameter path =>
      obtain ⟨p, hp, hname⟩ := List.mem_map.mp h.2
      have hmem : Name.escape path.name ∈ parameters.map (·.name) :=
        hnames ▸ List.mem_map.mpr ⟨p, hp, congrArg Name.escape hname⟩
      obtain ⟨item, hitem, hname⟩ := List.mem_map.mp hmem
      refine List.mem_append_left _ (List.mem_append_left _ (List.mem_append_right _ ?_))
      exact List.mem_map.mpr ⟨item, hitem, congrArg Fact.declares hname⟩
  | object path =>
      obtain ⟨o, ho, hname⟩ := List.mem_map.mp h.2
      have hmem : Name.escape path.name ∈ (r.objectTypes.map Record.ofKnown).map (·.name) :=
        hrecords ▸ List.mem_map.mpr ⟨o, ho, congrArg Name.escape hname⟩
      obtain ⟨record, hrecord, hname⟩ := List.mem_map.mp hmem
      refine List.mem_append_left _ (List.mem_append_right _ ?_)
      exact List.mem_flatMap.mpr ⟨record, hrecord, hname ▸ List.mem_cons_self⟩
  | primitive n => exact h.elim
  | unresolved n => exact h.elim

/-- A resolved level declares what the level does. -/
lemma LevelYields.declares (hr : s.LevelYields P l r) (h : l.Declares t) : r.Declares t := by
  cases t with
  | parameter path => exact ⟨h.1.trans hr.name.symm, hr.parameterTypes ▸ h.2⟩
  | object path =>
      refine ⟨h.1.trans hr.name.symm, ?_⟩
      have hpaths : r.objectTypes.map (·.path.name) = l.objects.map (·.decl.name.value) :=
        map_eq_map_of_forall₂ hr.objectTypes fun x o ho => congrArg TypePath.name ho.path
      rw [hpaths, Level.objects, List.map_map]
      exact h.2
  | primitive n => exact h.elim
  | unresolved n => exact h.elim

/-- Whatever a module names is put into its scope, with the origin that the model gives it. -/
lemma LevelYields.mem_bindings (hs : s.Bound P) (hl : l ∈ s.levels) (hr : s.LevelYields P l r)
    (hm : Module.ofLevel primitivesPath resolved r = .ok m) (ht : t ∈ mentions r) :
    (Name.escape t.name, originOf primitivesPath r.name t) ∈ m.facts.flatMap Fact.bindings := by
  cases horigin : originOf primitivesPath r.name t with
  | own =>
      obtain ⟨p, hp, hlevel⟩ := originOf_eq_own_iff.mp horigin
      have hdenotes := hr.denotes_of_mem_mentions hs hl ht
      have hdeclares :=
        hdenotes.declares_of_level_eq hs.toWellFormed hl hp (hlevel.trans hr.name)
      exact List.mem_flatMap.mpr ⟨_, hr.declares_mem_facts hm hdeclares, List.mem_singleton_self _⟩
  | path source =>
      obtain ⟨u, hu, rfl, hname⟩ := (exists_use_iff (hr.unresolved_not_mem_mentions hs hl)).mpr
        ⟨t, ht, horigin, rfl⟩
      obtain ⟨parameters, -, rfl⟩ := Module.ofLevel_eq_ok hm
      rw [Module.bindings_facts]
      refine List.mem_append_left _ (List.mem_flatMap.mpr ⟨u, hu, ?_⟩)
      exact List.mem_map.mpr ⟨_, hname, rfl⟩

/-- **Every type that a module names has one origin, which is where the model says it is.** -/
theorem LevelYields.origins_eq (hs : s.Bound P) (hP : ∀ n ∈ P.names, Name.isIdentifier n = true)
    (hl : l ∈ s.levels) (hr : s.LevelYields P l r)
    (hm : Module.ofLevel primitivesPath resolved r = .ok m) (ht : t ∈ mentions r)
    (hname : Name.isUnescapable t.name = false) :
    origins m.facts (Name.escape t.name) = [originOf primitivesPath r.name t] := by
  have hid := (hr.denotes_of_mem_mentions hs hl ht).isIdentifier hs.toWellFormed hP hl
  refine origins_eq_singleton ?_ (hr.mem_bindings hs hl hm ht) (by rwa [Name.bare_escape hid])
  have hapart : (m.scopeNames.map Name.bare).Nodup := hr.apart_scopeNames hs hP hl hm
  rw [← (m.names_bindings_perm.map Name.bare).nodup_iff, List.map_map] at hapart
  exact hapart

/-- Types are brought in from the modules of ancestors. -/
lemma LevelYields.exists_ancestor_of_mem_typeUses (hs : s.Bound P) (hl : l ∈ s.levels)
    (hr : s.LevelYields P l r) {u : Use} (hu : u ∈ typeUses r) :
    ∃ a ∈ r.ancestors, u.source = "super::" ++ moduleName a := by
  obtain ⟨⟨source, names⟩, hgroup, rfl⟩ := List.mem_map.mp hu
  obtain ⟨n, hn⟩ := List.exists_mem_of_ne_nil _ (ne_nil_of_mem_groupByModule hgroup)
  have hmem : (source, n) ∈ importedTypes r := by
    rw [← pairs_groupByModule (importedTypes r)]
    exact List.mem_flatMap.mpr ⟨_, hgroup, List.mem_map.mpr ⟨n, hn, rfl⟩⟩
  obtain ⟨p, ⟨m, hm, hmlevel, -⟩, hlevel, hsource, -⟩ :=
    hr.exists_sees_of_mem_importedTypes hs hl hmem
  refine ⟨p.level, (hr.mem_ancestors_iff hs.toWellFormed).mpr ⟨m, ?_, hmlevel⟩, ?_⟩
  · refine (Relation.reflTransGen_iff_eq_or_transGen.mp hm).resolve_left fun heq => ?_
    exact hlevel (heq ▸ hmlevel).symm
  · rw [(Prod.mk.inj hsource).1]

/-- Levels are written after those they extend. -/
lemma WellFormed.sublist_modules (hs : s.WellFormed) {modules : List Module}
    (hresolve : s.resolve P = .ok resolved)
    (hmodules : resolved.levels.mapM (Module.ofLevel primitivesPath resolved) = .ok modules)
    (hl : l ∈ s.levels) (hr : s.LevelYields P l r) {a : String} (ha : a ∈ r.ancestors) :
    [moduleName a, moduleName r.name].Sublist (modules.map (·.name)) := by
  have hbound := hs.bound_of_resolve hresolve
  obtain ⟨chain, hchain, hancestors, -⟩ := hr.lineage
  have hsub := hbound.parentsFirst_orderedLevels.sublist_of_lineage hchain
    (hbound.mem_orderedLevels.mpr hl)
  obtain ⟨front, rfl⟩ := hchain.eq_append
  rw [hancestors, List.dropLast_concat] at ha
  have hnames : [a, r.name].Sublist ((front ++ [l]).map (·.name.value)) := by
    rw [List.map_append, hr.name]
    exact (List.singleton_sublist.mpr ha).append (List.Sublist.refl _)
  rw [hs.map_name_modules hresolve hmodules, List.map_map]
  have hmap := (hnames.trans (hsub.map _)).map moduleName
  rwa [List.map_map] at hmap

lemma LevelYields.said_eq (hs : s.Bound P) (hP : ∀ n ∈ P.names, Name.isIdentifier n = true)
    (hl : l ∈ s.levels) (hr : s.LevelYields P l r)
    (hm : Module.ofLevel primitivesPath resolved r = .ok m) (settings : EmitSettings) :
    m.said settings = m.facts :=
  Module.facts_lines (hr.readable hs hP hl hm) _

/-- The names of every module of a run can be read back from its source. -/
lemma WellFormed.readable_of_mem_modules (hs : s.WellFormed) {modules : List Module}
    (hP : ∀ n ∈ P.names, Name.isIdentifier n = true) (hresolve : s.resolve P = .ok resolved)
    (hmodules : resolved.levels.mapM (Module.ofLevel primitivesPath resolved) = .ok modules)
    (hm : m ∈ modules) : m.Readable := by
  have hbound := hs.bound_of_resolve hresolve
  obtain ⟨l, hl, r, hr, hm⟩ :=
    exists_of_forall₂_of_mem (hs.forall₂_modules hresolve hmodules) hm
  exact hr.readable hbound hP (hbound.mem_orderedLevels.mp hl) hm

/-- The source of a module of a run says what the module holds. -/
lemma WellFormed.said_eq_of_mem_modules (hs : s.WellFormed) {modules : List Module}
    (hP : ∀ n ∈ P.names, Name.isIdentifier n = true) (hresolve : s.resolve P = .ok resolved)
    (hmodules : resolved.levels.mapM (Module.ofLevel primitivesPath resolved) = .ok modules)
    (hm : m ∈ modules) (settings : EmitSettings) : m.said settings = m.facts :=
  Module.facts_lines (hs.readable_of_mem_modules hP hresolve hmodules hm) _

/-- A type that a module names and that is no primitive is declared by the level or an ancestor, and
the module of that level declares it. -/
lemma WellFormed.exists_owner (hs : s.WellFormed) {modules : List Module}
    (hP : ∀ n ∈ P.names, Name.isIdentifier n = true) (hresolve : s.resolve P = .ok resolved)
    (hmodules : resolved.levels.mapM (Module.ofLevel primitivesPath resolved) = .ok modules)
    (hl : l ∈ s.levels) (hr : s.LevelYields P l r) (ht : t ∈ mentions r)
    (settings : EmitSettings) : (∃ n ∈ P.names, t = .primitive n) ∨
      ∃ owner ∈ resolved.levels, (owner.name = r.name ∨ owner.name ∈ r.ancestors) ∧
        owner.Declares t ∧ ∃ m ∈ modules, m.name = moduleName owner.name ∧
          Fact.declares (Name.escape t.name) ∈ m.said settings := by
  have hbound := hs.bound_of_resolve hresolve
  obtain ⟨above, hlm, hdeclares⟩ | ⟨hprimitive, hmem⟩ :=
    (hr.denotes_of_mem_mentions hbound hl ht).declared
  · have habove := mem_levels_of_reflTransGen hl hlm
    obtain ⟨owner, howner, hyields⟩ := hs.exists_resolved hresolve habove
    obtain ⟨m, hmem, hm⟩ := exists_of_forall₂_of_mem (mapM_eq_ok_iff.mp hmodules).flip howner
    refine .inr ⟨owner, howner, ?_, hyields.declares hdeclares, m, hmem, ?_, ?_⟩
    · rw [hyields.name, hr.name, hr.mem_ancestors_iff hs]
      refine (Relation.reflTransGen_iff_eq_or_transGen.mp hlm).imp ?_ fun htrans => ?_
      · exact congrArg fun l : Level => l.name.value
      · exact ⟨above, htrans, rfl⟩
    · obtain ⟨parameters, -, rfl⟩ := Module.ofLevel_eq_ok hm
      rfl
    · rw [hyields.said_eq hbound hP habove hm]
      exact hyields.declares_mem_facts hm hdeclares
  · exact .inl ⟨t.name, hmem, hprimitive⟩

variable {settings : Settings}

/-- The module of a level binds the types it names. -/
lemma WellFormed.binds (hs : s.WellFormed) {modules : List Module}
    (hP : ∀ n ∈ settings.primitives.names, Name.isIdentifier n = true)
    (hresolve : s.resolve settings.primitives = .ok resolved)
    (hmodules : resolved.levels.mapM (Module.ofLevel settings.emit.primitivesPath resolved) =
      .ok modules)
    (hmem : r ∈ resolved.levels)
    (hm : Module.ofLevel settings.emit.primitivesPath resolved r = .ok m) :
    Binds settings resolved.levels modules r m := by
  have hbound := hs.bound_of_resolve hresolve
  obtain ⟨l, hl, hr⟩ := hs.exists_levelYields hresolve hmem
  have hbuiltin : ∀ n ∈ builtinPrimitives, Name.isUnescapable n = false := by decide
  have hsaid := hr.said_eq hbound hP hl hm settings.emit
  have hname : m.name = moduleName r.name := by
    obtain ⟨parameters, -, rfl⟩ := Module.ofLevel_eq_ok hm
    rfl
  have huses : usesIn (m.said settings.emit) = broughtIn settings.emit.primitivesPath r := by
    obtain ⟨parameters, -, rfl⟩ := Module.ofLevel_eq_ok hm
    rw [hsaid, Module.usesIn_facts]
  exact {
    name := hname
    types := by rw [hsaid, typesIn_ofLevel hm]
    origins := fun t ht hword => by rw [hsaid, hr.origins_eq hbound hP hl hm ht hword]
    unescapable := fun t ht hword => by
      rcases (hr.denotes_of_mem_mentions hbound hl ht).usable_or hs hl with husable | ⟨hprim, hmem⟩
      · exact absurd hword (by simp [husable.not_isUnescapable])
      · refine ⟨t.name, (Settings.mem_primitives_iff.mp hmem).resolve_left fun hmem => ?_, hprim⟩
        exact absurd hword (by simp [hbuiltin t.name hmem])
    declared := fun t ht => hs.exists_owner hP hresolve hmodules hl hr ht settings.emit
    mentioned := fun u hu n hn =>
      (exists_use_iff (hr.unresolved_not_mem_mentions hbound hl)).mp ⟨u, huses ▸ hu, rfl, hn⟩
    uses := ⟨typeUses r, primitiveUses settings.emit.primitivesPath r, huses,
      nodup_source_typeUses r, fun u hu => hr.exists_ancestor_of_mem_typeUses hbound hl hu,
      length_primitiveUses _ r, fun u hu => source_of_mem_primitiveUses hu, nodup_sources_iff _ r⟩
    ordered := fun a ha => hname ▸ hs.sublist_modules hresolve hmodules hl hr ha }

end Schema

namespace Session

open Code

variable {settings : Settings} {session : Session} {source : String} {artifact : Artifact}

/-- The modules that a source is compiled to. -/
def modulesOf? (settings : Settings) (source : String) : Option (List Module) := do
  let loaded ← (Schema.ofSource source).toOption
  let resolved ← (loaded.value.resolve settings.primitives).toOption
  (resolved.levels.mapM (Module.ofLevel settings.emit.primitivesPath resolved)).toOption

/-- What can be computed of the contents of a module holds of the source that is written. -/
lemma exists_said_of_any (p : List Fact → Prop) [DecidablePred p] (hvalid : settings.fault? = none)
    (hany : (modulesOf? settings source).any (fun modules => ∃ m ∈ modules, p m.facts) = true) :
    ∃ session modules, Session.start settings = .ok session ∧
      (session.compile source).result = .ok (.ofModules settings.emit modules) ∧
        ∃ m ∈ modules, p (m.said settings.emit) := by
  have hstart : Session.start settings = .ok ⟨settings, .idle, ""⟩ :=
    start_eq_ok_iff.mpr ⟨hvalid, rfl⟩
  cases hload : Schema.ofSource source with
  | error e => simp [modulesOf?, hload, Except.toOption] at hany
  | ok loaded =>
      cases hresolve : loaded.value.resolve settings.primitives with
      | error e => simp [modulesOf?, hload, hresolve, Except.toOption] at hany
      | ok resolved =>
          obtain ⟨artifact, hemit, hcompile⟩ := compile_of_resolve_ok hload hresolve
          obtain ⟨modules, hmodules, hartifact⟩ := bind_eq_ok_iff.mp hemit
          have hp : ∃ m ∈ modules, p m.facts := by
            simpa [modulesOf?, hload, hresolve, hmodules, Except.toOption] using hany
          obtain ⟨m, hm, hp⟩ := hp
          refine ⟨_, modules, hstart, by rw [hcompile, ← pure_eq_ok_iff.mp hartifact], m, hm, ?_⟩
          rwa [(Schema.wellFormed_of_ofSource hload).said_eq_of_mem_modules
            (isIdentifier_of_mem_primitives hvalid) hresolve hmodules hm]

/-- **Every type that is named in generated source stands for what the model refers to.**  This
holds of the module of every level: the types it names, one after the other, are those that the
level refers to, and each of them is put into scope once, by a declaration of the module or from the
module of the ancestor that declares it, or from the place of the primitives.  Nothing else is
brought in, there is one line for the types of each ancestor and one for primitives, and modules
come after those of their ancestors. -/
theorem compile_binds_types (hstart : Session.start settings = .ok session)
    (h : (session.compile source).result = .ok artifact) :
    ∃ loaded resolved modules, Schema.ofSource source = .ok loaded ∧
      loaded.value.resolve settings.primitives = .ok resolved ∧
        resolved.levels.mapM (Module.ofLevel settings.emit.primitivesPath resolved) = .ok modules ∧
          artifact = .ofModules settings.emit modules ∧ Apart (modules.map (·.name)) ∧
            List.Forall₂ (Binds settings resolved.levels modules) resolved.levels modules := by
  obtain ⟨loaded, resolved, modules, hload, hresolve, hmodules, hartifact⟩ :=
    exists_modules_of_compile hstart h
  have hs := Schema.wellFormed_of_ofSource hload
  have hP := isIdentifier_of_mem_primitives (start_eq_ok_iff.mp hstart).1
  refine ⟨loaded, resolved, modules, hload, hresolve, hmodules, hartifact,
    hs.apart_modules hresolve hmodules, ?_⟩
  refine ((List.forall₂_and_left _ _).mpr ⟨fun _ hr => hr, mapM_eq_ok_iff.mp hmodules⟩).imp ?_
  rintro r m ⟨hmem, hm⟩
  exact hs.binds hP hresolve hmodules hmem hm

/-- Levels whose types are named far below, with a parameter, marked names and a primitive. -/
def districtOnMatch : String :=
  "AbstractionLevel D extends C\n    Object Park extends Pub\n        Use For\n" ++
    "AbstractionLevel Match\n    Parameter Use\n        If\n" ++
    "    Object Plot\n        Curve Edge\n" ++
    "AbstractionLevel C extends Match\n    Object Pub extends Plot\n        Plot In\n"

theorem districtOnMatch_binds_types :
    ∃ artifact loaded resolved modules,
      ((Session.mk {} .idle "").compile districtOnMatch).result = .ok artifact ∧
        Schema.ofSource districtOnMatch = .ok loaded ∧
          loaded.value.resolve (Settings.primitives {}) = .ok resolved ∧
            artifact = .ofModules {} modules ∧ Apart (modules.map (·.name)) ∧
              List.Forall₂ (Binds {} resolved.levels modules) resolved.levels modules := by
  have hstart : Session.start {} = .ok ⟨{}, .idle, ""⟩ := by decide +kernel
  have hrun : ((Session.mk {} .idle "").compile districtOnMatch).result.isOk = true := by
    decide +kernel
  obtain ⟨artifact, hresult⟩ := exists_of_isOk hrun
  obtain ⟨loaded, resolved, modules, hload, hresolve, -, hartifact, hnames, hbinds⟩ :=
    compile_binds_types hstart hresult
  exact ⟨artifact, loaded, resolved, modules, hresult, hload, hresolve, hartifact, hnames, hbinds⟩

/-- Primitives that come from the module of the level `Site`. -/
def primitivesInSite : Settings :=
  { emit := { primitivesPath := "super::site" } }

/-- A primitive that is called like the type that is being declared. -/
def primitiveSelf : Settings :=
  { extraPrimitives := ["Self"] }

def towerOnSite : String :=
  "AbstractionLevel Site\n    Object Plot\n" ++
    "AbstractionLevel City extends Site\n    Object Tower\n        Curve Shape\n"

/-- Two lines can bring in names from one module, and a type can be named that stands for nothing
that was brought in. -/
theorem site_brought_in_twice_self_unbound :
    (∃ session modules, Session.start primitivesInSite = .ok session ∧
      (session.compile towerOnSite).result = .ok (.ofModules primitivesInSite.emit modules) ∧
        ∃ m ∈ modules, usesIn (m.said primitivesInSite.emit) =
          [⟨"super::site", ["Plot"]⟩, ⟨"super::site", ["Curve"]⟩]) ∧
      ∃ session modules, Session.start primitiveSelf = .ok session ∧
        (session.compile "AbstractionLevel Site\n    Object Plot\n        Self Twin\n").result =
          .ok (.ofModules primitiveSelf.emit modules) ∧
          ∃ m ∈ modules, usesIn (m.said primitiveSelf.emit) = [⟨"crate::primitives", ["Self"]⟩] ∧
            "Self" ∈ typesIn (m.said primitiveSelf.emit) ∧
              origins (m.said primitiveSelf.emit) "Self" = [] := by
  constructor
  · refine exists_said_of_any (fun facts => usesIn facts =
      [⟨"super::site", ["Plot"]⟩, ⟨"super::site", ["Curve"]⟩]) ?_ ?_
    · decide +kernel
    · decide +kernel
  · refine exists_said_of_any (fun facts => usesIn facts = [⟨"crate::primitives", ["Self"]⟩] ∧
      "Self" ∈ typesIn facts ∧ origins facts "Self" = []) ?_ ?_
    · decide +kernel
    · decide +kernel

end Session

end LevelSchema
