import LevelSchema.Proofs.Code.Binding

/-!
# Names that generated source takes for granted

Fields, functions and operators are written by templates, and these name types and modules that no
module brings in, such as `Option` or `std`.  A type of the same name in the scope of a module would
be taken instead (`Code.Captured`), and a word that no mark helps cannot be put into scope at all.

**All scopes together.**  The names in the scopes of the modules are those of levels and of declared
types, and the primitives that some property has as its type (`Schema.WellFormed.mem_scopes_iff`).
Loading refuses some of the names that templates use for levels and types, but not all of them
(`Code.unguardedNames`), and configured primitives are not compared with them.
-/

namespace LevelSchema

namespace Code

/-- The names that templates use without a path. -/
def templateNames : List String :=
  ["Option", "Box", "Vec", "None", "u32", "bool", "std"]

/-- The names among them that levels and types can have. -/
def unguardedNames : List String :=
  ["u32", "bool", "std"]

/-- A name that templates use themselves, or a word that cannot be put into scope at all. -/
def Captured (name : String) : Prop :=
  name ∈ templateNames ∨ Name.isUnescapable name = true

instance : DecidablePred Captured := fun name =>
  inferInstanceAs (Decidable (name ∈ templateNames ∨ Name.isUnescapable name = true))

/-- The names that are put into scope. -/
def namesIn (facts : List Fact) : List String :=
  (facts.flatMap Fact.bindings).map (·.1)

end Code

namespace Load.Usable

open Code

variable {role : NameRole} {name : String}

lemma not_mem_reservedTypeNames (h : Usable role name) (hrole : role = .level ∨ role = .type) :
    name ∉ reservedTypeNames := by
  intro hmem
  have hreason := h.not_reserved
  unfold reservedReason? at hreason
  rw [if_neg (Bool.not_eq_true _ ▸ h.not_isUnescapable_or)] at hreason
  rcases hrole with rfl | rfl
  · simp [hmem] at hreason
  · simp [hmem] at hreason

/-- Loading leaves three of the names that templates use to levels and types. -/
lemma captured_iff (h : Usable role name) (hrole : role = .level ∨ role = .type) :
    Captured name ↔ name ∈ unguardedNames := by
  have hguarded : ∀ n ∈ templateNames, n ∈ reservedTypeNames ∨ n ∈ unguardedNames := by decide
  have hunguarded : ∀ n ∈ unguardedNames, n ∈ templateNames := by decide
  constructor
  · rintro (hname | hname)
    · exact (hguarded name hname).resolve_left (h.not_mem_reservedTypeNames hrole)
    · exact absurd hname (by simp [h.not_isUnescapable])
  · exact fun hname => .inl (hunguarded name hname)

end Load.Usable

namespace Schema

open Code

variable {s : Schema} {P : PrimitiveSet} {l : Level} {r : ResolvedLevel} {resolved : ResolvedSchema}
  {modules : List Module} {x : PlacedObject} {primitivesPath name : String}

/-- The primitives that a module names are types of declared properties. -/
lemma LevelYields.exists_property_of_mentioned (hs : s.Bound P) (hl : l ∈ s.levels)
    (hr : s.LevelYields P l r) (hname : name ∈ mentionedPrimitives r) :
    ∃ x ∈ s.objects, ∃ p ∈ x.decl.properties, p.type.value.name = name := by
  obtain ⟨t, ht, hsome⟩ := List.mem_filterMap.mp hname
  obtain ⟨o, ho, ht⟩ := List.mem_flatMap.mp ht
  obtain ⟨q, hq, rfl⟩ := List.mem_map.mp ht
  obtain ⟨x, hx, -, hyields⟩ := hr.exists_objectYields hl ho
  obtain ⟨chain, hchain, -, hproperties⟩ := hyields.lineage
  rw [hproperties, List.mem_flatMap] at hq
  obtain ⟨y, hy, hq⟩ := hq
  obtain ⟨p, hp, rfl⟩ := List.mem_map.mp hq
  have hyobj := mem_objects_of_lineage hx hchain hy
  refine ⟨y, hyobj, p, hp, (hs.denotes_typeAt hyobj hp).name_eq.symm.trans ?_⟩
  cases htype : s.typeAt P y.level p.type.value with
  | primitive n =>
      simp only [htype] at hsome
      exact Option.some.inj hsome
  | _ => simp [htype] at hsome

/-- A property whose type is a primitive makes the module of its level bring it in. -/
lemma LevelYields.mem_mentionedPrimitives (hs : s.Bound P) (hx : x ∈ s.objects)
    (hr : s.LevelYields P x.level r) {p : Property} (hp : p ∈ x.decl.properties)
    (hname : p.type.value.name ∈ P.names) : p.type.value.name ∈ mentionedPrimitives r := by
  obtain ⟨hl, hdecl⟩ := mem_objects.mp hx
  obtain ⟨o, ho, hyields⟩ :=
    exists_of_forall₂_of_mem hr.objectTypes.flip (Level.mem_objects.mpr ⟨rfl, hdecl⟩)
  obtain ⟨chain, hchain, -, hproperties⟩ := hyields.lineage
  have htype : s.typeAt P x.level p.type.value = .primitive p.type.value.name := by
    have hdenotes : s.Denotes P x.level p.type.value.name (.primitive p.type.value.name) :=
      ⟨rfl, .inr ⟨rfl, hname⟩⟩
    exact Option.some.inj
      ((hs.typeRef?_eq_some hx hp).symm.trans ((hs.typeRef?_eq_some_iff hl).mpr hdenotes))
  refine List.mem_filterMap.mpr ⟨.primitive p.type.value.name, ?_, rfl⟩
  refine List.mem_flatMap.mpr ⟨o, ho, List.mem_map.mpr ?_⟩
  refine ⟨⟨p.name.value, s.typeAt P x.level p.type.value, p.description, x.path, p.name.span⟩, ?_,
    htype⟩
  rw [hproperties, List.mem_flatMap]
  exact ⟨x, hchain.mem_self, List.mem_map.mpr ⟨p, hp, rfl⟩⟩

/-- What is in the scope of a module: the names of its level, types of other levels, and
primitives. -/
lemma LevelYields.mem_scopeNames_iff (hs : s.Bound P)
    (hP : ∀ n ∈ P.names, Name.isIdentifier n = true) (hl : l ∈ s.levels) (hr : s.LevelYields P l r)
    {m : Module} (hm : Module.ofLevel primitivesPath resolved r = .ok m) :
    name ∈ m.scopeNames.map Name.bare ↔ name ∈ l.name.value :: l.typeNames ∨
      (∃ i ∈ importedTypes r, Name.bare i.2 = name) ∨ name ∈ mentionedPrimitives r := by
  have htypes : ∀ n ∈ l.typeNames, Name.isIdentifier n = true := fun n hn =>
    ((hs.levels l hl).usable n hn).isIdentifier
  have hprimitives :
      name ∈ (importedPrimitives r).map Name.bare ↔ name ∈ mentionedPrimitives r := by
    have hbare : ∀ n ∈ mentionedPrimitives r, Name.bare (Name.escape n) = n := fun n hn =>
      Name.bare_escape (hP n (hr.mem_names_of_mentioned hs hl hn))
    rw [List.mem_map]
    constructor
    · rintro ⟨_, hn, rfl⟩
      obtain ⟨n, hmem, rfl⟩ := mem_importedPrimitives.mp hn
      rwa [hbare n hmem]
    · intro hn
      exact ⟨_, mem_importedPrimitives.mpr ⟨name, hn, rfl⟩, hbare name hn⟩
  rw [hr.scopeNames_eq hm, List.map_append, map_bare_escape htypes, List.map_cons,
    Name.bare_escape (hs.usable l hl).isIdentifier, List.map_append, List.mem_append, List.mem_cons,
    List.mem_append, hprimitives, List.mem_cons]
  simp only [List.mem_map, exists_exists_and_eq_and]
  rw [or_left_comm, or_assoc]

/-- **The names that all modules together put into scope.** -/
theorem WellFormed.mem_scopes_iff (hs : s.WellFormed)
    (hP : ∀ n ∈ P.names, Name.isIdentifier n = true) (hresolve : s.resolve P = .ok resolved)
    (hmodules : resolved.levels.mapM (Module.ofLevel primitivesPath resolved) = .ok modules)
    (settings : EmitSettings) (name : String) :
    (∃ m ∈ modules, name ∈ (namesIn (m.said settings)).map Name.bare) ↔
      (∃ l ∈ s.levels, name ∈ l.name.value :: l.typeNames) ∨
        name ∈ P.names ∧ ∃ x ∈ s.objects, ∃ p ∈ x.decl.properties, p.type.value.name = name := by
  have hbound := hs.bound_of_resolve hresolve
  have hyields := hs.forall₂_modules hresolve hmodules
  have hscope : ∀ m ∈ modules, name ∈ (namesIn (m.said settings)).map Name.bare ↔
      name ∈ m.scopeNames.map Name.bare := by
    intro m hm
    rw [hs.said_eq_of_mem_modules hP hresolve hmodules hm]
    exact (m.names_bindings_perm.map Name.bare).mem_iff
  rw [exists_congr fun m => and_congr_right (hscope m)]
  constructor
  · rintro ⟨m, hmem, hname⟩
    obtain ⟨l, hl, r, hr, hm⟩ := exists_of_forall₂_of_mem hyields hmem
    have hl := hbound.mem_orderedLevels.mp hl
    rcases (hr.mem_scopeNames_iff hbound hP hl hm).mp hname with hname | ⟨i, hi, rfl⟩ | hname
    · exact .inl ⟨l, hl, hname⟩
    · obtain ⟨p, ⟨above, hlm, -, hp⟩, -, -, hbare⟩ :=
        hr.exists_sees_of_mem_importedTypes hbound hl hi
      exact .inl ⟨above, mem_levels_of_reflTransGen hl hlm, .tail _ (hbare ▸ hp)⟩
    · exact .inr ⟨hr.mem_names_of_mentioned hbound hl hname,
        hr.exists_property_of_mentioned hbound hl hname⟩
  · have hlevel : ∀ l ∈ s.levels, ∃ m ∈ modules, ∃ r, s.LevelYields P l r ∧
        Module.ofLevel primitivesPath resolved r = .ok m := fun l hl =>
      exists_of_forall₂_of_mem hyields.flip (hbound.mem_orderedLevels.mpr hl)
    rintro (⟨l, hl, hname⟩ | ⟨hname, x, hx, p, hp, rfl⟩)
    · obtain ⟨m, hmem, r, hr, hm⟩ := hlevel l hl
      exact ⟨m, hmem, (hr.mem_scopeNames_iff hbound hP hl hm).mpr (.inl hname)⟩
    · have hl := (mem_objects.mp hx).1
      obtain ⟨m, hmem, r, hr, hm⟩ := hlevel x.level hl
      refine ⟨m, hmem, (hr.mem_scopeNames_iff hbound hP hl hm).mpr (.inr (.inr ?_))⟩
      exact hr.mem_mentionedPrimitives hbound hx hp hname

/-- A level or a type is captured exactly if it has one of the names that loading lets pass. -/
lemma WellFormed.captured_iff (hs : s.WellFormed) (hl : l ∈ s.levels)
    (hname : name ∈ l.name.value :: l.typeNames) : Captured name ↔ name ∈ unguardedNames := by
  rcases List.mem_cons.mp hname with rfl | hname
  · exact (hs.usable l hl).captured_iff (.inl rfl)
  · exact ((hs.levels l hl).usable name hname).captured_iff (.inr rfl)

end Schema

namespace Session

open Code

variable {settings : Settings} {session : Session} {source : String} {artifact : Artifact}

/-- A primitive that is captured was configured. -/
lemma mem_extraPrimitives_of_captured {n : String} (h : n ∈ settings.primitives.names)
    (hn : Captured n) : n ∈ settings.extraPrimitives := by
  have hbuiltin : ∀ n ∈ builtinPrimitives, ¬ Captured n := by decide
  exact (Settings.mem_primitives_iff.mp h).resolve_left fun hmem => hbuiltin n hmem hn

/-- **When names in scope leave the templates alone.**  This holds of all modules exactly when no
level and no type is called `u32`, `bool` or `std`, and no property has a type that is a configured
primitive with a name that a template uses or that no mark helps.  Neither is checked.  Other names
are never captured. -/
theorem compile_spares_templates_iff (hstart : Session.start settings = .ok session)
    (h : (session.compile source).result = .ok artifact) :
    ∃ loaded resolved modules, Schema.ofSource source = .ok loaded ∧
      loaded.value.resolve settings.primitives = .ok resolved ∧
        resolved.levels.mapM (Module.ofLevel settings.emit.primitivesPath resolved) = .ok modules ∧
          artifact = .ofModules settings.emit modules ∧
      ((∀ m ∈ modules, ∀ n ∈ namesIn (m.said settings.emit), ¬ Captured (Name.bare n)) ↔
        (∀ l ∈ loaded.value.levels, ∀ n ∈ l.name.value :: l.typeNames, n ∉ unguardedNames) ∧
          ∀ x ∈ loaded.value.objects, ∀ p ∈ x.decl.properties,
            p.type.value.name ∈ settings.extraPrimitives → ¬ Captured p.type.value.name) ∧
      ∀ m ∈ modules, ∀ n ∈ namesIn (m.said settings.emit), Captured (Name.bare n) →
        Name.bare n ∈ unguardedNames ∨ Name.bare n ∈ settings.extraPrimitives := by
  obtain ⟨loaded, resolved, modules, hload, hresolve, hmodules, hartifact⟩ :=
    exists_modules_of_compile hstart h
  have hs := Schema.wellFormed_of_ofSource hload
  have hP := isIdentifier_of_mem_primitives (start_eq_ok_iff.mp hstart).1
  have hscopes := hs.mem_scopes_iff hP hresolve hmodules settings.emit
  have hnames : ∀ m ∈ modules, ∀ n ∈ namesIn (m.said settings.emit), _ := fun m hm n hn =>
    (hscopes (Name.bare n)).mp ⟨m, hm, List.mem_map.mpr ⟨n, hn, rfl⟩⟩
  refine ⟨loaded, resolved, modules, hload, hresolve, hmodules, hartifact,
    ⟨fun hspared => ?_, ?_⟩, ?_⟩
  · have hspared : ∀ name, _ → ¬ Captured name := fun name hname => by
      obtain ⟨m, hm, hmem⟩ := (hscopes name).mpr hname
      obtain ⟨n, hn, rfl⟩ := List.mem_map.mp hmem
      exact hspared m hm n hn
    constructor
    · intro l hl n hn hunguarded
      exact hspared n (.inl ⟨l, hl, hn⟩) ((hs.captured_iff hl hn).mpr hunguarded)
    · intro x hx p hp hextra
      exact hspared _ (.inr ⟨Settings.mem_primitives_iff.mpr (.inr hextra), x, hx, p, hp, rfl⟩)
  · rintro ⟨hlevels, hprimitives⟩ m hm n hn hcaptured
    rcases hnames m hm n hn with ⟨l, hl, hname⟩ | ⟨hmem, x, hx, p, hp, heq⟩
    · exact hlevels l hl _ hname ((hs.captured_iff hl hname).mp hcaptured)
    · rw [← heq] at hmem hcaptured
      exact hprimitives x hx p hp (mem_extraPrimitives_of_captured hmem hcaptured) hcaptured
  · intro m hm n hn hcaptured
    rcases hnames m hm n hn with ⟨l, hl, hname⟩ | ⟨hmem, -⟩
    · exact .inl ((hs.captured_iff hl hname).mp hcaptured)
    · exact .inr (mem_extraPrimitives_of_captured hmem hcaptured)

/-- A configured primitive, and a flag set whose templates name all that they can. -/
def primitiveMesh : Settings :=
  { extraPrimitives := ["Mesh"] }

def meshOnMatch : String :=
  "AbstractionLevel Match\n    Parameter Use [Multiple]\n        A = 1\n" ++
    "    Object Plot\n        Mesh Shape\n"

theorem meshOnMatch_spares_templates : ∃ session artifact modules,
    Session.start primitiveMesh = .ok session ∧
      (session.compile meshOnMatch).result = .ok artifact ∧
        artifact = .ofModules primitiveMesh.emit modules ∧
          ∀ m ∈ modules, ∀ n ∈ namesIn (m.said primitiveMesh.emit), ¬ Captured (Name.bare n) := by
  have hstart : Session.start primitiveMesh = .ok ⟨primitiveMesh, .idle, ""⟩ := by decide +kernel
  have hrun : ((Session.mk primitiveMesh .idle "").compile meshOnMatch).result.isOk = true := by
    decide +kernel
  have hnames : (Schema.ofSource meshOnMatch).toOption.all (fun loaded =>
      (∀ l ∈ loaded.value.levels, ∀ n ∈ l.name.value :: l.typeNames, n ∉ unguardedNames) ∧
        ∀ x ∈ loaded.value.objects, ∀ p ∈ x.decl.properties,
          p.type.value.name ∈ primitiveMesh.extraPrimitives → ¬ Captured p.type.value.name) =
            true := by
    decide +kernel
  obtain ⟨artifact, hresult⟩ := exists_of_isOk hrun
  obtain ⟨loaded, -, modules, hload, -, -, hartifact, hiff, -⟩ :=
    compile_spares_templates_iff hstart hresult
  rw [hload] at hnames
  exact ⟨_, artifact, modules, hstart, hresult, hartifact, hiff.mpr (of_decide_eq_true hnames)⟩

/-- A flag set can be called like the number that it holds, and a word that no mark helps can be
brought in. -/
theorem u32_declared_self_brought_in :
    (∃ session modules, Session.start {} = .ok session ∧
      (session.compile ("AbstractionLevel Site\n    Parameter u32 [Multiple]\n" ++
        "        A = 1\n    Object Plot\n")).result = .ok (.ofModules {} modules) ∧
        ∃ m ∈ modules, "u32" ∈ namesIn (m.said {}) ∧ Captured "u32") ∧
      ∃ session modules, Session.start primitiveSelf = .ok session ∧
        (session.compile "AbstractionLevel Site\n    Object Plot\n        Self Twin\n").result =
          .ok (.ofModules primitiveSelf.emit modules) ∧
          ∃ m ∈ modules, "Self" ∈ namesIn (m.said primitiveSelf.emit) ∧ Captured "Self" := by
  constructor
  · refine exists_said_of_any (fun facts => "u32" ∈ namesIn facts ∧ Captured "u32") ?_ ?_
    · decide +kernel
    · decide +kernel
  · refine exists_said_of_any (fun facts => "Self" ∈ namesIn facts ∧ Captured "Self") ?_ ?_
    · decide +kernel
    · decide +kernel

end Session

end LevelSchema
