import LevelSchema.Proofs.Code.Names
import LevelSchema.Proofs.Session

/-!
# The modules of a run

A run that ends with an artifact has generated one module for each level, in the order of levels
(`Schema.WellFormed.forall₂_modules`), and the artifact is those modules written down
(`Session.exists_modules_of_compile`).

**Well named modules.**  In every module the types, the aggregate and what is brought in are apart,
and so are the functions of each record, of the aggregate and of each parameter type; every name
that is declared is legal (`Schema.LevelYields.wellNamed`).  Modules are called like levels in snake
case, which loading has compared.
-/

namespace LevelSchema

namespace Code

/-- What stands side by side in a module: its types, its aggregate, and what it brings in. -/
def Module.scopeNames (m : Module) : List String :=
  m.parameters.map (·.name) ++ m.records.map (·.name) ++
    m.aggregate.name :: m.uses.flatMap (·.names)

/-- A module in which no two names collide and all declared names are legal.  What it brings in is
legal as well, up to configured primitives that no mark helps. -/
structure Module.WellNamed (m : Module) : Prop where
  scope : Apart m.scopeNames
  functions : ∀ r ∈ m.records, Apart r.functionNames
  fields : ∀ r ∈ m.records, Apart (r.fields.map (·.name))
  aggregate : Apart m.aggregate.functionNames
  members : ∀ p ∈ m.parameters, Apart p.memberNames
  legal : ∀ n ∈ m.declaredNames, Name.Legal n
  imported : ∀ u ∈ m.uses, ∀ n ∈ u.names, Name.isUnescapable (Name.bare n) = false → Name.Legal n

/-- What the module of a level holds. -/
lemma Module.ofLevel_eq_ok {primitivesPath : String} {s : ResolvedSchema} {l : ResolvedLevel}
    {m : Module} (h : Module.ofLevel primitivesPath s l = .ok m) :
    ∃ parameters, List.Forall₂ (fun t item => ParameterItem.ofType l.name t = .ok item)
      l.parameterTypes parameters ∧
        m = ⟨moduleName l.name, l.description, broughtIn primitivesPath l, parameters,
          l.objectTypes.map Record.ofKnown, .ofLevel l⟩ := by
  unfold Module.ofLevel at h
  split at h
  · exact nomatch h
  · next hnone =>
      obtain ⟨-, htypes⟩ := (Option.orElse_eq_none _ _).mp hnone
      obtain ⟨parameters, hparameters, h⟩ := bind_eq_ok_iff.mp h
      rw [mapM_ofObject_eq_ok htypes] at h
      exact ⟨parameters, mapM_eq_ok_iff.mp hparameters, (Except.ok.inj h).symm⟩

end Code

namespace Schema

open Code

variable {s : Schema} {P : PrimitiveSet} {l : Level} {r : ResolvedLevel}

/-! ## One module -/

variable {primitivesPath : String} {resolved : ResolvedSchema} {m : Module}

lemma LevelYields.map_name_parameters (hr : s.LevelYields P l r) {parameters : List ParameterItem}
    (hparameters : List.Forall₂ (fun t item => ParameterItem.ofType r.name t = .ok item)
      r.parameterTypes parameters) :
    parameters.map (·.name) = l.parameterTypes.map fun t => Name.escape t.name.value := by
  rw [map_eq_map_of_forall₂ hparameters fun t item h => ParameterItem.name_of_ofType h,
    hr.parameterTypes]

lemma LevelYields.map_name_records (hr : s.LevelYields P l r) :
    (r.objectTypes.map Record.ofKnown).map (·.name) =
      l.objectTypes.map fun o => Name.escape o.name.value := by
  have hnames : r.objectTypes.map (fun o => (Record.ofKnown o).name) =
      l.objects.map fun x => Name.escape x.decl.name.value :=
    map_eq_map_of_forall₂ hr.objectTypes fun x o ho =>
      congrArg (fun p : TypePath => Name.escape p.name) ho.path
  rw [List.map_map]
  exact hnames.trans (List.map_map ..)

/-- The types of a module are those of its level, and the aggregate is called like the level. -/
lemma LevelYields.scopeNames_eq (hr : s.LevelYields P l r)
    (hm : Module.ofLevel primitivesPath resolved r = .ok m) :
    m.scopeNames = l.typeNames.map Name.escape ++ Name.escape l.name.value ::
      ((importedTypes r).map (·.2) ++ importedPrimitives r) := by
  obtain ⟨parameters, hparameters, rfl⟩ := Module.ofLevel_eq_ok hm
  rw [Module.scopeNames, hr.map_name_parameters hparameters, hr.map_name_records,
    names_broughtIn, ← hr.name]
  simp [Level.typeNames, Level.ownTypes, Aggregate.ofLevel, Function.comp_def]

/-- What a module declares and imports gets names apart. -/
lemma LevelYields.apart_scopeNames (hs : s.Bound P)
    (hP : ∀ n ∈ P.names, Name.isIdentifier n = true) (hl : l ∈ s.levels) (hr : s.LevelYields P l r)
    (hm : Module.ofLevel primitivesPath resolved r = .ok m) : Apart m.scopeNames := by
  have htypes : ∀ n ∈ l.typeNames, Name.isIdentifier n = true := fun n hn =>
    ((hs.levels l hl).usable n hn).isIdentifier
  rw [Apart, hr.scopeNames_eq hm, List.map_append, map_bare_escape htypes, List.map_cons,
    Name.bare_escape (hs.usable l hl).isIdentifier]
  exact hr.nodup_scope hs hP hl

/-- What a module declares gets legal names. -/
lemma LevelYields.legal_of_mem_declaredNames (hs : s.WellFormed) (hl : l ∈ s.levels)
    (hr : s.LevelYields P l r) (hm : Module.ofLevel primitivesPath resolved r = .ok m) {n : String}
    (hn : n ∈ m.declaredNames) : Name.Legal n := by
  have hlevel : Load.Usable .level r.name := hr.name ▸ hs.usable l hl
  have htypes := (hs.levels l hl).usable
  obtain ⟨parameters, hparameters, rfl⟩ := Module.ofLevel_eq_ok hm
  simp only [Module.declaredNames, List.mem_cons, List.mem_append, hr.map_name_records,
    hr.map_name_parameters hparameters] at hn
  rcases hn with rfl | rfl | (((hn | hn) | hn) | hn) | hn
  · exact hlevel.legal_escape_snake
  · exact hlevel.legal_escape
  · obtain ⟨t, ht, rfl⟩ := List.mem_map.mp hn
    exact (htypes _ (mem_typeNames_of_mem_parameterTypes ht)).legal_escape
  · obtain ⟨o, ho, rfl⟩ := List.mem_map.mp hn
    exact (htypes _ (mem_typeNames_of_mem_objectTypes ho)).legal_escape
  · obtain ⟨item, hitem, hn⟩ := List.mem_flatMap.mp hn
    obtain ⟨t, ht, hitem⟩ := exists_of_forall₂_of_mem hparameters hitem
    have ht := (hs.levels l hl).parameterTypes t (hr.parameterTypes ▸ ht)
    rcases List.mem_append.mp hn with hn | hn
    · exact ParameterItem.legal_of_mem_itemNames ht hitem hn
    · exact ParameterItem.legal_of_mem_memberNames ht hitem hn
  · obtain ⟨_, hrecord, hn⟩ := List.mem_flatMap.mp hn
    obtain ⟨o, ho, rfl⟩ := List.mem_map.mp hrecord
    obtain ⟨x, hx, -, hyields⟩ := hr.exists_objectYields hl ho
    exact hyields.legal_of_mem_functionNames hs hx hn
  · exact (hr.plain_of_mem_functionNames hs hl hn).legal

/-- What a module brings in are escaped identifiers. -/
lemma LevelYields.legal_of_mem_uses (hs : s.Bound P)
    (hP : ∀ n ∈ P.names, Name.isIdentifier n = true) (hl : l ∈ s.levels) (hr : s.LevelYields P l r)
    {n : String} (hn : n ∈ (importedTypes r).map (·.2) ++ importedPrimitives r)
    (hword : Name.isUnescapable (Name.bare n) = false) : Name.Legal n := by
  rcases List.mem_append.mp hn with hn | hn
  · obtain ⟨i, hi, rfl⟩ := List.mem_map.mp hn
    obtain ⟨p, hp, -, rfl, hbare⟩ := hr.exists_sees_of_mem_importedTypes hs hl hi
    exact Name.legal_escape (hp.isIdentifier hs.toWellFormed hl) (hbare ▸ hword)
  · obtain ⟨q, hq, rfl, hbare⟩ := hr.exists_name_of_mem_importedPrimitives hs hP hl hn
    exact Name.legal_escape (hP q hq) (hbare ▸ hword)

/-- **A generated module is well named.** -/
theorem LevelYields.wellNamed (hs : s.WellFormed) (hresolvable : s.Resolvable P)
    (hP : ∀ n ∈ P.names, Name.isIdentifier n = true) (hl : l ∈ s.levels) (hr : s.LevelYields P l r)
    (hm : Module.ofLevel primitivesPath resolved r = .ok m) : m.WellNamed := by
  have hbound := hresolvable.bound hs
  have hscope := hr.apart_scopeNames hbound hP hl hm
  have hlegal : ∀ n ∈ m.declaredNames, Name.Legal n := fun n hn =>
    hr.legal_of_mem_declaredNames hs hl hm hn
  obtain ⟨parameters, hparameters, rfl⟩ := Module.ofLevel_eq_ok hm
  refine ⟨hscope, ?_, ?_, ?_, ?_, hlegal, ?_⟩
  · refine List.forall_mem_map.mpr fun o ho => ?_
    obtain ⟨x, hx, -, hyields⟩ := hr.exists_objectYields hl ho
    exact hyields.apart_functionNames hs hresolvable.propertiesDistinct hx
  · refine List.forall_mem_map.mpr fun o ho => ?_
    obtain ⟨x, hx, -, hyields⟩ := hr.exists_objectYields hl ho
    exact hyields.apart_fields hs hresolvable.propertiesDistinct hx
  · exact hr.apart_functionNames hs hresolvable.collectionsDistinct hl
  · intro item hitem
    obtain ⟨t, ht, hitem⟩ := exists_of_forall₂_of_mem hparameters hitem
    have ht := (hs.levels l hl).parameterTypes t (hr.parameterTypes ▸ ht)
    exact ParameterItem.apart_memberNames ht hitem
  · intro u hu n hn
    refine hr.legal_of_mem_uses hbound hP hl ?_
    rw [← names_broughtIn primitivesPath r]
    exact List.mem_flatMap.mpr ⟨u, hu, hn⟩

/-! ## All modules -/

variable {modules : List Module}

/-- **Every level has a module, in the order of levels.** -/
theorem WellFormed.forall₂_modules (hs : s.WellFormed) (hresolve : s.resolve P = .ok resolved)
    (hmodules : resolved.levels.mapM (Module.ofLevel primitivesPath resolved) = .ok modules) :
    List.Forall₂ (Relation.Comp (s.LevelYields P)
      fun r m => Module.ofLevel primitivesPath resolved r = .ok m) s.orderedLevels modules :=
  forall₂_comp (hs.forall₂_levelYields hresolve) (mapM_eq_ok_iff.mp hmodules)

/-- Modules are named by their levels, in snake case. -/
lemma WellFormed.map_name_modules (hs : s.WellFormed) (hresolve : s.resolve P = .ok resolved)
    (hmodules : resolved.levels.mapM (Module.ofLevel primitivesPath resolved) = .ok modules) :
    modules.map (·.name) = (s.orderedLevels.map fun l => Name.snake l.name.value).map
      Name.escape := by
  rw [List.map_map]
  refine map_eq_map_of_forall₂ (hs.forall₂_modules hresolve hmodules) ?_
  rintro l m ⟨r, hr, hm⟩
  obtain ⟨parameters, -, rfl⟩ := Module.ofLevel_eq_ok hm
  exact congrArg moduleName hr.name

/-- Module names without marks are the level names in snake case. -/
lemma WellFormed.map_bare_modules (hs : s.WellFormed) (hresolve : s.resolve P = .ok resolved)
    (hmodules : resolved.levels.mapM (Module.ofLevel primitivesPath resolved) = .ok modules) :
    (modules.map (·.name)).map Name.bare =
      s.orderedLevels.map fun l => Name.snake l.name.value := by
  have hbound := hs.bound_of_resolve hresolve
  rw [hs.map_name_modules hresolve hmodules, map_bare_escape]
  refine List.forall_mem_map.mpr fun l hl => ?_
  exact Name.isIdentifier_snake (hs.usable l (hbound.mem_orderedLevels.mp hl)).isIdentifier

/-- Loading has compared all levels in snake case. -/
lemma Grounded.nodup_snake_orderedLevels (hs : s.Grounded) :
    (s.orderedLevels.map fun l => Name.snake l.name.value).Nodup := by
  refine (List.Nodup.of_map _ hs.names_orderedLevels_nodup).map_on fun l hl m hm heq => ?_
  exact List.inj_on_of_nodup_map hs.keys_nodup (hs.mem_orderedLevels.mp hl)
    (hs.mem_orderedLevels.mp hm) heq

/-- Modules get names apart. -/
lemma WellFormed.apart_modules (hs : s.WellFormed) (hresolve : s.resolve P = .ok resolved)
    (hmodules : resolved.levels.mapM (Module.ofLevel primitivesPath resolved) = .ok modules) :
    Apart (modules.map (·.name)) := by
  rw [Apart, hs.map_bare_modules hresolve hmodules]
  exact (hs.bound_of_resolve hresolve).nodup_snake_orderedLevels

/-- Every name that a module of a run declares is legal. -/
lemma WellFormed.legal_of_mem_modules (hs : s.WellFormed) (hresolve : s.resolve P = .ok resolved)
    (hmodules : resolved.levels.mapM (Module.ofLevel primitivesPath resolved) = .ok modules)
    (hm : m ∈ modules) : ∀ n ∈ m.declaredNames, Name.Legal n := by
  intro n hn
  obtain ⟨l, hl, r, hr, hm⟩ :=
    exists_of_forall₂_of_mem (hs.forall₂_modules hresolve hmodules) hm
  have hbound := hs.bound_of_resolve hresolve
  exact hr.legal_of_mem_declaredNames hs (hbound.mem_orderedLevels.mp hl) hm hn

/-- Every module that is written is well named. -/
lemma WellFormed.wellNamed_of_mem_modules (hs : s.WellFormed)
    (hP : ∀ n ∈ P.names, Name.isIdentifier n = true) (hresolve : s.resolve P = .ok resolved)
    (hmodules : resolved.levels.mapM (Module.ofLevel primitivesPath resolved) = .ok modules)
    (hm : m ∈ modules) : m.WellNamed := by
  have hresolvable := (hs.resolve_eq_ok_iff.mp hresolve).1
  obtain ⟨l, hl, r, hr, hm⟩ :=
    exists_of_forall₂_of_mem (hs.forall₂_modules hresolve hmodules) hm
  exact hr.wellNamed hs hresolvable hP ((hresolvable.bound hs).mem_orderedLevels.mp hl) hm

end Schema

/-! ## Runs -/

lemma Settings.mem_primitives_iff {settings : Settings} {n : String} :
    n ∈ settings.primitives.names ↔ n ∈ builtinPrimitives ∨ n ∈ settings.extraPrimitives :=
  mem_keepFirst.trans List.mem_append

/-- Settings can be used if the paths are paths and the primitives are identifiers. -/
lemma Settings.fault?_eq_none_iff {settings : Settings} : settings.fault? = none ↔
    isPath settings.emit.primitivesPath = true ∧
      (∀ d ∈ settings.emit.derives, isPath d = true) ∧
        ∀ n ∈ settings.extraPrimitives, Name.isIdentifier n = true := by
  unfold fault?
  cases hpath : isPath settings.emit.primitivesPath with
  | false => simp
  | true =>
      cases hfind : settings.emit.derives.find? fun d => !isPath d with
      | some d =>
          have hderive : isPath d = false := by simpa using List.find?_some hfind
          refine iff_of_false nofun fun h => ?_
          rw [h.2.1 d (List.mem_of_find?_eq_some hfind)] at hderive
          exact nomatch hderive
      | none =>
          have hderives : ∀ d ∈ settings.emit.derives, isPath d = true := by simpa using hfind
          simpa using fun _ => hderives

/-- Settings without fault name only identifiers as primitive types. -/
lemma isIdentifier_of_mem_primitives {settings : Settings} (h : settings.fault? = none) :
    ∀ n ∈ settings.primitives.names, Name.isIdentifier n = true := by
  have hextra := (Settings.fault?_eq_none_iff.mp h).2.2
  have hbuiltin : ∀ n ∈ builtinPrimitives, Name.isIdentifier n = true := by
    decide +kernel
  intro n hn
  rcases Settings.mem_primitives_iff.mp hn with hn | hn
  · exact hbuiltin n hn
  · exact hextra n hn

namespace Session

open Code

variable {settings : Settings} {session : Session} {source : String} {artifact : Artifact}

/-- An artifact is the modules of the levels, written down. -/
lemma exists_modules_of_compile (hstart : Session.start settings = .ok session)
    (h : (session.compile source).result = .ok artifact) :
    ∃ loaded resolved modules, Schema.ofSource source = .ok loaded ∧
      loaded.value.resolve settings.primitives = .ok resolved ∧
        resolved.levels.mapM (Module.ofLevel settings.emit.primitivesPath resolved) = .ok modules ∧
          artifact = .ofModules settings.emit modules := by
  obtain ⟨loaded, resolved, hload, hresolve, hemit⟩ := exists_stages_of_compile hstart h
  obtain ⟨modules, hmodules, hartifact⟩ := bind_eq_ok_iff.mp hemit
  exact ⟨loaded, resolved, modules, hload, hresolve, hmodules, (pure_eq_ok_iff.mp hartifact).symm⟩

end Session

end LevelSchema
