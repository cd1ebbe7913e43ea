import LevelSchema.Proofs.Code.Bodies
import LevelSchema.Proofs.Code.Modules
import LevelSchema.Proofs.Code.Units
import LevelSchema.Proofs.Resolved.Inheritance

/-!
# How collections are reached

The aggregate of a level hands out all collections of the level.  Its own stand in its fields; for
an inherited one it calls the function of the same name on its base, which is the aggregate of the
level it extends.  `Code.Reaches` follows these calls, as they are written, from aggregate to
aggregate until one of them hands out a field.  The functions and bodies that it follows are those
that can be read in the units of the artifact (`Artifact.ShowsAggregate`).

**Where the calls end.**  The collections of a level are those of its parent and then its own, so
the base has a function for whatever is asked of it, with the same element.  By induction on the
lineage every call ends, and it ends at the field of the level that declares the object type
(`Schema.WellFormed.exists_reaches`).  It can end nowhere else: the functions of an aggregate have
distinct names, and the path of the base leads to one aggregate only
(`Code.Reaches.eq_of_distinct`).
-/

namespace LevelSchema

namespace Code

/-- The path under which other modules refer to an aggregate. -/
def Aggregate.reference (a : Aggregate) : String :=
  "super::" ++ moduleName a.level ++ "::" ++ a.name

namespace Access

/-- Accessors of different collections are different functions. -/
lemma function_injective (way : Access) : Function.Injective way.function := by
  intro a b h
  cases way with
  | read => exact h
  | write => exact (String.append_left_inj "_mut").mp h

/-- A field is not handed out like something of the base. -/
lemma borrow_append_ne (way : Access) (name callee : String) :
    way.borrow ++ name ≠ "self.base." ++ callee := by
  intro h
  have hhead := congrArg (fun t => t.toList.head?) h
  cases way <;> simp [borrow] at hhead

end Access

/-- The function of `a` for the collection `name` hands out the field `f` of `owner`.  What the
function does is read off its body. -/
inductive Reaches (way : Access) (aggregates : List Aggregate) :
    Aggregate → String → Aggregate → Accessor → Prop
  | field {a : Aggregate} {c f : Accessor} (hc : c ∈ a.accessors)
      (hbody : way.body c = way.borrow ++ f.name) (hf : f ∈ a.fields) :
      Reaches way aggregates a c.name a f
  | base {a b owner : Aggregate} {c f : Accessor} {callee : String} (hc : c ∈ a.accessors)
      (hbody : way.body c = "self.base." ++ way.function callee ++ "()")
      (hbase : a.base = some b.reference) (hb : b ∈ aggregates)
      (h : Reaches way aggregates b callee owner f) : Reaches way aggregates a c.name owner f

/-- Functions and aggregates that can be told apart by name and by path. -/
structure AggregatesDistinct (aggregates : List Aggregate) : Prop where
  accessors : ∀ a ∈ aggregates, (a.accessors.map (·.name)).Nodup
  references : ∀ a ∈ aggregates, ∀ b ∈ aggregates, a.reference = b.reference → a = b

/-- **A call ends at one field.** -/
theorem Reaches.eq_of_distinct {way : Access} {aggregates : List Aggregate}
    (hd : AggregatesDistinct aggregates) {a owner owner' : Aggregate} {name : String}
    {f f' : Accessor} (ha : a ∈ aggregates) (h : Reaches way aggregates a name owner f)
    (h' : Reaches way aggregates a name owner' f') : owner = owner' ∧ f = f' := by
  induction h with
  | @field a c f hc hbody hf =>
      generalize hname : c.name = name at h'
      cases h' with
      | @field _ c' f' hc' hbody' hf' =>
          obtain rfl : c = c' := List.inj_on_of_nodup_map (hd.accessors _ ha) hc hc' hname
          have hfields : f.name = f'.name :=
            (String.append_right_inj way.borrow).mp (hbody.symm.trans hbody')
          exact ⟨rfl, List.inj_on_of_nodup_map (hd.accessors _ ha) (List.mem_of_mem_filter hf)
            (List.mem_of_mem_filter hf') hfields⟩
      | @base _ b' owner' c' f' callee' hc' hbody' hbase' hb' h' =>
          obtain rfl : c = c' := List.inj_on_of_nodup_map (hd.accessors _ ha) hc hc' hname
          rw [hbody, String.append_assoc] at hbody'
          exact absurd hbody' (way.borrow_append_ne _ _)
  | @base a b owner c f callee hc hbody hbase hb _ ih =>
      generalize hname : c.name = name at h'
      cases h' with
      | @field _ c' f' hc' hbody' hf' =>
          obtain rfl : c = c' := List.inj_on_of_nodup_map (hd.accessors _ ha) hc hc' hname
          rw [hbody', String.append_assoc] at hbody
          exact absurd hbody (way.borrow_append_ne _ _)
      | @base _ b' owner' c' f' callee' hc' hbody' hbase' hb' h' =>
          obtain rfl : c = c' := List.inj_on_of_nodup_map (hd.accessors _ ha) hc hc' hname
          obtain rfl : b = b' :=
            hd.references b hb b' hb' (Option.some.inj (hbase.symm.trans hbase'))
          have hcallee : callee = callee' := way.function_injective
            ((String.append_right_inj "self.base.").mp
              ((String.append_left_inj "()").mp (hbody.symm.trans hbody')))
          subst hcallee
          exact ih hb h'

lemma Aggregate.reference_ofLevel (level : ResolvedLevel) : (Aggregate.ofLevel level).reference =
    "super::" ++ (moduleName level.name ++ ("::" ++ Name.escape level.name)) := by
  simp only [reference, ofLevel, String.append_assoc]

/-- Paths lead to one module, because its name ends at the next colon. -/
lemma Aggregate.moduleName_eq_of_reference_eq {level above : ResolvedLevel}
    (hlevel : Name.Legal (moduleName level.name)) (habove : Name.Legal (moduleName above.name))
    (h : (Aggregate.ofLevel level).reference = (Aggregate.ofLevel above).reference) :
    moduleName level.name = moduleName above.name := by
  have hahead : ∀ m n : String, Name.Legal m → nameAhead (m ++ ("::" ++ n)).toList = m := by
    intro m n hm
    rw [String.toList_append, String.toList_append]
    exact nameAhead_eq hm (by decide)
  rw [reference_ofLevel, reference_ofLevel, String.append_right_inj] at h
  rw [← hahead _ (Name.escape level.name) hlevel, h, hahead _ _ habove]

/-- The accessor as which a collection is stored in the aggregate of its level. -/
def storedAs (c : Collection) : Accessor :=
  ⟨c.accessor, Name.escape c.object.name, true⟩

/-- The aggregate of `level` builds upon that of `above`: what it does not store itself it asks
`above` for, which has a function for it with the same element. -/
structure BuildsOn (level above : ResolvedLevel) : Prop where
  collections : level.collections = above.collections ++ level.ownCollections
  base : (Aggregate.ofLevel level).base = some (Aggregate.ofLevel above).reference
  inherited : ∀ c ∈ (Aggregate.ofLevel level).accessors, c.isOwn = false →
    c.getExpr = "self.base." ++ c.name ++ "()" ∧
      c.getMutExpr = "self.base." ++ c.name ++ "_mut()" ∧
        c.name ∈ (Aggregate.ofLevel above).accessors.map (·.name) ∧
          ∀ d ∈ (Aggregate.ofLevel above).accessors, d.name = c.name → d.element = c.element

section Levels

variable {level above : ResolvedLevel} {c : Collection}

/-- An aggregate has an accessor for each collection of its level. -/
lemma names_accessors_ofLevel (level : ResolvedLevel) :
    (Aggregate.ofLevel level).accessors.map (·.name) = level.collections.map (·.accessor) := by
  simp [Aggregate.ofLevel]

lemma mem_accessors_ofLevel (hc : c ∈ level.collections) :
    (⟨c.accessor, Name.escape c.object.name, c.declaredIn == level.name⟩ : Accessor) ∈
      (Aggregate.ofLevel level).accessors :=
  List.mem_map.mpr ⟨c, hc, rfl⟩

lemma storedAs_mem_fields (hc : c ∈ level.ownCollections) :
    storedAs c ∈ (Aggregate.ofLevel level).fields := by
  obtain ⟨hmem, hown⟩ := List.mem_filter.mp hc
  refine List.mem_filter.mpr ⟨?_, rfl⟩
  have haccessor := mem_accessors_ofLevel hmem
  rwa [hown] at haccessor

/-- The base of an aggregate is the aggregate of the level above. -/
lemma base_ofLevel (hparent : level.parent? = some above.name) :
    (Aggregate.ofLevel level).base = some (Aggregate.ofLevel above).reference := by
  simp [Aggregate.ofLevel, Aggregate.reference, hparent]

/-- An own collection is reached in the aggregate itself. -/
lemma reaches_own (way : Access) (aggregates : List Aggregate) (hc : c ∈ level.ownCollections) :
    Reaches way aggregates (.ofLevel level) c.accessor (.ofLevel level) (storedAs c) :=
  .field (c := storedAs c) (List.mem_of_mem_filter (storedAs_mem_fields hc)) (way.body_own rfl)
    (storedAs_mem_fields hc)

/-- One call on the base. -/
lemma reaches_inherited {way : Access} {aggregates : List Aggregate} {owner : Aggregate}
    {f : Accessor} (hc : c ∈ level.collections) (hother : c.declaredIn ≠ level.name)
    (hparent : level.parent? = some above.name) (habove : Aggregate.ofLevel above ∈ aggregates)
    (h : Reaches way aggregates (.ofLevel above) c.accessor owner f) :
    Reaches way aggregates (.ofLevel level) c.accessor owner f := by
  have hcall := way.body_inherited
    (c := ⟨c.accessor, Name.escape c.object.name, c.declaredIn == level.name⟩)
    (by simpa using hother)
  exact .base (mem_accessors_ofLevel hc) hcall (base_ofLevel hparent) habove h

end Levels

end Code

/-- The aggregate of a module can be read in a unit of the artifact, as part of the module, and the
module is called like the level of the aggregate. -/
def Artifact.ShowsAggregate (artifact : Artifact) (derives : List String) (m : Code.Module) :
    Prop :=
  m.name = Code.moduleName m.aggregate.level ∧ ∃ u lines,
    artifact.Shows u m.name (m.lines derives) ∧ lines <:+: m.lines derives ∧
      Code.StandsIn (Code.text (artifact.layout.nested lines)) u.contents ∧
        m.aggregate.WrittenIn lines

/-- The aggregates of a resolved schema. -/
def ResolvedSchema.aggregates (r : ResolvedSchema) : List Code.Aggregate :=
  r.levels.map Code.Aggregate.ofLevel

namespace Schema

open Code

variable {s : Schema} {P : PrimitiveSet} {l m : Level} {r : ResolvedSchema}
  {level above : ResolvedLevel} {c : Collection}

lemma LevelYields.nodup_accessors (hd : s.CollectionsDistinct) (hl : l ∈ s.levels)
    (h : s.LevelYields P l level) : (level.collections.map (·.accessor)).Nodup := by
  obtain ⟨chain, hchain, haccessors⟩ := h.accessors_eq
  exact haccessors ▸ hd l hl chain hchain

/-- Modules are called like levels in snake case, so they are apart when the levels are. -/
lemma WellFormed.eq_of_moduleName_eq (hs : s.WellFormed) (hl : l ∈ s.levels) (hm : m ∈ s.levels)
    (h : moduleName l.name.value = moduleName m.name.value) : l = m := by
  have hbare := congrArg Name.bare h
  rw [moduleName, moduleName,
    Name.bare_escape (Name.isIdentifier_snake (hs.usable l hl).isIdentifier),
    Name.bare_escape (Name.isIdentifier_snake (hs.usable m hm).isIdentifier)] at hbare
  exact List.inj_on_of_nodup_map hs.keys_nodup hl hm hbare

lemma WellFormed.aggregatesDistinct (hs : s.WellFormed) (hresolve : s.resolve P = .ok r) :
    AggregatesDistinct r.aggregates := by
  have hresolvable := (hs.resolve_eq_ok_iff.mp hresolve).1
  refine ⟨List.forall_mem_map.mpr fun level hlevel => ?_,
    List.forall_mem_map.mpr fun level hlevel => List.forall_mem_map.mpr fun above habove href => ?_⟩
  · obtain ⟨l, hl, hyields⟩ := hs.exists_levelYields hresolve hlevel
    rw [names_accessors_ofLevel]
    exact hyields.nodup_accessors hresolvable.collectionsDistinct hl
  · obtain ⟨l, hl, hyields⟩ := hs.exists_levelYields hresolve hlevel
    obtain ⟨m, hm, hyields'⟩ := hs.exists_levelYields hresolve habove
    have hname : level.name = above.name := by
      have hmodule := Aggregate.moduleName_eq_of_reference_eq
        (hyields.name ▸ (hs.usable l hl).legal_escape_snake)
        (hyields'.name ▸ (hs.usable m hm).legal_escape_snake) href
      rw [hyields.name, hyields'.name] at hmodule ⊢
      rw [hs.eq_of_moduleName_eq hl hm hmodule]
    have hnodup := (hs.perm_names hresolve).nodup_iff.mpr hs.names_nodup
    rw [List.inj_on_of_nodup_map hnodup hlevel habove hname]

/-- **Every collection is found at the level that declares its object type.**  The induction is on
the lineage of the level that is asked: it has the collection itself, or its parent is asked. -/
theorem WellFormed.exists_reaches (hs : s.WellFormed) (hresolve : s.resolve P = .ok r)
    (hlevel : level ∈ r.levels) (hc : c ∈ level.collections) :
    ∃ owner ∈ r.levels, owner.name = c.declaredIn ∧ c ∈ owner.ownCollections ∧ ∀ way,
      Reaches way r.aggregates (.ofLevel level) c.accessor (.ofLevel owner) (storedAs c) := by
  obtain ⟨l, hl, hyields⟩ := hs.exists_levelYields hresolve hlevel
  obtain ⟨chain, hchain, -⟩ := hyields.lineage
  have hhere : ∀ {level}, level ∈ r.levels → c ∈ level.ownCollections → ∃ owner ∈ r.levels,
      owner.name = c.declaredIn ∧ c ∈ owner.ownCollections ∧ ∀ way,
        Reaches way r.aggregates (.ofLevel level) c.accessor (.ofLevel owner) (storedAs c) := by
    intro level hlevel hown
    have hname : c.declaredIn = level.name := by simpa using (List.mem_filter.mp hown).2
    exact ⟨level, hlevel, hname.symm, hown, fun way => reaches_own way _ hown⟩
  induction hchain generalizing level with
  | @root l hroot =>
      obtain ⟨chain, hchain, -, hcollections⟩ := hyields.lineage
      refine hhere hlevel ?_
      rwa [hyields.ownCollections_eq hs hl, ← List.flatMap_singleton Level.collections l,
        ← (hchain.eq hs.linked.extends_rightUnique (.root hroot)), ← hcollections]
  | @step l m chain hlm _ ih =>
      obtain ⟨above, habove, hyields'⟩ := hs.exists_resolved hresolve hlm.2.1
      have hmem := hc
      rw [hyields.collections_eq_append hs hlm hyields', List.mem_append] at hmem
      rcases hmem with hmem | hown
      · obtain ⟨owner, howner, hname, hown, hreaches⟩ := ih habove hmem hlm.2.1 hyields'
        by_cases hother : c.declaredIn = level.name
        · exact hhere hlevel (List.mem_filter.mpr ⟨hc, by simpa using hother⟩)
        · have hparent : level.parent? = some above.name :=
            (hyields.parent?_eq_some_iff hs).mpr ⟨m, hlm, hyields'.name.symm⟩
          exact ⟨owner, howner, hname, hown, fun way => reaches_inherited hc hother hparent
            (List.mem_map.mpr ⟨above, habove, rfl⟩) (hreaches way)⟩
      · exact hhere hlevel hown

/-- A resolved level builds on the one it extends. -/
lemma LevelYields.buildsOn (hs : s.WellFormed) (hd : s.CollectionsDistinct) (hlm : s.Extends l m)
    (h : s.LevelYields P l level) (hm : s.LevelYields P m above) : BuildsOn level above := by
  have hcollections := h.collections_eq_append hs hlm hm
  refine ⟨hcollections, base_ofLevel ((h.parent?_eq_some_iff hs).mpr ⟨m, hlm, hm.name.symm⟩), ?_⟩
  refine List.forall_mem_map.mpr fun c hc hother => ?_
  have hother : c.declaredIn ≠ level.name := by simpa using hother
  have habove : c ∈ above.collections := by
    rw [hcollections, List.mem_append] at hc
    refine hc.resolve_right fun hown => hother ?_
    simpa using (List.mem_filter.mp hown).2
  refine ⟨by simp [Accessor.getExpr, hother], by simp [Accessor.getMutExpr, hother], ?_, ?_⟩
  · rw [names_accessors_ofLevel]
    exact List.mem_map.mpr ⟨c, habove, rfl⟩
  · refine List.forall_mem_map.mpr fun d hd' hname => ?_
    have hdc : d = c :=
      List.inj_on_of_nodup_map (hm.nodup_accessors hd hlm.2.1) hd' habove hname
    exact congrArg (fun e : Collection => Name.escape e.object.name) hdc

/-- The modules of a resolved schema have the aggregates of its levels, and show them. -/
lemma WellFormed.exists_modules (hs : s.WellFormed) (hresolve : s.resolve P = .ok r)
    (settings : EmitSettings) : ∃ modules, r.emit settings = .ok (.ofModules settings modules) ∧
      modules.map (·.aggregate) = r.aggregates ∧ ∀ m ∈ modules,
        (Artifact.ofModules settings modules).ShowsAggregate (Artifact.derives settings) m := by
  obtain ⟨artifact, hemit⟩ := ResolvedSchema.exists_emit_iff.mpr (hs.consistent_of_resolve hresolve)
  obtain ⟨modules, hmodules, hartifact⟩ := bind_eq_ok_iff.mp hemit
  cases pure_eq_ok_iff.mp hartifact
  refine ⟨modules, hemit, map_eq_map_of_forall₂ (mapM_eq_ok_iff.mp hmodules) ?_, fun m hm => ?_⟩
  · intro level m hm
    obtain ⟨parameters, -, rfl⟩ := Module.ofLevel_eq_ok hm
    rfl
  · have hlegal := hs.legal_of_mem_modules hresolve hmodules hm
    simp only [Module.declaredNames, List.forall_mem_cons, List.forall_mem_append] at hlegal
    obtain ⟨level, -, hlevel⟩ := exists_of_forall₂_of_mem (mapM_eq_ok_iff.mp hmodules) hm
    obtain ⟨u, hshows⟩ := Artifact.exists_shows hm settings
    have hpiece := m.isInfix_aggregate (Artifact.derives settings)
    refine ⟨?_, u, _, hshows, hpiece, hshows.standsIn hpiece,
      m.aggregate.writtenIn_lines _ hlegal.2.2.2⟩
    obtain ⟨parameters, -, rfl⟩ := Module.ofLevel_eq_ok hlevel
    rfl

/-- **Levels gather the collections of their lineages, and aggregates find all of them.**  A level
has the collections of its parent and then its own.  Generating makes an aggregate for every level,
which can be read in a unit of the artifact and asks that of the parent for what it does not store
itself; the parent's has a function of this name with the same element, and calling it ends at the
field of the level that declares the object type and nowhere else. -/
theorem gathers_of_resolve {source : String} {loaded : Noted Diagnostic Schema}
    (hload : Schema.ofSource source = .ok loaded) (hresolve : loaded.value.resolve P = .ok r) :
    (r.levels.map (·.name)).Perm loaded.value.levelNames ∧
      (∀ settings, ∃ modules, r.emit settings = .ok (.ofModules settings modules) ∧
        modules.map (·.aggregate) = r.aggregates ∧ ∀ m ∈ modules,
          (Artifact.ofModules settings modules).ShowsAggregate (Artifact.derives settings) m) ∧
      ∀ level ∈ r.levels, (∃ l ∈ loaded.value.levels, loaded.value.Gathers l level) ∧
        (∀ p, level.parent? = some p → ∃ above ∈ r.levels, above.name = p ∧ BuildsOn level above) ∧
        ∀ c ∈ level.collections, ∃ owner ∈ r.levels, owner.name = c.declaredIn ∧
          c ∈ owner.ownCollections ∧ storedAs c ∈ (Aggregate.ofLevel owner).fields ∧
            ∀ way a f, Reaches way r.aggregates (.ofLevel level) c.accessor a f ↔
              a = .ofLevel owner ∧ f = storedAs c := by
  have hs := wellFormed_of_ofSource hload
  have hresolvable := (hs.resolve_eq_ok_iff.mp hresolve).1
  refine ⟨hs.perm_names hresolve, hs.exists_modules hresolve, fun level hlevel => ?_⟩
  obtain ⟨l, hl, hyields⟩ := hs.exists_levelYields hresolve hlevel
  refine ⟨⟨l, hl, hyields.gathers hs hl⟩, fun p hp => ?_, fun c hc => ?_⟩
  · obtain ⟨m, hlm, rfl⟩ := (hyields.parent?_eq_some_iff hs).mp hp
    obtain ⟨above, habove, hyields'⟩ := hs.exists_resolved hresolve hlm.2.1
    exact ⟨above, habove, hyields'.name,
      hyields.buildsOn hs hresolvable.collectionsDistinct hlm hyields'⟩
  · obtain ⟨owner, howner, hname, hown, hreaches⟩ := hs.exists_reaches hresolve hlevel hc
    refine ⟨owner, howner, hname, hown, storedAs_mem_fields hown, fun way a f => ?_⟩
    constructor
    · intro h
      exact h.eq_of_distinct (hs.aggregatesDistinct hresolve)
        (List.mem_map.mpr ⟨level, hlevel, rfl⟩) (hreaches way)
    · rintro ⟨rfl, rfl⟩
      exact hreaches way

/-- Three levels in a row, the last of them without a property of its own. -/
def districtOnCity : String :=
  "AbstractionLevel District extends City\n    Object Park extends Plot\n" ++
    "AbstractionLevel Site\n    Object Plot\n        Curve Edge\n    Object Road\n" ++
    "AbstractionLevel City extends Site\n    Object Tower extends Plot\n        Road Access\n"

theorem districtOnCity_gathers : ∃ loaded r, Schema.ofSource districtOnCity = .ok loaded ∧
    loaded.value.resolve .builtin = .ok r ∧
    (∃ modules, r.emit {} = .ok (.ofModules {} modules) ∧
      modules.map (·.aggregate) = r.aggregates ∧ ∀ m ∈ modules,
        (Artifact.ofModules {} modules).ShowsAggregate (Artifact.derives {}) m) ∧
    ∀ level ∈ r.levels, (∃ l ∈ loaded.value.levels, loaded.value.Gathers l level) ∧
        (∀ p, level.parent? = some p → ∃ above ∈ r.levels, above.name = p ∧ BuildsOn level above) ∧
        ∀ c ∈ level.collections, ∃ owner ∈ r.levels, owner.name = c.declaredIn ∧
          c ∈ owner.ownCollections ∧ storedAs c ∈ (Aggregate.ofLevel owner).fields ∧
            ∀ way a f, Reaches way r.aggregates (.ofLevel level) c.accessor a f ↔
              a = .ofLevel owner ∧ f = storedAs c := by
  have hrun : ((Schema.ofSource districtOnCity).bind fun loaded =>
      loaded.value.resolve .builtin).isOk = true := by
    decide +kernel
  obtain ⟨r, hr⟩ := exists_of_isOk hrun
  obtain ⟨loaded, hload, hresolve⟩ := bind_eq_ok_iff.mp hr
  obtain ⟨-, hshown, hlevels⟩ := gathers_of_resolve hload hresolve
  exact ⟨loaded, r, hload, hresolve, hshown {}, hlevels⟩

end Schema

end LevelSchema
