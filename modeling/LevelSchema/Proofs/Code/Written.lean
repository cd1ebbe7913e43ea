import LevelSchema.Proofs.Code.Binding
import LevelSchema.Proofs.Code.Bodies
import LevelSchema.Proofs.Code.Values

/-!
# Generated names as they are written

That the names of a module do not collide is a statement about lists of names.  `Module.Written`
says that these lists are what stands in the source of the module: its lines put the types, the
aggregate and what is brought in into scope, and nothing else; each type is written in one piece,
from which its functions, constants, members and fields can be read.

Names that are legal or at least words can be read back, and those of a module of a run are
(`Module.written_of_readable`).  The module itself is shown by a unit of the artifact, so
`Session.compile_names_apart` is about what the units hold.
-/

namespace LevelSchema

namespace Code

namespace ParameterItem

/-- The kind of a generated parameter type. -/
def kind : ParameterItem → ParameterKind
  | .enumeration _ => .enumeration
  | .flagSet _ => .flagSet

/-- The variants of an enumeration, or the constants of a flag set. -/
def members : ParameterItem → List Constant
  | .enumeration e => e.variants
  | .flagSet f => f.constants

lemma name_mem_memberNames {p : ParameterItem} {c : Constant} (hc : c ∈ p.members) :
    c.name ∈ p.memberNames := by
  cases p with
  | enumeration e => exact .tail _ (List.mem_map_of_mem hc)
  | flagSet f => exact List.mem_append_left _ (List.mem_map_of_mem hc)

/-- The members of a parameter type are read back with their values. -/
lemma values_lines {p : ParameterItem} (hname : Word p.name) (h : ∀ c ∈ p.members, Word c.name) :
    found (valueIn? p.kind) p.lines = p.members.map fun c => (c.name, c.value.toNat) := by
  cases p with
  | enumeration e => exact e.found_lines hname h
  | flagSet f => exact f.found_lines h

end ParameterItem

/-- The names of a module are those that stand in its source.  What it puts into scope is read off
all of its lines.  Parameter types, records and the aggregate are written in one piece each, and
their functions and constants, members and fields are read off this piece. -/
structure Module.Written (derives : List String) (m : Module) : Prop where
  scope : (Code.facts (m.lines derives)).flatMap Fact.bindings =
    m.uses.flatMap (fun u => u.names.map fun n => (n, Origin.path u.source)) ++
      (m.parameters.map (·.name) ++ m.records.map (·.name) ++ [m.aggregate.name]).map
        fun n => (n, Origin.own)
  parameters : ∀ p ∈ m.parameters, p.lines <:+: m.lines derives ∧ items p.lines = p.itemNames ∧
    found (valueIn? p.kind) p.lines = p.members.map fun c => (c.name, c.value.toNat)
  records : ∀ r ∈ m.records, r.lines derives <:+: m.lines derives ∧
    items (r.lines derives) = r.functionNames ∧
      found fieldIn? (r.lines derives) = (r.fields.map fun f => (f.name, f.storedType)) ++
        r.fields.map fun f => (f.name, "None")
  aggregate : m.aggregate.lines derives <:+: m.lines derives ∧
    items (m.aggregate.lines derives) =
      "new" :: (if m.aggregate.base.isSome then ["base", "base_mut"] else []) ++
        m.aggregate.accessorNames ∧
      found fieldIn? (m.aggregate.lines derives) =
        m.aggregate.fieldTypes ++ m.aggregate.fieldValues

/-- **Names that are readable are those that are written.** -/
theorem Module.written_of_readable {m : Module} (h : m.Readable) (derives : List String) :
    m.Written derives := by
  have hdeclared := h.declared
  simp only [declaredNames, List.forall_mem_cons, List.forall_mem_append, List.forall_mem_map]
    at hdeclared
  obtain ⟨-, -, ⟨⟨⟨hparameters, -⟩, hmembers⟩, hrecords⟩, haggregate⟩ := hdeclared
  refine ⟨?_, fun p hp => ?_, fun r hr => ?_, ?_⟩
  · rw [facts_lines h, bindings_facts]
  · have hlegal : ∀ n ∈ p.memberNames, Name.Legal n := fun n hn =>
      hmembers n (List.mem_flatMap.mpr ⟨p, hp, List.mem_append_right _ hn⟩)
    refine ⟨m.isInfix_of_mem_parameters hp derives, p.items_lines hlegal,
      p.values_lines (word_of_legal (hparameters p hp)) fun c hc => ?_⟩
    exact word_of_legal (hlegal _ (ParameterItem.name_mem_memberNames hc))
  · have hlegal : ∀ n ∈ r.functionNames, Name.Legal n := fun n hn =>
      hrecords n (List.mem_flatMap.mpr ⟨r, hr, hn⟩)
    refine ⟨m.isInfix_of_mem_records hr derives, r.items_lines derives hlegal,
      r.fields_lines derives fun f hf => word_of_legal (hlegal _ (.tail _ ?_))⟩
    exact List.mem_flatMap.mpr ⟨f, hf, List.mem_cons_self⟩
  · exact ⟨m.isInfix_aggregate derives, m.aggregate.items_lines derives haggregate,
      (m.aggregate.writtenIn_lines derives haggregate).fields⟩

end Code

namespace Session

open Code

variable {settings : Settings} {session : Session} {source : String} {artifact : Artifact}

/-- **Generated names do not collide and are legal.**  This holds of every artifact, for the modules
it is written from: modules are apart from each other, and in each of them the types, the aggregate
and what is brought in, the functions and fields of records, the functions of the aggregate, and the
members of parameter types.  Marks of raw identifiers make no difference.  Every declared name is
legal.  All these names are the ones that stand in the source of the module, and this source is
shown by a unit of the artifact. -/
theorem compile_names_apart (hstart : Session.start settings = .ok session)
    (h : (session.compile source).result = .ok artifact) :
    ∃ loaded resolved modules, Schema.ofSource source = .ok loaded ∧
      loaded.value.resolve settings.primitives = .ok resolved ∧
        resolved.levels.mapM (Module.ofLevel settings.emit.primitivesPath resolved) = .ok modules ∧
          artifact = .ofModules settings.emit modules ∧ Apart (modules.map (·.name)) ∧
            ∀ m ∈ modules, m.WellNamed ∧ m.Written (Artifact.derives settings.emit) ∧
              ∃ u, artifact.Shows u m.name (m.lines (Artifact.derives settings.emit)) := by
  obtain ⟨loaded, resolved, modules, hload, hresolve, hmodules, rfl⟩ :=
    exists_modules_of_compile hstart h
  have hs := Schema.wellFormed_of_ofSource hload
  have hP := isIdentifier_of_mem_primitives (start_eq_ok_iff.mp hstart).1
  refine ⟨loaded, resolved, modules, hload, hresolve, hmodules, rfl,
    hs.apart_modules hresolve hmodules, fun m hm => ?_⟩
  have hreadable := hs.readable_of_mem_modules hP hresolve hmodules hm
  exact ⟨hs.wellNamed_of_mem_modules hP hresolve hmodules hm,
    Module.written_of_readable hreadable _, Artifact.exists_shows hm settings.emit⟩

/-- Levels, types, members and properties that are called like reserved words. -/
def reservedEverywhere : String :=
  "AbstractionLevel Match\n    Parameter Use\n        For\n        If\n" ++
    "    Object Plot\n        Curve Type\n        Use Loop\n" ++
    "AbstractionLevel City extends Match\n    Object Tower extends Plot\n        Plot Box\n"

theorem reservedEverywhere_names_apart :
    ∃ artifact, ((Session.mk {} .idle "").compile reservedEverywhere).result = .ok artifact ∧
      ∃ modules, artifact = .ofModules {} modules ∧ Apart (modules.map (·.name)) ∧
        ∀ m ∈ modules, m.WellNamed ∧ m.Written (Artifact.derives {}) ∧
          ∃ u, artifact.Shows u m.name (m.lines (Artifact.derives {})) := by
  have hstart : Session.start {} = .ok ⟨{}, .idle, ""⟩ := by decide +kernel
  have hrun : ((Session.mk {} .idle "").compile reservedEverywhere).result.isOk = true := by
    decide +kernel
  obtain ⟨artifact, hresult⟩ := exists_of_isOk hrun
  obtain ⟨-, -, modules, -, -, -, hartifact, hnames⟩ := compile_names_apart hstart hresult
  exact ⟨artifact, hresult, modules, hartifact, hnames⟩

end Session

end LevelSchema
