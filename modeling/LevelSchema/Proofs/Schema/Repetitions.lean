import LevelSchema.Proofs.Document.Words
import LevelSchema.Proofs.Schema.WellFormed

/-!
# Names declared again

Which declarations are reported as repetitions depends on names only.  `NameDecl` is a declared name
with the names that stand before it in the same scope, and it repeats the first of these that has
its key.  `Document.declarations` lists all declared names of a document as they stand, a
declaration before what is declared in it.

**Loading reports all of them.**  Loading remembers the names of a scope under their keys while it
goes on to report other mistakes, leaves out members, and enters and leaves inner scopes.  What it
remembers is always the first name of the scope with a key (`Load.Remembers`), so of its findings
those that are repetitions are the ones that the listed declarations say
(`Document.repetitions_load`).

**Scope by scope.**  The declarations of a document are those of its scopes, mixed
(`Document.declarations_perm`).  Within one scope all names with one key but the first are
repetitions of the first (`NameScope.repeated_eq_tail`).
-/

namespace LevelSchema

/-! ## Declared names -/

/-- A declared name under its qualified name, with the names before it in the same scope. -/
structure NameDecl where
  role : NameRole
  owner : String
  name : Located String
  earlier : List (Located String)

namespace NameDecl

/-- The generated name that has to be new in the scope. -/
def key (x : NameDecl) : String :=
  Load.key x.role x.name.value

/-- The first name of the scope that has the key, if it is an earlier one. -/
def first? (x : NameDecl) : Option (Located String) :=
  x.earlier.find? fun n => Load.key x.role n.value == x.key

/-- Whether an earlier name of the scope has the key. -/
def isRepeated (x : NameDecl) : Bool :=
  x.first?.isSome

/-- What is to be found out about the name, if it is repeated. -/
def repetition? (x : NameDecl) : Option LoadFinding :=
  x.first?.map (.repeatedName x.role x.name x.owner x.key)

/-- The diagnostic is an error that points at the name, and at the first one with its key. -/
structure ReportedBy (x : NameDecl) (diagnostic : Diagnostic) : Prop where
  isError : diagnostic.isError = true
  labels : ∃ first, x.first? = some first ∧ diagnostic.labels =
    [⟨x.name.span, "declared again here", true⟩, ⟨first.span, "first declared here", false⟩]

end NameDecl

/-- Declare names one after another, each followed by the declarations inside it. -/
def declare (role : NameRole) (qualify : String → String) (earlier : List (Located String)) :
    List (Located String × List NameDecl) → List NameDecl
  | [] => []
  | (name, inner) :: rest =>
      ⟨role, qualify name.value, name, earlier⟩ ::
        (inner ++ declare role qualify (earlier ++ [name]) rest)

/-- Names of which no two should have the same key. -/
structure NameScope where
  role : NameRole
  qualify : String → String
  names : List (Located String)

namespace NameScope

/-- The names of a scope by themselves, without what is declared inside. -/
def declarations (scope : NameScope) : List NameDecl :=
  declare scope.role scope.qualify [] (scope.names.map fun n => (n, []))

/-- The names of a scope with the given key. -/
def group (scope : NameScope) (key : String) : List (Located String) :=
  scope.names.filter fun n => Load.key scope.role n.value == key

end NameScope

/-- The members of a parameter type, or the properties of an object type. -/
def LevelItem.scope (owner : String) : LevelItem → NameScope
  | .parameter d => ⟨.member (Load.kindOf d), Name.nested owner, d.members.map (·.name)⟩
  | .object d => ⟨.property, Name.nested owner, d.properties.map (·.name)⟩

namespace LevelDecl

/-- The scope inside a declaration of the level. -/
def itemScope (d : LevelDecl) (item : LevelItem) : NameScope :=
  item.scope (Name.nested d.name.value item.name.value)

/-- The types of a level, and the scopes inside them. -/
def scopes (d : LevelDecl) : List NameScope :=
  ⟨.type, Name.nested d.name.value, d.items.map (·.name)⟩ :: d.items.map d.itemScope

/-- All names declared in a level, as they stand. -/
def declarations (d : LevelDecl) : List NameDecl :=
  declare .type (Name.nested d.name.value) []
    (d.items.map fun item => (item.name, (d.itemScope item).declarations))

end LevelDecl

namespace Document

/-- The levels of a document, and the scopes inside them. -/
def scopes (d : Document) : List NameScope :=
  ⟨.level, id, d.levels.map (·.name)⟩ :: d.levels.flatMap LevelDecl.scopes

/-- All names declared in a document, as they stand. -/
def declarations (d : Document) : List NameDecl :=
  declare .level id [] (d.levels.map fun l => (l.name, l.declarations))

/-- The names that have the key of an earlier name of their scope, as they stand. -/
def repeated (d : Document) : List NameDecl :=
  d.declarations.filter NameDecl.isRepeated

end Document

/-! ## Findings -/

/-- Whether a name was found to be declared again. -/
def LoadFinding.isRepetition : LoadFinding → Bool
  | .repeatedName .. => true
  | _ => false

/-- The code for a repeated declaration is given to repetitions and to nothing else. -/
lemma LoadFinding.code_diagnostic_iff (f : LoadFinding) :
    f.diagnostic.code = some .duplicateDeclaration ↔ f.isRepetition = true := by
  cases f with
  | repeatedName role name owner key first => simp [diagnostic, isRepetition, Diagnostic.withCode,
      Diagnostic.primary, Diagnostic.secondary]
  | valueOutOfRange kind member value span => cases kind <;> simp [diagnostic, isRepetition,
      valueCode, Diagnostic.withCode, Diagnostic.primary, Diagnostic.hint]
  | repeatedValue kind member value span parameter first => cases kind <;> simp [diagnostic,
      isRepetition, valueCode, Diagnostic.withCode, Diagnostic.primary, Diagnostic.secondary,
      Diagnostic.hint]
  | _ => simp [diagnostic, isRepetition, Diagnostic.withCode, Diagnostic.primary, Diagnostic.hint,
      Diagnostic.error, Diagnostic.warning]

/-- The finding of a repetition reports the declaration. -/
lemma NameDecl.reportedBy_of_repetition? {x : NameDecl} {f : LoadFinding}
    (h : x.repetition? = some f) : x.ReportedBy f.diagnostic := by
  obtain ⟨first, hfirst, rfl⟩ := Option.map_eq_some_iff.mp h
  constructor
  · simp only [LoadFinding.diagnostic]
    split_ifs <;> rfl
  · refine ⟨first, hfirst, ?_⟩
    simp only [LoadFinding.diagnostic]
    split_ifs <;> rfl

namespace Load

variable {α β : Type} {role : NameRole} {seen : Seen} {earlier : List (Located String)}
  {owner : String}

/-- The names that are found to be declared again. -/
def repetitions (x : Check α) : List LoadFinding :=
  x.notes.filter LoadFinding.isRepetition

@[simp] lemma repetitions_pure (a : α) : repetitions (pure a : Check α) = [] := rfl

/-- The repetitions in a sequence of checks are those of its steps, in order. -/
@[simp] lemma repetitions_bind (x : Check α) (f : α → Check β) :
    repetitions (x >>= f) = repetitions x ++ repetitions (f x.value) :=
  List.filter_append _ _

@[simp] lemma repetitions_note (f : LoadFinding) :
    repetitions (Noted.note f) = if f.isRepetition then [f] else [] := by
  rw [repetitions, Noted.notes_note, List.filter_singleton, Bool.cond_eq_ite]

@[simp] lemma repetitions_ite (c : Prop) [Decidable c] (x y : Check α) :
    repetitions (if c then x else y) = if c then repetitions x else repetitions y :=
  apply_ite repetitions c x y

/-! ## One name -/

/-- What is remembered of a scope is its first name with each key. -/
def Remembers (role : NameRole) (seen : Seen) (earlier : List (Located String)) : Prop :=
  ∀ k, seen.lookup k = earlier.find? fun n => key role n.value == k

lemma remembers_nil : Remembers role [] [] :=
  fun _ => rfl

/-- Checking a name finds a repetition if the name was declared earlier. -/
lemma repetitions_checkName (h : Remembers role seen earlier) (name : Located String) :
    repetitions (checkName role seen name owner) =
      (NameDecl.mk role owner name earlier).repetition?.toList := by
  have hreserved : repetitions
      (Noted.noteAny ((reservedReason? role name.value).map (.reservedName role name owner ·))) =
        [] := by
    cases reservedReason? role name.value <;> rfl
  have hlookup := h (key role name.value)
  rw [checkName, repetitions_bind, hreserved, List.nil_append, hlookup, NameDecl.repetition?,
    NameDecl.first?]
  simp only [NameDecl.key]
  split
  · next first hfirst => simp [hfirst, LoadFinding.isRepetition]
  · next hfirst => simp [hfirst]

/-- A name is remembered if it is the first with its key. -/
lemma Remembers.checkName (h : Remembers role seen earlier) (name : Located String) :
    Remembers role (Load.checkName role seen name owner).value (earlier ++ [name]) := by
  intro k
  have hlookup := h (key role name.value)
  rw [Load.checkName, Noted.value_bind, List.find?_append, ← h k]
  split
  · next first hfirst =>
      by_cases hk : key role name.value = k
      · simp [← hk, hfirst]
      · simp [hk]
  · next hnew =>
      by_cases hk : key role name.value = k
      · simp [← hk, hnew]
      · have hne : (k == key role name.value) = false := by simpa using Ne.symm hk
        simp [hk, List.lookup_cons, hne]

/-! ## Declarations -/

/-- A description is no repetition. -/
lemma repetitions_describe (d : Option Description) : repetitions (describe owner d) = [] := by
  cases d with
  | none => rfl
  | some d =>
      rw [describe]
      split_ifs <;> rfl

lemma repetitions_memberValue (kind : ParameterKind) (m : MemberDecl) (next : UInt64) :
    repetitions (memberValue kind owner m next) = [] := by
  unfold memberValue
  rw [repetitions_bind, List.append_eq_nil_iff]
  constructor
  · split <;> simp [LoadFinding.isRepetition]
  · split <;> simp [LoadFinding.isRepetition]

/-- **Walking through a scope.**  If each step checks one name and goes through what is declared
inside it, and the rest is checked against the names so far, then the repetitions are those of the
listed declarations. -/
lemma repetitions_walk {σ : Type} (seenOf : σ → Seen) (walk : σ → List α → List LoadFinding)
    {qualify : String → String} {name : α → Located String} {inner : α → List NameDecl}
    (hnil : ∀ s, walk s [] = [])
    (hcons : ∀ s a as, ∃ s',
      seenOf s' = (checkName role (seenOf s) (name a) (qualify (name a).value)).value ∧
      walk s (a :: as) =
        repetitions (checkName role (seenOf s) (name a) (qualify (name a).value)) ++
          ((inner a).filterMap NameDecl.repetition? ++ walk s' as))
    {s : σ} (h : Remembers role (seenOf s) earlier) (as : List α) :
    walk s as = (declare role qualify earlier
      (as.map fun a => (name a, inner a))).filterMap NameDecl.repetition? := by
  induction as generalizing s earlier with
  | nil => exact hnil s
  | cons a as ih =>
      obtain ⟨s', hseen, hwalk⟩ := hcons s a as
      have hremembers : Remembers role (seenOf s') (earlier ++ [name a]) :=
        hseen ▸ h.checkName (name a)
      rw [hwalk, repetitions_checkName h, ih hremembers, List.map_cons, declare,
        List.filterMap_cons, List.filterMap_append]
      cases NameDecl.repetition? _ <;> rfl

/-- Whatever becomes of the value of a member, its name counts for the members after it. -/
lemma repetitions_members_cons (kind : ParameterKind) (parameter : String) (scope : MemberScope)
    (m : MemberDecl) (ms : List MemberDecl) :
    let checked := checkName (.member kind) scope.seen m.name (Name.nested parameter m.name.value)
    ∃ scope' : MemberScope, scope'.seen = checked.value ∧
      repetitions (members kind parameter scope (m :: ms)) =
        repetitions checked ++ repetitions (members kind parameter scope' ms) := by
  intro checked
  simp only [members, repetitions_bind, repetitions_memberValue, List.nil_append]
  split
  · exact ⟨{ scope with seen := checked.value }, rfl, rfl⟩
  · next value _ =>
      split
      · exact ⟨{ scope with seen := checked.value, next := successor value }, rfl, rfl⟩
      · refine ⟨⟨checked.value, (value, m.name) :: scope.values, successor value⟩, rfl, ?_⟩
        split
        · rfl
        · simp [repetitions_describe, checked]

/-- In a parameter type, what is repeated are names of members. -/
lemma repetitions_parameterType (d : ParameterDecl) : repetitions (parameterType owner d) =
    ((LevelItem.parameter d).scope owner).declarations.filterMap NameDecl.repetition? := by
  have hmembers : repetitions (members (kindOf d) owner ⟨[], [], 0⟩ d.members) =
      (declare (.member (kindOf d)) (Name.nested owner) []
        (d.members.map fun m => (m.name, []))).filterMap NameDecl.repetition? :=
    repetitions_walk MemberScope.seen (fun s ms => repetitions (members (kindOf d) owner s ms))
      (fun _ => rfl) (repetitions_members_cons (kindOf d) owner) remembers_nil d.members
  rw [NameScope.declarations, LevelItem.scope, List.map_map]
  refine Eq.trans ?_ hmembers
  simp [parameterType, repetitions_describe, LoadFinding.isRepetition, kindOf]

/-- In an object type, what is repeated are names of properties. -/
lemma repetitions_objectType (typeNames : List String) (d : ObjectDecl) :
    repetitions (objectType typeNames owner d) =
      ((LevelItem.object d).scope owner).declarations.filterMap NameDecl.repetition? := by
  have hproperties : repetitions (properties owner [] d.properties) =
      (declare .property (Name.nested owner) []
        (d.properties.map fun p => (p.name, []))).filterMap NameDecl.repetition? := by
    refine repetitions_walk id (fun seen ps => repetitions (properties owner seen ps))
      (fun _ => rfl) (fun seen p ps => ⟨_, rfl, ?_⟩) remembers_nil d.properties
    simp [properties, repetitions_describe]
  rw [NameScope.declarations, LevelItem.scope, List.map_map]
  refine Eq.trans ?_ hproperties
  cases hparent : d.parent <;>
    simp [objectType, hparent, repetitions_describe, LoadFinding.isRepetition]

/-- In a level, what is repeated are names of types, and names in their scopes. -/
lemma repetitions_level (levelNames typeNames : List String) (d : LevelDecl) :
    repetitions (level levelNames typeNames d) =
      d.declarations.filterMap NameDecl.repetition? := by
  have hitems : repetitions (items typeNames d.name.value [] d.items) =
      d.declarations.filterMap NameDecl.repetition? := by
    refine repetitions_walk id (fun seen is => repetitions (items typeNames d.name.value seen is))
      (fun _ => rfl) (fun seen item is => ⟨_, rfl, ?_⟩) remembers_nil d.items
    cases item with
    | parameter p => simp [items, repetitions_parameterType, LevelDecl.itemScope, LevelItem.name]
    | object o => simp [items, repetitions_objectType, LevelDecl.itemScope, LevelItem.name]
  rw [← hitems]
  cases hparent : d.parent <;>
    simp [level, hparent, repetitions_describe, LoadFinding.isRepetition]

end Load

/-- **Loading finds the repetitions that the declarations of the document say.** -/
lemma Document.repetitions_load (d : Document) :
    Load.repetitions d.load = d.declarations.filterMap NameDecl.repetition? := by
  have hlevels : Load.repetitions (Load.levels d.levelNames d.typeNames [] d.levels) =
      d.declarations.filterMap NameDecl.repetition? := by
    refine Load.repetitions_walk id
      (fun seen ds => Load.repetitions (Load.levels d.levelNames d.typeNames seen ds))
      (fun _ => rfl) (fun seen l ds => ⟨_, rfl, ?_⟩) Load.remembers_nil d.levels
    simp [Load.levels, Load.repetitions_level]
  rw [← hlevels]
  simp [load, LoadFinding.isRepetition]

/-! ## Scope by scope -/

section Declare

variable {role : NameRole} (qualify : String → String) {earlier : List (Located String)}

/-- What is declared inside can be put behind the names themselves. -/
lemma declare_perm (ps : List (Located String × List NameDecl)) :
    (declare role qualify earlier ps).Perm
      (declare role qualify earlier (ps.map fun p => (p.1, [])) ++ ps.flatMap (·.2)) := by
  induction ps generalizing earlier with
  | nil => exact .refl _
  | cons p ps ih =>
      simp only [declare, List.map_cons, List.flatMap_cons, List.nil_append, List.cons_append]
      refine .cons _ ?_
      refine (ih.append_left _).trans ?_
      rw [← List.append_assoc, ← List.append_assoc]
      exact List.perm_append_comm.append_right _

/-- Declaring keeps the names and their order. -/
lemma map_name_declare (ps : List (Located String × List NameDecl)) :
    (declare role qualify earlier ps).map (·.name) =
      ps.flatMap fun p => p.1 :: p.2.map (·.name) := by
  induction ps generalizing earlier with
  | nil => rfl
  | cons p ps ih => simp [declare, ih]

/-- Behind a name with the key, all names with the key repeat it. -/
lemma repeated_declare_of_some {k : String} {first : Located String}
    (h : earlier.find? (fun n => Load.key role n.value == k) = some first)
    (names : List (Located String)) :
    ((declare role qualify earlier (names.map fun n => (n, []))).filter fun x =>
        x.isRepeated && x.key == k).map (fun x => (x.name, x.first?)) =
      (names.filter fun n => Load.key role n.value == k).map fun n => (n, some first) := by
  induction names generalizing earlier with
  | nil => rfl
  | cons n names ih =>
      have hfind : (earlier ++ [n]).find? (fun n => Load.key role n.value == k) = some first := by
        simp [h]
      have hrest := ih hfind
      rw [List.map_cons, declare, List.nil_append, List.filter_cons, List.filter_cons]
      by_cases hk : Load.key role n.value = k
      · subst hk
        simpa [NameDecl.isRepeated, NameDecl.first?, NameDecl.key, h] using hrest
      · simpa [NameDecl.key, hk] using hrest

/-- In front of any name with the key, all names with the key but the first repeat it. -/
lemma repeated_declare_of_none {k : String}
    (h : earlier.find? (fun n => Load.key role n.value == k) = none)
    (names : List (Located String)) :
    ((declare role qualify earlier (names.map fun n => (n, []))).filter fun x =>
        x.isRepeated && x.key == k).map (fun x => (x.name, x.first?)) =
      (names.filter fun n => Load.key role n.value == k).tail.map fun n =>
        (n, (names.filter fun n => Load.key role n.value == k).head?) := by
  induction names generalizing earlier with
  | nil => rfl
  | cons n names ih =>
      rw [List.map_cons, declare, List.nil_append, List.filter_cons, List.filter_cons]
      by_cases hk : Load.key role n.value = k
      · have hfind : (earlier ++ [n]).find? (fun n => Load.key role n.value == k) = some n := by
          simp [h, hk]
        have hrest := repeated_declare_of_some qualify hfind names
        subst hk
        simpa [NameDecl.isRepeated, NameDecl.first?, NameDecl.key, h] using hrest
      · have hfind : (earlier ++ [n]).find? (fun n => Load.key role n.value == k) = none := by
          simp [h, hk]
        simpa [NameDecl.key, hk] using ih hfind

end Declare

/-- **Of the names with one key, all but the first repeat the first.** -/
lemma NameScope.repeated_eq_tail (scope : NameScope) (k : String) :
    (scope.declarations.filter fun x => x.isRepeated && x.key == k).map
        (fun x => (x.name, x.first?)) =
      (scope.group k).tail.map fun n => (n, (scope.group k).head?) :=
  repeated_declare_of_none scope.qualify rfl scope.names

lemma LevelDecl.declarations_perm (d : LevelDecl) :
    d.declarations.Perm (d.scopes.flatMap NameScope.declarations) := by
  refine (declare_perm _ _).trans (.of_eq ?_)
  simp [scopes, NameScope.declarations, List.flatMap_map, Function.comp_def]

/-- The declarations of a document are those of its scopes. -/
lemma Document.declarations_perm (d : Document) :
    d.declarations.Perm (d.scopes.flatMap NameScope.declarations) := by
  refine (declare_perm _ _).trans ?_
  have hinner : (d.levels.flatMap LevelDecl.declarations).Perm
      (d.levels.flatMap fun l => l.scopes.flatMap NameScope.declarations) :=
    List.Perm.flatMap_left _ fun l _ => l.declarations_perm
  rw [scopes, List.flatMap_cons, List.flatMap_assoc, List.flatMap_map]
  refine List.Perm.append (.of_eq ?_) hinner
  simp [NameScope.declarations, Function.comp_def]

/-! ## In the order of the text -/

lemma NameScope.map_name_declarations (scope : NameScope) :
    scope.declarations.map (·.name) = scope.names := by
  rw [declarations, map_name_declare]
  simp [List.flatMap_map]

lemma LevelItem.names_scope_sublist (owner : String) (item : LevelItem) :
    (item.scope owner).names.Sublist item.inner := by
  cases item with
  | parameter d => exact .refl _
  | object d =>
      simp only [scope, inner]
      rw [List.map_eq_flatMap]
      refine List.Sublist.flatMap_right _ fun p _ => ?_
      exact List.sublist_cons_self _ _

lemma LevelDecl.map_name_declarations_sublist (d : LevelDecl) :
    (d.declarations.map (·.name)).Sublist (d.items.flatMap LevelItem.names) := by
  rw [declarations, map_name_declare, List.flatMap_map]
  refine List.Sublist.flatMap_right _ fun item _ => ?_
  rw [NameScope.map_name_declarations]
  refine .cons_cons _ (.trans ?_ (List.sublist_append_right _ _))
  exact item.names_scope_sublist _

/-- The names that are declared stand in the document in this order. -/
lemma Document.map_name_declarations_sublist (d : Document) :
    (d.declarations.map (·.name)).Sublist d.names := by
  rw [declarations, map_name_declare, List.flatMap_map]
  refine List.Sublist.flatMap_right _ fun l _ => ?_
  exact .cons_cons _ (l.map_name_declarations_sublist.trans (List.sublist_append_right _ _))

/-! ## Reports -/

/-- The repetitions are the findings that are reported as duplicate declarations. -/
lemma Load.filter_duplicateDeclaration {α : Type} (x : Check α) :
    (x.mapNotes LoadFinding.diagnostic).notes.filter
        (fun d => d.code == some .duplicateDeclaration) =
      (repetitions x).map LoadFinding.diagnostic := by
  rw [Noted.mapNotes, List.filter_map, repetitions]
  refine congrArg _ (List.filter_congr fun f _ => ?_)
  rw [Bool.eq_iff_iff, ← f.code_diagnostic_iff]
  simp

/-- Repeated declarations and reports correspond one to one. -/
lemma NameDecl.forall₂_reportedBy (xs : List NameDecl) :
    List.Forall₂ ReportedBy (xs.filter isRepeated)
      ((xs.filterMap repetition?).map LoadFinding.diagnostic) := by
  induction xs with
  | nil => exact .nil
  | cons x xs ih =>
      cases hx : x.repetition? with
      | none =>
          have hnew : x.isRepeated = false := by simpa [repetition?, isRepeated] using hx
          simpa [hx, hnew] using ih
      | some f =>
          have hrepeated : x.isRepeated = true := by
            obtain ⟨first, hfirst, -⟩ := Option.map_eq_some_iff.mp hx
            simp [isRepeated, hfirst]
          rw [List.filterMap_cons_some hx, List.filter_cons_of_pos hrepeated]
          exact .cons (reportedBy_of_repetition? hx) ih

namespace Document

/-- One diagnostic for each repeated name, in the order of the names. -/
lemma reportedBy_repeated (d : Document) : List.Forall₂ NameDecl.ReportedBy d.repeated
    ((d.load.mapNotes LoadFinding.diagnostic).notes.filter fun x =>
      x.code == some .duplicateDeclaration) := by
  rw [Load.filter_duplicateDeclaration, d.repetitions_load]
  exact NameDecl.forall₂_reportedBy d.declarations

/-- **Every name that is declared again is reported once.**  The reports are about the names that
have the key of an earlier name of their scope, as they stand, and each points at the name and at
the first one of the scope with its key.  In each scope these are all names with a key but the first
of them.  A document with such a name is refused with these reports, and if it was read from a text
they are in the order of the text. -/
theorem repeated_names_reported (d : Document) :
    List.Forall₂ NameDecl.ReportedBy d.repeated
      ((d.load.mapNotes LoadFinding.diagnostic).notes.filter fun x =>
        x.code == some .duplicateDeclaration) ∧
    d.declarations.Perm (d.scopes.flatMap NameScope.declarations) ∧
    (∀ scope ∈ d.scopes, ∀ k,
      (scope.declarations.filter fun x => x.isRepeated && x.key == k).map
          (fun x => (x.name, x.first?)) =
        (scope.group k).tail.map fun n => (n, (scope.group k).head?)) ∧
    (d.repeated ≠ [] → (d.load.mapNotes LoadFinding.diagnostic).conclude =
      .error ⟨(d.load.mapNotes LoadFinding.diagnostic).notes⟩) ∧
    ∀ source lexemes, scan source = .ok lexemes → ofLexemes lexemes = .ok d →
      InOrder (d.repeated.map (·.name)) := by
  refine ⟨d.reportedBy_repeated, d.declarations_perm, fun scope _ => scope.repeated_eq_tail,
    fun hne => ?_, fun source lexemes hscan hread => ?_⟩
  · obtain ⟨x, hx⟩ := List.exists_mem_of_ne_nil _ hne
    have hreports := d.reportedBy_repeated.flip
    obtain ⟨diagnostic, hdiagnostic, hreported⟩ := exists_of_forall₂_of_mem hreports hx
    rw [Noted.conclude, if_pos]
    exact List.any_eq_true.mpr ⟨_, List.mem_of_mem_filter hdiagnostic, hreported.isError⟩
  · obtain ⟨rows, hsaid, horder, -⟩ := exists_rows hscan hread
    refine horder.sublist (.trans ?_ (Grammar.sublist_wordsOf_document hsaid))
    exact .trans (List.filter_sublist.map _) d.map_name_declarations_sublist

/-- Names that are declared again in all four kinds of scopes, one of them twice, with flags that
have no proper value. -/
def clashingSites : String :=
  "AbstractionLevel Site\n    Parameter View [Multiple]\n        Sky\n        SKY = 3\n" ++
    "        sky = 1\n    Object View\n        Number width\n        Number Width\n" ++
    "AbstractionLevel site\n    Object Plot\n"

theorem clashingSites_reported : ∃ lexemes d, scan clashingSites = .ok lexemes ∧
    ofLexemes lexemes = .ok d ∧
    d.repeated.map (fun x => (x.name.value, x.first?.map (·.value))) =
      [("SKY", some "Sky"), ("sky", some "Sky"), ("View", some "View"), ("Width", some "width"),
        ("site", some "Site")] ∧
    List.Forall₂ NameDecl.ReportedBy d.repeated
      ((d.load.mapNotes LoadFinding.diagnostic).notes.filter fun x =>
        x.code == some .duplicateDeclaration) ∧
    (d.load.mapNotes LoadFinding.diagnostic).conclude =
      .error ⟨(d.load.mapNotes LoadFinding.diagnostic).notes⟩ ∧
    InOrder (d.repeated.map (·.name)) := by
  have hread : (scan clashingSites >>= ofLexemes).toOption.map (fun d =>
      d.repeated.map fun x => (x.name.value, x.first?.map (·.value))) =
        some [("SKY", some "Sky"), ("sky", some "Sky"), ("View", some "View"),
          ("Width", some "width"), ("site", some "Site")] := by
    decide +kernel
  obtain ⟨d, hparse, hshape⟩ := exists_of_toOption_map hread
  obtain ⟨lexemes, hscan, hdocument⟩ := bind_eq_ok_iff.mp hparse
  obtain ⟨hreported, -, -, hrefused, hordered⟩ := repeated_names_reported d
  have hne : d.repeated ≠ [] := by
    intro hnil
    rw [hnil] at hshape
    exact nomatch hshape
  exact ⟨lexemes, d, hscan, hdocument, hshape, hreported, hrefused hne,
    hordered clashingSites lexemes hscan hdocument⟩

end Document

end LevelSchema
