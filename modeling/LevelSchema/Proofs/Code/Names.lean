import LevelSchema.Proofs.Code.Consistency
import LevelSchema.Proofs.Code.Imports
import LevelSchema.Proofs.Code.Items
import LevelSchema.Proofs.Schema.Loadable

/-!
# Generated names do not collide

Every place where generated names stand side by side is listed here: the types of a module, the
functions of a record and of an aggregate, the members of a parameter type, and the modules
themselves.  In each of them the names are distinct once the marks of raw identifiers are taken away
(`Code.Apart`), and every name that is declared is legal.

**Who compares what.**  Loading compares names of one declaration, by the key of their role;
resolving compares types, accessors of properties and accessors of collections along lineages.
Names that the templates add are compared by nobody.  They stay apart from the others by their form:
getters are never called `new` because that name is refused, setters and the accessors of
collections begin and end like no other function, and the constants of a flag set have no small
letter.
-/

namespace LevelSchema

/-! ## Names that can be used -/

namespace Load.Usable

variable {role : NameRole} {name : String}

/-- A usable name, as it is or in snake case, can be escaped. -/
lemma not_isUnescapable_or (h : Usable role name) :
    (Name.isUnescapable name || Name.isUnescapable (Name.snake name)) = false := by
  by_contra hword
  have hreason := h.not_reserved
  unfold reservedReason? at hreason
  rw [if_pos (Bool.eq_true_of_not_eq_false hword)] at hreason
  exact nomatch hreason

lemma not_isUnescapable (h : Usable role name) : Name.isUnescapable name = false :=
  (Bool.or_eq_false_iff.mp h.not_isUnescapable_or).1

lemma not_isUnescapable_snake (h : Usable role name) :
    Name.isUnescapable (Name.snake name) = false :=
  (Bool.or_eq_false_iff.mp h.not_isUnescapable_or).2

/-- So a usable name is legal once it is escaped. -/
lemma legal_escape (h : Usable role name) : Name.Legal (Name.escape name) :=
  Name.legal_escape h.isIdentifier h.not_isUnescapable

lemma legal_escape_snake (h : Usable role name) : Name.Legal (Name.escape (Name.snake name)) :=
  Name.legal_escape (Name.isIdentifier_snake h.isIdentifier) h.not_isUnescapable_snake

/-- In capitals, a usable name needs no escape. -/
lemma plain_screaming (h : Usable role name) : Name.Plain (Name.screaming name) :=
  Name.plain_screaming h.isIdentifier h.not_isUnescapable_snake

lemma not_taken (h : Usable role name) : ¬ Taken role name := fun htaken =>
  reservedReason?_eq_none_iff.mp h.not_reserved (.inr htaken)

/-- A property is not called like the constructor. -/
lemma snake_ne_new (h : Usable .property name) : Name.snake name ≠ "new" :=
  h.not_taken

/-- A member of an enumeration is not called like the list of all members. -/
lemma ne_all (h : Usable (.member .enumeration) name) : name ≠ "ALL" :=
  h.not_taken

end Load.Usable

namespace Code

/-! ## Names side by side -/

/-- Names that differ even without the marks of raw identifiers. -/
def Apart (names : List String) : Prop :=
  (names.map Name.bare).Nodup

/-- Escaping is undone by taking names bare. -/
lemma map_bare_escape {names : List String} (h : ∀ n ∈ names, Name.isIdentifier n = true) :
    (names.map Name.escape).map Name.bare = names := by
  rw [List.map_map]
  exact (List.map_congr_left fun n hn => Name.bare_escape (h n hn)).trans (List.map_id names)

/-- Plain names are apart if no two are equal. -/
lemma apart_iff_nodup {names : List String} (h : ∀ n ∈ names, Name.Plain n) :
    Apart names ↔ names.Nodup := by
  rw [Apart, (List.map_congr_left fun n hn => (h n hn).bare_eq).trans (List.map_id names)]

/-- Pairs of a name and one derived from it are distinct if no name is a derived one. -/
lemma nodup_flatMap_pair {f : String → String} {names : List String} (hnodup : names.Nodup)
    (hinj : Function.Injective f) (hne : ∀ a ∈ names, ∀ b ∈ names, a ≠ f b) :
    (names.flatMap fun a => [a, f a]).Nodup := by
  refine List.nodup_flatMap.mpr ⟨fun a ha => ?_, hnodup.imp_of_mem fun ha hb hab => ?_⟩
  · simpa using hne a ha a ha
  · intro x hxa hxb
    simp only [List.mem_cons, List.not_mem_nil, or_false] at hxa hxb
    rcases hxa with rfl | rfl <;> rcases hxb with rfl | hxb
    · exact hab rfl
    · exact hne _ ha _ hb hxb
    · exact hne _ hb _ ha rfl
    · exact hab (hinj hxb)

/-! ## Parameter types -/

namespace ParameterItem

variable {level : String} {t : ParameterType} {item : ParameterItem}

/-- A parameter type is written as an enumeration or as a flag set, by its kind. -/
lemma ofType_eq_ok (h : ofType level t = .ok item) :
    t.kind = .enumeration ∧ item = .enumeration ⟨Name.escape t.name.value, t.description,
      t.members.map fun m => ⟨Name.escape m.name.value, m.value, m.description⟩⟩ ∨
    t.kind = .flagSet ∧ ∃ mask, flagMask ⟨level, t.name.value⟩ 0 t.members = .ok mask ∧
      item = .flagSet ⟨Name.escape t.name.value, t.description,
        t.members.map fun m => ⟨Name.screaming m.name.value, m.value, m.description⟩, mask⟩ := by
  unfold ofType at h
  cases hkind : t.kind with
  | enumeration =>
      simp only [hkind] at h
      split_ifs at h
      cases h
      exact .inl ⟨rfl, rfl⟩
  | flagSet =>
      simp only [hkind] at h
      obtain ⟨mask, hmask, hitem⟩ := bind_eq_ok_iff.mp h
      exact .inr ⟨rfl, mask, hmask, (pure_eq_ok_iff.mp hitem).symm⟩

lemma name_of_ofType (h : ofType level t = .ok item) : item.name = Name.escape t.name.value := by
  rcases ofType_eq_ok h with ⟨-, rfl⟩ | ⟨-, mask, -, rfl⟩ <;> rfl

/-- The functions of a flag set are no reserved words and have small letters. -/
lemma forall_mem_flagFunctions : ∀ n ∈ flagFunctions,
    Name.Plain n ∧ n.toList.any Char.isLower = true := by
  decide +kernel

lemma plain_of_mem_flagSet (ht : t.WellFormed) {n : String}
    (hn : n ∈ t.members.map (fun m => Name.screaming m.name.value) ++ flagFunctions) :
    Name.Plain n := by
  rcases List.mem_append.mp hn with hn | hn
  · obtain ⟨m, hm, rfl⟩ := List.mem_map.mp hn
    exact (ht.usable m hm).plain_screaming
  · exact (forall_mem_flagFunctions n hn).1

/-- The members of a well-formed parameter type get names apart. -/
lemma apart_memberNames (ht : t.WellFormed) (h : ofType level t = .ok item) :
    Apart item.memberNames := by
  have hkeys := ht.keys_nodup
  rcases ofType_eq_ok h with ⟨hkind, rfl⟩ | ⟨hkind, mask, -, rfl⟩
  · have husable := ht.usable
    rw [hkind] at hkeys husable
    have hnames : ∀ n ∈ t.members.map (·.name.value), Name.isIdentifier n = true :=
      List.forall_mem_map.mpr fun m hm => (husable m hm).isIdentifier
    have hvariants : (t.members.map fun m => (⟨Name.escape m.name.value, m.value,
        m.description⟩ : Constant)).map (·.name) =
          (t.members.map (·.name.value)).map Name.escape := by
      simp
    rw [Apart, memberNames, List.map_cons, hvariants, map_bare_escape hnames]
    refine List.nodup_cons.mpr ⟨fun hmem => ?_, hkeys⟩
    obtain ⟨m, hm, hall⟩ := List.mem_map.mp hmem
    exact (husable m hm).ne_all hall
  · rw [hkind] at hkeys
    rw [memberNames, List.map_map]
    refine (apart_iff_nodup fun n hn => plain_of_mem_flagSet ht hn).mpr ?_
    refine List.nodup_append.mpr ⟨hkeys, by decide +kernel, ?_⟩
    refine List.forall_mem_map.mpr fun m _ n hn heq => ?_
    obtain ⟨c, hc, hlower⟩ := List.any_eq_true.mp (forall_mem_flagFunctions n hn).2
    rw [← heq] at hc
    rw [Name.not_isLower_of_mem_screaming hc] at hlower
    exact nomatch hlower

lemma legal_of_mem_memberNames (ht : t.WellFormed) (h : ofType level t = .ok item) {n : String}
    (hn : n ∈ item.memberNames) : Name.Legal n := by
  rcases ofType_eq_ok h with ⟨-, rfl⟩ | ⟨-, mask, -, rfl⟩
  · rcases List.mem_cons.mp hn with rfl | hn
    · exact Name.Plain.legal (by decide +kernel)
    · rw [List.map_map] at hn
      obtain ⟨m, hm, rfl⟩ := List.mem_map.mp hn
      exact (ht.usable m hm).legal_escape
  · rw [memberNames, List.map_map] at hn
    exact (plain_of_mem_flagSet ht hn).legal

/-- The items of a well-formed parameter type get legal names. -/
lemma legal_of_mem_itemNames (ht : t.WellFormed) (h : ofType level t = .ok item) {n : String}
    (hn : n ∈ item.itemNames) : Name.Legal n := by
  cases item with
  | enumeration e =>
      simp only [itemNames, List.mem_cons, List.not_mem_nil, or_false] at hn
      rcases hn with rfl | rfl <;> exact Name.Plain.legal (by decide +kernel)
  | flagSet f => exact legal_of_mem_memberNames ht h hn

end ParameterItem

/-! ## Functions -/

/-- Getters and setters are apart when fields are, and no field is called like the constructor. -/
lemma nodup_new_accessors {fields : List String} (h : Resolve.AccessorsDistinct fields)
    (hnew : "new" ∉ fields) : ("new" :: fields.flatMap fun f => [f, "set_" ++ f]).Nodup := by
  refine List.nodup_cons.mpr ⟨fun hmem => ?_, nodup_flatMap_pair h.nodup ?_ h.ne_setter⟩
  · obtain ⟨f, hf, hmem⟩ := List.mem_flatMap.mp hmem
    simp only [List.mem_cons, List.not_mem_nil, or_false] at hmem
    rcases hmem with rfl | heq
    · exact hnew hf
    · have hchars := congrArg (fun s => s.toList.head?) heq
      simp at hchars
  · intro f g hfg
    exact (String.append_right_inj "set_").mp hfg

/-- Collections end in a way in which no other function of an aggregate ends. -/
lemma nodup_aggregate_accessors {names : List String} (h : names.Nodup)
    (hsuffix : ∀ a ∈ names, "collection".toList <:+ a.toList) :
    ("new" :: "base" :: "base_mut" :: names.flatMap fun a => [a, a ++ "_mut"]).Nodup := by
  have hlast : ∀ a ∈ names, a.toList.getLast? = some 'n' := by
    intro a ha
    obtain ⟨front, hfront⟩ := hsuffix a ha
    rw [← hfront, List.getLast?_append]
    rfl
  have hmut : ∀ a : String, (a ++ "_mut").toList.getLast? = some 't' := by
    intro a
    rw [String.toList_append, List.getLast?_append]
    rfl
  have hfixed : ∀ n ∈ ["new", "base", "base_mut"],
      n ∉ names.flatMap fun a => [a, a ++ "_mut"] := by
    intro n hn hmem
    obtain ⟨a, ha, hmem⟩ := List.mem_flatMap.mp hmem
    simp only [List.mem_cons, List.not_mem_nil, or_false] at hn hmem
    rcases hmem with rfl | rfl
    · have hn' := hlast n ha
      rcases hn with rfl | rfl | rfl <;> exact absurd hn' (by decide)
    · have hn' := hmut a
      rcases hn with heq | heq | heq
      · rw [heq] at hn'
        exact absurd hn' (by decide)
      · rw [heq] at hn'
        exact absurd hn' (by decide)
      · have hbase : a = "base" := (String.append_left_inj "_mut").mp heq
        exact absurd (hbase ▸ hlast a ha) (by decide)
  have hpairs : (names.flatMap fun a => [a, a ++ "_mut"]).Nodup := by
    refine nodup_flatMap_pair h (fun a b hab => (String.append_left_inj "_mut").mp hab) ?_
    intro a ha b _ heq
    have hlast' := hlast a ha
    rw [heq, hmut] at hlast'
    exact absurd hlast' (by decide)
  have happend := List.nodup_append.mpr ⟨(by decide : ["new", "base", "base_mut"].Nodup), hpairs,
    fun n hn m hm heq => hfixed n hn (heq ▸ hm)⟩
  exact happend

lemma Aggregate.functionNames_ofLevel (r : ResolvedLevel) :
    (Aggregate.ofLevel r).functionNames = "new" :: "base" :: "base_mut" ::
      (r.collections.map (·.accessor)).flatMap fun a => [a, a ++ "_mut"] := by
  simp [functionNames, accessorNames, ofLevel, List.flatMap_map]

end Code

/-! ## Records -/

namespace Schema

open Code

variable {s : Schema} {P : PrimitiveSet} {l : Level} {r : ResolvedLevel} {x : PlacedObject}
  {o : ResolvedObject}

/-- The fields of a resolved object type are those declared along its lineage. -/
lemma ObjectYields.fields_eq (ho : s.ObjectYields P x o) : ∃ chain,
    Lineage s.Specializes x chain ∧
      o.properties.map (·.field) = chain.flatMap PlacedObject.fields := by
  obtain ⟨chain, hchain, -, hproperties⟩ := ho.lineage
  exact ⟨chain, hchain, by rw [hproperties, fields_flatMap_boundProperties]⟩

/-- The accessors of a resolved object type are distinct if its properties are. -/
lemma ObjectYields.accessorsDistinct (hs : s.PropertiesDistinct) (hx : x ∈ s.objects)
    (ho : s.ObjectYields P x o) : Resolve.AccessorsDistinct (o.properties.map (·.field)) := by
  obtain ⟨chain, hchain, hfields⟩ := ho.fields_eq
  exact hfields ▸ hs x hx chain hchain

/-- Every field comes from the name of a property that could be used. -/
lemma ObjectYields.exists_usable (hs : s.WellFormed) (hx : x ∈ s.objects)
    (ho : s.ObjectYields P x o) {f : String} (hf : f ∈ o.properties.map (·.field)) :
    ∃ n, Load.Usable .property n ∧ Name.snake n = f := by
  obtain ⟨chain, hchain, hfields⟩ := ho.fields_eq
  rw [hfields, List.mem_flatMap] at hf
  obtain ⟨y, hy, hf⟩ := hf
  obtain ⟨p, hp, rfl⟩ := List.mem_map.mp hf
  obtain ⟨hl, hdecl⟩ := mem_objects.mp (mem_objects_of_lineage hx hchain hy)
  exact ⟨p.name.value, ((hs.levels y.level hl).objectTypes y.decl hdecl).usable p hp, rfl⟩

lemma ObjectYields.isIdentifier_of_mem (hs : s.WellFormed) (hx : x ∈ s.objects)
    (ho : s.ObjectYields P x o) {f : String} (hf : f ∈ o.properties.map (·.field)) :
    Name.isIdentifier f = true := by
  obtain ⟨n, hn, rfl⟩ := ho.exists_usable hs hx hf
  exact Name.isIdentifier_snake hn.isIdentifier

/-- The functions of a record get names apart. -/
lemma ObjectYields.apart_functionNames (hs : s.WellFormed) (hd : s.PropertiesDistinct)
    (hx : x ∈ s.objects) (ho : s.ObjectYields P x o) :
    Apart (Record.ofKnown o).functionNames := by
  have hbare : (Record.ofKnown o).functionNames.map Name.bare =
      "new" :: (o.properties.map (·.field)).flatMap fun f => [f, "set_" ++ f] := by
    simp only [Record.functionNames, Record.ofKnown, List.map_cons, List.map_flatMap,
      List.flatMap_map, Field.ofKnown, List.map_nil, ResolvedProperty.setter]
    refine congrArg₂ _ rfl (List.flatMap_congr fun p hp => ?_)
    have hp := ho.isIdentifier_of_mem hs hx (List.mem_map.mpr ⟨p, hp, rfl⟩)
    rw [Name.bare_escape hp, (Name.plain_set_append hp).bare_eq]
  rw [Apart, hbare]
  refine nodup_new_accessors (ho.accessorsDistinct hd hx) fun hmem => ?_
  obtain ⟨n, hn, hnew⟩ := ho.exists_usable hs hx hmem
  exact hn.snake_ne_new hnew

lemma ObjectYields.apart_fields (hs : s.WellFormed) (hd : s.PropertiesDistinct)
    (hx : x ∈ s.objects) (ho : s.ObjectYields P x o) :
    Apart ((Record.ofKnown o).fields.map (·.name)) := by
  have hnames : (Record.ofKnown o).fields.map (·.name) =
      (o.properties.map (·.field)).map Name.escape := by
    simp [Record.ofKnown, Field.ofKnown]
  rw [Apart, hnames, map_bare_escape fun f hf => ho.isIdentifier_of_mem hs hx hf]
  exact (ho.accessorsDistinct hd hx).nodup

/-- The functions of a record get legal names. -/
lemma ObjectYields.legal_of_mem_functionNames (hs : s.WellFormed) (hx : x ∈ s.objects)
    (ho : s.ObjectYields P x o) {n : String} (hn : n ∈ (Record.ofKnown o).functionNames) :
    Name.Legal n := by
  rcases List.mem_cons.mp hn with rfl | hn
  · exact Name.Plain.legal (by decide +kernel)
  · obtain ⟨_, hfield, hn⟩ := List.mem_flatMap.mp hn
    obtain ⟨p, hp, rfl⟩ := List.mem_map.mp hfield
    obtain ⟨name, hname, hsnake⟩ := ho.exists_usable hs hx (List.mem_map.mpr ⟨p, hp, rfl⟩)
    simp only [List.mem_cons, List.not_mem_nil, or_false] at hn
    have hlegal := hname.legal_escape_snake
    have hid := Name.isIdentifier_snake hname.isIdentifier
    rw [hsnake] at hlegal hid
    rcases hn with rfl | rfl
    · exact hlegal
    · exact (Name.plain_set_append hid).legal

/-! ## Aggregates -/

/-- The accessors of a resolved level are those of the collections along its lineage. -/
lemma LevelYields.accessors_eq (hr : s.LevelYields P l r) : ∃ chain,
    Lineage s.Extends l chain ∧ r.collections.map (·.accessor) = chain.flatMap Level.accessors := by
  obtain ⟨chain, hchain, -, hcollections⟩ := hr.lineage
  exact ⟨chain, hchain, by rw [hcollections, accessors_flatMap_collections]⟩

/-- The accessor of a collection is made from an identifier. -/
lemma LevelYields.exists_isIdentifier (hs : s.WellFormed) (hl : l ∈ s.levels)
    (hr : s.LevelYields P l r) {a : String} (ha : a ∈ r.collections.map (·.accessor)) :
    ∃ n, Name.isIdentifier n = true ∧ Name.snake (n ++ "Collection") = a := by
  obtain ⟨chain, hchain, haccessors⟩ := hr.accessors_eq
  rw [haccessors, List.mem_flatMap] at ha
  obtain ⟨m, hm, ha⟩ := ha
  obtain ⟨o, ho, rfl⟩ := List.mem_map.mp ha
  have hm : m ∈ s.levels := mem_levels_of_lineage hl hchain hm
  exact ⟨o.name.value,
    ((hs.levels m hm).usable _ (mem_typeNames_of_mem_objectTypes ho)).isIdentifier, rfl⟩

lemma LevelYields.plain_of_mem_functionNames (hs : s.WellFormed) (hl : l ∈ s.levels)
    (hr : s.LevelYields P l r) {n : String} (hn : n ∈ (Aggregate.ofLevel r).functionNames) :
    Name.Plain n := by
  simp only [Aggregate.functionNames_ofLevel, List.mem_cons, List.mem_flatMap, List.not_mem_nil,
    or_false] at hn
  rcases hn with rfl | rfl | rfl | ⟨a, ha, hn⟩
  · decide +kernel
  · decide +kernel
  · decide +kernel
  · obtain ⟨name, hname, rfl⟩ := hr.exists_isIdentifier hs hl ha
    have haccessor := Name.plain_snake_collection hname
    rcases hn with rfl | rfl
    · exact haccessor
    · exact Name.plain_append_mut haccessor.isIdentifier

/-- The functions of an aggregate get names apart. -/
lemma LevelYields.apart_functionNames (hs : s.WellFormed) (hd : s.CollectionsDistinct)
    (hl : l ∈ s.levels) (hr : s.LevelYields P l r) :
    Apart (Aggregate.ofLevel r).functionNames := by
  refine (apart_iff_nodup fun n hn => hr.plain_of_mem_functionNames hs hl hn).mpr ?_
  obtain ⟨chain, hchain, haccessors⟩ := hr.accessors_eq
  rw [Aggregate.functionNames_ofLevel]
  refine nodup_aggregate_accessors (haccessors ▸ hd l hl chain hchain) fun a ha => ?_
  obtain ⟨name, -, rfl⟩ := hr.exists_isIdentifier hs hl ha
  exact Name.collection_suffix_snake name

end Schema

end LevelSchema
