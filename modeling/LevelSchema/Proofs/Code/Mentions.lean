import LevelSchema.Code.Generate
import LevelSchema.Proofs.Resolved.References
import LevelSchema.Proofs.Resolved.Result

/-!
# What a generated module names

A module names the types of its properties, inherited ones included, and the elements of its
collections.  Each of these is a primitive or a type that the level **sees**: one declared by the
level or by an ancestor (`Schema.LevelYields.sees_of_mentioned`).  This is so for an inherited
property as well, because what an object type specializes is declared at its level or above, and so
are the types it uses there.

A level sees at most one type of each name (`Schema.Scoped.eq_of_sees`), so names without their
levels are enough to tell them apart.
-/

namespace LevelSchema

namespace Schema

open Resolve

variable {s : Schema} {P : PrimitiveSet} {l m : Level} {x y : PlacedObject} {p q : TypePath}

/-- The type at `path` is declared by the level or by one of its ancestors. -/
def Sees (s : Schema) (l : Level) (path : TypePath) : Prop :=
  ∃ m, Relation.ReflTransGen s.Extends l m ∧ m.name.value = path.level ∧ path.name ∈ m.typeNames

/-- A level sees one type of each name. -/
lemma Scoped.eq_of_sees (hs : s.Scoped P) (hl : l ∈ s.levels) (hp : s.Sees l p) (hq : s.Sees l q)
    (h : p.name = q.name) : p = q := by
  obtain ⟨chain, hchain⟩ := hs.exists_lineage l hl
  obtain ⟨m, hm, hmlevel, hmname⟩ := hp
  obtain ⟨n, hn, hnlevel, hnname⟩ := hq
  rw [← hchain.mem_iff hs.extends_rightUnique] at hm hn
  have hapart := (List.nodup_flatMap.mp (hs.typesDistinct l hl chain hchain).1).2
  have : Std.Symm (Function.onFun List.Disjoint Level.typeNames) := ⟨fun _ _ h => h.symm⟩
  obtain rfl : m = n := by
    by_contra hne
    exact hapart.forall hm hn hne hmname (h ▸ hnname)
  have hlevel : p.level = q.level := hmlevel.symm.trans hnlevel
  cases p
  cases q
  exact TypePath.mk.injEq .. ▸ ⟨hlevel, h⟩

/-- A declared type that a name denotes is one that the level sees. -/
lemma Denotes.sees {name : String} {t : TypeRef} (h : s.Denotes P l name t)
    (ht : t = .parameter p ∨ t = .object p) : s.Sees l p := by
  obtain ⟨m, hm, hdeclares⟩ | ⟨hprimitive, -⟩ := h.declared
  · refine ⟨m, hm, ?_⟩
    have hname := hdeclares.mem_typeNames
    rcases ht with rfl | rfl
    · exact ⟨hdeclares.1.symm, hname⟩
    · exact ⟨hdeclares.1.symm, hname⟩
  · rcases ht with rfl | rfl
    · exact nomatch hprimitive
    · exact nomatch hprimitive

lemma Bound.denotes_of_mem (hs : s.Bound P) (hx : x ∈ s.objects) {p : ResolvedProperty}
    (hp : p ∈ s.boundProperties P x) : s.Denotes P x.level p.type.name p.type := by
  obtain ⟨q, hq, rfl⟩ := List.mem_map.mp hp
  have hdenotes := hs.denotes_typeAt hx hq
  exact ⟨rfl, hdenotes.name_eq.symm ▸ hdenotes.declared⟩

variable {r : ResolvedLevel} {o : ResolvedObject}

/-- The type of every property of a resolved level is what its name denotes there. -/
lemma LevelYields.denotes_of_mem (hs : s.Bound P) (hr : s.LevelYields P l r) (hl : l ∈ s.levels)
    {t : TypeRef} (ht : t ∈ Code.propertyTypes r) : s.Denotes P l t.name t := by
  obtain ⟨o, ho, ht⟩ := List.mem_flatMap.mp ht
  obtain ⟨p, hp, rfl⟩ := List.mem_map.mp ht
  obtain ⟨x, hx, rfl, hyields⟩ := hr.exists_objectYields hl ho
  obtain ⟨chain, hchain, -, hproperties⟩ := hyields.lineage
  rw [hproperties, List.mem_flatMap] at hp
  obtain ⟨y, hy, hp⟩ := hp
  exact (hs.denotes_of_mem (mem_objects_of_lineage hx hchain hy) hp).of_ancestor
    (reflTransGen_of_mem_lineage hchain hy)

/-- The element of every collection is what its name denotes. -/
lemma LevelYields.denotes_of_mem_collections (hs : s.Bound P) (hr : s.LevelYields P l r)
    {c : Collection} (hc : c ∈ r.collections) :
    s.Denotes P l c.object.name (.object c.object) := by
  obtain ⟨chain, hchain, -, hcollections⟩ := hr.lineage
  rw [hcollections, List.mem_flatMap] at hc
  obtain ⟨m, hm, hc⟩ := hc
  obtain ⟨o, ho, rfl⟩ := List.mem_map.mp hc
  refine ⟨rfl, .inl ⟨m, (hchain.mem_iff hs.extends_rightUnique).mp hm, rfl, ?_⟩⟩
  exact List.mem_map.mpr ⟨o, ho, rfl⟩

/-- **A module names types that its level sees.** -/
theorem LevelYields.sees_of_mentioned (hs : s.Bound P) (hr : s.LevelYields P l r)
    (hl : l ∈ s.levels) {path : TypePath} (hpath : path ∈ Code.mentionedPaths r) :
    s.Sees l path := by
  rcases List.mem_append.mp hpath with hpath | hpath
  · obtain ⟨t, ht, hsome⟩ := List.mem_filterMap.mp hpath
    have hdenotes := hr.denotes_of_mem hs hl ht
    cases t with
    | parameter p => exact Option.some.inj hsome ▸ hdenotes.sees (.inl rfl)
    | object p => exact Option.some.inj hsome ▸ hdenotes.sees (.inr rfl)
    | primitive n => exact nomatch hsome
    | unresolved n => exact nomatch hsome
  · obtain ⟨c, hc, rfl⟩ := List.mem_map.mp hpath
    exact (hr.denotes_of_mem_collections hs hc).sees (.inr rfl)

/-- **A module names primitives that are in force.** -/
theorem LevelYields.mem_names_of_mentioned (hs : s.Bound P) (hr : s.LevelYields P l r)
    (hl : l ∈ s.levels) {name : String} (hname : name ∈ Code.mentionedPrimitives r) :
    name ∈ P.names := by
  obtain ⟨t, ht, hsome⟩ := List.mem_filterMap.mp hname
  have hdenotes := hr.denotes_of_mem hs hl ht
  cases t with
  | primitive n =>
      obtain ⟨m, -, hdeclares⟩ | ⟨-, hmem⟩ := hdenotes.declared
      · exact hdeclares.elim
      · exact Option.some.inj hsome ▸ hmem
  | _ => exact nomatch hsome

end Schema

end LevelSchema
