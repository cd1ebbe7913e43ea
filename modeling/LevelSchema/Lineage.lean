import LevelSchema.Distinct

/-!
# Lineages

Levels extend levels and object types extend object types, each at most one.  Both are graphs in
which a node has at most one **parent**, and a `Forest` holds the finitely many links of such a
graph.

**Chains.**  `lineage?` follows the links from a node to its root and gives the chain root first; it
gives nothing for a node on a cycle or below one, where the links never come to an end.

**Cycles.**  `cycles` walks up from one node after another and never walks the same way twice, so it
meets each cycle once.

Both walks are bounded by the number of links: a walk that takes more steps than there are links
has come back to a node it has already been at.
-/

namespace LevelSchema

/-- Links from nodes to their parents.  Of several links that start at one node the first counts. -/
structure Forest (α : Type) where
  links : List (α × α)

namespace Forest

variable {α : Type} [DecidableEq α]

/-- The links that start at one of the given nodes. -/
def ofParent (nodes : List α) (parent : α → Option α) : Forest α :=
  ⟨nodes.filterMap fun n => (parent n).map (n, ·)⟩

/-- The parent of a node. -/
def parent? (g : Forest α) (node : α) : Option α :=
  g.links.lookup node

/-- The number of nodes a walk can visit without coming back to one. -/
def bound (g : Forest α) : Nat :=
  g.links.length + 1

/-! ## Chains -/

/-- The chain from the root down to `node`, if it has at most `fuel` nodes. -/
def chain? (g : Forest α) : Nat → α → Option (List α)
  | 0, _ => none
  | fuel + 1, node =>
      match g.parent? node with
      | none => some [node]
      | some parent => (g.chain? fuel parent).map (· ++ [node])

/-- The chain from the root down to `node`, which is its last element. -/
def lineage? (g : Forest α) (node : α) : Option (List α) :=
  g.chain? g.bound node

/-! ## Cycles -/

/-- The nodes of one walk, in order, and the cycle it ran into, if it ran into one. -/
structure Walk (α : Type) where
  path : List α
  cycle : Option (List α)

/-- Walk up from `node`, having come along `path`, until the links end, a node of `done` is met, or
the walk comes back to its own path. -/
def walk (g : Forest α) (done : List α) : Nat → List α → Option α → Walk α
  | 0, path, _ => ⟨path, none⟩
  | _ + 1, path, none => ⟨path, none⟩
  | fuel + 1, path, some node =>
      if node ∈ done then ⟨path, none⟩
      else if node ∈ path then ⟨path, some (path.dropWhile (· ≠ node))⟩
      else g.walk done fuel (path ++ [node]) (g.parent? node)

/-- The cycles met by walking up from each node in turn, leaving out the nodes of `done`. -/
def cyclesFrom (g : Forest α) (done : List α) : List α → List (List α)
  | [] => []
  | node :: nodes =>
      let w := g.walk done (g.bound + 1) [] (some node)
      w.cycle.toList ++ g.cyclesFrom (done ++ w.path) nodes

/-- The cycles that can be reached from the given nodes, each once.  A cycle is listed from the node
where it was first met, and each node is followed by its parent. -/
def cycles (g : Forest α) (nodes : List α) : List (List α) :=
  g.cyclesFrom [] nodes

end Forest

end LevelSchema
