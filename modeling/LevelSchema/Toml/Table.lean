import LevelSchema.Settings.Value

/-!
# Building TOML tables

A document fills its tables statement by statement, and what may still be added to a table depends
on how it came about.

* A table with a **header** of its own has no second one.
* A table that is only **implied** by a longer header may still get its header.
* A table that a **dotted** key made or went through is filled by dotted keys, and gets no header.
* A value, also a table or an array written as a value, is **closed**.

A header reaches through any of these but a closed one, and through the newest table of an array.
-/

namespace LevelSchema.Toml

open Settings (Value)

/-- How a table came about. -/
inductive Origin
  | header
  | implied
  | dotted

/-- What a key stands for while the document is read.  The newest table of an array comes first. -/
inductive Node
  | closed (value : Value)
  | table (origin : Origin) (entries : List (String × Node))
  | tables (items : List (List (String × Node)))

/-- The entries of a table that is being filled. -/
abbrev Entries := List (String × Node)

/-- A key with the tables that lead to it. -/
structure Key where
  path : List String
  last : String

/-! ## Values -/

mutual

/-- The value that a node stands for. -/
def Node.toValue : Node → Value
  | .closed v => v
  | .table _ entries => .table (Node.entryValues entries)
  | .tables items => .array (Node.itemValues items).reverse

/-- The values of entries. -/
def Node.entryValues : List (String × Node) → List (String × Value)
  | [] => []
  | (key, node) :: rest => (key, node.toValue) :: Node.entryValues rest

/-- The values of the tables of an array. -/
def Node.itemValues : List (List (String × Node)) → List Value
  | [] => []
  | entries :: rest => .table (Node.entryValues entries) :: Node.itemValues rest

end

namespace Entries

/-- The table that the entries make. -/
def toValue (entries : Entries) : Value :=
  .table (Node.entryValues entries)

/-- Replace what a key stands for, or say what it stands for from now on. -/
def alter (key : String) (f : Option Node → Option Node) : Entries → Option Entries
  | [] => (f none).map fun node => [(key, node)]
  | (k, node) :: rest =>
      if k == key then (f (some node)).map fun node => (k, node) :: rest
      else (alter key f rest).map ((k, node) :: ·)

/-! ## Headers -/

/-- Work inside a table that a header goes through. -/
def throughHeader (f : Entries → Option Entries) : Option Node → Option Node
  | none => (f []).map (.table .implied)
  | some (.table origin entries) => (f entries).map (.table origin)
  | some (.tables (newest :: older)) => (f newest).map fun entries => .tables (entries :: older)
  | some _ => none

/-- Work inside the table at a path. -/
def within : List String → (Entries → Option Entries) → Entries → Option Entries
  | [], f => f
  | key :: path, f => alter key (throughHeader (within path f))

/-- Give a table its header. -/
def declare (key : Key) : Entries → Option Entries :=
  within key.path (alter key.last fun
    | none => some (.table .header [])
    | some (.table .implied entries) => some (.table .header entries)
    | some _ => none)

/-- Start a new table of an array. -/
def append (key : Key) : Entries → Option Entries :=
  within key.path (alter key.last fun
    | none => some (.tables [[]])
    | some (.tables items) => some (.tables ([] :: items))
    | some _ => none)

/-! ## Entries -/

/-- Work inside a table that a dotted key goes through.  A table of an array does not get the entry
itself. -/
def throughDotted (isLast : Bool) (f : Entries → Option Entries) : Option Node → Option Node
  | none => (f []).map (.table .dotted)
  | some (.table .dotted entries) => (f entries).map (.table .dotted)
  | some (.table .implied entries) => (f entries).map (.table .dotted)
  | some (.tables (newest :: older)) =>
      if isLast then none else (f newest).map fun entries => .tables (entries :: older)
  | some _ => none

/-- Give a new key its value. -/
def assign (last : String) (value : Value) : List String → Entries → Option Entries
  | [] =>
      alter last fun
        | none => some (.closed value)
        | some _ => none
  | key :: path => alter key (throughDotted path.isEmpty (assign last value path))

end Entries

/-! ## Statements -/

/-- A line of a document. -/
inductive Statement
  | entry (key : Key) (value : Value)
  | table (key : Key)
  | item (key : Key)

/-- A document up to some line: its tables, and the path of the one that is being filled. -/
structure Draft where
  current : List String
  root : Entries

/-- Go on with a statement. -/
def Draft.add (d : Draft) : Statement → Option Draft
  | .entry key value =>
      (Entries.within d.current (Entries.assign key.last value key.path) d.root).map
        fun root => { d with root }
  | .table key => (Entries.declare key d.root).map fun root => ⟨key.path ++ [key.last], root⟩
  | .item key => (Entries.append key d.root).map fun root => ⟨key.path ++ [key.last], root⟩

/-- The table that the statements of a document describe. -/
def tableOf (statements : List Statement) : Option Value :=
  (statements.foldlM Draft.add ⟨[], []⟩).map fun d => d.root.toValue

end LevelSchema.Toml
