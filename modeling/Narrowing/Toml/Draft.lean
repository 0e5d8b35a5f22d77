import Narrowing.Toml.Datum

/-!
Tables under construction. The lines of a document may add to a table from several places, within
rules that depend on how the table came about:

* a table with a header of its own, or an element of an array of tables, is never opened by a
  second header, and no dotted key reaches into it from outside;
* a table that a longer header implies may still get its own header, once;
* a table that a dotted key made takes further dotted keys, and subtables by header, but no
  header of its own.
-/
namespace Narrowing.Toml

inductive Origin where
  | header
  | implied
  | dotted
  deriving DecidableEq, Repr

/-- What stands under a key so far: a finished value, a table, or an array of tables. -/
inductive Node where
  | leaf (d : Datum)
  | table (origin : Origin) (entries : List (String × Node))
  | tables (items : List (List (String × Node)))

abbrev Draft := List (String × Node)

mutual

def Node.datum : Node → Datum
  | .leaf d => d
  | .table _ entries => .table (Node.fields entries)
  | .tables items => .array (Node.elements items)

def Node.fields : List (String × Node) → List (String × Datum)
  | [] => []
  | (key, node) :: rest => (key, node.datum) :: Node.fields rest

def Node.elements : List (List (String × Node)) → List Datum
  | [] => []
  | entries :: rest => .table (Node.fields entries) :: Node.elements rest

end

namespace Draft

def replace (d : Draft) (key : String) (node : Node) : Draft :=
  d.map fun entry => if entry.1 = key then (key, node) else entry

/-- Changes the table at the end of a path, making the missing tables on the way as `making`
    says. The last element stands for an array of tables. A dotted path does not enter a table
    that has a header. -/
def modify (making : Origin) (change : Origin → Draft → Option Draft) :
    (origin : Origin) → (path : List String) → Draft → Option Draft
  | origin, [], d => change origin d
  | _, key :: path, d =>
    match d.lookup key with
    | none => do
      let inner ← modify making change making path []
      return d ++ [(key, .table making inner)]
    | some (.leaf _) => none
    | some (.table origin entries) => do
      if making = .dotted && origin = .header then none
      let inner ← modify making change origin path entries
      return d.replace key (.table origin inner)
    | some (.tables items) => do
      let last ← items.getLast?
      let inner ← modify making change .header path last
      return d.replace key (.tables (items.dropLast ++ [inner]))

def insert (d : Draft) (key : String) (value : Datum) : Option Draft :=
  if (d.lookup key).isSome then none else some (d ++ [(key, .leaf value)])

/-- Adds a value under a dotted key. The table it ends in has to be one that dotted keys made,
    unless the key has one part only. -/
def assign (d : Draft) (path : List String) (key : String) (value : Datum) : Option Draft :=
  if path = [] then d.insert key value
  else
    d.modify .dotted
      (fun origin inner => if origin = .dotted then insert inner key value else none)
      .header path

def openTable (d : Draft) (path : List String) (key : String) : Option Draft :=
  d.modify .implied
    (fun _ parent =>
      match parent.lookup key with
      | none => some (parent ++ [(key, .table .header [])])
      | some (.table .implied entries) => some (replace parent key (.table .header entries))
      | some _ => none)
    .header path

def openElement (d : Draft) (path : List String) (key : String) : Option Draft :=
  d.modify .implied
    (fun _ parent =>
      match parent.lookup key with
      | none => some (parent ++ [(key, .tables [[]])])
      | some (.tables items) => some (replace parent key (.tables (items ++ [[]])))
      | some _ => none)
    .header path

def assignWithin (d : Draft) (header path : List String) (key : String) (value : Datum) :
    Option Draft :=
  d.modify .implied (fun _ table => assign table path key value) .header header

end Draft

end Narrowing.Toml
