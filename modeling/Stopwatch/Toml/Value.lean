/-!
# Document values

The values of a configuration document. Of floating-point numbers and of dates and times only the fact
is kept, since no setting takes one. A table is a list of entries in the order in which they were made.
-/

namespace Stopwatch

/-- A value of a document. -/
inductive Value where
  | null
  | bool (value : Bool)
  | int (value : Int)
  | float
  | moment
  | str (value : String)
  | array (values : List Value)
  | table (entries : List (String × Value))
  deriving Inhabited

/-- The entries of a table. -/
abbrev Table := List (String × Value)

namespace Table

/-- The value under a key. -/
def get? (t : Table) (key : String) : Option Value := (t.find? fun e => e.1 == key).map Prod.snd

/-- The table with the value under a key that it has exchanged. -/
def replace (t : Table) (key : String) (v : Value) : Table :=
  t.map fun e => if e.1 == key then (key, v) else e

/-- The keys of a table, in code order. -/
def sortedKeys (t : Table) : List String := (t.map Prod.fst).mergeSort fun a b => decide (a ≤ b)

/-- Change the table at a path, and make the tables on the way that are missing. With `intoLists` the
path goes on in the last table of a list of tables. -/
def updateAt (intoLists : Bool) : List String → (Table → Option Table) → Table → Option Table
  | [], f, t => f t
  | k :: ks, f, t =>
    match t.get? k with
    | none => (updateAt intoLists ks f []).map fun inner => t ++ [(k, .table inner)]
    | some (.table inner) => (updateAt intoLists ks f inner).map fun inner => t.replace k (.table inner)
    | some (.array vs) =>
      match intoLists, vs.getLast? with
      | true, some (.table inner) =>
        (updateAt intoLists ks f inner).map fun inner =>
          t.replace k (.array (vs.dropLast ++ [.table inner]))
      | _, _ => none
    | some _ => none

/-- Add an entry under a key that is not there yet. -/
def addNew (key : String) (v : Value) (t : Table) : Option Table :=
  if (t.get? key).isSome then none else some (t ++ [(key, v)])

/-- Add an empty table to the list of tables under a key. -/
def addToList (key : String) (t : Table) : Option Table :=
  match t.get? key with
  | none => some (t ++ [(key, .array [.table []])])
  | some (.array vs) => some (t.replace key (.array (vs ++ [.table []])))
  | some _ => none

end Table

end Stopwatch
