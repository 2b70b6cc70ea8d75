import Heed.Association
import Heed.Toml.DateTime
import Heed.Toml.Number

/-!
# Values and tables

A table under construction remembers how it came about. A table that only stands above a header, or in
front of a dotted key, is implied; one that dotted keys made is dotted. A header may define an implied
table that is not dotted, once. Dotted keys may extend implied tables only, and an entry may be added
directly only to a table that was made the same way: by a header or by dotted keys. Entries stand in the
order in which they came, where a table that was implied comes with its header.
-/

set_option autoImplicit false

namespace Heed.Toml

inductive Value where
  | string (text : String)
  | integer (number : Int)
  | float (number : FloatLiteral)
  | boolean (value : Bool)
  | dateTime (value : DateTime)
  | array (items : List Value)
  | table (entries : List (String × Value))
deriving Inhabited, Repr

mutual

inductive Entry where
  | value (value : Value)
  | table (table : Table)
  /-- The tables of an array of tables, the latest first. -/
  | tables (latest : Table) (earlier : List Table)

inductive Table where
  | mk (implied dotted : Bool) (entries : List (String × Entry))

end

namespace Table

def implied : Table → Bool
  | .mk implied _ _ => implied

def dotted : Table → Bool
  | .mk _ dotted _ => dotted

def entries : Table → List (String × Entry)
  | .mk _ _ entries => entries

def empty : Table := .mk false false []

def find? (table : Table) (key : String) : Option Entry := table.entries.lookup key

def set (table : Table) (key : String) (entry : Entry) : Table :=
  .mk table.implied table.dotted (upsert key (fun _ => entry) table.entries)

def putLast (table : Table) (key : String) (entry : Entry) : Table :=
  .mk table.implied table.dotted (table.entries.filter (·.1 != key) ++ [(key, entry)])

/-- Changes the table at the end of a path. Tables that are missing on the way are implied. -/
def modify (byDots : Bool) (change : Table → Option Table) : List String → Table → Option Table
  | [], table => change table
  | key :: path, table => do
      let entry ← match table.find? key with
        | none => .table <$> modify byDots change path (.mk true byDots [])
        | some (.value _) => none
        | some (.tables latest earlier) =>
            (.tables · earlier) <$> modify byDots change path latest
        | some (.table inner) =>
            if byDots && !inner.implied then none
            else .table <$> modify byDots change path inner
      return table.set key entry

def insert (table : Table) (path : List String) (key : String) (value : Value) : Option Table :=
  table.modify true (fun inner =>
    if inner.dotted == path.isEmpty || (inner.find? key).isSome then none
    else some (inner.set key (.value value))) path

def define (table : Table) (path : List String) (key : String) : Option Table :=
  table.modify false (fun parent =>
    match parent.find? key with
    | none => some (parent.set key (.table empty))
    | some (.table inner) =>
        if inner.implied && !inner.dotted then
          some (parent.putLast key (.table (.mk false false inner.entries)))
        else none
    | some _ => none) path

/-- Opens one more table of the array of tables that a header names. -/
def append (table : Table) (path : List String) (key : String) : Option Table :=
  table.modify false (fun parent =>
    match parent.find? key with
    | none => some (parent.set key (.tables empty []))
    | some (.tables latest earlier) => some (parent.set key (.tables empty (latest :: earlier)))
    | some _ => none) path

end Table

mutual

def Entry.toValue : Entry → Value
  | .value value => value
  | .table table => table.toValue
  | .tables latest earlier => .array (Table.toValues earlier [latest.toValue])

def Table.toValue : Table → Value
  | .mk _ _ entries => .table (Entry.toValues entries)

/-- The tables of an array, given with the latest first, in front of `later` ones. -/
def Table.toValues : List Table → List Value → List Value
  | [], later => later
  | table :: earlier, later => Table.toValues earlier (table.toValue :: later)

def Entry.toValues : List (String × Entry) → List (String × Value)
  | [] => []
  | (key, entry) :: rest => (key, entry.toValue) :: Entry.toValues rest

end

def Table.finished (table : Table) : List (String × Value) := Entry.toValues table.entries

end Heed.Toml
