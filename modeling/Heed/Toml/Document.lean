import Heed.Toml.Text
import Heed.Toml.Value

/-!
# Documents

A document is a row of statements, each on lines of its own: a header that opens a table, a header that
opens one more table of an array, or a value under a key of the table that is open.
-/

set_option autoImplicit false

namespace Heed.Toml

open Scanner

/-- How deep values may be nested, and how many parts a dotted key may have. -/
def nestingLimit : Nat := 79

/-! ## Keys and values -/

structure KeyPath where
  parents : List String
  last : String

def isBareKey (char : Char) : Bool := char.isAlphanum || char == '-' || char == '_'

def bareKey : Scanner String := do
  let first ← satisfy isBareKey
  return String.ofList (first :: (← takeRun isBareKey))

def keyPart : Scanner String := do
  blanks
  let part ← either Text.key bareKey
  blanks
  return part

def keyPath : Scanner KeyPath := do
  let parts ← separated (expect '.') keyPart
  if parts.length ≤ nestingLimit then
    return { parents := parts.dropLast, last := parts.getLastD "" }
  else failure

def scalar : Scanner Value :=
  oneOf
    [.string <$> Text.string,
     (fun _ => .boolean true) <$> expectAll "true",
     (fun _ => .boolean false) <$> expectAll "false",
     .dateTime <$> DateTime.scan,
     .float <$> Number.real,
     .integer <$> Number.integer]

/-- An array. Newlines and comments may stand around its items, and a comma after the last. -/
def array (item : Scanner Value) : Scanner Value := do
  expect '['
  let spaced := do
    gap
    let value ← item
    gap
    return value
  let items ← perhaps (do
    let items ← separated (expect ',') spaced
    discard (perhaps (expect ','))
    return items)
  gap
  expect ']'
  return .array (items.getD [])

def keyValue (item : Scanner Value) : Scanner (KeyPath × Value) := do
  let key ← keyPath
  expect '='
  blanks
  return (key, ← item)

def inlineTable (item : Scanner Value) : Scanner Value := do
  expect '\x7b'
  let pair := do
    let pair ← keyValue item
    blanks
    return pair
  let pairs ← perhaps (separated (expect ',') pair)
  blanks
  expect '\x7d'
  let table ← ((pairs.getD []).foldlM (fun table (key, value) =>
    table.insert key.parents key.last value) Table.empty : Option Table)
  return table.toValue

def value : (levels : Nat) → Scanner Value
  | 0 => scalar
  | levels + 1 => oneOf [scalar, array (value levels), inlineTable (value levels)]

/-! ## Statements -/

inductive Statement where
  | blank
  | define (path : KeyPath)
  | append (path : KeyPath)
  | assign (path : KeyPath) (value : Value)

def define : Scanner Statement := do
  expect '['
  let path ← keyPath
  expect ']'
  lineTail
  return .define path

def append : Scanner Statement := do
  expectAll "[["
  let path ← keyPath
  expectAll "]]"
  lineTail
  return .append path

def assign : Scanner Statement := do
  let (path, value) ← keyValue (value nestingLimit)
  lineTail
  return .assign path value

def blank : Scanner Statement := do
  either newline (do comment; lineEnd)
  return .blank

def statement : Scanner Statement := do
  let statement ← oneOf [blank, append, define, assign]
  blanks
  return statement

def statements : Scanner (List Statement) := do
  discard (perhaps (expect '\ufeff'))
  blanks
  let statements ← many statement
  atEnd
  return statements

/-! ## Documents -/

/-- A document as far as it is read: all tables, and the path of the one that is open. -/
structure Document where
  root : Table
  path : List String

namespace Document

def step (document : Document) : Statement → Option Document
  | .blank => some document
  | .define path => do
      return { root := ← document.root.define path.parents path.last
               path := path.parents ++ [path.last] }
  | .append path => do
      return { root := ← document.root.append path.parents path.last
               path := path.parents ++ [path.last] }
  | .assign path value => do
      let root ← document.root.modify false
        (fun table => table.insert path.parents path.last value) document.path
      return { document with root }

def parse (text : String) : Option (List (String × Value)) := do
  let (statements, _) ← statements text.toList
  let document ← statements.foldlM step { root := Table.empty, path := [] }
  return document.root.finished

end Document

end Heed.Toml
