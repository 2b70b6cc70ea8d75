/-!
# JSON as text

Values are written over several lines, with two blanks for each level. Empty lists and objects stand on
one line. Only quotes, backslashes and control characters are escaped.
-/

set_option autoImplicit false

namespace Heed

inductive JsonText where
  | number (value : Nat)
  | string (text : String)
  | list (items : List JsonText)
  | object (fields : List (String × JsonText))
deriving Inhabited, Repr

namespace JsonText

def hexDigit (value : Nat) : Char := (Nat.toDigits 16 value).getD 0 '0'

def escapeChar (char : Char) : List Char :=
  if char = '\x22' then ['\\', '\x22']
  else if char = '\\' then ['\\', '\\']
  else if char = '\n' then ['\\', 'n']
  else if char = '\r' then ['\\', 'r']
  else if char = '\t' then ['\\', 't']
  else if char = '\x08' then ['\\', 'b']
  else if char = '\x0c' then ['\\', 'f']
  else if char.toNat < 32 then
    ['\\', 'u', '0', '0', hexDigit (char.toNat / 16), hexDigit (char.toNat % 16)]
  else [char]

def quoted (text : String) : String :=
  String.ofList ('\x22' :: text.toList.flatMap escapeChar ++ ['\x22'])

def indent (depth : Nat) : String := String.ofList (List.replicate (2 * depth) ' ')

mutual

/-- A value whose first line is already indented. -/
def pretty (depth : Nat) : JsonText → String
  | .number value => toString value
  | .string text => quoted text
  | .list [] => "[]"
  | .list (item :: rest) =>
      "[\n" ++ indent (depth + 1) ++ pretty (depth + 1) item ++ prettyItems (depth + 1) rest ++
        "\n" ++ indent depth ++ "]"
  | .object [] => "\x7b\x7d"
  | .object ((name, value) :: rest) =>
      "\x7b\n" ++ indent (depth + 1) ++ quoted name ++ ": " ++ pretty (depth + 1) value ++
        prettyFields (depth + 1) rest ++ "\n" ++ indent depth ++ "\x7d"

def prettyItems (depth : Nat) : List JsonText → String
  | [] => ""
  | item :: rest => ",\n" ++ indent depth ++ pretty depth item ++ prettyItems depth rest

def prettyFields (depth : Nat) : List (String × JsonText) → String
  | [] => ""
  | (name, value) :: rest =>
      ",\n" ++ indent depth ++ quoted name ++ ": " ++ pretty depth value ++ prettyFields depth rest

end

def text (value : JsonText) : String := pretty 0 value

end JsonText

end Heed
