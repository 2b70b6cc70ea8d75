import Heed.Toml.Value

/-!
# Marked tables

A date or time may also be given as a table that is marked: its first key is `dateTimeKey`, with the text
of the date or time under it. Whatever else the table holds is not looked at. A table with the mark behind
another key is a plain table.
-/

set_option autoImplicit false

namespace Heed.Toml

def dateTimeKey : String := "$__toml_private_datetime"

namespace Value

def spelledDateTime? : Value → Option Value
  | .string text => .dateTime <$> DateTime.ofText? text
  | _ => none

mutual

/-- A value with all marked tables in it read as dates and times. There is none if the text in one of them
is no date or time. -/
def unmark? : Value → Option Value
  | .array items => .array <$> unmarkAll? items
  | .table [] => some (.table [])
  | .table ((key, value) :: rest) =>
      if key = dateTimeKey then value.spelledDateTime?
      else do
        let value ← unmark? value
        let rest ← unmarkEntries? rest
        return .table ((key, value) :: rest)
  | value => some value

def unmarkAll? : List Value → Option (List Value)
  | [] => some []
  | value :: rest => do
      let value ← unmark? value
      let rest ← unmarkAll? rest
      return value :: rest

def unmarkEntries? : List (String × Value) → Option (List (String × Value))
  | [] => some []
  | (key, value) :: rest => do
      let value ← unmark? value
      let rest ← unmarkEntries? rest
      return (key, value) :: rest

end

end Value

end Heed.Toml
