/-!
# Quoted strings

A string stands between two equal quotes: `"`, `'` or a backtick. Its body is a row of units. A unit is a
backslash with the character behind it, which is no line feed, or a plain character, which is neither the
quote nor a backslash. A plain line feed is a unit only between backticks.
-/

set_option autoImplicit false

namespace Heed.Token.Quoted

def doubleQuote : Char := '\x22'

def singleQuote : Char := '\x27'

def backtick : Char := '\x60'

def isQuote (char : Char) : Bool :=
  char == doubleQuote || char == singleQuote || char == backtick

def isPlain (quote char : Char) : Bool :=
  char != quote && char != '\\' && (char != '\n' || quote == backtick)

/-- The length of the longest row of units at the head of a text. -/
def unitsLength (quote : Char) : List Char → Nat
  | [] => 0
  | [char] => if isPlain quote char then 1 else 0
  | char :: next :: rest =>
      if isPlain quote char then 1 + unitsLength quote (next :: rest)
      else if char = '\\' ∧ next ≠ '\n' then 2 + unitsLength quote rest
      else 0

def unescapeChar (char : Char) : Char :=
  if char = 'n' then '\n' else if char = 'r' then '\r' else if char = 't' then '\t' else char

def decode : List Char → List Char
  | [] => []
  | [char] => [char]
  | char :: next :: rest =>
      if char = '\\' then unescapeChar next :: decode rest
      else char :: decode (next :: rest)

end Heed.Token.Quoted
