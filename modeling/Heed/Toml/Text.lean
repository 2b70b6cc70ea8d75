import Heed.Toml.Scanner

/-!
# Strings

Basic strings know escapes, literal strings do not. Both may span lines when they stand between triple
quotes; then a newline right after the opening is dropped, other newlines are line feeds, and up to two
quotes may stand before the closing ones.
-/

set_option autoImplicit false

namespace Heed.Toml.Text

open Scanner

def quote : Char := '\x22'

def apostrophe : Char := '\x27'

def isBasic (char : Char) : Bool := isPrintable char && char != quote && char != '\\'

def isLiteral (char : Char) : Bool := isPrintable char && char != apostrophe

def codePoint (count : Nat) : Scanner Char := do
  let code := numeral 16 (← digits isHexadecimal count)
  if code.isValidChar then return Char.ofNat code else failure

def escape : Scanner Char := do
  expect '\\'
  match ← satisfy (fun _ => true) with
  | 'b' => return '\x08'
  | 't' => return '\t'
  | 'n' => return '\n'
  | 'f' => return '\x0c'
  | 'r' => return '\r'
  | '\\' => return '\\'
  | 'u' => codePoint 4
  | 'U' => codePoint 8
  | char => if char == quote then return quote else failure

/-- A backslash at the end of a line: the newline and all blanks and newlines after it are dropped. -/
def continuation : Scanner Unit := do
  expect '\\'
  blanks
  newline
  discard (many (either (discard (satisfy isBlank)) newline))

/-- One or two quotes that do not close a string between triple quotes. -/
def looseQuotes (mark : Char) : Scanner (List Char) := fun chars =>
  let run := chars.takeWhile (· == mark)
  if 0 < run.length ∧ run.length < 3 then some (run, chars.drop run.length) else none

/-- The closing triple quotes, with the quotes before them that belong to the string. -/
def closing (mark : Char) : Scanner (List Char) := fun chars =>
  let count := (chars.takeWhile (· == mark)).length
  if count < 3 then none
  else
    let extra := min (count - 3) 2
    some (List.replicate extra mark, chars.drop (extra + 3))

def multiline (mark : Char) (piece : Scanner (List Char)) : Scanner (List Char) := do
  expectAll (String.ofList [mark, mark, mark])
  discard (perhaps newline)
  let pieces ← many (oneOf [piece, (fun _ => ['\n']) <$> newline, looseQuotes mark])
  let last ← closing mark
  return pieces.flatten ++ last

def oneLine (mark : Char) (piece : Scanner Char) : Scanner (List Char) := do
  expect mark
  let chars ← many piece
  expect mark
  return chars

def basic : Scanner (List Char) := oneLine quote (either (satisfy isBasic) escape)

def literal : Scanner (List Char) := oneLine apostrophe (satisfy isLiteral)

def multilineBasic : Scanner (List Char) :=
  multiline quote (oneOf [List.singleton <$> satisfy isBasic, (fun _ => []) <$> continuation,
    List.singleton <$> escape])

def multilineLiteral : Scanner (List Char) :=
  multiline apostrophe (List.singleton <$> satisfy isLiteral)

def string : Scanner String :=
  String.ofList <$> oneOf [multilineBasic, basic, multilineLiteral, literal]

def key : Scanner String := String.ofList <$> either basic literal

end Heed.Toml.Text
