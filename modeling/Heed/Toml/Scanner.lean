/-!
# Scanning characters

A scanner takes characters from the head of a text or fails. Repetition stops where nothing more is
taken, so the length of the text bounds it.
-/

set_option autoImplicit false

namespace Heed.Toml

abbrev Scanner := StateT (List Char) Option

namespace Scanner

variable {α : Type}

def next? : Scanner (Option Char) := fun chars => some (chars.head?, chars)

def satisfy (accepts : Char → Bool) : Scanner Char := fun chars =>
  match chars with
  | [] => none
  | char :: rest => if accepts char then some (char, rest) else none

def expect (char : Char) : Scanner Unit := discard (satisfy (· == char))

def expectAll (text : String) : Scanner Unit := text.toList.forM expect

def takeRun (accepts : Char → Bool) : Scanner (List Char) := fun chars =>
  some (chars.takeWhile accepts, chars.dropWhile accepts)

def atEnd : Scanner Unit := fun chars => if chars.isEmpty then some ((), chars) else none

def either (first second : Scanner α) : Scanner α := fun chars =>
  match first chars with
  | some result => some result
  | none => second chars

def oneOf (scanners : List (Scanner α)) : Scanner α :=
  scanners.foldr either (fun _ => none)

def perhaps (scanner : Scanner α) : Scanner (Option α) :=
  either (some <$> scanner) (pure none)

def repeatWithin (item : Scanner α) : (bound : Nat) → Scanner (List α)
  | 0 => pure []
  | bound + 1 => fun chars =>
      match item chars with
      | none => some ([], chars)
      | some (value, rest) =>
          if rest.length < chars.length then
            (repeatWithin item bound rest).map fun (values, rest) => (value :: values, rest)
          else some ([], chars)

def many (item : Scanner α) : Scanner (List α) := fun chars => repeatWithin item chars.length chars

def separated (separator : Scanner Unit) (item : Scanner α) : Scanner (List α) := do
  let first ← item
  let rest ← many (do separator; item)
  return first :: rest

/-! ## Blanks, comments and line ends -/

def isBlank (char : Char) : Bool := char == ' ' || char == '\t'

def blanks : Scanner Unit := discard (takeRun isBlank)

def newline : Scanner Unit := either (expect '\n') (expectAll "\r\n")

/-- Whether a character may stand in a comment: no control character but the tab may. -/
def isPrintable (char : Char) : Bool :=
  char == '\t' || (' ' ≤ char && char ≤ '~') || '\u0080' ≤ char

def comment : Scanner Unit := do
  expect '#'
  discard (takeRun isPrintable)

def lineEnd : Scanner Unit := either newline atEnd

def lineTail : Scanner Unit := do
  blanks
  discard (perhaps comment)
  lineEnd

/-- Blanks, comments and newlines, as they may stand between the items of an array. -/
def gap : Scanner Unit := discard (many (oneOf [discard (satisfy isBlank), newline, comment]))

/-! ## Digits -/

def isDecimal (char : Char) : Bool := '0' ≤ char && char ≤ '9'

def isHexadecimal (char : Char) : Bool :=
  isDecimal char || ('a' ≤ char && char ≤ 'f') || ('A' ≤ char && char ≤ 'F')

def digitValue (char : Char) : Nat :=
  if isDecimal char then char.toNat - '0'.toNat
  else if 'a' ≤ char then char.toNat - 'a'.toNat + 10
  else char.toNat - 'A'.toNat + 10

def numeral (base : Nat) (digits : List Char) : Nat :=
  digits.foldl (fun value digit => base * value + digitValue digit) 0

def digits (accepts : Char → Bool) (count : Nat) : Scanner (List Char) :=
  (List.replicate count ()).mapM fun _ => satisfy accepts

def digitGroups (accepts : Char → Bool) : Scanner (List Char) := do
  let first ← satisfy accepts
  let rest ← many (do discard (perhaps (expect '_')); satisfy accepts)
  return first :: rest

end Scanner

end Heed.Toml
