import Heed.SyntaxError
import Heed.Token.Quoted

/-!
# From text to tokens

The scanner takes the longest token at the head of the text, again and again. Blanks and comments
separate tokens and are dropped, except that a block comment that contains a line feed counts as a
newline. `step` looks at a text that starts with a given character and says how many of the following
characters belong to what stands there.
-/

set_option autoImplicit false

namespace Heed.Token

def isBlank (char : Char) : Bool :=
  char == ' ' || char == '\t' || char == '\r' || char == '\x0c'

def isDigit (char : Char) : Bool := '0' ≤ char && char ≤ '9'

def isDigitOrUnderscore (char : Char) : Bool := isDigit char || char == '_'

def isNameStart (char : Char) : Bool :=
  ('a' ≤ char && char ≤ 'z') || ('A' ≤ char && char ≤ 'Z') || char == '_' || char == '$'

def isNamePart (char : Char) : Bool := isNameStart char || isDigit char

def runLength (test : Char → Bool) (chars : List Char) : Nat := (chars.takeWhile test).length

/-- The length of a fraction, with its point, at the head of a text; zero when there is none. -/
def fractionLength : List Char → Nat
  | '.' :: digit :: rest =>
      if isDigit digit then 2 + runLength isDigitOrUnderscore rest else 0
  | _ => 0

def numberLength (rest : List Char) : Nat :=
  let whole := runLength isDigitOrUnderscore rest
  whole + fractionLength (rest.drop whole)

/-- The length of the text up to and with the first `*/`. -/
def commentLength? : List Char → Option Nat
  | [] => none
  | [_] => none
  | first :: second :: rest =>
      if first = '*' ∧ second = '/' then some 2
      else (commentLength? (second :: rest)).map (· + 1)

def wordKind (text : String) : Kind :=
  match Keyword.ofText? text with
  | some word => .keyword word
  | none => .name text

/-- What stands at the head of a text, with the number of characters behind the first one. -/
inductive Step where
  | skip (length : Nat)
  | token (kind : Kind) (length : Nat)
  | refuse (cause : SyntaxError.Cause) (length : Nat)

def quotedStep (quote : Char) (rest : List Char) : Step :=
  let units := Quoted.unitsLength quote rest
  if (rest.drop units).head? = some quote then
    .token (.string (String.ofList (Quoted.decode (rest.take units)))) (units + 1)
  else
    .refuse (.unexpectedText (String.ofList (quote :: rest.take units))) units

/-- The comment that starts with `/*`, which is given without its slash. -/
def commentStep (rest : List Char) : Step :=
  match commentLength? (rest.drop 1) with
  | none => .refuse .unterminatedComment 1
  | some length =>
      if (rest.take (1 + length)).contains '\n' then .token .newline (1 + length)
      else .skip (1 + length)

def symbolStep (char : Char) (rest : List Char) : Step :=
  match Symbol.atHead? (char :: rest) with
  | some symbol => .token (.symbol symbol) (symbol.text.length - 1)
  | none => .refuse (.unexpectedText (String.singleton char)) 0

def step (char : Char) (rest : List Char) : Step :=
  if isBlank char then .skip (runLength isBlank rest)
  else if char = '\n' then .token .newline (runLength (· == '\n') rest)
  else if isNameStart char then
    let length := runLength isNamePart rest
    .token (wordKind (String.ofList (char :: rest.take length))) length
  else if isDigit char then
    let length := numberLength rest
    .token (.number (Binary64.ofChars (char :: rest.take length))) length
  else if Quoted.isQuote char then quotedStep char rest
  else if char = '/' ∧ rest.head? = some '/' then .skip (runLength (· != '\n') rest)
  else if char = '/' ∧ rest.head? = some '*' then commentStep rest
  else symbolStep char rest

def scanFrom (start : Nat) : List Char → Except SyntaxError (List Token)
  | [] => .ok []
  | char :: rest =>
      match step char rest with
      | .skip length =>
          scanFrom (start + byteLength (char :: rest.take length)) (rest.drop length)
      | .token kind length =>
          let chars := char :: rest.take length
          let stop := start + byteLength chars
          match scanFrom stop (rest.drop length) with
          | .ok tokens => .ok (⟨kind, ⟨start, stop⟩, String.ofList chars⟩ :: tokens)
          | .error error => .error error
      | .refuse cause length =>
          .error ⟨cause, ⟨start, start + byteLength (char :: rest.take length)⟩⟩
termination_by chars => chars.length
decreasing_by all_goals simp only [List.length_cons, List.length_drop]; omega

def scan (source : String) : Except SyntaxError (List Token) := scanFrom 0 source.toList

end Heed.Token
