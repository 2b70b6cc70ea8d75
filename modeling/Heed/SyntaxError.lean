import Heed.Token.Basic

/-!
# Why a text cannot be read

A text is refused with one cause at one span. The wording of each cause is `message`.
-/

set_option autoImplicit false

namespace Heed

inductive Expectation where
  | symbol (sign : Symbol)
  | keyword (word : Keyword)
  | number
  | identifier
  | propertyName
  | statement
  | declaration
  | binding
  | expression
  | typeSyntax
  | closingBrace
  | colonSign
  | caseOrDefault
  | catchOrFinally
deriving DecidableEq, Repr

def Expectation.text : Expectation → String
  | .symbol sign => sign.text
  | .keyword word => word.text
  | .number => "0"
  | .identifier => "identifier"
  | .propertyName => "property name"
  | .statement => "statement"
  | .declaration => "declaration"
  | .binding => "binding"
  | .expression => "expression"
  | .typeSyntax => "type"
  | .closingBrace => "'\x7d'"
  | .colonSign => "':'"
  | .caseOrDefault => "'case' or 'default'"
  | .catchOrFinally => "'catch' or 'finally'"

namespace SyntaxError

inductive Cause where
  /-- No token starts with this text. -/
  | unexpectedText (text : String)
  | unterminatedComment
  /-- Another token, or the end of the text, stands where something else is needed. -/
  | expected (what : Expectation) (found : Option Token.Kind)
  /-- The reader was given fewer steps than the text has tokens. -/
  | budgetExceeded
  /-- A node was asked for that was never built, or a group closed that was never opened. -/
  | outOfRange
deriving DecidableEq, Repr

def Cause.message : Cause → String
  | .unexpectedText text => "unexpected character '" ++ text ++ "'"
  | .unterminatedComment => "unterminated block comment"
  | .expected what (some found) => "expected " ++ what.text ++ ", found " ++ found.description
  | .expected what none => "expected " ++ what.text ++ ", found end of file"
  | .budgetExceeded => "nested too deeply"
  | .outOfRange => "out of range"

/-- Whether the reader is to blame and not the text. -/
def Cause.isFault : Cause → Bool
  | .budgetExceeded | .outOfRange => true
  | _ => false

end SyntaxError

structure SyntaxError where
  cause : SyntaxError.Cause
  span : Span
deriving DecidableEq, Repr

def SyntaxError.message (error : SyntaxError) : String := error.cause.message

end Heed
