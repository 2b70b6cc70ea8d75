import Heed.Number.Shortest
import Heed.Source.Position

/-!
# Tokens

A source is a row of reserved words, symbols, numbers, quoted strings, names and newlines. Words such as
`type` or `async` that are reserved only in some places are names.
-/

set_option autoImplicit false

namespace Heed

inductive Keyword where
  | const_ | let_ | var_ | function_ | class_ | return_ | if_ | else_ | while_ | for_ | new_
  | await_ | throw_ | true_ | false_ | null_ | this_
deriving DecidableEq, Repr

namespace Keyword

def all : List Keyword :=
  [const_, let_, var_, function_, class_, return_, if_, else_, while_, for_, new_, await_, throw_,
    true_, false_, null_, this_]

def text : Keyword → String
  | const_ => "const"
  | let_ => "let"
  | var_ => "var"
  | function_ => "function"
  | class_ => "class"
  | return_ => "return"
  | if_ => "if"
  | else_ => "else"
  | while_ => "while"
  | for_ => "for"
  | new_ => "new"
  | await_ => "await"
  | throw_ => "throw"
  | true_ => "true"
  | false_ => "false"
  | null_ => "null"
  | this_ => "this"

def ofText? (text : String) : Option Keyword := all.find? (·.text == text)

end Keyword

inductive Symbol where
  | strictEq | strictNe | spread
  | looseEq | looseNe | atMost | atLeast | and | or | nullish | increment | decrement | addAssign
  | subAssign | arrow | optionalDot
  | less | greater | amp | pipe | bang | plus | minus | star | slash | percent | assign | question
  | parenOpen | parenClose | braceOpen | braceClose | bracketOpen | bracketClose | comma | colon
  | semicolon | dot
deriving DecidableEq, Repr

namespace Symbol

/-- All symbols, longer ones first. -/
def all : List Symbol :=
  [strictEq, strictNe, spread, looseEq, looseNe, atMost, atLeast, and, or, nullish, increment,
    decrement, addAssign, subAssign, arrow, optionalDot, less, greater, amp, pipe, bang, plus, minus,
    star, slash, percent, assign, question, parenOpen, parenClose, braceOpen, braceClose, bracketOpen,
    bracketClose, comma, colon, semicolon, dot]

def text : Symbol → String
  | strictEq => "==="
  | strictNe => "!=="
  | spread => "..."
  | looseEq => "=="
  | looseNe => "!="
  | atMost => "<="
  | atLeast => ">="
  | and => "&&"
  | or => "||"
  | nullish => "??"
  | increment => "++"
  | decrement => "--"
  | addAssign => "+="
  | subAssign => "-="
  | arrow => "=>"
  | optionalDot => "?."
  | less => "<"
  | greater => ">"
  | amp => "&"
  | pipe => "|"
  | bang => "!"
  | plus => "+"
  | minus => "-"
  | star => "*"
  | slash => "/"
  | percent => "%"
  | assign => "="
  | question => "?"
  | parenOpen => "("
  | parenClose => ")"
  | braceOpen => "\x7b"
  | braceClose => "\x7d"
  | bracketOpen => "["
  | bracketClose => "]"
  | comma => ","
  | colon => ":"
  | semicolon => ";"
  | dot => "."

def atHead? (chars : List Char) : Option Symbol :=
  all.find? fun symbol => symbol.text.toList.isPrefixOf chars

end Symbol

namespace Token

inductive Kind where
  | keyword (word : Keyword)
  | symbol (sign : Symbol)
  | number (value : Binary64)
  | string (value : String)
  | name (text : String)
  | newline
deriving DecidableEq, Repr

def Kind.description : Kind → String
  | .keyword word => word.text
  | .symbol sign => sign.text
  | .number value => value.text
  | .string value => "\"" ++ value ++ "\""
  | .name _ => "identifier"
  | .newline => "newline"

end Token

structure Token where
  kind : Token.Kind
  span : Span
  text : String
deriving DecidableEq, Repr

namespace Token

def isNewline (token : Token) : Bool := token.kind == .newline

def isName (token : Token) : Bool :=
  match token.kind with
  | .name _ => true
  | _ => false

def isWord (token : Token) (word : String) : Bool := token.kind == .name word

end Token

end Heed
