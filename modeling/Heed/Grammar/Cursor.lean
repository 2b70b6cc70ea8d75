import Heed.SyntaxError

/-!
# Reading tokens

A cursor stands before the tokens that are still to be read. Newlines are skipped unless a rule of the
grammar asks for the very next token. A `Reader` takes tokens from a cursor or fails.

Loops are run by two combinators, `collect` and `grow`. Each turn of a loop takes at least one token, so
the number of tokens ahead bounds the number of turns.
-/

set_option autoImplicit false

namespace Heed

namespace Token

def isSymbol (token : Token) (sign : Symbol) : Bool := token.kind == .symbol sign

def isKeyword (token : Token) (word : Keyword) : Bool := token.kind == .keyword word

end Token

structure Cursor where
  /-- The tokens still to be read. -/
  rest : List Token
  /-- Where the last token taken ends, newlines aside. -/
  lastEnd : Nat
  /-- Where the last token of the source ends. -/
  sourceEnd : Nat
deriving Repr

namespace Cursor

def ofTokens (tokens : List Token) : Cursor :=
  { rest := tokens
    lastEnd := 0
    sourceEnd := match tokens.getLast? with
      | some token => token.span.stop
      | none => 0 }

/-- The tokens ahead without leading newlines. -/
def significant (cursor : Cursor) : List Token := cursor.rest.dropWhile Token.isNewline

def peek? (cursor : Cursor) : Option Token := cursor.significant.head?

/-- The token behind `n` others, newlines not counted. -/
def nthOf : Nat → List Token → Option Token
  | _, [] => none
  | n, token :: rest =>
      if token.isNewline then nthOf n rest
      else match n with
        | 0 => some token
        | n + 1 => nthOf n rest

def advance (cursor : Cursor) : Cursor :=
  match cursor.significant with
  | [] => { cursor with rest := [] }
  | token :: rest => { cursor with rest, lastEnd := token.span.stop }

def advanceRaw (cursor : Cursor) : Cursor :=
  match cursor.rest with
  | [] => cursor
  | token :: rest =>
      { cursor with rest, lastEnd := if token.isNewline then cursor.lastEnd else token.span.stop }

inductive Closing where
  /-- The sign that closes the group, and what stands behind it. -/
  | found (token : Token) (behind : List Token)
  /-- The tokens end before the group does. -/
  | missing
  /-- A sign closes a group where none is open. -/
  | underflow
deriving Repr

/-- The end of a group with `depth` groups open. -/
def closeGroup (openSign closeSign : Symbol) : Nat → List Token → Closing
  | _, [] => .missing
  | depth, token :: rest =>
      if token.isSymbol openSign then closeGroup openSign closeSign (depth + 1) rest
      else if token.isSymbol closeSign then
        match depth with
        | 0 => .underflow
        | 1 => .found token rest
        | depth + 2 => closeGroup openSign closeSign (depth + 1) rest
      else closeGroup openSign closeSign depth rest

end Cursor

abbrev Reader := StateT Cursor (Except SyntaxError)

namespace Reader

def peek : Reader (Option Token) := return (← get).peek?

def nextIs (test : Token → Bool) : Reader Bool := return (← peek).any test

def nthIs (n : Nat) (test : Token → Bool) : Reader Bool :=
  return (Cursor.nthOf n (← get).rest).any test

def rawIs (test : Token → Bool) : Reader Bool := return (← get).rest.head?.any test

def check (sign : Symbol) : Reader Bool := nextIs (·.isSymbol sign)

def checkWord (word : Keyword) : Reader Bool := nextIs (·.isKeyword word)

def checkText (text : String) : Reader Bool := nextIs (·.isWord text)

def checkName : Reader Bool := nextIs Token.isName

def atEnd : Reader Bool := return (← peek).isNone

def bump : Reader Unit := modify Cursor.advance

/-- Takes the next token if it is this sign, and says whether it was. -/
def eat (sign : Symbol) : Reader Bool := do
  if ← check sign then
    bump
    return true
  else
    return false

def eatWord (word : Keyword) : Reader Bool := do
  if ← checkWord word then
    bump
    return true
  else
    return false

def lastEnd : Reader Nat := return (← get).lastEnd

/-- Where the next token starts, or zero at the end. -/
def nextStart : Reader Nat := return ((← peek).map (·.span.start)).getD 0

def remaining : Reader Nat := return (← get).rest.length

def unexpected {α : Type} (what : Expectation) : Reader α := do
  match ← peek with
  | some token => throw ⟨.expected what (some token.kind), token.span⟩
  | none => throw ⟨.expected what none, .point (← get).sourceEnd⟩

def outOfRange {α : Type} : Reader α := do
  throw ⟨.outOfRange, .point (← get).sourceEnd⟩

def expectThat (what : Expectation) (test : Token → Bool) : Reader Token := do
  match ← peek with
  | some token =>
      if test token then
        bump
        return token
      else
        unexpected what
  | none => unexpected what

def expect (sign : Symbol) : Reader Span :=
  return (← expectThat (.symbol sign) (·.isSymbol sign)).span

def expectWord (word : Keyword) : Reader Span :=
  return (← expectThat (.keyword word) (·.isKeyword word)).span

def expectName : Reader (String × Span) := do
  let token ← expectThat .identifier Token.isName
  return (token.text, token.span)

/-- The name that a token gives to a member: names, reserved words, strings and numbers do. -/
def propertyName? (token : Token) : Option String :=
  match token.kind with
  | .name text => some text
  | .string value => some value
  | .number _ => some token.text
  | .keyword word => some word.text
  | .symbol _ => none
  | .newline => none

def expectPropertyName : Reader (String × Span) := do
  let token ← expectThat .propertyName fun token => (propertyName? token).isSome
  return ((propertyName? token).getD "", token.span)

def skipBalanced (openSign closeSign : Symbol) : Reader Unit := do
  let _ ← expect openSign
  let cursor ← get
  match Cursor.closeGroup openSign closeSign 1 cursor.rest with
  | .found token rest => set { cursor with rest, lastEnd := token.span.stop }
  | .missing => throw ⟨.expected (.symbol closeSign) none, .point cursor.sourceEnd⟩
  | .underflow => outOfRange

def behindParens (tokens : List Token) : Reader (Option Token) :=
  match Cursor.closeGroup .parenOpen .parenClose 0 tokens with
  | .found _ rest => return Cursor.nthOf 0 rest
  | .missing => return none
  | .underflow => outOfRange

/-- More turns were asked for than there are tokens. -/
def exhausted {α : Type} : Reader α := do
  throw ⟨.budgetExceeded, .point (← get).sourceEnd⟩

end Reader

inductive Turn (α : Type) where
  /-- The loop is over without another item. -/
  | stop
  /-- The loop is over with this item. -/
  | last (item : α)
  /-- The loop goes on, perhaps with an item. -/
  | more (item : Option α)

section Loops

variable {m : Type → Type} [Monad m] [MonadLiftT Reader m] {α : Type}

def collectWithin (turn : m (Turn α)) : Nat → m (List α)
  | 0 => liftM (Reader.exhausted : Reader (List α))
  | budget + 1 => do
      match ← turn with
      | .stop => return []
      | .last item => return [item]
      | .more item => return item.toList ++ (← collectWithin turn budget)

/-- The items of all turns of a loop. -/
def collect (turn : m (Turn α)) : m (List α) := do
  collectWithin turn ((← Reader.remaining) + 1)

def growWithin (step : α → m (Option α)) : Nat → α → m α
  | 0, _ => liftM (Reader.exhausted : Reader α)
  | budget + 1, value => do
      match ← step value with
      | none => return value
      | some value => growWithin step budget value

/-- Changes a value turn by turn until a turn changes nothing. -/
def grow (step : α → m (Option α)) (value : α) : m α := do
  growWithin step ((← Reader.remaining) + 1) value

/-- Items separated by commas, up to a sign that may follow the last comma. -/
def commaList (close : Symbol) (item : m α) : m (List α) :=
  collect do
    if ← Reader.check close then
      return .stop
    else
      let value ← item
      if ← Reader.eat .comma then return .more (some value) else return .last value

/-- Items separated by commas, up to a sign. A comma with no item before it leaves a hole. -/
def holedList (close : Symbol) (item : m α) : m (List α) :=
  collect do
    if ← Reader.check close then
      return .stop
    else if ← Reader.eat .comma then
      return .more none
    else
      let value ← item
      if ← Reader.eat .comma then return .more (some value) else return .last value

def commaSeparated (item : m α) : m (List α) :=
  collect do
    let value ← item
    if ← Reader.eat .comma then return .more (some value) else return .last value

/-- Items up to a closing brace, which must come before the end of the source. -/
def bracedItems (item : m (Option α)) : m (List α) :=
  collect do
    if ← Reader.check .braceClose then
      return .stop
    else if ← Reader.atEnd then
      liftM (Reader.unexpected .closingBrace : Reader (Turn α))
    else
      return .more (← item)

end Loops

end Heed
