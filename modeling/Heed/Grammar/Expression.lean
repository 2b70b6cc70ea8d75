import Heed.Grammar.Binding

/-!
# The grammar of expressions

Operators bind by precedence and to the left. A call, an index or a `!` continues an expression only on
the same line; a dot also on the next one. A group in parentheses with a colon behind it may start an
arrow function or not: it is tried as one, and a failure leaves no trace.
-/

set_option autoImplicit false

namespace Heed.Grammar

open Reader Builder

variable (syn : Productions)

def spreadOrExpression : Builder Nat := do
  match ← peek with
  | some token =>
      if token.isSymbol .spread then
        bump
        let argument ← syn.expression
        alloc (.spread argument) (token.span.join (← spanOf argument))
      else
        syn.expression
  | none => syn.expression

def arguments : Builder (List Nat × Nat) := do
  let _ ← expect .parenOpen
  let arguments ← commaList .parenClose (spreadOrExpression syn)
  let close ← expect .parenClose
  return (arguments, close.stop)

def functionTail (name : Option Nat) (isAsync : Bool) (start : Nat) : Builder Nat := do
  let _ ← withTypes typeParams
  let params ← params syn
  let returnType ← returnAscription
  let body ← block syn
  alloc (.functionExpression name params returnType body isAsync) ⟨start, (← spanOf body).stop⟩

def functionExpression (isAsync : Bool) (start : Nat) : Builder Nat := do
  let _ ← expectWord .function_
  let _ ← eat .star
  if ← checkName then
    let (name, span) ← expectName
    let name ← identifier name span
    functionTail syn (some name) isAsync start
  else
    functionTail syn none isAsync start

def namedProperty : Builder Nat := do
  let mayBeShort ← checkName
  let (name, span) ← expectPropertyName
  let key ← identifier name span
  if (← check .parenOpen) || (← check .less) then
    let value ← functionTail syn none false span.start
    alloc (.property key value false) (span.join (← spanOf value))
  else if ← eat .colon then
    let value ← syn.expression
    alloc (.property key value false) (span.join (← spanOf value))
  else if mayBeShort then
    alloc (.property key key true) span
  else
    liftM (unexpected .colonSign : Reader Nat)

def objectLiteral : Builder Nat := do
  let start ← expect .braceOpen
  let properties ← commaList .braceClose do
    if ← check .spread then spreadOrExpression syn else namedProperty syn
  let close ← expect .braceClose
  alloc (.object properties) (start.join close)

def arrayLiteral (start : Span) : Builder Nat := do
  bump
  let elements ← holedList .bracketClose (spreadOrExpression syn)
  let close ← expect .bracketClose
  alloc (.array elements) (start.join close)

/-- An expression in parentheses, which leaves no node of its own. -/
def parenthesised : Builder Nat := do
  bump
  let inner ← syn.expression
  let _ ← expect .parenClose
  return inner

def leaf (kind : NodeKind) (token : Token) : Builder Nat := do
  bump
  alloc kind token.span

def primary : Builder Nat := do
  match ← peek with
  | none => liftM (unexpected .expression : Reader Nat)
  | some token =>
      match token.kind with
      | .name word =>
          if word = "async" ∧ (← nthIs 1 (·.isKeyword .function_)) then
            bump
            functionExpression syn true token.span.start
          else
            leaf (.identifier word none) token
      | .number value => leaf (.literal (.number value)) token
      | .string value => leaf (.literal (.string value)) token
      | .keyword .true_ => leaf (.literal (.boolean true)) token
      | .keyword .false_ => leaf (.literal (.boolean false)) token
      | .keyword .null_ => leaf (.literal .null) token
      | .keyword .this_ => leaf .this token
      | .symbol .parenOpen => parenthesised syn
      | .symbol .bracketOpen => arrayLiteral syn token.span
      | .symbol .braceOpen => objectLiteral syn
      | .keyword .function_ => functionExpression syn false token.span.start
      | _ => liftM (unexpected .expression : Reader Nat)

def memberTail (base : Nat) (optional : Bool) : Builder Nat := do
  let (name, span) ← expectPropertyName
  let key ← identifier name span
  alloc (.member base key false optional) ((← spanOf base).join span)

def computedTail (base : Nat) (optional : Bool) : Builder Nat := do
  let _ ← expect .bracketOpen
  let key ← syn.expression
  let close ← expect .bracketClose
  alloc (.member base key true optional) ⟨(← spanOf base).start, close.stop⟩

def callTail (callee : Nat) : Builder Nat := do
  let (arguments, stop) ← arguments syn
  alloc (.call callee arguments) ⟨(← spanOf callee).start, stop⟩

def newExpression : Builder Nat := do
  let start ← expectWord .new_
  -- the callee ends before the first arguments, which are those of the instantiation
  let callee ← grow (fun (callee : Nat) => do
    if ← eat .dot then return some (← memberTail callee false) else return none)
    (← primary syn)
  if ← rawIs (·.isSymbol .parenOpen) then
    let (arguments, stop) ← arguments syn
    alloc (.new callee arguments) ⟨start.start, stop⟩
  else
    alloc (.new callee []) ⟨start.start, (← spanOf callee).stop⟩

def optionalTail (base : Nat) : Builder Nat := do
  if ← check .parenOpen then
    callTail syn base
  else if ← check .bracketOpen then
    computedTail syn base true
  else
    memberTail base true

/-- One more call or access on a value, if there is one. -/
def valueTail (value : Nat) : Builder (Option Nat) := do
  if ← eat .dot then
    return some (← memberTail value false)
  else if ← eat .optionalDot then
    return some (← optionalTail syn value)
  else if ← rawIs (·.isSymbol .parenOpen) then
    return some (← callTail syn value)
  else if ← rawIs (·.isSymbol .bracketOpen) then
    return some (← computedTail syn value false)
  else if ← rawIs (·.isSymbol .bang) then
    bump
    return some (← alloc (.nonNull value) ⟨(← spanOf value).start, ← lastEnd⟩)
  else
    return none

def callOrMember : Builder Nat := do
  let value ← if ← checkWord .new_ then newExpression syn else primary syn
  grow (valueTail syn) value

/-- An increment or decrement behind its argument, on the same line. -/
def updateTail (argument : Nat) : Builder Nat := do
  let span ← spanOf argument
  if ← rawIs (·.isSymbol .increment) then
    bump
    alloc (.update argument true false) ⟨span.start, ← lastEnd⟩
  else if ← rawIs (·.isSymbol .decrement) then
    bump
    alloc (.update argument false false) ⟨span.start, ← lastEnd⟩
  else
    return argument

def unaryOperator? : Token.Kind → Option (Nat → NodeKind)
  | .symbol .bang => some (.unary .not)
  | .symbol .minus => some (.unary .negate)
  | .symbol .plus => some (.unary .plus)
  | .keyword .await_ => some .await
  | .symbol .increment => some fun argument => .update argument true true
  | .symbol .decrement => some fun argument => .update argument false true
  | _ => none

def unary : Builder Nat := do
  match ← peek with
  | none => liftM (unexpected .expression : Reader Nat)
  | some token =>
      match unaryOperator? token.kind with
      | some kind =>
          bump
          let argument ← syn.unary
          alloc (kind argument) (token.span.join (← spanOf argument))
      | none => updateTail (← callOrMember syn)

/-- The precedence of an operator between two operands, and the node it makes of them. -/
def operator? : Symbol → Option (Nat × (Nat → Nat → NodeKind))
  | .or => some (1, .logical .or)
  | .nullish => some (1, .logical .nullish)
  | .and => some (2, .logical .and)
  | .looseEq => some (3, .binary .eq)
  | .looseNe => some (3, .binary .ne)
  | .strictEq => some (3, .binary .strictEq)
  | .strictNe => some (3, .binary .strictNe)
  | .less => some (4, .binary .less)
  | .greater => some (4, .binary .greater)
  | .atMost => some (4, .binary .atMost)
  | .atLeast => some (4, .binary .atLeast)
  | .plus => some (5, .binary .add)
  | .minus => some (5, .binary .sub)
  | .star => some (6, .binary .mul)
  | .slash => some (6, .binary .div)
  | .percent => some (6, .binary .mod)
  | _ => none

def assertionPrecedence : Nat := 4

/-- The type behind `as`, where `const` asserts nothing that is modelled. -/
def asTarget : Builder Nat := do
  match ← peek with
  | some token =>
      if token.isKeyword .const_ then leaf (.typeAscription .unmodelled) token else typeAscription
  | none => typeAscription

def assertionTail (value : Nat) (isAs : Bool) : Builder Nat := do
  bump
  let ascription ← if isAs then asTarget else typeAscription
  let span := (← spanOf value).join (← spanOf ascription)
  if isAs then
    alloc (.asExpression value ascription) span
  else
    alloc (.satisfiesExpression value ascription) span

def operatorTail (precedence : Nat) (left : Nat) : Builder (Option Nat) := do
  match ← peek with
  | some { kind := .symbol sign, .. } =>
      match operator? sign with
      | some (own, kind) =>
          if own < precedence then
            return none
          else
            bump
            -- an operator of the same precedence takes the whole as its left operand
            let right ← syn.operation (own + 1)
            return some (← alloc (kind left right) ((← spanOf left).join (← spanOf right)))
      | none => return none
  | _ => return none

def operationTail (precedence : Nat) (left : Nat) : Builder (Option Nat) := do
  if precedence ≤ assertionPrecedence ∧ (← checkText "as") then
    return some (← assertionTail left true)
  else if precedence ≤ assertionPrecedence ∧ (← checkText "satisfies") then
    return some (← assertionTail left false)
  else
    operatorTail syn precedence left

def operation (precedence : Nat) : Builder Nat := do
  grow (operationTail syn precedence) (← unary syn)

def conditional : Builder Nat := do
  let test ← operation syn 1
  if ← eat .question then
    let consequent ← syn.expression
    let _ ← expect .colon
    let alternate ← syn.expression
    alloc (.conditional test consequent alternate) ((← spanOf test).join (← spanOf alternate))
  else
    return test

/-- Whether an arrow function starts here. -/
inductive ArrowSign where
  | absent
  | certain
  /-- A group in parentheses with a colon behind it: perhaps parameters with a return type. -/
  | possible
deriving DecidableEq, Repr

def arrowSign : List Token → Reader ArrowSign
  | [] => return .absent
  | first :: rest => do
      match first.kind with
      | .name _ =>
          return if (Cursor.nthOf 0 rest).any (·.isSymbol .arrow) then .certain else .absent
      | .symbol .parenOpen =>
          match ← behindParens (first :: rest) with
          | some token =>
              return if token.isSymbol .arrow then .certain
                else if token.isSymbol .colon then .possible
                else .absent
          | none => return .absent
      | _ => return .absent

/-- Whether `async` stands before a row of tokens that may be the parameters of an arrow function. -/
def startsAsync (first : Token) (rest : List Token) : Bool :=
  first.isWord "async" &&
    (Cursor.nthOf 0 rest).any fun token => token.isSymbol .parenOpen || token.isName

def arrowFunction (isAsync : Bool) (start : Nat) : Builder Nat := do
  if isAsync then
    bump
  let params ←
    if ← checkName then
      let (name, span) ← expectName
      let name ← identifier name span
      pure [name]
    else
      params syn
  let returnType ← returnAscription
  let _ ← expect .arrow
  let body ← if ← check .braceOpen then block syn else syn.expression
  alloc (.arrowFunction params returnType body isAsync) ⟨start, (← spanOf body).stop⟩

def arrowFunction? : Builder (Option Nat) := do
  match (← get).cursor.significant with
  | [] => return none
  | first :: rest =>
      let isAsync := startsAsync first rest
      let tokens := if isAsync then rest.dropWhile Token.isNewline else first :: rest
      match ← arrowSign tokens with
      | .absent => return none
      | .certain => return some (← arrowFunction syn isAsync first.span.start)
      | .possible => attempt (arrowFunction syn isAsync first.span.start)

def assignOperator? : Symbol → Option AssignOperator
  | .assign => some .assign
  | .addAssign => some .addAssign
  | .subAssign => some .subAssign
  | _ => none

def assignmentTail (left : Nat) : Builder Nat := do
  match ← peek with
  | some { kind := .symbol sign, .. } =>
      match assignOperator? sign with
      | some operator =>
          bump
          let right ← syn.expression
          alloc (.assignment operator left right) ((← spanOf left).join (← spanOf right))
      | none => return left
  | _ => return left

def expression : Builder Nat := do
  match ← arrowFunction? syn with
  | some arrow => return arrow
  | none => assignmentTail syn (← conditional syn)

end Heed.Grammar
