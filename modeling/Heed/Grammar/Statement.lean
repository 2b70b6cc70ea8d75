import Heed.Grammar.Declaration

/-!
# The grammar of statements
-/

set_option autoImplicit false

namespace Heed.Grammar

open Reader Builder

variable (syn : Productions)

def expressionStatement : Builder Nat := do
  let expression ← expression syn
  endStatement
  alloc (.expressionStatement expression) (← spanOf expression)

def throwStatement (start : Nat) : Builder Nat := do
  bump
  let argument ← syn.expression
  endStatement
  allocFrom (.throwStatement argument) start

/-- Whether a statement may end right here: at the end, a newline, a semicolon or a closing brace. -/
def endsHere (token : Token) : Bool :=
  token.isNewline || token.isSymbol .semicolon || token.isSymbol .braceClose

def returnStatement (start : Nat) : Builder Nat := do
  bump
  match (← get).cursor.rest.head? with
  | none =>
      endStatement
      allocFrom (.returnStatement none) start
  | some token =>
      -- the argument starts on the line of the word or not at all
      let argument ← if endsHere token then pure none else pure (some (← syn.expression))
      endStatement
      allocFrom (.returnStatement argument) start

def condition : Builder Nat := do
  let _ ← expect .parenOpen
  let test ← syn.expression
  let _ ← expect .parenClose
  return test

def ifStatement (start : Nat) : Builder Nat := do
  bump
  let test ← condition syn
  let consequent ← syn.statement
  let alternate ← if ← eatWord .else_ then pure (some (← syn.statement)) else pure none
  allocFrom (.ifStatement test consequent alternate) start

def whileStatement (start : Nat) : Builder Nat := do
  bump
  let test ← condition syn
  let body ← syn.statement
  allocFrom (.whileStatement test body) start

def doWhileStatement (start : Nat) : Builder Nat := do
  bump
  let body ← syn.statement
  let _ ← expectWord .while_
  let test ← condition syn
  endStatement
  allocFrom (.doWhileStatement body test) start

/-- What stands before the first semicolon, `of` or `in` of a loop head. -/
def loopInit : Builder (Option Nat) := do
  match ← peek with
  | some token =>
      if token.isSymbol .semicolon then
        return none
      else match declarationWord? token.kind with
        | some word => return some (← variableDeclaration syn word false token.span.start)
        | none => return some (← syn.expression)
  | none => return some (← syn.expression)

def loopOver (kind : Nat → Nat → NodeKind) (start : Nat) : Builder Nat := do
  bump
  let right ← syn.expression
  let _ ← expect .parenClose
  let body ← syn.statement
  allocFrom (kind right body) start

def loopClauses (init : Option Nat) (start : Nat) : Builder Nat := do
  let _ ← expect .semicolon
  let test ← if ← check .semicolon then pure none else pure (some (← syn.expression))
  let _ ← expect .semicolon
  let next ← if ← check .parenClose then pure none else pure (some (← syn.expression))
  let _ ← expect .parenClose
  let body ← syn.statement
  allocFrom (.forStatement init test next body) start

def forStatement (start : Nat) : Builder Nat := do
  bump
  let _ ← eatWord .await_
  let _ ← expect .parenOpen
  match ← loopInit syn with
  | some left =>
      if ← checkText "of" then
        loopOver syn (.forOfStatement left) start
      else if ← checkText "in" then
        loopOver syn (.forInStatement left) start
      else
        loopClauses syn (some left) start
  | none => loopClauses syn none start

def atSwitchLabel : Reader Bool := do
  if ← checkText "case" then
    return true
  else if ← checkText "default" then
    nthIs 1 (·.isSymbol .colon)
  else
    return false

def caseTest : Builder (Option Nat) := do
  if ← checkText "case" then
    bump
    return some (← syn.expression)
  else if ← checkText "default" then
    bump
    return none
  else
    liftM (unexpected .caseOrDefault : Reader (Option Nat))

def switchCase : Builder Nat := do
  let start ← nextStart
  let test ← caseTest syn
  let _ ← expect .colon
  let consequent ← collect do
    if (← check .braceClose) || (← atSwitchLabel) then
      return .stop
    else if ← atEnd then
      liftM (unexpected .closingBrace : Reader (Turn Nat))
    else
      return .more (some (← syn.statement))
  allocFrom (.switchCase test consequent) start

def switchStatement (start : Nat) : Builder Nat := do
  bump
  let discriminant ← condition syn
  let _ ← expect .braceOpen
  let cases ← bracedItems (some <$> switchCase syn)
  let _ ← expect .braceClose
  allocFrom (.switchStatement discriminant cases) start

def labeledStatement (start : Nat) : Builder Nat := do
  let (label, _) ← expectName
  let _ ← expect .colon
  let body ← syn.statement
  allocFrom (.labeledStatement label body) start

/-- A jump, with a label if one stands on the same line. -/
def jumpStatement (kind : Option String → NodeKind) (start : Nat) : Builder Nat := do
  bump
  match (← get).cursor.rest.head? with
  | some { kind := .name label, .. } =>
      bump
      endStatement
      allocFrom (kind (some label)) start
  | _ =>
      endStatement
      allocFrom (kind none) start

def catchParam : Builder (Option Nat) := do
  if ← eat .parenOpen then
    let param ← bindingTarget syn
    attachAscription param
    let _ ← expect .parenClose
    return some param
  else
    return none

def catchClause : Builder (Option Nat) := do
  if ← checkText "catch" then
    let start ← nextStart
    bump
    let param ← catchParam syn
    let body ← block syn
    return some (← allocFrom (.catchClause param body) start)
  else
    return none

def finallyBlock : Builder (Option Nat) := do
  if ← checkText "finally" then
    bump
    return some (← block syn)
  else
    return none

def tryStatement (start : Nat) : Builder Nat := do
  bump
  let body ← block syn
  let handler ← catchClause syn
  let finalizer ← finallyBlock syn
  if handler.isNone ∧ finalizer.isNone then
    liftM (unexpected .catchOrFinally : Reader Nat)
  else
    allocFrom (.tryStatement body handler finalizer) start

/-- An exported statement, read as the statement itself. -/
def exportedStatement : Builder Nat := do
  bump
  if ← checkText "default" then
    bump
  syn.statement

def startsAmbient (token : Token) : Bool :=
  (declarationWord? token.kind).isSome || token.isKeyword .function_ || token.isKeyword .class_ ||
    ["type", "interface", "module", "namespace", "global", "async", "abstract"].any token.isWord

/-- Whether a jump, rather than an expression, starts with the next word. -/
def atJump : Reader Bool := do
  match (← get).significant.tail.head? with
  | none => return true
  | some token => return endsHere token || token.isName

def wordStatement (word : String) (start : Nat) : Builder Nat := do
  if word = "async" ∧ (← nthIs 1 (·.isKeyword .function_)) then
    bump
    functionDeclaration syn true start
  else if word = "declare" ∧ (← nthIs 1 startsAmbient) then
    ambientDeclaration syn start
  else if word = "export" then
    exportedStatement syn
  else if word = "import" ∧
      !(← nthIs 1 fun token => token.isSymbol .parenOpen || token.isSymbol .dot) then
    importDeclaration start
  else if word = "type" ∧ (← nthIs 1 Token.isName) then
    typeAlias start
  else if word = "interface" ∧ (← nthIs 1 Token.isName) then
    interfaceDeclaration start
  else if word = "abstract" ∧ (← nthIs 1 (·.isKeyword .class_)) then
    bump
    classDeclaration syn false start
  else if word = "switch" ∧ (← nthIs 1 (·.isSymbol .parenOpen)) then
    switchStatement syn start
  else if word = "do" ∧ (← nthIs 1 (·.isSymbol .braceOpen)) then
    doWhileStatement syn start
  else if word = "try" ∧ (← nthIs 1 (·.isSymbol .braceOpen)) then
    tryStatement syn start
  else if word = "break" ∧ (← atJump) then
    jumpStatement .breakStatement start
  else if word = "continue" ∧ (← atJump) then
    jumpStatement .continueStatement start
  else if ← nthIs 1 (·.isSymbol .colon) then
    labeledStatement syn start
  else
    expressionStatement syn

def statement : Builder Nat := do
  match ← peek with
  | none => liftM (unexpected .statement : Reader Nat)
  | some token =>
      let start := token.span.start
      match token.kind with
      | .symbol .braceOpen => block syn
      | .symbol .semicolon => leaf .emptyStatement token
      | .keyword .function_ => functionDeclaration syn false start
      | .keyword .class_ => classDeclaration syn false start
      | .keyword .return_ => returnStatement syn start
      | .keyword .if_ => ifStatement syn start
      | .keyword .while_ => whileStatement syn start
      | .keyword .for_ => forStatement syn start
      | .keyword .throw_ => throwStatement syn start
      | .name word => wordStatement syn word start
      | kind =>
          match declarationWord? kind with
          | some word =>
              let declaration ← variableDeclaration syn word false start
              endStatement
              return declaration
          | none => expressionStatement syn

end Heed.Grammar
