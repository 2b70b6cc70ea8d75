import Heed.Grammar.Draft

/-!
# Bindings, parameters and blocks

The parts of the grammar that statements and expressions share: binding patterns, parameter lists,
ascriptions and blocks.
-/

set_option autoImplicit false

namespace Heed.Grammar

open Reader Builder

def typeAscription : Builder Nat := do
  let start ← nextStart
  let type ← withTypes (·.type)
  allocFrom (.typeAscription type) start

/-- A colon and a type behind a binding. The ascription of a pattern hangs nowhere. -/
def attachAscription (target : Nat) : Builder Unit := do
  if ← check .colon then
    bump
    let ascription ← typeAscription
    ascribe target ascription

def returnAscription : Builder (Option Nat) := do
  if ← eat .colon then
    let start ← nextStart
    let type ← withTypes returnType
    return some (← allocFrom (.typeAscription type) start)
  else
    return none

/-- A semicolon may end a statement. -/
def endStatement : Reader Unit := do
  let _ ← eat .semicolon

variable (syn : Productions)

/-- A default value, which is read and dropped. -/
def skipDefaultValue : Builder Unit := do
  if ← eat .assign then
    discarding syn.expression

def restBinding : Builder Nat := do
  let start ← lastEnd
  let argument ← syn.binding
  alloc (.rest argument) ⟨start - 3, (← spanOf argument).stop⟩

def propertyBinding : Builder Nat := do
  let (name, span) ← expectPropertyName
  let key ← identifier name span
  if ← eat .colon then
    let value ← syn.binding
    skipDefaultValue syn
    alloc (.property key value false) (span.join (← spanOf value))
  else
    skipDefaultValue syn
    alloc (.property key key true) span

def objectPattern (start : Span) : Builder Nat := do
  bump
  let properties ← commaList .braceClose do
    if ← eat .spread then restBinding syn else propertyBinding syn
  let close ← expect .braceClose
  alloc (.objectPattern properties) (start.join close)

def arrayPattern (start : Span) : Builder Nat := do
  bump
  let elements ← holedList .bracketClose do
    if ← eat .spread then
      restBinding syn
    else
      let element ← syn.binding
      skipDefaultValue syn
      return element
  let close ← expect .bracketClose
  alloc (.arrayPattern elements) (start.join close)

def bindingTarget : Builder Nat := do
  match ← peek with
  | none => liftM (unexpected .binding : Reader Nat)
  | some token =>
      match token.kind with
      | .symbol .braceOpen => objectPattern syn token.span
      | .symbol .bracketOpen => arrayPattern syn token.span
      | .keyword .this_ =>
          bump
          identifier "this" token.span
      | _ =>
          let (name, span) ← expectName
          identifier name span

/-- Whether a modifier of a parameter comes next, and not its name. -/
def atParamModifier : Reader Bool := do
  let isModifier ← nextIs fun token =>
    ["public", "private", "protected", "readonly", "override"].any token.isWord
  let isFollowed ← nthIs 1 fun token =>
    token.isName || token.isSymbol .braceOpen || token.isSymbol .bracketOpen
  return isModifier && isFollowed

def param : Builder Nat := do
  let _ ← grow (fun (_ : Unit) => do
    if ← atParamModifier then
      bump
      return some ()
    else
      return none) ()
  let start ← nextStart
  let isRest ← eat .spread
  let target ← bindingTarget syn
  let _ ← eat .question
  attachAscription target
  skipDefaultValue syn
  if isRest then
    alloc (.rest target) ⟨start, (← spanOf target).stop⟩
  else
    return target

def params : Builder (List Nat) := do
  let _ ← expect .parenOpen
  let params ← commaList .parenClose (param syn)
  let _ ← expect .parenClose
  return params

def block : Builder Nat := do
  let start ← expect .braceOpen
  let body ← bracedItems (some <$> syn.statement)
  let close ← expect .braceClose
  alloc (.block body) (start.join close)

def optionalBlock : Builder (Option Nat) := do
  if ← check .braceOpen then
    return some (← block syn)
  else
    endStatement
    return none

end Heed.Grammar
