import Heed.Grammar.Program
import Heed.Proofs.Grammar.ExpressionShifting

/-!
# Statements behind other nodes

The builders of declarations and statements make the same nodes behind others as they make alone, and so do
all productions, whatever budget ties them together.
-/

set_option autoImplicit false

namespace Heed

namespace Grammar

open Reader Builder

variable {front : Array Node} {syn : Productions} (shift : syn.Shift front)

/-! ## Declarations -/

section Declarations

include shift

theorem shifts_declarator : Shifts front (shifted front) (declarator syn) (declarator syn) := by
  refine (shifts_bindingTarget shift).bind fun target => .read fun _ => ?_
  refine (shifts_attachAscription target).bind fun _ => .read fun _ => .ite (shift.expression.bind fun _ => ?_) ?_
  · exact .look fun _ => .look fun _ => .node rfl
  · exact .look fun _ => .node rfl

theorem shifts_variableDeclaration (word : DeclarationWord) (ambient : Bool) (start : Nat) :
    Shifts front (shifted front) (variableDeclaration syn word ambient start)
      (variableDeclaration syn word ambient start) :=
  .read fun _ => (shifts_declarator shift).commaSeparated.bind fun _ => .nodeFrom rfl

theorem shifts_functionDeclaration (isAsync : Bool) (start : Nat) :
    Shifts front (shifted front) (functionDeclaration syn isAsync start)
      (functionDeclaration syn isAsync start) := by
  refine .read fun _ => .read fun _ => .read fun _ => Shifts.bind (.node rfl) fun _ => .read fun _ => ?_
  refine (shifts_params shift).bind fun _ => shifts_returnAscription.bind fun _ => ?_
  exact (shifts_optionalBlock shift).bind fun _ => .nodeFrom rfl

omit shift in
theorem shifts_indexSignature (start : Nat) :
    Shifts front (shifted front) (indexSignature start) (indexSignature start) := by
  exact .read fun _ => .read fun _ => .joined (fun rest => .read fun _ => rest) (.read fun _ => .nodeFrom rfl)

theorem shifts_methodDefinition (key : Nat) (modifiers : Modifiers) (start : Nat) :
    Shifts front (shifted front) (methodDefinition syn key modifiers start)
      (methodDefinition syn (shifted front key) modifiers start) := by
  refine .read fun _ => (shifts_params shift).bind fun _ => shifts_returnAscription.bind fun _ => ?_
  exact (shifts_optionalBlock shift).bind fun _ => .nodeFrom rfl

theorem shifts_propertyDefinition (key : Nat) (modifiers : Modifiers) (start : Nat) :
    Shifts front (shifted front) (propertyDefinition syn key modifiers start)
      (propertyDefinition syn (shifted front key) modifiers start) := by
  have ending : ∀ ascription value : Option Nat, Shifts front (shifted front)
      (do if !(← eat .semicolon) then
            let _ ← eat .comma
          allocFrom (.propertyDefinition key ascription value modifiers.isStatic) start)
      (do if !(← eat .semicolon) then
            let _ ← eat .comma
          allocFrom (.propertyDefinition (shifted front key) (ascription.map (shifted front))
            (value.map (shifted front)) modifiers.isStatic) start) := fun ascription value =>
    .read fun _ => .ite (.read fun _ => .nodeFrom rfl) (.nodeFrom rfl)
  have value : ∀ ascription : Option Nat, Shifts front (shifted front)
      (do let value ← if ← eat .assign then pure (some (← syn.expression)) else pure none
          if !(← eat .semicolon) then
            let _ ← eat .comma
          allocFrom (.propertyDefinition key ascription value modifiers.isStatic) start)
      (do let value ← if ← eat .assign then pure (some (← syn.expression)) else pure none
          if !(← eat .semicolon) then
            let _ ← eat .comma
          allocFrom (.propertyDefinition (shifted front key) (ascription.map (shifted front)) value
            modifiers.isStatic) start) := fun ascription =>
    .read fun _ => .ite (shift.expression.bind fun value => ending ascription (some value))
      (ending ascription none)
  refine .read fun _ => .ite (shifts_typeAscription.bind fun ascription => ?_) ?_
  · exact value (some ascription)
  · exact value none

theorem shifts_classMember : Shifts front (shifted front) (classMember syn) (classMember syn) := by
  refine .read fun start => .read fun modifiers => .read fun _ => .ite (shifts_indexSignature start) ?_
  refine .read fun _ => Shifts.bind (.node rfl) fun key => .read fun _ => ?_
  refine .joined (fun rest => .read fun _ => rest) (.read fun _ => .read fun _ => .ite ?_ ?_)
  · exact shifts_methodDefinition shift key modifiers start
  · exact shifts_propertyDefinition shift key modifiers start

theorem shifts_classMember? :
    Shifts front (Option.map (shifted front)) (classMember? syn) (classMember? syn) :=
  .read fun _ => .ite (.done rfl) ((shifts_classMember shift).bind fun _ => .done rfl)

theorem shifts_classDeclaration (ambient : Bool) (start : Nat) :
    Shifts front (shifted front) (classDeclaration syn ambient start) (classDeclaration syn ambient start) := by
  refine .read fun _ => .read fun _ => Shifts.bind (.node rfl) fun _ => .read fun _ => .read fun _ => ?_
  exact .read fun _ => (shifts_classMember? shift).bracedItems.bind fun _ => .read fun _ => .nodeFrom rfl

omit shift in
theorem shifts_typeAlias (start : Nat) : Shifts front (shifted front) (typeAlias start) (typeAlias start) := by
  refine .read fun _ => .read fun _ => Shifts.bind (.node rfl) fun _ => .read fun _ => .read fun _ => ?_
  exact shifts_typeAscription.bind fun _ => .read fun _ => .nodeFrom rfl

omit shift in
theorem shifts_interfaceDeclaration (start : Nat) :
    Shifts front (shifted front) (interfaceDeclaration start) (interfaceDeclaration start) := by
  refine .read fun _ => .read fun _ => Shifts.bind (.node rfl) fun _ => .read fun _ => .read fun _ => .ite ?_ ?_
  · refine .read fun _ => Shifts.bind (.commaSeparated (.ofRead _)) fun _ => .read fun _ => .nodeFrom ?_
    rw [List.map_id]
    rfl
  · exact .read fun _ => .nodeFrom rfl

omit shift in
theorem shifts_ambientModule (start : Nat) :
    Shifts front (shifted front) (ambientModule start) (ambientModule start) := by
  refine Shifts.bind (.repeated (fun _ => ?_) ()) fun _ => .read fun _ => .nodeFrom rfl
  exact .read fun _ => .read fun _ => .ite (.done rfl) (.read fun _ => .done rfl)

theorem shifts_ambientDeclaration (start : Nat) :
    Shifts front (shifted front) (ambientDeclaration syn start) (ambientDeclaration syn start) := by
  refine .read fun _ => .read fun found => ?_
  cases found with
  | none => exact .unexpected _
  | some token =>
      dsimp only
      cases declarationWord? token.kind with
      | some word =>
          exact (shifts_variableDeclaration shift word true start).bind fun _ => .read fun _ => .done rfl
      | none =>
          refine .ite (shifts_functionDeclaration shift false start) ?_
          refine .ite (shifts_classDeclaration shift true start) ?_
          refine .ite (.read fun _ => shifts_functionDeclaration shift true start) ?_
          refine .ite (.read fun _ => shifts_classDeclaration shift true start) ?_
          refine .ite (shifts_typeAlias start) (.ite (shifts_interfaceDeclaration start) ?_)
          exact shifts_ambientModule start

omit shift in
theorem shifts_importDeclaration (start : Nat) :
    Shifts front (shifted front) (importDeclaration start) (importDeclaration start) :=
  .read fun _ => .read fun _ => .nodeFrom rfl

end Declarations

/-! ## Statements -/

include shift

theorem shifts_expressionStatement :
    Shifts front (shifted front) (expressionStatement syn) (expressionStatement syn) :=
  (shifts_expression shift).bind fun _ => .read fun _ => .look fun _ => .node rfl

theorem shifts_throwStatement (start : Nat) :
    Shifts front (shifted front) (throwStatement syn start) (throwStatement syn start) :=
  .read fun _ => shift.expression.bind fun _ => .read fun _ => .nodeFrom rfl

theorem shifts_returnStatement (start : Nat) :
    Shifts front (shifted front) (returnStatement syn start) (returnStatement syn start) := by
  refine .read fun _ => .inspect fun draft => ?_
  have same : (draft.behind front).cursor = draft.cursor := rfl
  rw [same]
  cases draft.cursor.rest.head? with
  | none => exact .read fun _ => .nodeFrom rfl
  | some token =>
      refine .ite (.read fun _ => .nodeFrom rfl) (shift.expression.bind fun _ => ?_)
      exact .read fun _ => .nodeFrom rfl

theorem shifts_condition : Shifts front (shifted front) (condition syn) (condition syn) :=
  .read fun _ => shift.expression.bind fun _ => .read fun _ => .done rfl

theorem shifts_ifStatement (start : Nat) :
    Shifts front (shifted front) (ifStatement syn start) (ifStatement syn start) := by
  refine .read fun _ => (shifts_condition shift).bind fun _ => shift.statement.bind fun _ => .read fun _ => ?_
  exact .ite (shift.statement.bind fun _ => .nodeFrom rfl) (.nodeFrom rfl)

theorem shifts_whileStatement (start : Nat) :
    Shifts front (shifted front) (whileStatement syn start) (whileStatement syn start) :=
  .read fun _ => (shifts_condition shift).bind fun _ => shift.statement.bind fun _ => .nodeFrom rfl

theorem shifts_doWhileStatement (start : Nat) :
    Shifts front (shifted front) (doWhileStatement syn start) (doWhileStatement syn start) :=
  .read fun _ => shift.statement.bind fun _ => .read fun _ => (shifts_condition shift).bind fun _ =>
    .read fun _ => .nodeFrom rfl

theorem shifts_loopInit :
    Shifts front (Option.map (shifted front)) (loopInit syn) (loopInit syn) := by
  have onExpression : Shifts front (Option.map (shifted front)) (do return some (← syn.expression))
      (do return some (← syn.expression)) := shift.expression.bind fun _ => .done rfl
  refine .read fun found => ?_
  cases found with
  | none => exact onExpression
  | some token =>
      refine .ite (.done rfl) ?_
      cases declarationWord? token.kind with
      | some word => exact (shifts_variableDeclaration shift word false _).bind fun _ => .done rfl
      | none => exact onExpression

theorem shifts_loopOver {kind kind' : Nat → Nat → NodeKind} (start : Nat)
    (same : ∀ right body, kind' (shifted front right) (shifted front body) =
      (kind right body).renumber (shifted front)) :
    Shifts front (shifted front) (loopOver syn kind start) (loopOver syn kind' start) :=
  .read fun _ => shift.expression.bind fun right => .read fun _ => shift.statement.bind fun body =>
    .nodeFrom (same right body)

theorem shifts_loopClauses (init : Option Nat) (start : Nat) :
    Shifts front (shifted front) (loopClauses syn init start)
      (loopClauses syn (init.map (shifted front)) start) := by
  have last : ∀ test next : Option Nat, Shifts front (shifted front)
      (do let _ ← expect .parenClose
          let body ← syn.statement
          allocFrom (.forStatement init test next body) start)
      (do let _ ← expect .parenClose
          let body ← syn.statement
          allocFrom (.forStatement (init.map (shifted front)) (test.map (shifted front))
            (next.map (shifted front)) body) start) := fun test next =>
    .read fun _ => shift.statement.bind fun _ => .nodeFrom rfl
  have middle : ∀ test : Option Nat, Shifts front (shifted front)
      (do let _ ← expect .semicolon
          let next ← if ← check .parenClose then pure none else pure (some (← syn.expression))
          let _ ← expect .parenClose
          let body ← syn.statement
          allocFrom (.forStatement init test next body) start)
      (do let _ ← expect .semicolon
          let next ← if ← check .parenClose then pure none else pure (some (← syn.expression))
          let _ ← expect .parenClose
          let body ← syn.statement
          allocFrom (.forStatement (init.map (shifted front)) (test.map (shifted front)) next body)
            start) := fun test =>
    .read fun _ => .read fun _ => .ite (last test none) (shift.expression.bind fun next => last test (some next))
  refine .read fun _ => .read fun _ => .ite (middle none) (shift.expression.bind fun test => ?_)
  exact middle (some test)

theorem shifts_forStatement (start : Nat) :
    Shifts front (shifted front) (forStatement syn start) (forStatement syn start) := by
  refine .read fun _ => .read fun _ => .read fun _ => (shifts_loopInit shift).bind fun init => ?_
  cases init with
  | none => exact shifts_loopClauses shift none start
  | some left =>
      refine .read fun _ => .ite (shifts_loopOver shift start fun _ _ => rfl) ?_
      refine .read fun _ => .ite (shifts_loopOver shift start fun _ _ => rfl) ?_
      exact shifts_loopClauses shift (some left) start

theorem shifts_caseTest : Shifts front (Option.map (shifted front)) (caseTest syn) (caseTest syn) := by
  refine .read fun _ => .ite (.read fun _ => shift.expression.bind fun _ => .done rfl) ?_
  exact .read fun _ => .ite (.read fun _ => .done rfl) (.unexpected _)

theorem shifts_switchCase : Shifts front (shifted front) (switchCase syn) (switchCase syn) := by
  refine .read fun _ => (shifts_caseTest shift).bind fun _ => .read fun _ => ?_
  refine Shifts.bind (.collect (.read fun _ => .read fun _ => .ite (.done rfl) ?_)) fun _ => .nodeFrom rfl
  exact .read fun _ => .ite (.unexpected _) (shift.statement.bind fun _ => .done rfl)

theorem shifts_switchStatement (start : Nat) :
    Shifts front (shifted front) (switchStatement syn start) (switchStatement syn start) := by
  refine .read fun _ => (shifts_condition shift).bind fun _ => .read fun _ => ?_
  exact (shifts_switchCase shift).some_.bracedItems.bind fun _ => .read fun _ => .nodeFrom rfl

theorem shifts_labeledStatement (start : Nat) :
    Shifts front (shifted front) (labeledStatement syn start) (labeledStatement syn start) :=
  .read fun _ => .read fun _ => shift.statement.bind fun _ => .nodeFrom rfl

omit shift in
theorem shifts_jumpStatement {kind : Option String → NodeKind} (start : Nat)
    (same : ∀ label, kind label = (kind label).renumber (shifted front)) :
    Shifts front (shifted front) (jumpStatement kind start) (jumpStatement kind start) := by
  refine .read fun _ => .inspect fun draft => ?_
  have sameCursor : (draft.behind front).cursor = draft.cursor := rfl
  rw [sameCursor]
  split
  · exact .read fun _ => .read fun _ => .nodeFrom (same _)
  · exact .read fun _ => .nodeFrom (same _)

theorem shifts_catchParam : Shifts front (Option.map (shifted front)) (catchParam syn) (catchParam syn) := by
  refine .read fun _ => .ite ((shifts_bindingTarget shift).bind fun param => ?_) (.done rfl)
  exact (shifts_attachAscription param).bind fun _ => .read fun _ => .done rfl

theorem shifts_catchClause :
    Shifts front (Option.map (shifted front)) (catchClause syn) (catchClause syn) := by
  refine .read fun _ => .ite (.read fun _ => .read fun _ => (shifts_catchParam shift).bind fun _ => ?_) (.done rfl)
  exact (shifts_block shift).bind fun _ => Shifts.bind (.nodeFrom rfl) fun _ => .done rfl

theorem shifts_finallyBlock :
    Shifts front (Option.map (shifted front)) (finallyBlock syn) (finallyBlock syn) :=
  .read fun _ => .ite (.read fun _ => (shifts_block shift).bind fun _ => .done rfl) (.done rfl)

theorem shifts_tryStatement (start : Nat) :
    Shifts front (shifted front) (tryStatement syn start) (tryStatement syn start) := by
  refine .read fun _ => (shifts_block shift).bind fun _ => (shifts_catchClause shift).bind fun handler => ?_
  refine (shifts_finallyBlock shift).bind fun finalizer => ?_
  rw [Option.isNone_map, Option.isNone_map]
  exact .ite (.unexpected _) (.nodeFrom rfl)

theorem shifts_exportedStatement :
    Shifts front (shifted front) (exportedStatement syn) (exportedStatement syn) :=
  .read fun _ => .read fun _ => .joined (fun rest => .read fun _ => rest) shift.statement

theorem shifts_wordStatement (word : String) (start : Nat) :
    Shifts front (shifted front) (wordStatement syn word start) (wordStatement syn word start) := by
  refine .read fun _ => .ite (.read fun _ => shifts_functionDeclaration shift true start) ?_
  refine .read fun _ => .ite (shifts_ambientDeclaration shift start) ?_
  refine .ite (shifts_exportedStatement shift) ?_
  refine .read fun _ => .ite (shifts_importDeclaration start) ?_
  refine .read fun _ => .ite (shifts_typeAlias start) ?_
  refine .read fun _ => .ite (shifts_interfaceDeclaration start) ?_
  refine .read fun _ => .ite (.read fun _ => shifts_classDeclaration shift false start) ?_
  refine .read fun _ => .ite (shifts_switchStatement shift start) ?_
  refine .read fun _ => .ite (shifts_doWhileStatement shift start) ?_
  refine .read fun _ => .ite (shifts_tryStatement shift start) ?_
  refine .read fun _ => .ite (shifts_jumpStatement start fun _ => rfl) ?_
  refine .read fun _ => .ite (shifts_jumpStatement start fun _ => rfl) ?_
  exact .read fun _ => .ite (shifts_labeledStatement shift start) (shifts_expressionStatement shift)

theorem shifts_statement : Shifts front (shifted front) (statement syn) (statement syn) := by
  refine .read fun found => ?_
  cases found with
  | none => exact .unexpected _
  | some token =>
      dsimp only
      split
      · exact shifts_block shift
      · exact shifts_leaf rfl
      · exact shifts_functionDeclaration shift false _
      · exact shifts_classDeclaration shift false _
      · exact shifts_returnStatement shift _
      · exact shifts_ifStatement shift _
      · exact shifts_whileStatement shift _
      · exact shifts_forStatement shift _
      · exact shifts_throwStatement shift _
      · exact shifts_wordStatement shift _ _
      · split
        · exact (shifts_variableDeclaration shift _ false _).bind fun _ => .read fun _ => .done rfl
        · exact shifts_expressionStatement shift

omit shift in
/-- All productions make the same nodes behind others as they make alone. -/
theorem shift_productions (budget : Nat) : (productions budget).Shift front := by
  induction budget with
  | zero => exact ⟨.exhausted, .exhausted, fun _ => .exhausted, .exhausted, .exhausted⟩
  | succ budget ih =>
      exact ⟨shifts_statement ih, shifts_expression ih, shifts_operation ih, shifts_unary ih,
        shifts_bindingTarget ih⟩

end Grammar

end Heed
