import Heed.Grammar.Expression
import Heed.Proofs.Grammar.Shifting

/-!
# Expressions behind other nodes

The builders of bindings, blocks and expressions make the same nodes behind others as they make alone.
-/

set_option autoImplicit false

namespace Heed

/-- Productions that make the same nodes behind others. -/
structure Productions.Shift (front : Array Node) (syn : Productions) : Prop where
  statement : Builder.Shifts front (shifted front) syn.statement syn.statement
  expression : Builder.Shifts front (shifted front) syn.expression syn.expression
  operation : ∀ precedence, Builder.Shifts front (shifted front) (syn.operation precedence)
    (syn.operation precedence)
  unary : Builder.Shifts front (shifted front) syn.unary syn.unary
  binding : Builder.Shifts front (shifted front) syn.binding syn.binding

namespace Grammar

open Reader Builder

variable {front : Array Node}

/-! ## Bindings, parameters and blocks -/

theorem shifts_typeAscription : Shifts front (shifted front) typeAscription typeAscription :=
  .read fun _ => .read fun _ => .nodeFrom rfl

theorem shifts_attachAscription (target : Nat) :
    Shifts front id (attachAscription target) (attachAscription (shifted front target)) := by
  refine .read fun _ => .ite (.read fun _ => ?_) (.done rfl)
  exact shifts_typeAscription.bind fun ascription => .ascribe target ascription

theorem shifts_returnAscription : Shifts front (Option.map (shifted front)) returnAscription returnAscription := by
  refine .read fun _ => .ite (.read fun _ => .read fun _ => ?_) (.done rfl)
  exact Shifts.bind (.nodeFrom rfl) fun _ => .done rfl

variable {syn : Productions} (shift : syn.Shift front)

include shift

theorem shifts_skipDefaultValue : Shifts front id (skipDefaultValue syn) (skipDefaultValue syn) :=
  .read fun _ => .ite shift.expression.discarding (.done rfl)

theorem shifts_restBinding : Shifts front (shifted front) (restBinding syn) (restBinding syn) :=
  .read fun _ => shift.binding.bind fun _ => .look fun _ => .node rfl

theorem shifts_propertyBinding : Shifts front (shifted front) (propertyBinding syn) (propertyBinding syn) := by
  refine .read fun _ => Shifts.bind (.node rfl) fun _ => .read fun _ => .ite (shift.binding.bind fun _ => ?_) ?_
  · exact (shifts_skipDefaultValue shift).bind fun _ => .look fun _ => .node rfl
  · exact (shifts_skipDefaultValue shift).bind fun _ => .node rfl

theorem shifts_objectPattern (start : Span) :
    Shifts front (shifted front) (objectPattern syn start) (objectPattern syn start) := by
  refine .read fun _ => Shifts.bind (.commaList (.read fun _ => .ite ?_ ?_)) fun _ => .read fun _ => .node rfl
  · exact shifts_restBinding shift
  · exact shifts_propertyBinding shift

theorem shifts_arrayPattern (start : Span) :
    Shifts front (shifted front) (arrayPattern syn start) (arrayPattern syn start) := by
  refine .read fun _ => Shifts.bind (.holedList (.read fun _ => .ite ?_ ?_)) fun _ => .read fun _ => .node rfl
  · exact shifts_restBinding shift
  · exact shift.binding.bind fun _ => (shifts_skipDefaultValue shift).bind fun _ => .done rfl

theorem shifts_bindingTarget : Shifts front (shifted front) (bindingTarget syn) (bindingTarget syn) := by
  refine .read fun found => ?_
  cases found with
  | none => exact .unexpected _
  | some token =>
      dsimp only
      split
      · exact shifts_objectPattern shift token.span
      · exact shifts_arrayPattern shift token.span
      · exact .read fun _ => .node rfl
      · exact .read fun _ => .node rfl

theorem shifts_param : Shifts front (shifted front) (param syn) (param syn) := by
  refine Shifts.bind (.repeated (fun _ => ?_) ()) fun _ => .read fun _ => .read fun _ => ?_
  · exact .read fun _ => .ite (.read fun _ => .done rfl) (.done rfl)
  refine (shifts_bindingTarget shift).bind fun target => .read fun _ => ?_
  refine (shifts_attachAscription target).bind fun _ => (shifts_skipDefaultValue shift).bind fun _ => ?_
  exact .ite (.look fun _ => .node rfl) (.done rfl)

theorem shifts_params : Shifts front (List.map (shifted front)) (params syn) (params syn) :=
  .read fun _ => (shifts_param shift).commaList.bind fun _ => .read fun _ => .done rfl

theorem shifts_block : Shifts front (shifted front) (block syn) (block syn) :=
  .read fun _ => shift.statement.some_.bracedItems.bind fun _ => .read fun _ => .node rfl

theorem shifts_optionalBlock :
    Shifts front (Option.map (shifted front)) (optionalBlock syn) (optionalBlock syn) :=
  .read fun _ => .ite ((shifts_block shift).bind fun _ => .done rfl) (.read fun _ => .done rfl)

/-! ## Expressions -/

theorem shifts_spreadOrExpression :
    Shifts front (shifted front) (spreadOrExpression syn) (spreadOrExpression syn) := by
  refine .read fun found => ?_
  cases found with
  | none => exact shift.expression
  | some token =>
      refine .ite (.read fun _ => shift.expression.bind fun _ => ?_) shift.expression
      exact .look fun _ => .node rfl

theorem shifts_arguments :
    Shifts front (Prod.map (List.map (shifted front)) id) (arguments syn) (arguments syn) :=
  .read fun _ => (shifts_spreadOrExpression shift).commaList.bind fun _ => .read fun _ => .done rfl

theorem shifts_functionTail (name : Option Nat) (isAsync : Bool) (start : Nat) :
    Shifts front (shifted front) (functionTail syn name isAsync start)
      (functionTail syn (name.map (shifted front)) isAsync start) := by
  refine .read fun _ => (shifts_params shift).bind fun _ => shifts_returnAscription.bind fun _ => ?_
  exact (shifts_block shift).bind fun _ => .look fun _ => .node rfl

theorem shifts_functionExpression (isAsync : Bool) (start : Nat) :
    Shifts front (shifted front) (functionExpression syn isAsync start) (functionExpression syn isAsync start) := by
  refine .read fun _ => .read fun _ => .read fun _ => .ite (.read fun _ => ?_) ?_
  · exact Shifts.bind (.node rfl) fun name => shifts_functionTail shift (some name) isAsync start
  · exact shifts_functionTail shift none isAsync start

theorem shifts_namedProperty : Shifts front (shifted front) (namedProperty syn) (namedProperty syn) := by
  refine .read fun _ => .read fun found => Shifts.bind (.node rfl) fun _ => .read fun _ => .read fun _ => .ite ?_ ?_
  · exact (shifts_functionTail shift none false found.2.start).bind fun _ => .look fun _ => .node rfl
  refine .read fun _ => .ite (shift.expression.bind fun _ => .look fun _ => .node rfl) ?_
  exact .ite (.node rfl) (.unexpected _)

theorem shifts_objectLiteral : Shifts front (shifted front) (objectLiteral syn) (objectLiteral syn) := by
  refine .read fun _ => Shifts.bind (.commaList (.read fun _ => .ite ?_ ?_)) fun _ => .read fun _ => .node rfl
  · exact shifts_spreadOrExpression shift
  · exact shifts_namedProperty shift

theorem shifts_arrayLiteral (start : Span) :
    Shifts front (shifted front) (arrayLiteral syn start) (arrayLiteral syn start) :=
  .read fun _ => (shifts_spreadOrExpression shift).holedList.bind fun _ => .read fun _ => .node rfl

theorem shifts_parenthesised : Shifts front (shifted front) (parenthesised syn) (parenthesised syn) :=
  .read fun _ => shift.expression.bind fun _ => .read fun _ => .done rfl

omit shift in
theorem shifts_leaf {kind kind' : NodeKind} {token : Token} (same : kind' = kind.renumber (shifted front)) :
    Shifts front (shifted front) (leaf kind token) (leaf kind' token) :=
  .read fun _ => .node same

theorem shifts_primary : Shifts front (shifted front) (primary syn) (primary syn) := by
  refine .read fun found => ?_
  cases found with
  | none => exact .unexpected _
  | some token =>
      dsimp only
      split
      · refine .read fun _ => .ite (.read fun _ => ?_) (shifts_leaf rfl)
        exact shifts_functionExpression shift true token.span.start
      · exact shifts_leaf rfl
      · exact shifts_leaf rfl
      · exact shifts_leaf rfl
      · exact shifts_leaf rfl
      · exact shifts_leaf rfl
      · exact shifts_leaf rfl
      · exact shifts_parenthesised shift
      · exact shifts_arrayLiteral shift token.span
      · exact shifts_objectLiteral shift
      · exact shifts_functionExpression shift false token.span.start
      · exact .unexpected _

omit shift in
theorem shifts_memberTail (base : Nat) (optional : Bool) :
    Shifts front (shifted front) (memberTail base optional) (memberTail (shifted front base) optional) :=
  .read fun _ => Shifts.bind (.node rfl) fun _ => .look fun _ => .node rfl

theorem shifts_computedTail (base : Nat) (optional : Bool) :
    Shifts front (shifted front) (computedTail syn base optional)
      (computedTail syn (shifted front base) optional) :=
  .read fun _ => shift.expression.bind fun _ => .read fun _ => .look fun _ => .node rfl

theorem shifts_callTail (callee : Nat) :
    Shifts front (shifted front) (callTail syn callee) (callTail syn (shifted front callee)) :=
  (shifts_arguments shift).bind fun _ => .look fun _ => .node rfl

theorem shifts_newExpression : Shifts front (shifted front) (newExpression syn) (newExpression syn) := by
  refine .read fun _ => (shifts_primary shift).bind fun _ => Shifts.bind (.grow (fun callee => ?_) _) fun _ => ?_
  · exact .read fun _ => .ite ((shifts_memberTail callee false).bind fun _ => .done rfl) (.done rfl)
  · refine .read fun _ => .ite ((shifts_arguments shift).bind fun _ => .node rfl) ?_
    exact .look fun _ => .node rfl

theorem shifts_optionalTail (base : Nat) :
    Shifts front (shifted front) (optionalTail syn base) (optionalTail syn (shifted front base)) := by
  refine .read fun _ => .ite (shifts_callTail shift base) (.read fun _ => .ite ?_ ?_)
  · exact shifts_computedTail shift base true
  · exact shifts_memberTail base true

theorem shifts_valueTail (value : Nat) :
    Shifts front (Option.map (shifted front)) (valueTail syn value) (valueTail syn (shifted front value)) := by
  refine .read fun _ => .ite ((shifts_memberTail value false).bind fun _ => .done rfl) ?_
  refine .read fun _ => .ite ((shifts_optionalTail shift value).bind fun _ => .done rfl) ?_
  refine .read fun _ => .ite ((shifts_callTail shift value).bind fun _ => .done rfl) ?_
  refine .read fun _ => .ite ((shifts_computedTail shift value false).bind fun _ => .done rfl) ?_
  refine .read fun _ => .ite (.read fun _ => .look fun _ => .read fun _ => ?_) (.done rfl)
  exact Shifts.bind (.node rfl) fun _ => .done rfl

theorem shifts_callOrMember : Shifts front (shifted front) (callOrMember syn) (callOrMember syn) := by
  have tails := Shifts.grow (shifts_valueTail shift)
  exact .read fun _ => .ite ((shifts_newExpression shift).bind tails) ((shifts_primary shift).bind tails)

omit shift in
theorem shifts_updateTail (argument : Nat) :
    Shifts front (shifted front) (updateTail argument) (updateTail (shifted front argument)) := by
  refine .look fun _ => .read fun _ => .ite (.read fun _ => .read fun _ => .node rfl) ?_
  exact .read fun _ => .ite (.read fun _ => .read fun _ => .node rfl) (.done rfl)

omit shift in
/-- An operator before its argument refers to nothing but the argument. -/
theorem renumber_unaryOperator? {kind : Token.Kind} {make : Nat → NodeKind} (found : unaryOperator? kind = some make)
    (change : Nat → Nat) (argument : Nat) : make (change argument) = (make argument).renumber change := by
  unfold unaryOperator? at found
  split at found
  all_goals cases found
  all_goals rfl

theorem shifts_unary : Shifts front (shifted front) (unary syn) (unary syn) := by
  refine .read fun found => ?_
  cases found with
  | none => exact .unexpected _
  | some token =>
      dsimp only
      cases operator : unaryOperator? token.kind with
      | none => exact (shifts_callOrMember shift).bind shifts_updateTail
      | some kind =>
          refine .read fun _ => shift.unary.bind fun argument => .look fun _ => ?_
          exact .node (renumber_unaryOperator? operator _ argument)

omit shift in
theorem shifts_asTarget : Shifts front (shifted front) asTarget asTarget := by
  refine .read fun found => ?_
  cases found with
  | none => exact shifts_typeAscription
  | some token => exact .ite (shifts_leaf rfl) shifts_typeAscription

omit shift in
theorem shifts_assertionTail (value : Nat) (isAs : Bool) :
    Shifts front (shifted front) (assertionTail value isAs) (assertionTail (shifted front value) isAs) := by
  refine .read fun _ => .ite (shifts_asTarget.bind fun _ => ?_) (shifts_typeAscription.bind fun _ => ?_)
  · exact .look fun _ => .look fun _ => .ite (.node rfl) (.node rfl)
  · exact .look fun _ => .look fun _ => .ite (.node rfl) (.node rfl)

omit shift in
/-- An operator between two operands refers to nothing but these. -/
theorem renumber_operator? {sign : Symbol} {own : Nat} {make : Nat → Nat → NodeKind}
    (found : operator? sign = some (own, make)) (change : Nat → Nat) (left right : Nat) :
    make (change left) (change right) = (make left right).renumber change := by
  unfold operator? at found
  split at found
  all_goals cases found
  all_goals rfl

theorem shifts_operatorTail (precedence left : Nat) :
    Shifts front (Option.map (shifted front)) (operatorTail syn precedence left)
      (operatorTail syn precedence (shifted front left)) := by
  refine .read fun found => ?_
  cases found with
  | none => exact .done rfl
  | some token =>
      obtain ⟨kind, span, text⟩ := token
      cases kind with
      | symbol sign =>
          dsimp only
          cases found : operator? sign with
          | none => exact .done rfl
          | some operator =>
              refine .ite (.done rfl) (.read fun _ => (shift.operation _).bind fun right => ?_)
              refine .look fun _ => .look fun _ => Shifts.bind (.node ?_) fun _ => .done rfl
              exact renumber_operator? found _ left right
      | _ => exact .done rfl

theorem shifts_operationTail (precedence left : Nat) :
    Shifts front (Option.map (shifted front)) (operationTail syn precedence left)
      (operationTail syn precedence (shifted front left)) := by
  refine .read fun _ => .ite ((shifts_assertionTail left true).bind fun _ => .done rfl) ?_
  refine .read fun _ => .ite ((shifts_assertionTail left false).bind fun _ => .done rfl) ?_
  exact shifts_operatorTail shift precedence left

theorem shifts_operation (precedence : Nat) :
    Shifts front (shifted front) (operation syn precedence) (operation syn precedence) :=
  (shifts_unary shift).bind (.grow (shifts_operationTail shift precedence))

theorem shifts_conditional : Shifts front (shifted front) (conditional syn) (conditional syn) := by
  refine (shifts_operation shift 1).bind fun _ => .read fun _ => .ite (shift.expression.bind fun _ => ?_) (.done rfl)
  exact .read fun _ => shift.expression.bind fun _ => .look fun _ => .look fun _ => .node rfl

theorem shifts_arrowFunction (isAsync : Bool) (start : Nat) :
    Shifts front (shifted front) (arrowFunction syn isAsync start) (arrowFunction syn isAsync start) := by
  have body : ∀ params : List Nat, Shifts front (shifted front)
      (do let returnType ← returnAscription
          let _ ← expect .arrow
          let body ← if ← check .braceOpen then block syn else syn.expression
          alloc (.arrowFunction params returnType body isAsync) ⟨start, (← spanOf body).stop⟩ : Builder Nat)
      (do let returnType ← returnAscription
          let _ ← expect .arrow
          let body ← if ← check .braceOpen then block syn else syn.expression
          alloc (.arrowFunction (params.map (shifted front)) returnType body isAsync)
            ⟨start, (← spanOf body).stop⟩) := by
    intro params
    refine shifts_returnAscription.bind fun _ => .read fun _ => .read fun _ => .ite ?_ ?_
    · exact (shifts_block shift).bind fun _ => .look fun _ => .node rfl
    · exact shift.expression.bind fun _ => .look fun _ => .node rfl
  refine .joined (fun rest => .read fun _ => rest) ?_
  refine .read fun _ => .ite (.read fun _ => ?_) ((shifts_params shift).bind body)
  exact Shifts.bind (.node rfl) fun name => body [name]

theorem shifts_arrowFunction? :
    Shifts front (Option.map (shifted front)) (arrowFunction? syn) (arrowFunction? syn) := by
  refine .inspect fun draft => ?_
  have same : (draft.behind front).cursor = draft.cursor := rfl
  rw [same]
  cases draft.cursor.significant with
  | nil => exact .done rfl
  | cons first rest =>
      refine .read fun sign => ?_
      cases sign with
      | absent => exact .done rfl
      | certain => exact (shifts_arrowFunction shift _ _).bind fun _ => .done rfl
      | possible => exact (shifts_arrowFunction shift _ _).attempt

theorem shifts_assignmentTail (left : Nat) :
    Shifts front (shifted front) (assignmentTail syn left) (assignmentTail syn (shifted front left)) := by
  refine .read fun found => ?_
  cases found with
  | none => exact .done rfl
  | some token =>
      obtain ⟨kind, span, text⟩ := token
      cases kind with
      | symbol sign =>
          dsimp only
          cases assignOperator? sign with
          | none => exact .done rfl
          | some operator =>
              refine .read fun _ => shift.expression.bind fun _ => ?_
              exact .look fun _ => .look fun _ => .node rfl
      | _ => exact .done rfl

theorem shifts_expression : Shifts front (shifted front) (expression syn) (expression syn) := by
  refine (shifts_arrowFunction? shift).bind fun found => ?_
  cases found with
  | some arrow => exact .done rfl
  | none => exact (shifts_conditional shift).bind (shifts_assignmentTail shift)

end Grammar

end Heed
