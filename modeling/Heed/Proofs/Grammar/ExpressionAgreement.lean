import Heed.Proofs.Grammar.Expression
import Heed.Proofs.Grammar.TypeAgreement

/-!
# Expressions do not depend on layout

The builders of bindings, blocks and expressions agree on alike tokens: they number the same nodes in the same
way. A builder that has taken a token may refer back to productions that agree while fewer tokens are ahead.
-/

set_option autoImplicit false

namespace Heed

/-- Two sets of productions agree while there are fewer than `room` tokens ahead. -/
structure Productions.Agrees (room : Nat) (syn syn' : Productions) : Prop where
  statement : Agree room strict Eq syn.statement syn'.statement
  expression : Agree room strict Eq syn.expression syn'.expression
  operation : ∀ precedence, Agree room strict Eq (syn.operation precedence) (syn'.operation precedence)
  unary : Agree room strict Eq syn.unary syn'.unary
  binding : Agree room strict Eq syn.binding syn'.binding

namespace Grammar

open Reader Builder

variable {room : Nat}

/-! ## Bindings, parameters and blocks -/

theorem agree_type : Agree room strict Eq (withTypes (·.type)) (withTypes (·.type)) :=
  agree_withTypes fun _ _ _ agrees => agrees.type

theorem agree_withTypeParams : Agree room free Eq (withTypes typeParams) (withTypes typeParams) :=
  agree_withTypes fun room _ _ agrees => (agree_typeParams agrees).lower (Nat.le_succ room)

theorem agree_typeAscription : Agree room strict Eq typeAscription typeAscription :=
  .look sees_nextStart fun _ _ _ => (agree_lift agree_type).paid fun _ => agree_allocFrom

theorem agree_attachAscription {target : Nat} :
    Agree room free Eq (attachAscription target) (attachAscription target) := by
  refine .see (sees_nextIs fun _ _ _ => rfl) fun _ => .ite (agree_bump.andThen fun _ => ?_) (.done rfl)
  exact agree_typeAscription.andThen fun _ => agree_ascribe

theorem agree_returnAscription : Agree room free Eq returnAscription returnAscription := by
  refine agree_eat.andThen fun _ => .ite (.look sees_nextStart fun _ _ _ => ?_) (.done rfl)
  refine (agree_lift (agree_withTypes fun _ _ _ => agree_returnType)).andThen fun _ => ?_
  exact agree_allocFrom.andThen fun _ => .done rfl

theorem agree_endStatement :
    Agree room free Eq (liftM endStatement : Builder Unit) (liftM endStatement) :=
  agree_lift (agree_eat.andThen fun _ => .done rfl)

variable {syn syn' : Productions} (agrees : syn.Agrees room syn')

include agrees

theorem agree_skipDefaultValue : Agree room free Eq (skipDefaultValue syn) (skipDefaultValue syn') :=
  agree_eat.andThen fun _ => .ite (agree_discarding agrees.expression) (.done rfl)

theorem agree_restBinding : Agree room strict Eq (restBinding syn) (restBinding syn') :=
  .look sees_lastEnd fun _ _ _ => agrees.binding.paid fun _ => agree_node

theorem agree_propertyBinding : Agree room strict Eq (propertyBinding syn) (propertyBinding syn') := by
  refine agree_expectPropertyName.paidBut fun _ _ _ => agree_alloc.andThen fun _ => ?_
  refine agree_eat.andThen fun _ => .ite (agrees.binding.andThen fun _ => ?_) ?_
  · exact (agree_skipDefaultValue agrees).andThen fun _ => agree_node
  · exact (agree_skipDefaultValue agrees).andThen fun _ => agree_alloc

theorem agree_objectPattern {token : Token} {span start start' : Span} :
    AgreeWhen (Facing token span) (room + 1) strict Eq (objectPattern syn start)
      (objectPattern syn' start') := by
  refine AgreeWhen.bump.first fun _ => (agree_commaList ?_).andThen fun _ => ?_
  · refine agree_eat.andThen fun _ => .ite ?_ ?_
    · exact (agree_restBinding agrees).loose
    · exact (agree_propertyBinding agrees).loose
  · exact agree_expect.andThenAs fun _ _ _ => agree_alloc

theorem agree_arrayPattern {token : Token} {span start start' : Span} :
    AgreeWhen (Facing token span) (room + 1) strict Eq (arrayPattern syn start)
      (arrayPattern syn' start') := by
  refine AgreeWhen.bump.first fun _ => (agree_holedList ?_).andThen fun _ => ?_
  · refine agree_eat.andThen fun _ => .ite (agree_restBinding agrees).loose ?_
    exact agrees.binding.andThen fun _ => (agree_skipDefaultValue agrees).andThen fun _ => .done rfl
  · exact agree_expect.andThenAs fun _ _ _ => agree_alloc

theorem agree_bindingTarget : Agree (room + 1) strict Eq (bindingTarget syn) (bindingTarget syn') := by
  refine .onPeek agree_unexpected fun token span => ?_
  dsimp only
  generalize token.kind = kind
  split
  · exact agree_objectPattern agrees
  · exact agree_arrayPattern agrees
  · exact AgreeWhen.bump.first fun _ => agree_alloc
  · exact AgreeWhen.at_ (agree_expectName.firstBut fun _ _ _ => agree_alloc)

omit agrees in
theorem marks_atParamModifier : Marks atParamModifier atParamModifier :=
  (marks_nextIs fun _ _ _ => rfl).also (sees_nthIs fun _ _ _ => rfl)

theorem agree_param : Agree (room + 1) strict Eq (param syn) (param syn') := by
  refine (agree_grow (fun _ => ?_) ()).andThen fun _ => .look sees_nextStart fun _ _ _ => ?_
  · refine .onMark marks_atParamModifier.lift (fun _ _ => ?_) (.idle rfl id)
    exact AgreeWhen.bump.returning fun _ _ _ => rfl
  refine agree_eat.andThen fun _ => (agree_bindingTarget agrees).first fun _ => ?_
  refine agree_eat.andThen fun _ => agree_attachAscription.andThen fun _ => ?_
  exact (agree_skipDefaultValue agrees).andThen fun _ => .ite agree_node (.done rfl)

theorem agree_params : Agree (room + 1) strict Eq (params syn) (params syn') := by
  refine agree_expect.firstAs fun _ _ _ => ?_
  refine (agree_commaList (agree_param agrees).inside).andThen fun _ => ?_
  exact agree_expect.andThenAs fun _ _ _ => .done rfl

theorem agree_block : Agree (room + 1) strict Eq (block syn) (block syn') := by
  refine agree_expect.firstAs fun _ _ _ => (agree_bracedItems (agree_some agrees.statement)).andThen fun _ => ?_
  exact agree_expect.andThenAs fun _ _ _ => agree_alloc

theorem agree_optionalBlock : Agree (room + 1) free Eq (optionalBlock syn) (optionalBlock syn') := by
  refine .see (sees_nextIs fun _ _ _ => rfl) fun _ => .ite ?_ ?_
  · exact (agree_block agrees).returning fun _ _ => congrArg some
  · exact agree_endStatement.andThen fun _ => .done rfl

/-! ## Expressions -/

theorem agree_spreadOrExpression :
    Agree room strict Eq (spreadOrExpression syn) (spreadOrExpression syn') := by
  refine .onPeek agrees.expression fun token span => ?_
  refine .ite ?_ agrees.expression.at_
  exact AgreeWhen.bump.paid fun _ => agrees.expression.andThen fun _ => agree_node

theorem agree_arguments : Agree room strict SameBut (arguments syn) (arguments syn') := by
  refine agree_expect.paidAs fun _ _ _ => ?_
  refine (agree_commaList (agree_spreadOrExpression agrees).loose).andThen fun _ => ?_
  exact agree_expect.andThenAs fun _ _ _ => .done rfl

theorem agree_functionTail {name : Option Nat} {isAsync : Bool} {start start' : Nat} :
    Agree (room + 1) strict Eq (functionTail syn name isAsync start)
      (functionTail syn' name isAsync start') := by
  refine (agree_lift agree_withTypeParams).andThen fun _ => (agree_params agrees).first fun _ => ?_
  refine agree_returnAscription.andThen fun _ => ?_
  exact (agree_block agrees).inside.andThen fun _ => agree_node

theorem agree_functionExpression {isAsync : Bool} {start start' : Nat} :
    Agree (room + 1) strict Eq (functionExpression syn isAsync start)
      (functionExpression syn' isAsync start') := by
  refine agree_expectWord.firstAs fun _ _ _ => agree_eat.andThen fun _ => ?_
  refine .see (sees_nextIs fun _ _ _ => rfl) fun _ => .ite ?_ (agree_functionTail agrees).inside
  exact agree_expectName.andThenBut fun _ _ _ => agree_alloc.andThen fun _ => (agree_functionTail agrees).inside

theorem agree_namedProperty : Agree (room + 1) strict Eq (namedProperty syn) (namedProperty syn') := by
  refine .see (sees_nextIs fun _ _ _ => rfl) fun _ => agree_expectPropertyName.firstBut fun _ _ _ => ?_
  refine agree_alloc.andThen fun _ => ?_
  refine .see (sees_nextIs fun _ _ _ => rfl) fun _ => .see (sees_nextIs fun _ _ _ => rfl) fun _ => ?_
  refine .ite ((agree_functionTail agrees).inside.andThen fun _ => agree_node) ?_
  refine agree_eat.andThen fun _ => .ite (agrees.expression.andThen fun _ => agree_node) ?_
  exact .ite agree_alloc agree_unexpected

theorem agree_objectLiteral : Agree (room + 1) strict Eq (objectLiteral syn) (objectLiteral syn') := by
  refine agree_expect.firstAs fun _ _ _ => (agree_commaList ?_).andThen fun _ => ?_
  · refine .see (sees_nextIs fun _ _ _ => rfl) fun _ => ?_
    exact .ite (agree_spreadOrExpression agrees).loose (agree_namedProperty agrees).inside
  · exact agree_expect.andThenAs fun _ _ _ => agree_alloc

section

variable {token : Token} {span : Span}

theorem agree_arrayLiteral {start start' : Span} :
    AgreeWhen (Facing token span) (room + 1) strict Eq (arrayLiteral syn start) (arrayLiteral syn' start') := by
  refine AgreeWhen.bump.first fun _ => ?_
  refine (agree_holedList (agree_spreadOrExpression agrees).loose).andThen fun _ => ?_
  exact agree_expect.andThenAs fun _ _ _ => agree_alloc

theorem agree_parenthesised :
    AgreeWhen (Facing token span) (room + 1) strict Eq (parenthesised syn) (parenthesised syn') := by
  refine AgreeWhen.bump.first fun _ => agrees.expression.andThen fun _ => ?_
  exact agree_expect.andThenAs fun _ _ _ => .done rfl

omit agrees in
theorem agree_leaf {kind : NodeKind} {leafToken leafToken' : Token} :
    AgreeWhen (Facing token span) room strict Eq (leaf kind leafToken) (leaf kind leafToken') :=
  AgreeWhen.bump.paid fun _ => agree_alloc

end

theorem agree_primary : Agree (room + 1) strict Eq (primary syn) (primary syn') := by
  refine .onPeek agree_unexpected fun token span => ?_
  dsimp only
  generalize token.kind = kind
  split
  · refine .see (sees_nthIs fun _ _ _ => rfl) fun _ => .ite ?_ agree_leaf
    exact AgreeWhen.bump.first fun _ => (agree_functionExpression agrees).inside
  · exact agree_leaf
  · exact agree_leaf
  · exact agree_leaf
  · exact agree_leaf
  · exact agree_leaf
  · exact agree_leaf
  · exact agree_parenthesised agrees
  · exact agree_arrayLiteral agrees
  · exact (agree_objectLiteral agrees).at_
  · exact (agree_functionExpression agrees).at_
  · exact agree_unexpected

omit agrees in
theorem agree_memberTail {base : Nat} {optional : Bool} :
    Agree room strict Eq (memberTail base optional) (memberTail base optional) :=
  agree_expectPropertyName.paidBut fun _ _ _ => agree_alloc.andThen fun _ => agree_node

theorem agree_computedTail {base : Nat} {optional : Bool} :
    Agree room strict Eq (computedTail syn base optional) (computedTail syn' base optional) := by
  refine agree_expect.paidAs fun _ _ _ => agrees.expression.andThen fun _ => ?_
  exact agree_expect.andThenAs fun _ _ _ => agree_node

theorem agree_callTail {callee : Nat} :
    Agree room strict Eq (callTail syn callee) (callTail syn' callee) :=
  (agree_arguments agrees).paidBut fun _ _ _ => agree_node

theorem agree_newExpression : Agree (room + 1) strict Eq (newExpression syn) (newExpression syn') := by
  refine agree_expectWord.firstAs fun _ _ _ => (agree_primary agrees).inside.andThen fun _ => ?_
  refine (agree_grow (fun _ => ?_) _).andThen fun _ => ?_
  · exact agree_eat.andThen fun _ => .ite (agree_memberTail.returning fun _ _ => congrArg some) (.idle rfl id)
  · refine .onMark marks_rawIs (fun _ _ => AgreeWhen.at_ ?_) agree_node
    exact (agree_arguments agrees).andThenBut fun _ _ _ => agree_alloc

theorem agree_optionalTail {base : Nat} :
    Agree room strict Eq (optionalTail syn base) (optionalTail syn' base) := by
  refine .see (sees_nextIs fun _ _ _ => rfl) fun _ => .ite (agree_callTail agrees) ?_
  exact .see (sees_nextIs fun _ _ _ => rfl) fun _ => .ite (agree_computedTail agrees) agree_memberTail

theorem agree_valueTail (value : Nat) :
    Agree room Found Eq (valueTail syn value) (valueTail syn' value) := by
  refine agree_eat.choose (agree_memberTail.returning fun _ _ => congrArg some) ?_
  refine agree_eat.choose ((agree_optionalTail agrees).returning fun _ _ => congrArg some) ?_
  refine .onMark marks_rawIs (fun _ _ => ?_) (.onMark marks_rawIs (fun _ _ => ?_) ?_)
  · exact ((agree_callTail agrees).returning fun _ _ => congrArg some).at_
  · exact ((agree_computedTail agrees).returning fun _ _ => congrArg some).at_
  refine .onMark marks_rawIs (fun _ _ => AgreeWhen.bump.paid fun _ => ?_) (.idle rfl id)
  refine .onSpan fun _ _ => .look sees_lastEnd fun _ _ _ => ?_
  exact agree_alloc.andThen fun _ => .done rfl

theorem agree_callOrMember : Agree (room + 1) strict Eq (callOrMember syn) (callOrMember syn') := by
  have tails := fun value => agree_grow (agree_valueTail agrees) value
  refine .see (sees_nextIs fun _ _ _ => rfl) fun _ => .ite ?_ ?_
  · exact (agree_newExpression agrees).first tails
  · exact (agree_primary agrees).first tails

omit agrees in
theorem agree_updateTail {argument : Nat} :
    Agree room free Eq (updateTail argument) (updateTail argument) := by
  refine .onSpan fun _ _ => .onMark marks_rawIs (fun _ _ => ?_) ?_
  · exact AgreeWhen.bump.paid fun _ => .look sees_lastEnd fun _ _ _ => agree_alloc
  refine .onMark marks_rawIs (fun _ _ => ?_) (.done rfl)
  exact AgreeWhen.bump.paid fun _ => .look sees_lastEnd fun _ _ _ => agree_alloc

theorem agree_unary : Agree (room + 1) strict Eq (unary syn) (unary syn') := by
  refine .onPeek agree_unexpected fun token span => ?_
  dsimp only
  cases unaryOperator? token.kind with
  | none => exact AgreeWhen.at_ ((agree_callOrMember agrees).first fun _ => agree_updateTail)
  | some kind => exact AgreeWhen.bump.first fun _ => agrees.unary.andThen fun _ => agree_node

omit agrees in
theorem agree_asTarget : Agree room strict Eq asTarget asTarget := by
  refine .onPeek agree_typeAscription fun token span => ?_
  exact .ite agree_leaf agree_typeAscription.at_

omit agrees in
theorem agree_assertionTail {value : Nat} {isAs : Bool} {token : Token} {span : Span} :
    AgreeWhen (Facing token span) room strict Eq (assertionTail value isAs) (assertionTail value isAs) := by
  have last : ∀ ascription : Nat, Agree room free Eq
      (do let span := (← spanOf value).join (← spanOf ascription)
          if isAs then alloc (.asExpression value ascription) span
          else alloc (.satisfiesExpression value ascription) span : Builder Nat)
      (do let span := (← spanOf value).join (← spanOf ascription)
          if isAs then alloc (.asExpression value ascription) span
          else alloc (.satisfiesExpression value ascription) span) := fun ascription =>
    .onSpan fun _ _ => .onSpan fun _ _ => .ite agree_alloc agree_alloc
  refine AgreeWhen.bump.paid fun _ => .ite ?_ ?_
  · exact agree_asTarget.andThen last
  · exact agree_typeAscription.andThen last

theorem agree_operatorTail {precedence left : Nat} :
    Agree room Found Eq (operatorTail syn precedence left) (operatorTail syn' precedence left) := by
  refine .onPeek (.idle rfl id) fun token span => ?_
  obtain ⟨kind, place, text⟩ := token
  cases kind with
  | symbol sign =>
      dsimp only
      cases operator? sign with
      | none => exact .idle rfl id
      | some operator =>
          refine .ite (.idle rfl id) (AgreeWhen.bump.paid fun _ => ?_)
          refine (agrees.operation _).andThen fun _ => .onSpan fun _ _ => .onSpan fun _ _ => ?_
          exact agree_alloc.andThen fun _ => .done rfl
  | _ => exact .idle rfl id

theorem agree_operationTail {precedence : Nat} (left : Nat) :
    Agree room Found Eq (operationTail syn precedence left) (operationTail syn' precedence left) := by
  have absent : ¬ (precedence ≤ assertionPrecedence ∧ false = true) := by simp
  have operators : Agree room Found Eq
      (do if precedence ≤ assertionPrecedence ∧ (← checkText "satisfies") then
            return some (← assertionTail left false)
          else
            operatorTail syn precedence left : Builder (Option Nat))
      (do if precedence ≤ assertionPrecedence ∧ (← checkText "satisfies") then
            return some (← assertionTail left false)
          else
            operatorTail syn' precedence left) := by
    refine .onMark (marks_nextIs fun _ _ _ => rfl) (fun _ _ => ?_) ?_
    · exact .ite (agree_assertionTail.returning fun _ _ => congrArg some) (agree_operatorTail agrees).at_
    · exact .otherwise absent (agree_operatorTail agrees)
  refine .onMark (marks_nextIs fun _ _ _ => rfl) (fun _ _ => ?_) (.otherwise absent operators)
  exact .ite (agree_assertionTail.returning fun _ _ => congrArg some) operators.at_

theorem agree_operation (precedence : Nat) :
    Agree (room + 1) strict Eq (operation syn precedence) (operation syn' precedence) :=
  (agree_unary agrees).first fun value => agree_grow (agree_operationTail agrees) value

theorem agree_conditional : Agree (room + 1) strict Eq (conditional syn) (conditional syn') := by
  refine (agree_operation agrees 1).first fun _ => agree_eat.andThen fun _ => .ite ?_ (.done rfl)
  refine agrees.expression.andThen fun _ => agree_expect.andThenAs fun _ _ _ => ?_
  exact agrees.expression.andThen fun _ => .onSpan fun _ _ => agree_node

theorem agree_arrowFunction {isAsync : Bool} {start start' : Nat} :
    Agree (room + 1) strict Eq (arrowFunction syn isAsync start) (arrowFunction syn' isAsync start') := by
  have body : ∀ params : List Nat, Agree room free Eq
      (do let returnType ← returnAscription
          let _ ← expect .arrow
          let body ← if ← check .braceOpen then block syn else syn.expression
          alloc (.arrowFunction params returnType body isAsync) ⟨start, (← spanOf body).stop⟩ : Builder Nat)
      (do let returnType ← returnAscription
          let _ ← expect .arrow
          let body ← if ← check .braceOpen then block syn' else syn'.expression
          alloc (.arrowFunction params returnType body isAsync) ⟨start', (← spanOf body).stop⟩) := by
    intro params
    refine agree_returnAscription.andThen fun _ => agree_expect.andThenAs fun _ _ _ => ?_
    refine .see (sees_nextIs fun _ _ _ => rfl) fun _ => .ite ?_ ?_
    · exact (agree_block agrees).inside.andThen fun _ => agree_node
    · exact agrees.expression.andThen fun _ => agree_node
  refine .joined (fun rest => agree_bump.andThen fun _ => rest) ?_
  refine .see (sees_nextIs fun _ _ _ => rfl) fun _ => .ite ?_ ((agree_params agrees).first body)
  exact agree_expectName.firstBut fun _ _ _ => agree_alloc.andThen fun _ => (AgreeWhen.done rfl).andThen body

omit agrees in
theorem startsAsync_eq {token : Token} (span : Span) {left right : List Token} (alike : Token.Alike left right) :
    startsAsync token left = startsAsync { token with span } right := by
  have follows := Token.ByKind.any
    (show Token.ByKind fun token => token.isSymbol .parenOpen || token.isName from fun _ _ _ => rfl)
    (alike.nthOf_kind 0)
  rw [startsAsync, startsAsync, follows]
  rfl

omit agrees in
theorem agree_arrowSign {row row' : List Token} (rows : Token.Alike row row') :
    Agree room free Eq (arrowSign row) (arrowSign row') := by
  cases rows with
  | nil => exact .done rfl
  | @word token span left right significant rest =>
      have follows : (Cursor.nthOf 0 left).any (·.isSymbol .arrow) =
          (Cursor.nthOf 0 right).any (·.isSymbol .arrow) :=
        Token.ByKind.any (fun _ _ _ => rfl) (rest.nthOf_kind 0)
      unfold arrowSign
      dsimp only
      rw [follows]
      split
      case h_1 => exact .done rfl
      case h_2 =>
          refine .onBehindParens (.word span significant rest) fun found found' kinds => ?_
          cases found with
          | none =>
              rw [Option.map_eq_none_iff.mp kinds.symm]
              exact .done rfl
          | some found =>
              obtain ⟨found', rfl, kind_eq⟩ := Option.map_eq_some_iff.mp kinds.symm
              have same : ∀ sign, found.isSymbol sign = found'.isSymbol sign := fun sign => by
                rw [Token.isSymbol, Token.isSymbol, kind_eq]
              dsimp only
              rw [same, same]
              exact .done rfl
      case h_3 => exact .done rfl
  | line isLine isLine' _ =>
      simp only [arrowSign, eq_of_beq isLine, eq_of_beq isLine']
      exact .done rfl

omit agrees in
/-- The sign of an arrow function is looked at only. -/
theorem sees_arrowSign {row row' : List Token} (rows : Token.Alike row row') :
    Sees Eq (arrowSign row) (arrowSign row') := by
  intro left right alike
  obtain ⟨sign, looked⟩ := looks_arrowSign row left
  obtain ⟨sign', looked'⟩ := looks_arrowSign row' right
  have ended := agree_arrowSign rows left right alike trivial (Nat.lt_succ_self _)
  rw [looked, looked'] at ended
  cases ended with
  | finish related _ _ _ => exact ⟨sign, sign', looked, looked', related⟩

theorem agree_arrowFunction? : Agree (room + 1) Found Eq (arrowFunction? syn) (arrowFunction? syn') := by
  refine .look sees_draft fun left right alike => ?_
  unfold Cursor.significant
  rcases alike.significant_cases with
    ⟨empty, empty'⟩ | ⟨token, span, rest, rest', significant, restAlike, first, first'⟩
  · rw [empty, empty']
    exact .idle rfl id
  · rw [first, first']
    have rows : Token.Alike (if startsAsync token rest then rest.dropWhile Token.isNewline else token :: rest)
        (if startsAsync token rest then rest'.dropWhile Token.isNewline else { token with span } :: rest') := by
      split
      · exact restAlike.dropWhile
      · exact .word span significant restAlike
    dsimp only
    rw [← startsAsync_eq span restAlike]
    refine .see (sees_lift (sees_arrowSign rows)) fun sign => ?_
    cases sign with
    | absent => exact .idle rfl id
    | certain => exact (agree_arrowFunction agrees).returning fun _ _ => congrArg some
    | possible => exact agree_attempt (agree_arrowFunction agrees)

theorem agree_assignmentTail {left : Nat} :
    Agree room free Eq (assignmentTail syn left) (assignmentTail syn' left) := by
  refine .onPeek (.done rfl) fun token span => ?_
  obtain ⟨kind, place, text⟩ := token
  cases kind with
  | symbol sign =>
      dsimp only
      cases assignOperator? sign with
      | none => exact .done rfl
      | some operator =>
          refine AgreeWhen.bump.paid fun _ => agrees.expression.andThen fun _ => ?_
          exact .onSpan fun _ _ => agree_node
  | _ => exact .done rfl

theorem agree_expression : Agree (room + 1) strict Eq (expression syn) (expression syn') := by
  refine (agree_arrowFunction? agrees).bind fun found found' related => ?_
  subst related
  cases found with
  | some arrow => exact .inr ⟨trivial, .done rfl⟩
  | none => exact .inl ((agree_conditional agrees).first fun _ => agree_assignmentTail agrees)

end Grammar

end Heed
