import Heed.Grammar.Expression
import Heed.Proofs.Grammar.Building

/-!
# Bindings and expressions build trees

Every production of bindings and expressions leaves one new root, with all that it built below it.
-/

set_option autoImplicit false

namespace Heed

open Builder (Turns TurnsWhen IsNew EndsNew)

/-- A build that leaves one new root. -/
abbrev Builder.Makes (build : Builder Nat) (role : Role) : Prop :=
  Turns [] build fun id => [⟨id, role⟩]

abbrev Builder.MayMake (build : Builder (Option Nat)) (role : Role) : Prop :=
  Turns [] build fun found => Slot.row role found.toList

structure Productions.MakeTrees (syn : Productions) : Prop where
  statement : syn.statement.Makes .plain
  expression : syn.expression.Makes .plain
  operation : ∀ precedence, (syn.operation precedence).Makes .plain
  unary : syn.unary.Makes .plain
  binding : syn.binding.Makes .binding

namespace Grammar

open Reader Builder

/-! ## Readers of bindings and expressions -/

theorem takes_endStatement : endStatement.Takes false := (takes_eat _).andThen fun _ => .done _

theorem takes_atParamModifier : atParamModifier.Takes false :=
  (takes_nextIs _).andThen fun _ => (takes_nthIs _ _).andThen fun _ => .done _

theorem looks_arrowSign (tokens : List Token) : (arrowSign tokens).Looks := by
  cases tokens with
  | nil => exact .done _
  | cons first rest =>
      rw [arrowSign]
      split
      case h_1 => exact .done _
      case h_2 isParen =>
          refine (looks_behindParens (by simp [Token.isSymbol, isParen])).bind fun found => ?_
          cases found with
          | none => exact .done _
          | some token => exact .done _
      case h_3 => exact .done _

instance : Steady endStatement := ⟨takes_endStatement⟩

instance : Steady atParamModifier := ⟨takes_atParamModifier⟩

instance {tokens : List Token} : Steady (arrowSign tokens) := ⟨(looks_arrowSign tokens).takes⟩

/-! ## Bindings and expressions -/

theorem makes_identifier (role : Role) (name : String) (span : Span)
    (accepted : ∀ kindOf, role.accepts kindOf (.identifier name none) = true) :
    (identifier name span).Makes role := .node rfl accepted

theorem makes_typeAscription : typeAscription.Makes .ascription := by
  refine .read fun start => ?_
  refine .read fun type => ?_
  exact .nodeFrom rfl fun _ => rfl

theorem typeAscription_ok {draft after : Draft} {id : Nat} (success : typeAscription draft = .ok (id, after)) :
    id = draft.nodes.size ∧ ∃ node, after.nodes = draft.nodes.push node := by
  obtain ⟨start, _, lifted, success⟩ := bind_ok success
  obtain ⟨_, -, rfl⟩ := read_ok lifted
  obtain ⟨type, _, lifted, success⟩ := bind_ok success
  obtain ⟨_, -, rfl⟩ := read_ok lifted
  obtain ⟨stop, _, lifted, success⟩ := bind_ok success
  obtain ⟨_, -, rfl⟩ := read_ok lifted
  obtain ⟨rfl, rfl⟩ := Prod.mk.inj (Except.ok.inj success)
  exact ⟨rfl, _, rfl⟩

/-- The target was built last, so that its ascription comes right behind it. -/
theorem turns_attachAscription (target : Nat) :
    TurnsWhen (IsNew target) [⟨target, .binding⟩] (attachAscription target) fun _ => [⟨target, .binding⟩] := by
  refine .read fun isAscribed => .ite ?_ (.any (.done rfl))
  refine .read fun _ => ?_
  refine .add makes_typeAscription ?_ fun ascription => .ascribe target ascription
  intro draft ascription after success isNew
  obtain ⟨rfl, node, nodes_eq⟩ := typeAscription_ok success
  have inside : target < draft.nodes.size := Nat.lt_of_lt_of_eq (Nat.lt_succ_self _) isNew.last
  refine ⟨isNew.last, ?_⟩
  rw [nodes_eq, kindAt_push_of_lt node inside]
  exact isNew.unascribed

theorem mayMake_returnAscription : returnAscription.MayMake .ascription := by
  refine .read fun isAscribed => .ite ?_ (.done rfl)
  refine .read fun start => .read fun type => ?_
  exact .bind (.nodeFrom rfl fun _ => rfl) fun _ => .done rfl

/-- A property whose key is apart from its value. -/
theorem turns_property {key value : Nat} {span : Span} {strong role : Role}
    (accepted : ∀ kindOf : Nat → NodeKind, strong.accepts kindOf (kindOf value) = true →
      role.accepts kindOf (.property key value false) = true) :
    Turns [⟨key, .name⟩, ⟨value, strong⟩] (alloc (.property key value false) span)
      fun id => [⟨id, role⟩] := by
  refine .alloc rfl (fun nodes stands slot listed => ?_) fun nodes stands => ?_
  · rcases List.mem_pair.mp listed with rfl | rfl
    · exact stands _ (by simp)
    · rfl
  · exact accepted (kindAt nodes) (stands ⟨value, strong⟩ (by simp))

/-- A property whose key is its value as well. -/
theorem turns_shorthand {key : Nat} {span : Span} {role : Role}
    (accepted : ∀ kindOf : Nat → NodeKind, (kindOf key).isIdentifier = true →
      role.accepts kindOf (.property key key true) = true) :
    Turns [⟨key, .name⟩] (alloc (.property key key true) span) fun id => [⟨id, role⟩] := by
  refine .alloc rfl (fun nodes stands slot listed => ?_) fun nodes stands => ?_
  · rw [List.mem_singleton.mp listed]
    rfl
  · exact accepted (kindAt nodes) (stands ⟨key, .name⟩ (by simp))

variable {syn : Productions} (trees : syn.MakeTrees)

include trees

theorem turns_skipDefaultValue (ins : List Slot) : Turns ins (skipDefaultValue syn) fun _ => ins :=
  .read fun _ => .ite (.discarding trees.expression) (.done rfl)

theorem makes_restBinding {role : Role}
    (accepted : ∀ kindOf argument, role.accepts kindOf (.rest argument) = true) :
    (restBinding syn).Makes role := by
  refine .read fun start => ?_
  refine .bind trees.binding fun argument => ?_
  exact .look (by simp) fun span => .node rfl fun kindOf => accepted kindOf argument

theorem makes_propertyBinding : (propertyBinding syn).Makes .bindingProperty := by
  refine .read fun ⟨name, span⟩ => ?_
  refine .bind (makes_identifier .name name span fun _ => rfl) fun key => ?_
  refine .read fun isNamed => .ite ?_ ?_
  · refine .add trees.binding fun value => ?_
    refine .bind (turns_skipDefaultValue trees _) fun _ => .look (by simp) fun span => ?_
    exact turns_property fun _ isBinding => isBinding
  · refine .bind (turns_skipDefaultValue trees _) fun _ => ?_
    exact turns_shorthand fun _ => NodeKind.isBinding_of_isIdentifier

theorem makes_objectPattern (start : Span) : (objectPattern syn start).Makes .binding := by
  refine .read fun _ => ?_
  refine .bind (.commaList .bindingProperty ?_) fun properties => ?_
  · refine .read fun isRest => .ite ?_ (makes_propertyBinding trees)
    exact makes_restBinding trees fun _ _ => rfl
  · exact .read fun close => .node rfl fun _ => rfl

theorem makes_arrayPattern (start : Span) : (arrayPattern syn start).Makes .binding := by
  refine .read fun _ => ?_
  refine .bind (.holedList .parameter ?_) fun elements => ?_
  · refine .read fun isRest => .ite (makes_restBinding trees fun _ _ => rfl) ?_
    refine .bind trees.binding fun element => ?_
    refine .bind (turns_skipDefaultValue trees _) fun _ => ?_
    exact .doneAs (by decide) Role.parameter_of_binding
  · exact .read fun close => .node rfl fun _ => rfl

theorem makes_bindingTarget : (bindingTarget syn).Makes .binding := by
  refine .read fun next => ?_
  cases next with
  | none => exact .unexpected _
  | some token =>
      dsimp only
      split
      · exact makes_objectPattern trees _
      · exact makes_arrayPattern trees _
      · exact .read fun _ => makes_identifier .binding _ _ fun _ => rfl
      · exact .read fun ⟨name, span⟩ => makes_identifier .binding name span fun _ => rfl

omit trees in
theorem endsNew_bindingTarget : EndsNew (bindingTarget syn) := by
  refine .bind fun next => ?_
  cases next with
  | none => exact .unexpected _
  | some token =>
      dsimp only
      split
      · exact .bind fun _ => .bind fun _ => .bind fun _ => .alloc (by simp)
      · exact .bind fun _ => .bind fun _ => .bind fun _ => .alloc (by simp)
      · exact .bind fun _ => .alloc (by simp)
      · exact .bind fun _ => .alloc (by simp)

theorem makes_param : (param syn).Makes .parameter := by
  refine .skip (.repeat () fun _ => ?_) fun _ => ?_
  · refine .read fun isModifier => .ite ?_ (.done rfl)
    exact .read fun _ => .done rfl
  refine .read fun start => .read fun isRest => ?_
  refine endsNew_bindingTarget.turns (makes_bindingTarget trees) fun target => ?_
  refine .read fun _ => .first (turns_attachAscription target) fun _ => ?_
  refine .bind (turns_skipDefaultValue trees _) fun _ => .ite ?_ ?_
  · exact .look (by simp) fun span => .node rfl fun _ => rfl
  · exact .doneAs (by decide) Role.parameter_of_binding

theorem turns_params : Turns [] (params syn) (Slot.row .parameter) := by
  refine .read fun _ => ?_
  refine .bind (.commaList .parameter (makes_param trees)) fun params => ?_
  exact .read fun _ => .done rfl

theorem makes_block : (block syn).Makes .plain := by
  refine .read fun start => ?_
  refine .bind (.bracedItems (.map_some trees.statement)) fun body => ?_
  exact .read fun close => .node rfl fun _ => rfl

theorem mayMake_optionalBlock : (optionalBlock syn).MayMake .plain := by
  refine .read fun isBlock => .ite ?_ (.read fun _ => .done rfl)
  exact .bind (makes_block trees) fun _ => .done rfl

theorem makes_spreadOrExpression : (spreadOrExpression syn).Makes .plain := by
  refine .read fun next => ?_
  cases next with
  | none => exact trees.expression
  | some token =>
      refine .ite ?_ trees.expression
      refine .read fun _ => .bind trees.expression fun argument => ?_
      exact .look (by simp) fun span => .node rfl fun _ => rfl

theorem turns_arguments : Turns [] (arguments syn) fun found => Slot.row .plain found.1 := by
  refine .read fun _ => ?_
  refine .bind (.commaList .plain (makes_spreadOrExpression trees)) fun arguments => ?_
  exact .read fun close => .done rfl

theorem turns_functionTail (name : Option Nat) (isAsync : Bool) (start : Nat) :
    Turns (Slot.row .name name.toList) (functionTail syn name isAsync start)
      fun id => [⟨id, .plain⟩] := by
  refine .read fun _ => ?_
  refine .add (turns_params trees) fun params => ?_
  refine .add mayMake_returnAscription fun returnType => ?_
  refine .add (makes_block trees) fun body => ?_
  exact .look (by simp) fun span => .node rfl fun _ => rfl

theorem makes_functionExpression (isAsync : Bool) (start : Nat) :
    (functionExpression syn isAsync start).Makes .plain := by
  refine .read fun _ => .read fun _ => .read fun isNamed => .ite ?_ ?_
  · refine .read fun ⟨name, span⟩ => ?_
    refine .bind (makes_identifier .name name span fun _ => rfl) fun name => ?_
    exact turns_functionTail trees (some name) isAsync start
  · exact turns_functionTail trees none isAsync start

theorem makes_namedProperty : (namedProperty syn).Makes .member := by
  refine .read fun mayBeShort => .read fun ⟨name, span⟩ => ?_
  refine .bind (makes_identifier .name name span fun _ => rfl) fun key => ?_
  have property : ∀ value, Turns [⟨key, .name⟩, ⟨value, .plain⟩] (do
      alloc (.property key value false) (span.join (← spanOf value))) fun id => [⟨id, .member⟩] :=
    fun value => .look (by simp) fun span => turns_property fun _ isPlain => isPlain
  refine .read fun isCall => .read fun isGeneric => .ite ?_ ?_
  · exact .add (turns_functionTail trees none false span.start) property
  refine .read fun isNamed => .ite ?_ ?_
  · exact .add trees.expression property
  refine .ite ?_ (.unexpected _)
  exact turns_shorthand fun _ => NodeKind.isPlain_of_isIdentifier

theorem makes_objectLiteral : (objectLiteral syn).Makes .plain := by
  refine .read fun start => ?_
  refine .bind (.commaList .member ?_) fun properties => ?_
  · refine .read fun isSpread => .ite ?_ (makes_namedProperty trees)
    exact (makes_spreadOrExpression trees).weaken (by decide) Role.member_of_plain
  · exact .read fun close => .node rfl fun _ => rfl

theorem makes_arrayLiteral (start : Span) : (arrayLiteral syn start).Makes .plain := by
  refine .read fun _ => ?_
  refine .bind (.holedList .plain (makes_spreadOrExpression trees)) fun elements => ?_
  exact .read fun close => .node rfl fun _ => rfl

theorem makes_parenthesised : (parenthesised syn).Makes .plain := by
  refine .read fun _ => .bind trees.expression fun inner => ?_
  exact .read fun _ => .done rfl

omit trees in
theorem makes_leaf {role : Role} {kind : NodeKind} (token : Token) (lone : kind.slots = [])
    (accepted : ∀ kindOf, role.accepts kindOf kind = true) : (leaf kind token).Makes role :=
  .read fun _ => .node lone.symm accepted

theorem makes_primary : (primary syn).Makes .plain := by
  refine .read fun next => ?_
  cases next with
  | none => exact .unexpected _
  | some token =>
      dsimp only
      split
      · refine .read fun isFunction => .ite ?_ (makes_leaf token rfl fun _ => rfl)
        exact .read fun _ => makes_functionExpression trees true _
      · exact makes_leaf token rfl fun _ => rfl
      · exact makes_leaf token rfl fun _ => rfl
      · exact makes_leaf token rfl fun _ => rfl
      · exact makes_leaf token rfl fun _ => rfl
      · exact makes_leaf token rfl fun _ => rfl
      · exact makes_leaf token rfl fun _ => rfl
      · exact makes_parenthesised trees
      · exact makes_arrayLiteral trees _
      · exact makes_objectLiteral trees
      · exact makes_functionExpression trees false _
      · exact .unexpected _

omit trees in
theorem turns_memberTail (base : Nat) (optional : Bool) :
    Turns [⟨base, .plain⟩] (memberTail base optional) fun id => [⟨id, .plain⟩] := by
  refine .read fun ⟨name, span⟩ => ?_
  refine .add (makes_identifier .name name span fun _ => rfl) fun key => ?_
  exact .look (by simp) fun span => .node rfl fun _ => rfl

theorem turns_computedTail (base : Nat) (optional : Bool) :
    Turns [⟨base, .plain⟩] (computedTail syn base optional) fun id => [⟨id, .plain⟩] := by
  refine .read fun _ => .add trees.expression fun key => ?_
  exact .read fun close => .look (by simp) fun span => .node rfl fun _ => rfl

theorem turns_callTail (callee : Nat) :
    Turns [⟨callee, .plain⟩] (callTail syn callee) fun id => [⟨id, .plain⟩] := by
  refine .add (turns_arguments trees) fun ⟨arguments, stop⟩ => ?_
  exact .look (by simp) fun span => .node rfl fun _ => rfl

theorem makes_newExpression : (newExpression syn).Makes .plain := by
  refine .read fun start => .bind (makes_primary trees) fun first => ?_
  refine .bind (.growRoot .plain first fun callee => ?_) fun callee => ?_
  · refine .read fun isMember => .ite ?_ (.done rfl)
    exact .bind (turns_memberTail callee false) fun _ => .done rfl
  refine .read fun isCall => .ite ?_ ?_
  · refine .add (turns_arguments trees) fun ⟨arguments, stop⟩ => ?_
    exact .node rfl fun _ => rfl
  · exact .look (by simp) fun span => .node rfl fun _ => rfl

theorem turns_optionalTail (base : Nat) :
    Turns [⟨base, .plain⟩] (optionalTail syn base) fun id => [⟨id, .plain⟩] := by
  refine .read fun isCall => .ite (turns_callTail trees base) ?_
  refine .read fun isComputed => .ite (turns_computedTail trees base true) ?_
  exact turns_memberTail base true

theorem turns_valueTail (value : Nat) :
    Turns [⟨value, .plain⟩] (valueTail syn value) fun found => [⟨found.getD value, .plain⟩] := by
  refine .read fun isMember => .ite (.bind (turns_memberTail value false) fun _ => .done rfl) ?_
  refine .read fun isOptional => .ite (.bind (turns_optionalTail trees value) fun _ => .done rfl) ?_
  refine .read fun isCall => .ite (.bind (turns_callTail trees value) fun _ => .done rfl) ?_
  refine .read fun isComputed =>
    .ite (.bind (turns_computedTail trees value false) fun _ => .done rfl) ?_
  refine .read fun isNonNull => .ite ?_ (.done rfl)
  refine .read fun _ => .look (by simp) fun span => .read fun stop => ?_
  exact .bind (.node rfl fun _ => rfl) fun _ => .done rfl

theorem makes_callOrMember : (callOrMember syn).Makes .plain := by
  refine .read fun isNew => .ite (.bind (makes_newExpression trees) ?_) (.bind (makes_primary trees) ?_)
  all_goals exact fun value => .growRoot .plain value (turns_valueTail trees)

omit trees in
theorem turns_updateTail (argument : Nat) :
    Turns [⟨argument, .plain⟩] (updateTail argument) fun id => [⟨id, .plain⟩] := by
  refine .look (by simp) fun span => .read fun isIncrement => .ite ?_ ?_
  · exact .read fun _ => .read fun stop => .node rfl fun _ => rfl
  refine .read fun isDecrement => .ite ?_ (.done rfl)
  exact .read fun _ => .read fun stop => .node rfl fun _ => rfl

omit trees in
theorem slots_of_unaryOperator? {kind : Token.Kind} {operator : Nat → NodeKind}
    (found : unaryOperator? kind = some operator) (argument : Nat) :
    (operator argument).slots = [⟨argument, .plain⟩] ∧
      ∀ kindOf, Role.plain.accepts kindOf (operator argument) = true := by
  rw [unaryOperator?.eq_def] at found
  split at found <;> cases found <;> exact ⟨rfl, fun _ => rfl⟩

theorem makes_unary : (unary syn).Makes .plain := by
  refine .read fun next => ?_
  cases next with
  | none => exact .unexpected _
  | some token =>
      dsimp only
      split
      case h_1 operator found =>
          refine .read fun _ => .bind trees.unary fun argument => .look (by simp) fun span => ?_
          have ⟨slots_eq, accepted⟩ := slots_of_unaryOperator? found argument
          exact .node slots_eq.symm accepted
      case h_2 => exact .bind (makes_callOrMember trees) turns_updateTail

omit trees in
theorem slots_of_operator? {sign : Symbol} {precedence : Nat} {operator : Nat → Nat → NodeKind}
    (found : operator? sign = some (precedence, operator)) (left right : Nat) :
    (operator left right).slots = [⟨left, .plain⟩, ⟨right, .plain⟩] ∧
      ∀ kindOf, Role.plain.accepts kindOf (operator left right) = true := by
  rw [operator?.eq_def] at found
  split at found <;> cases found <;> exact ⟨rfl, fun _ => rfl⟩

omit trees in
theorem makes_asTarget : asTarget.Makes .ascription := by
  refine .read fun next => ?_
  cases next with
  | none => exact makes_typeAscription
  | some token => exact .ite (makes_leaf token rfl fun _ => rfl) makes_typeAscription

omit trees in
theorem turns_assertionTail (value : Nat) (isAs : Bool) :
    Turns [⟨value, .plain⟩] (assertionTail value isAs) fun id => [⟨id, .plain⟩] := by
  refine .read fun _ => .ite (.add makes_asTarget ?_) (.add makes_typeAscription ?_)
  all_goals
    refine fun ascription => .look (by simp) fun valueSpan => .look (by simp) fun ascriptionSpan => .ite ?_ ?_
    · exact .node rfl fun _ => rfl
    · exact .node rfl fun _ => rfl

theorem turns_operatorTail (precedence left : Nat) :
    Turns [⟨left, .plain⟩] (operatorTail syn precedence left)
      fun found => [⟨found.getD left, .plain⟩] := by
  refine .read fun next => ?_
  split
  case h_1 =>
      split
      case h_1 own operator found =>
          refine .ite (.done rfl) (.read fun _ => ?_)
          refine .add (trees.operation (own + 1)) fun right => .look (by simp) fun _ => .look (by simp) fun _ => ?_
          have ⟨slots_eq, accepted⟩ := slots_of_operator? found left right
          exact .bind (.node slots_eq.symm accepted) fun _ => .done rfl
      case h_2 => exact .done rfl
  case h_2 => exact .done rfl

theorem turns_operationTail (precedence left : Nat) :
    Turns [⟨left, .plain⟩] (operationTail syn precedence left)
      fun found => [⟨found.getD left, .plain⟩] := by
  refine .read fun isAs => .ite (.bind (turns_assertionTail left true) fun _ => .done rfl) ?_
  refine .read fun isSatisfies =>
    .ite (.bind (turns_assertionTail left false) fun _ => .done rfl) ?_
  exact turns_operatorTail trees precedence left

theorem makes_operation (precedence : Nat) : (operation syn precedence).Makes .plain :=
  .bind (makes_unary trees) fun first =>
    .growRoot .plain first (turns_operationTail trees precedence)

theorem makes_conditional : (conditional syn).Makes .plain := by
  refine .bind (makes_operation trees 1) fun test => .read fun isTest => .ite ?_ (.done rfl)
  refine .add trees.expression fun consequent => .read fun _ => ?_
  refine .add trees.expression fun alternate => ?_
  exact .look (by simp) fun _ => .look (by simp) fun _ => .node rfl fun _ => rfl

/-- What stands behind the parameters of an arrow function. -/
theorem turns_arrowTail (params : List Nat) (isAsync : Bool) (start : Nat) :
    Turns (Slot.row .parameter params) (do
      let returnType ← returnAscription
      let _ ← expect .arrow
      let body ← if ← check .braceOpen then block syn else syn.expression
      alloc (.arrowFunction params returnType body isAsync) ⟨start, (← spanOf body).stop⟩)
      fun id => [⟨id, .plain⟩] := by
  refine .add mayMake_returnAscription fun returnType => .read fun _ => .read fun isBlock => ?_
  refine .ite (.add (makes_block trees) ?_) (.add trees.expression ?_)
  all_goals exact fun body => .look (by simp) fun _ => .node rfl fun _ => rfl

theorem makes_arrowFunction (isAsync : Bool) (start : Nat) :
    (arrowFunction syn isAsync start).Makes .plain := by
  refine .ite (.read fun _ => ?_) ?_
  all_goals
    refine .read fun isName => .ite ?_ ?_
    · refine .read fun ⟨name, span⟩ => ?_
      refine .bind (makes_identifier .parameter name span fun _ => rfl) fun name => .given ?_
      exact turns_arrowTail trees [name] isAsync start
    · exact .bind (turns_params trees) fun params => turns_arrowTail trees params isAsync start

theorem mayMake_arrowFunction? : (arrowFunction? syn).MayMake .plain := by
  refine .inspect fun draft => ?_
  split
  case h_1 => exact .done rfl
  case h_2 first rest _ =>
      refine .read fun sign => ?_
      cases sign with
      | absent => exact .done rfl
      | certain => exact .bind (makes_arrowFunction trees _ _) fun _ => .done rfl
      | possible => exact .attempt (makes_arrowFunction trees _ _)

theorem turns_assignmentTail (left : Nat) :
    Turns [⟨left, .plain⟩] (assignmentTail syn left) fun id => [⟨id, .plain⟩] := by
  refine .read fun next => ?_
  split
  case h_1 =>
      split
      case h_1 operator _ =>
          refine .read fun _ => .add trees.expression fun right => ?_
          exact .look (by simp) fun _ => .look (by simp) fun _ => .node rfl fun _ => rfl
      case h_2 => exact .done rfl
  case h_2 => exact .done rfl

theorem makes_expression : (expression syn).Makes .plain := by
  refine .bind (mayMake_arrowFunction? trees) fun arrow => ?_
  cases arrow with
  | some arrow => exact .done rfl
  | none => exact .bind (makes_conditional trees) fun left => turns_assignmentTail trees left

end Grammar

end Heed
