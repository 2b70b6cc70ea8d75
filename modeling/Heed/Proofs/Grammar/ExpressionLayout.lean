import Heed.Proofs.Grammar.Expression
import Heed.Proofs.Grammar.Layout

/-!
# Bindings and expressions are laid out in order

Every production of bindings and expressions leaves one new node, built of the tokens that it takes.
-/

set_option autoImplicit false

namespace Heed

variable {edge : Nat → Prop}

open Builder (Lays LaysAt LaysWhen Quiet Needs)

/-- A build that leaves one new node behind what is in hand. -/
abbrev Builder.Places (edge : Nat → Prop) (build : Builder Nat) : Prop :=
  Lays edge [] build fun id => [id]

abbrev Builder.PlacesAt (edge : Nat → Prop) (token : Token) (build : Builder Nat) : Prop :=
  LaysAt edge token [] build fun id => [id]

abbrev Builder.MayPlace (edge : Nat → Prop) (build : Builder (Option Nat)) : Prop :=
  Lays edge [] build Option.toList

structure Productions.PlaceNodes (edge : Nat → Prop) (syn : Productions) : Prop where
  trees : syn.MakeTrees
  statement : syn.statement.Places edge
  expression : syn.expression.Places edge
  operation : ∀ precedence, (syn.operation precedence).Places edge
  unary : syn.unary.Places edge
  binding : syn.binding.Places edge

namespace Grammar

open Reader Builder

theorem places_typeAscription : typeAscription.Places edge := by
  refine .nextStart (.first (.ofRead takes_type)) fun token => .mark ?_
  refine .take takes_type fun type span => ?_
  exact .nodeFrom rfl rfl rfl rfl rfl

theorem lays_attachAscription {target : Nat} {span : Span} :
    Lays edge [.node span target] (attachAscription target) fun _ => [target] := by
  refine .read (takes_nextIs _) fun isAscribed => .ite ?_ (.done rfl)
  refine .read takes_bump fun _ => .addNode places_typeAscription fun ascription span' => ?_
  exact .ascribe

theorem mayPlace_returnAscription : returnAscription.MayPlace edge := by
  have takes : (withTypes returnType).Takes true := takes_withTypes fun _ => takes_returnType
  refine .read (takes_eat _) fun isAscribed => .ite ?_ (.done rfl)
  refine .nextStart (.first (.ofRead takes)) fun token => .mark (.take takes fun type span => ?_)
  exact .bind (.nodeFrom rfl rfl rfl rfl rfl) fun _ _ same => .done same

theorem takes_checkName : checkName.Takes false := takes_nextIs _

variable {syn : Productions} (places : syn.PlaceNodes edge)

include places

theorem quiet_skipDefaultValue : Quiet edge (skipDefaultValue syn) :=
  .bind (.ofRead (takes_eat _)) fun _ => .ite (.discarding places.trees.expression places.expression) (.done _)

theorem lays_restBinding {span : Span} (width : span.start + 3 = span.stop) :
    LaysWhen edge (fun draft => draft.cursor.lastEnd = span.stop) [.text span] (restBinding syn)
      fun id => [id] := by
  refine .lastEnd (.addNode places.binding fun argument span' => .look span' (by simp) ?_)
  exact .nodeTo rfl rfl rfl rfl (Nat.eq_sub_of_add_eq width) rfl

theorem places_propertyBinding : (propertyBinding syn).Places edge := by
  refine .propertyName fun name span => .identifier fun key => ?_
  refine .read (takes_eat _) fun isNamed => .ite ?_ ?_
  · refine .addNode places.binding fun value span' => ?_
    refine .quiet (quiet_skipDefaultValue places) fun _ => .look span' (by simp) ?_
    exact .nodeJoin rfl rfl rfl rfl rfl rfl
  · exact .quiet (quiet_skipDefaultValue places) fun _ => .nodeOver rfl rfl

theorem places_objectPattern (token : Token) : (objectPattern syn token.span).PlacesAt edge token := by
  refine .bump (.add (.commaList ?_) fun properties entries same => .expect fun close => ?_)
  · exact .onSpread (fun span => lays_restBinding places) (places_propertyBinding places)
  · exact .nodeJoin rfl (by simp [same, NodeKind.children]) rfl rfl rfl rfl

theorem places_arrayPattern (token : Token) : (arrayPattern syn token.span).PlacesAt edge token := by
  refine .bump (.add (.holedList ?_) fun elements entries same => .expect fun close => ?_)
  · refine .onSpread (fun span => lays_restBinding places) ?_
    refine .bindNode places.binding fun element span => ?_
    exact .quiet (quiet_skipDefaultValue places) fun _ => .done rfl
  · exact .nodeJoin rfl (by simp [same, NodeKind.children]) rfl rfl rfl rfl

theorem places_bindingTarget : (bindingTarget syn).Places edge := by
  refine .onPeek (.unexpected _) fun token => ?_
  dsimp only
  split
  · exact places_objectPattern places token
  · exact places_arrayPattern places token
  · exact .bump (.leafOnly rfl)
  · exact .name fun name span => .leafOnly rfl

theorem places_param : (param syn).Places edge := by
  refine .quiet (.grow (fun _ => ?_) ()) fun _ => ?_
  · refine .bind (.ofRead takes_atParamModifier) fun isModifier => .ite ?_ (.done _)
    exact .bind (.ofRead takes_bump) fun _ => .done _
  refine .nextStart (.read (takes_eat _) fun _ => .first (.ofLays (places_bindingTarget places)))
    fun token => .mark ?_
  refine .read (takes_eat _) fun isRest => .addNode (places_bindingTarget places) fun target span => ?_
  refine .read (takes_eat _) fun _ => .into lays_attachAscription fun _ entries same => ?_
  refine .quiet (quiet_skipDefaultValue places) fun _ => ?_
  refine .ofNode same fun span' => .ite ?_ ?_
  · exact .look span' (by simp) (.nodeTo rfl rfl rfl rfl rfl rfl)
  · exact .done rfl

theorem lays_params : Lays edge [] (params syn) id := by
  refine .read (@takes_expect false _) fun _ => ?_
  refine .bind (.commaList (places_param places)) fun params entries same => ?_
  exact .read (@takes_expect false _) fun _ => .done same

theorem places_block : (block syn).Places edge := by
  refine .expect fun start => ?_
  refine .add (.bracedItems (.map_some places.statement)) fun body entries same => ?_
  exact .expect fun close => .nodeJoin rfl (by simp [same, NodeKind.children]) rfl rfl rfl rfl

theorem mayPlace_optionalBlock : (optionalBlock syn).MayPlace edge := by
  refine .read (takes_nextIs _) fun isBlock => .ite ?_ ?_
  · exact .bind (places_block places) fun _ _ same => .done same
  · exact .read takes_endStatement fun _ => .done rfl

theorem places_spreadOrExpression : (spreadOrExpression syn).Places edge := by
  refine .onPeek places.expression fun token => .ite ?_ (.any places.expression)
  refine .bump (.addNode places.expression fun argument span => .look span (by simp) ?_)
  exact .nodeJoin rfl rfl rfl rfl rfl rfl

theorem lays_arguments {ins : List Entry} {next : List Nat × Nat → Builder Nat} {outs : Nat → List Nat}
    (rest : ∀ arguments entries start close, Entry.ids entries = arguments →
      Lays edge (ins ++ [.text start] ++ entries ++ [.text close]) (next (arguments, close.stop)) outs) :
    Lays edge ins (arguments syn >>= next) outs := by
  simp only [arguments, bind_assoc, pure_bind]
  refine .expect fun start => ?_
  refine .add (.commaList (places_spreadOrExpression places)) fun arguments entries same => ?_
  exact .expect fun close => rest arguments entries start close same

theorem lays_functionTail {ins : List Entry} {name : Option Nat} {isAsync : Bool} {start : Nat}
    {next : Nat → Builder Nat} {outs : Nat → List Nat}
    (rest : ∀ params returnType body entries span, Entry.ids entries = params ++ returnType.toList →
      Lays edge (ins ++ (entries ++ [.node span body])) (do
        next (← alloc (.functionExpression name params returnType body isAsync) ⟨start, span.stop⟩)) outs) :
    Lays edge ins (functionTail syn name isAsync start >>= next) outs := by
  simp only [functionTail, bind_assoc]
  refine .read (takes_withTypes fun _ => takes_typeParams) fun _ => ?_
  refine .add (lays_params places) fun params entries same => ?_
  refine .add mayPlace_returnAscription fun returnType entries' same' => ?_
  refine .addNode (places_block places) fun body span => .look span (by simp) ?_
  have lays := rest params returnType body (entries ++ entries') span (by simp [same, same'])
  simpa only [List.append_assoc] using lays

theorem lays_functionExpression (isAsync : Bool) (start : Nat) :
    Lays edge [.mark start] (functionExpression syn isAsync start) fun id => [id] := by
  refine .read (takes_expectWord _) fun _ => .read (takes_eat _) fun _ => ?_
  refine .read takes_checkName fun isNamed => .ite ?_ ?_
  · refine .name fun name span => .identifier fun name => ?_
    rw [← bind_pure (functionTail syn (some name) isAsync start)]
    refine lays_functionTail places fun params returnType body entries span same => ?_
    rw [bind_pure, ← List.append_assoc]
    exact .nodeTo rfl rfl (by simp [same, NodeKind.children]) rfl rfl rfl
  · rw [← bind_pure (functionTail syn none isAsync start)]
    refine lays_functionTail places fun params returnType body entries span same => ?_
    rw [bind_pure, ← List.append_assoc]
    exact .nodeTo rfl rfl (by simp [same, NodeKind.children]) rfl rfl rfl

theorem places_namedProperty : (namedProperty syn).Places edge := by
  refine .read takes_checkName fun mayBeShort => .propertyName fun name span => .key rfl fun key => ?_
  refine .read (takes_nextIs _) fun isCall => .read (takes_nextIs _) fun isGeneric => .ite ?_ ?_
  · refine lays_functionTail places fun params returnType body entries span same => ?_
    exact .nodeBeside rfl (by simp [same, NodeKind.children]) rfl (fun _ => rfl) fun _ => rfl
  refine .read (takes_eat _) fun isNamed => .ite ?_ (.ite (.soften (.nodeOver rfl rfl)) (.unexpected _))
  refine .addNode places.expression fun value span' => .look span' (by simp) ?_
  exact .nodeJoin rfl rfl rfl rfl rfl rfl

theorem places_objectLiteral : (objectLiteral syn).Places edge := by
  refine .expect fun start => .add (.commaList ?_) fun properties entries same => .expect fun close => ?_
  · exact .read (takes_nextIs _) fun _ => .ite (places_spreadOrExpression places)
      (places_namedProperty places)
  · exact .nodeJoin rfl (by simp [same, NodeKind.children]) rfl rfl rfl rfl

theorem places_arrayLiteral (token : Token) : (arrayLiteral syn token.span).PlacesAt edge token := by
  refine .bump (.add (.holedList (places_spreadOrExpression places)) fun elements entries same => ?_)
  exact .expect fun close => .nodeJoin rfl (by simp [same, NodeKind.children]) rfl rfl rfl rfl

theorem places_parenthesised : (parenthesised syn).Places edge := by
  refine .read takes_bump fun _ => .bindNode places.expression fun inner span => ?_
  exact .read (@takes_expect false _) fun _ => .done rfl

omit places in
theorem places_leaf {kind : NodeKind} (token : Token) (childless : kind.children = []) :
    (leaf kind token).PlacesAt edge token := .bump (.leafOnly childless)

theorem places_primary : (primary syn).Places edge := by
  refine .onPeek (.unexpected _) fun token => ?_
  dsimp only
  split
  · refine .glance (looks_nthIs _ _) fun isFunction => .ite ?_ (places_leaf token rfl)
    exact .mark (.read takes_bump fun _ => lays_functionExpression places true _)
  · exact places_leaf token rfl
  · exact places_leaf token rfl
  · exact places_leaf token rfl
  · exact places_leaf token rfl
  · exact places_leaf token rfl
  · exact places_leaf token rfl
  · exact .any (places_parenthesised places)
  · exact places_arrayLiteral places token
  · exact .any (places_objectLiteral places)
  · exact .mark (.any (lays_functionExpression places false _))
  · exact .unexpected _

section Tails

variable {span : Span}

omit places in
theorem lays_memberTail (base : Nat) (optional : Bool) :
    Lays edge [.node span base] (memberTail base optional) fun id => [id] := by
  refine .propertyName fun name span' => .identifier fun key => .look span (by simp) ?_
  exact .nodeJoin rfl rfl rfl rfl rfl rfl

theorem lays_computedTail (base : Nat) (optional : Bool) :
    Lays edge [.node span base] (computedTail syn base optional) fun id => [id] := by
  refine .expect fun _ => .addNode places.expression fun key span' => .expect fun close => ?_
  exact .look span (by simp) (.nodeTo rfl rfl rfl rfl rfl rfl)

theorem lays_callTail (callee : Nat) :
    Lays edge [.node span callee] (callTail syn callee) fun id => [id] := by
  refine lays_arguments places fun arguments entries start close same => ?_
  exact .look span (by simp) (.nodeTo rfl rfl (by simp [same, NodeKind.children]) rfl rfl rfl)

theorem places_newExpression : (newExpression syn).Places edge := by
  refine .give (gives_expectWord _) fun start => .addNode (places_primary places) fun first span => ?_
  refine .intoNode (.grow (fun callee span => ?_) first span) fun callee span => ?_
  · refine .read (takes_eat _) fun isMember => .ite ?_ (.done rfl)
    exact .bind (lays_memberTail callee false) fun _ _ same => .done same
  refine .read (takes_rawIs _) fun isCall => .ite ?_ ?_
  · refine lays_arguments places fun arguments entries start close same => ?_
    exact .nodeTo rfl rfl (by simp [same, NodeKind.children]) rfl rfl rfl
  · exact .look span (by simp) (.nodeTo rfl rfl rfl rfl rfl rfl)

theorem lays_optionalTail (base : Nat) :
    Lays edge [.node span base] (optionalTail syn base) fun id => [id] := by
  refine .read (takes_nextIs _) fun isCall => .ite (lays_callTail places base) ?_
  refine .read (takes_nextIs _) fun isComputed => .ite (lays_computedTail places base true) ?_
  exact lays_memberTail base true

omit places in
/-- A node up to the last token taken, kept as a value found. -/
theorem lays_found {ins : List Entry} {build : Builder Nat} {value : Nat}
    (lays : Lays edge ins build fun id => [id]) :
    Lays edge ins (do return some (← build)) fun found => [found.getD value] :=
  .bind lays fun _ _ same => .done same

theorem lays_valueTail (value : Nat) :
    Lays edge [.node span value] (valueTail syn value) fun found => [found.getD value] := by
  have nonNull : Lays edge [.node span value] (do
      return some (← allocFrom (.nonNull value) (← spanOf value).start))
      fun found => [found.getD value] := by
    refine .look span (by simp) ?_
    exact lays_found (.nodeFrom rfl rfl rfl rfl rfl)
  refine .read (takes_eat _) fun isMember => .ite (lays_found (lays_memberTail value false)) ?_
  refine .read (takes_eat _) fun isOptional => .ite (lays_found (lays_optionalTail places value)) ?_
  refine .read (takes_rawIs _) fun isCall => .ite (lays_found (lays_callTail places value)) ?_
  refine .read (takes_rawIs _) fun isComputed =>
    .ite (lays_found (lays_computedTail places value false)) ?_
  refine .read (takes_rawIs _) fun isNonNull => .ite (.read takes_bump fun _ => ?_) (.done rfl)
  simpa only [allocFrom, bind_assoc] using nonNull

theorem places_callOrMember : (callOrMember syn).Places edge := by
  refine .read (takes_nextIs _) fun isNew => .ite (.bindNode (places_newExpression places) ?_)
    (.bindNode (places_primary places) ?_)
  all_goals exact fun value span => .grow (fun value span => lays_valueTail places value) value span

omit places in
theorem lays_updateTail (argument : Nat) :
    Lays edge [.node span argument] (updateTail argument) fun id => [id] := by
  refine .look span (by simp) (.read (takes_rawIs _) fun isIncrement => .ite ?_ ?_)
  · exact .read takes_bump fun _ => .nodeFrom rfl rfl rfl rfl rfl
  refine .read (takes_rawIs _) fun isDecrement => .ite ?_ (.done rfl)
  exact .read takes_bump fun _ => .nodeFrom rfl rfl rfl rfl rfl

omit places in
theorem children_of_unaryOperator? {kind : Token.Kind} {operator : Nat → NodeKind}
    (found : unaryOperator? kind = some operator) (argument : Nat) :
    (operator argument).children = [argument] ∧ (operator argument).isAhead = false := by
  rw [unaryOperator?.eq_def] at found
  split at found <;> cases found <;> exact ⟨rfl, rfl⟩

theorem places_unary : (unary syn).Places edge := by
  refine .onPeek (.unexpected _) fun token => ?_
  dsimp only
  split
  case h_1 operator found =>
      refine .bump (.addNode places.unary fun argument span => .look span (by simp) ?_)
      have ⟨children_eq, level⟩ := children_of_unaryOperator? found argument
      exact .nodeJoin rfl children_eq.symm level rfl rfl rfl
  case h_2 => exact .bindNode (places_callOrMember places).any fun value span => lays_updateTail value

omit places in
theorem children_of_operator? {sign : Symbol} {precedence : Nat} {operator : Nat → Nat → NodeKind}
    (found : operator? sign = some (precedence, operator)) (left right : Nat) :
    (operator left right).children = [left, right] ∧ (operator left right).isAhead = false := by
  rw [operator?.eq_def] at found
  split at found <;> cases found <;> exact ⟨rfl, rfl⟩

omit places in
theorem places_asTarget : asTarget.Places edge :=
  .onPeek places_typeAscription fun token => .ite (places_leaf token rfl) (.any places_typeAscription)

omit places in
theorem lays_assertionTail (value : Nat) (isAs : Bool) :
    Lays edge [.node span value] (assertionTail value isAs) fun id => [id] := by
  refine .read takes_bump fun _ => .ite (.addNode places_asTarget ?_) (.addNode places_typeAscription ?_)
  all_goals
    refine fun ascription span' => .look span (by simp) (.look span' (by simp) (.ite ?_ ?_))
    · exact .nodeJoin rfl rfl rfl rfl rfl rfl
    · exact .nodeJoin rfl rfl rfl rfl rfl rfl

theorem lays_operatorTail (precedence left : Nat) :
    Lays edge [.node span left] (operatorTail syn precedence left) fun found => [found.getD left] := by
  refine .read takes_peek fun next => ?_
  split
  case h_1 =>
      split
      case h_1 own operator found =>
          refine .ite (.done rfl) (.read takes_bump fun _ => ?_)
          refine .addNode (places.operation (own + 1)) fun right span' => ?_
          refine .look span (by simp) (.look span' (by simp) (lays_found ?_))
          have ⟨children_eq, level⟩ := children_of_operator? found left right
          exact .nodeJoin rfl children_eq.symm level rfl rfl rfl
      case h_2 => exact .done rfl
  case h_2 => exact .done rfl

theorem lays_operationTail (precedence left : Nat) :
    Lays edge [.node span left] (operationTail syn precedence left) fun found => [found.getD left] := by
  refine .read (takes_nextIs _) fun isAs => .ite (lays_found (lays_assertionTail left true)) ?_
  refine .read (takes_nextIs _) fun isSatisfies => .ite (lays_found (lays_assertionTail left false)) ?_
  exact lays_operatorTail places precedence left

theorem places_operation (precedence : Nat) : (operation syn precedence).Places edge := by
  refine .bindNode (places_unary places) fun first span => ?_
  exact .grow (fun value span => lays_operationTail places precedence value) first span

theorem places_conditional : (conditional syn).Places edge := by
  refine .bindNode (places_operation places 1) fun test span => ?_
  refine .read (takes_eat _) fun isTest => .ite ?_ (.done rfl)
  refine .addNode places.expression fun consequent _ => .expect fun _ => ?_
  refine .addNode places.expression fun alternate span' => ?_
  exact .look span (by simp) (.look span' (by simp) (.nodeJoin rfl rfl rfl rfl rfl rfl))

/-- What stands behind the parameters of an arrow function. -/
theorem lays_arrowTail {params : List Nat} {entries : List Entry} (same : Entry.ids entries = params)
    (isAsync : Bool) (start : Nat) :
    Lays edge ([.mark start] ++ entries) (do
      let returnType ← returnAscription
      let _ ← expect .arrow
      let body ← if ← check .braceOpen then block syn else syn.expression
      alloc (.arrowFunction params returnType body isAsync) ⟨start, (← spanOf body).stop⟩)
      fun id => [id] := by
  refine .add mayPlace_returnAscription fun returnType entries' same' => .expect fun arrow => ?_
  refine .read (takes_nextIs _) fun isBlock => ?_
  refine .ite (.addNode (places_block places) ?_) (.addNode places.expression ?_)
  all_goals
    refine fun body span' => .look span' (by simp) ?_
    exact .nodeTo rfl rfl (by simp [same, same', NodeKind.children]) rfl rfl rfl

theorem lays_arrowFunction (isAsync : Bool) (start : Nat) :
    Lays edge [.mark start] (arrowFunction syn isAsync start) fun id => [id] := by
  refine .ite (.read takes_bump fun _ => ?_) ?_
  all_goals
    refine .read takes_checkName fun isName => .ite ?_ ?_
    · refine .name fun name span => .identifier fun name => ?_
      exact lays_arrowTail places rfl isAsync start
    · refine .add (lays_params places) fun params entries same => ?_
      exact lays_arrowTail places same isAsync start

theorem mayPlace_arrowFunction? : (arrowFunction? syn).MayPlace edge := by
  refine .inspect fun seen => ?_
  cases ahead : seen.cursor.significant with
  | nil => exact .done rfl
  | cons first rest =>
      have atFirst : ∀ isAsync, (arrowFunction syn isAsync first.span.start).PlacesAt edge first :=
        fun isAsync => .mark (.any (lays_arrowFunction places isAsync _))
      have peeks : ∀ draft : Draft, True ∧ draft = seen → draft.cursor.peek? = some first := by
        rintro draft ⟨-, rfl⟩
        rw [Cursor.peek?, ahead]
        rfl
      refine .glance (looks_arrowSign _) fun sign => ?_
      cases sign with
      | absent => exact .done rfl
      | certain => exact .when (.map_some (atFirst _)) peeks
      | possible => exact .when (.attempt (makes_arrowFunction places.trees _ _) (atFirst _)) peeks

theorem lays_assignmentTail (left : Nat) :
    Lays edge [.node span left] (assignmentTail syn left) fun id => [id] := by
  refine .read takes_peek fun next => ?_
  split
  case h_1 =>
      split
      case h_1 operator _ =>
          refine .read takes_bump fun _ => .addNode places.expression fun right span' => ?_
          exact .look span (by simp) (.look span' (by simp) (.nodeJoin rfl rfl rfl rfl rfl rfl))
      case h_2 => exact .done rfl
  case h_2 => exact .done rfl

theorem places_expression : (expression syn).Places edge := by
  refine .bind (mayPlace_arrowFunction? places) fun arrow entries same => ?_
  cases arrow with
  | some arrow => exact .done same
  | none =>
      refine .addNode (places_conditional places) fun left span => ?_
      refine .thin (List.sublist_append_right entries _) ?_
      exact lays_assignmentTail places left

end Tails

end Grammar

end Heed
