import Heed.Proofs.Grammar.ExpressionLayout
import Heed.Proofs.Grammar.Statement

/-!
# Declarations, statements and programs are laid out in order

Every production leaves one new node, built of the tokens that it takes. Those that are told where they
start have a mark there in hand. So the nodes of a program stand within the tokens of its source.
-/

set_option autoImplicit false

namespace Heed

variable {edge : Nat → Prop}

open Builder (Lays LaysAt LaysWhen Quiet Needs)

namespace Grammar

open Reader Builder

/-! ## Declarations -/

section Types

variable {token : Token} {start : Nat}

theorem lays_indexSignature :
    Lays edge [.mark start] (indexSignature start) fun id => [id] := by
  refine .take (takes_skipBalanced _ _) fun _ span => .read (takes_eat _) fun isTyped => .ite ?_ ?_
  · refine .read takes_type fun _ => .read takes_endStatement fun _ => ?_
    exact .nodeFrom rfl rfl rfl rfl rfl
  · exact .read takes_endStatement fun _ => .nodeFrom rfl rfl rfl rfl rfl

theorem lays_typeAlias : Lays edge [.mark start] (typeAlias start) fun id => [id] := by
  refine .read takes_bump fun _ => .name fun name span => .identifier fun name => ?_
  refine .read (takes_withTypes fun _ => takes_typeParams) fun typeParams => ?_
  refine .read (@takes_expect false _) fun _ => .addNode places_typeAscription fun ascription _ => ?_
  exact .read takes_endStatement fun _ => .nodeFrom rfl rfl rfl rfl rfl

theorem lays_interfaceDeclaration :
    Lays edge [.mark start] (interfaceDeclaration start) fun id => [id] := by
  refine .read takes_bump fun _ => .name fun name span => .identifier fun name => ?_
  refine .read (takes_withTypes fun _ => takes_typeParams) fun typeParams => ?_
  have members : ∀ bases, Lays edge [.mark start, .node span name] (do
      let members ← withTypes typeMembers
      allocFrom (.interfaceDeclaration name typeParams bases members) start) fun id => [id] := by
    intro bases
    refine .read (takes_withTypes fun _ => takes_typeMembers) fun members => ?_
    exact .nodeFrom rfl rfl rfl rfl rfl
  refine .read (takes_nextIs _) fun isExtending => .ite (.read takes_bump fun _ => ?_) (members [])
  exact .quiet (.commaSeparated (.ofRead takes_type)) members

theorem lays_ambientModule : Lays edge [.mark start] (ambientModule start) fun id => [id] := by
  refine .quiet (.grow (fun _ => ?_) ()) fun _ => ?_
  · refine .bind (.ofRead takes_atEnd) fun _ => .bind (.ofRead (takes_nextIs _)) fun _ => ?_
    exact .ite (.done _) (.bind (.ofRead takes_bump) fun _ => .done _)
  · exact .take (takes_skipBalanced _ _) fun _ span => .nodeFrom rfl rfl rfl rfl rfl

theorem lays_importDeclaration :
    LaysAt edge token [.mark start] (importDeclaration start) fun id => [id] :=
  .bump (.read takes_importEnd fun _ => .nodeFrom rfl rfl rfl rfl rfl)

theorem lays_jumpStatement {kind : Option String → NodeKind} (childless : ∀ label, (kind label).children = [])
    (level : ∀ label, (kind label).isAhead = false) :
    LaysAt edge token [.mark start] (jumpStatement kind start) fun id => [id] := by
  refine .bump (.inspect fun seen => ?_)
  split
  · refine .read takes_bump fun _ => .read takes_endStatement fun _ => ?_
    exact .nodeFrom rfl rfl (childless _).symm (level _) rfl
  · exact .read takes_endStatement fun _ => .nodeFrom rfl rfl (childless _).symm (level _) rfl

end Types

variable {syn : Productions} (places : syn.PlaceNodes edge)

include places

theorem places_declarator : (declarator syn).Places edge := by
  refine .bindNode (places_bindingTarget places) fun target span => .read (takes_eat _) fun _ => ?_
  refine .bind lays_attachAscription fun _ entries same => ?_
  refine .ofOnlyNode same fun span => .read (takes_eat _) fun isInit => .ite ?_ ?_
  · refine .addNode places.expression fun init span' => ?_
    exact .look span (by simp) (.look span' (by simp) (.nodeJoin rfl rfl rfl rfl rfl rfl))
  · exact .look span (by simp) (.nodeOver rfl rfl)

section Statements

variable {token : Token} {start : Nat}

theorem lays_variableDeclaration (word : DeclarationWord) (ambient : Bool) :
    LaysAt edge token [.mark start] (variableDeclaration syn word ambient start) fun id => [id] := by
  refine .bump (.add (.commaSeparated (places_declarator places)) fun declarators entries same => ?_)
  exact .nodeFrom rfl rfl (by simp [same, NodeKind.children]) rfl rfl

theorem lays_functionDeclaration (isAsync : Bool) :
    Lays edge [.mark start] (functionDeclaration syn isAsync start) fun id => [id] := by
  refine .read (takes_expectWord _) fun _ => .read (takes_eat _) fun _ => ?_
  refine .name fun name span => .identifier fun name => ?_
  refine .read (takes_withTypes fun _ => takes_typeParams) fun _ => ?_
  refine .add (lays_params places) fun params entries same => ?_
  refine .add mayPlace_returnAscription fun returnType entries' same' => ?_
  refine .add (mayPlace_optionalBlock places) fun body entries'' same'' => ?_
  exact .nodeFrom rfl rfl (by simp [same, same', same'', NodeKind.children]) rfl rfl

theorem lays_methodDefinition {key : Nat} {span : Span} (modifiers : Modifiers) :
    Lays edge [.mark start, .node span key] (methodDefinition syn key modifiers start) fun id => [id] := by
  refine .read (takes_withTypes fun _ => takes_typeParams) fun _ => ?_
  refine .add (lays_params places) fun params entries same => ?_
  refine .add mayPlace_returnAscription fun returnType entries' same' => ?_
  refine .add (mayPlace_optionalBlock places) fun body entries'' same'' => ?_
  exact .nodeFrom rfl rfl (by simp [same, same', same'', NodeKind.children]) rfl rfl

/-- What stands behind the ascription of a property of a class. -/
theorem lays_propertyTail {key : Nat} {span : Span} {ascription : Option Nat} {entries : List Entry}
    (same : Entry.ids entries = ascription.toList) (modifiers : Modifiers) :
    Lays edge ([.mark start, .node span key] ++ entries) (do
      let value ← if ← eat .assign then pure (some (← syn.expression)) else pure none
      if !(← eat .semicolon) then
        let _ ← eat .comma
      allocFrom (.propertyDefinition key ascription value modifiers.isStatic) start)
      fun id => [id] := by
  have ending : ∀ (value : Option Nat) (entries' : List Entry), Entry.ids entries' = value.toList →
      Lays edge ([.mark start, .node span key] ++ entries ++ entries') (do
        if !(← (eat .semicolon : Reader Bool)) then
          let _ ← (eat .comma : Reader Bool)
        allocFrom (.propertyDefinition key ascription value modifiers.isStatic) start)
        fun id => [id] := by
    intro value entries' same'
    refine .read (takes_eat _) fun isEnd => .ite (.read (takes_eat _) fun _ => ?_) ?_
    all_goals exact .nodeFrom rfl rfl (by simp [same, same', NodeKind.children]) rfl rfl
  refine .read (takes_eat _) fun isInit => .ite ?_ ?_
  · exact .add places.expression fun value entries' same' => ending (some value) entries' same'
  · have lays := ending none [] rfl
    rwa [List.append_nil] at lays

theorem lays_propertyDefinition {key : Nat} {span : Span} (modifiers : Modifiers) :
    Lays edge [.mark start, .node span key] (propertyDefinition syn key modifiers start)
      fun id => [id] := by
  refine .read (takes_eat _) fun isTyped => .ite ?_ ?_
  · refine .add places_typeAscription fun ascription entries same => ?_
    have same : Entry.ids entries = (some ascription).toList := same
    exact lays_propertyTail places same modifiers
  · have same : Entry.ids [] = (none : Option Nat).toList := rfl
    exact lays_propertyTail places same modifiers

theorem places_classMember : (classMember syn).Places edge := by
  refine .nextStart ?_ fun token => .mark ?_
  · refine .read takes_memberModifiers fun _ => .read (takes_nextIs _) fun _ => .ite ?_ ?_
    · exact .first (.ofRead (takes_skipBalanced _ _))
    · exact .first (.ofRead takes_expectPropertyName)
  refine .read takes_memberModifiers fun modifiers => .read (takes_nextIs _) fun isIndex => ?_
  refine .ite lays_indexSignature (.propertyName fun name span => .identifier fun key => ?_)
  refine .read (takes_eat _) fun isOptional => .ite (.read (takes_eat _) fun _ => ?_) ?_
  all_goals
    refine .read (takes_nextIs _) fun isGeneric => .read (takes_nextIs _) fun isMethod => .ite ?_ ?_
    · exact lays_methodDefinition places modifiers
    · exact lays_propertyDefinition places modifiers

theorem mayPlace_classMember? : (classMember? syn).MayPlace edge := by
  refine .read (takes_eat _) fun isNone => .ite (.done rfl) ?_
  exact .map_some (places_classMember places)

theorem lays_classDeclaration (ambient : Bool) :
    Lays edge [.mark start] (classDeclaration syn ambient start) fun id => [id] := by
  refine .read (takes_expectWord _) fun _ => .name fun name span => .identifier fun name => ?_
  refine .read (takes_withTypes fun _ => takes_typeParams) fun typeParams => ?_
  refine .read takes_heritage fun heritage => .read (@takes_expect false _) fun _ => ?_
  refine .add (.bracedItems (mayPlace_classMember? places)) fun body entries same => ?_
  refine .read (@takes_expect false _) fun _ => ?_
  exact .nodeFrom rfl rfl (by simp [same, NodeKind.children]) rfl rfl

theorem lays_ambientDeclaration :
    Lays edge [.mark start] (ambientDeclaration syn start) fun id => [id] := by
  refine .read takes_bump fun _ => .onPeek (.unexpected _) fun token => ?_
  dsimp only
  split
  case h_1 word _ =>
      refine .bindNode (lays_variableDeclaration places word true) fun declaration span => ?_
      exact .read takes_endStatement fun _ => .done rfl
  case h_2 =>
      refine .ite (.any (lays_functionDeclaration places false)) ?_
      refine .ite (.any (lays_classDeclaration places true)) ?_
      refine .ite (.read takes_bump fun _ => lays_functionDeclaration places true) ?_
      refine .ite (.read takes_bump fun _ => lays_classDeclaration places true) ?_
      refine .ite (.any lays_typeAlias) (.ite (.any lays_interfaceDeclaration) ?_)
      exact .any lays_ambientModule

/-! ## Statements -/

theorem places_expressionStatement : (expressionStatement syn).Places edge := by
  refine .bindNode (places_expression places) fun expression span => .read takes_endStatement fun _ => ?_
  exact .look span (by simp) (.nodeOver rfl rfl)

theorem lays_throwStatement :
    Lays edge [.mark start] (throwStatement syn start) fun id => [id] := by
  refine .read takes_bump fun _ => .addNode places.expression fun argument span => ?_
  exact .read takes_endStatement fun _ => .nodeFrom rfl rfl rfl rfl rfl

theorem lays_returnStatement :
    LaysAt edge token [.mark start] (returnStatement syn start) fun id => [id] := by
  refine .bump (.inspect fun seen => ?_)
  split
  case h_1 => exact .read takes_endStatement fun _ => .nodeBehind rfl rfl
  case h_2 =>
      refine .ite (.given ?_) (.addNode places.expression.any fun argument span => .given ?_)
      all_goals exact .read takes_endStatement fun _ => .nodeBehind rfl rfl

theorem places_condition : (condition syn).Places edge := by
  refine .read (@takes_expect false _) fun _ => .bindNode places.expression fun test span => ?_
  exact .read (@takes_expect false _) fun _ => .done rfl

theorem lays_ifStatement : Lays edge [.mark start] (ifStatement syn start) fun id => [id] := by
  refine .read takes_bump fun _ => .addNode (places_condition places) fun test _ => ?_
  refine .addNode places.statement fun consequent _ => .read (takes_eatWord _) fun hasAlternate => ?_
  refine .ite (.addNode places.statement fun alternate _ => ?_) ?_
  all_goals exact .nodeFrom rfl rfl rfl rfl rfl

theorem lays_whileStatement : Lays edge [.mark start] (whileStatement syn start) fun id => [id] := by
  refine .read takes_bump fun _ => .addNode (places_condition places) fun test _ => ?_
  exact .addNode places.statement fun body _ => .nodeFrom rfl rfl rfl rfl rfl

theorem lays_doWhileStatement :
    Lays edge [.mark start] (doWhileStatement syn start) fun id => [id] := by
  refine .read takes_bump fun _ => .addNode places.statement fun body _ => ?_
  refine .read (takes_expectWord _) fun _ => .addNode (places_condition places) fun test _ => ?_
  exact .read takes_endStatement fun _ => .nodeFrom rfl rfl rfl rfl rfl

theorem mayPlace_loopInit : (loopInit syn).MayPlace edge := by
  have value := LaysWhen.map_some places.expression
  refine .onPeek value fun token => .ite (.done rfl) ?_
  split
  · exact .map_some (.mark (lays_variableDeclaration places _ false))
  · exact .any value

section Loops

variable {entries : List Entry}

theorem lays_loopOver {kind : Nat → Nat → NodeKind} {left : Nat} (same : Entry.ids entries = [left])
    (children_eq : ∀ right body, (kind right body).children = [left, right, body])
    (level : ∀ right body, (kind right body).isAhead = false) :
    Lays edge ([.mark start] ++ entries) (loopOver syn kind start) fun id => [id] := by
  refine .read takes_bump fun _ => .addNode places.expression fun right _ => ?_
  refine .read (@takes_expect false _) fun _ => .addNode places.statement fun body _ => ?_
  exact .nodeFrom rfl (by simp [Entry.isSolid]) (by simp [same, children_eq]) (level _ _) rfl

theorem lays_loopClauses {init : Option Nat} (same : Entry.ids entries = init.toList) :
    Lays edge ([.mark start] ++ entries) (loopClauses syn init start) fun id => [id] := by
  have loopBody : ∀ (test next : Option Nat) (row : List Entry),
      Entry.ids row = init.toList ++ test.toList ++ next.toList → Lays edge ([.mark start] ++ row) (do
        let _ ← expect .parenClose
        let body ← syn.statement
        allocFrom (.forStatement init test next body) start) fun id => [id] := by
    intro test next row same
    refine .read (@takes_expect false _) fun _ => .addNode places.statement fun body _ => ?_
    exact .nodeFrom rfl (by simp [Entry.isSolid]) (by simp [same, NodeKind.children]) rfl rfl
  have clauses : ∀ (test : Option Nat) (row : List Entry),
      Entry.ids row = init.toList ++ test.toList → Lays edge ([.mark start] ++ row) (do
        let _ ← expect .semicolon
        let next ← if ← check .parenClose then pure none else pure (some (← syn.expression))
        let _ ← expect .parenClose
        let body ← syn.statement
        allocFrom (.forStatement init test next body) start) fun id => [id] := by
    intro test row same
    refine .read (@takes_expect false _) fun _ => .read (takes_nextIs _) fun isEnd => .ite ?_ ?_
    · exact loopBody test none row (by simp [same])
    · exact .add places.expression fun next entries' same' =>
        loopBody test (some next) (row ++ entries') (by simp [same, same'])
  refine .read (@takes_expect false _) fun _ => .read (takes_nextIs _) fun isEnd => .ite ?_ ?_
  · exact clauses none entries (by simp [same])
  · exact .add places.expression fun test entries' same' =>
      clauses (some test) (entries ++ entries') (by simp [same, same'])

end Loops

theorem lays_forStatement : Lays edge [.mark start] (forStatement syn start) fun id => [id] := by
  refine .read takes_bump fun _ => .read (takes_eatWord _) fun _ => .read (@takes_expect false _) fun _ => ?_
  refine .add (mayPlace_loopInit places) fun init entries same => ?_
  cases init with
  | none => exact lays_loopClauses places same
  | some left =>
      refine .read (takes_nextIs _) fun isOf => .ite ?_ (.read (takes_nextIs _) fun isIn => .ite ?_ ?_)
      · exact lays_loopOver places same (fun _ _ => rfl) fun _ _ => rfl
      · exact lays_loopOver places same (fun _ _ => rfl) fun _ _ => rfl
      · exact lays_loopClauses places same

theorem mayPlace_caseTest : (caseTest syn).MayPlace edge := by
  refine .read (takes_nextIs _) fun isCase => .ite (.read takes_bump fun _ => ?_) ?_
  · exact .map_some places.expression
  refine .read (takes_nextIs _) fun isDefault => .ite ?_ (.unexpected _)
  exact .read takes_bump fun _ => .done rfl

theorem places_switchCase : (switchCase syn).Places edge := by
  refine .nextStart ?_ fun token => .mark ?_
  · exact .first (.onNext (.onNext (.ofRead (takes_unexpected _))))
  refine .add (mayPlace_caseTest places).any fun test entries same => .expect fun _ => ?_
  refine .add (.collect ?_) fun consequent entries' same' => ?_
  · refine .read (takes_nextIs _) fun isClose => .read takes_atSwitchLabel fun isLabel => ?_
    refine .ite (.done rfl) (.read takes_atEnd fun isEnd => .ite (.unexpected _) ?_)
    exact .bind places.statement fun _ _ same => .done same
  · exact .nodeFrom rfl (by simp [Entry.isSolid]) (by simp [same, same', NodeKind.children]) rfl rfl

theorem lays_switchStatement :
    Lays edge [.mark start] (switchStatement syn start) fun id => [id] := by
  refine .read takes_bump fun _ => .addNode (places_condition places) fun discriminant _ => ?_
  refine .read (@takes_expect false _) fun _ => ?_
  refine .add (.bracedItems (.map_some (places_switchCase places))) fun cases entries same => ?_
  refine .read (@takes_expect false _) fun _ => ?_
  exact .nodeFrom rfl rfl (by simp [same, NodeKind.children]) rfl rfl

theorem lays_labeledStatement :
    Lays edge [.mark start] (labeledStatement syn start) fun id => [id] := by
  refine .read (@takes_expectName false) fun _ => .read (@takes_expect false _) fun _ => ?_
  exact .addNode places.statement fun body _ => .nodeFrom rfl rfl rfl rfl rfl

theorem mayPlace_catchParam : (catchParam syn).MayPlace edge := by
  refine .read (takes_eat _) fun isParam => .ite ?_ (.done rfl)
  refine .bindNode (places_bindingTarget places) fun param span => ?_
  refine .bind lays_attachAscription fun _ entries same => ?_
  exact .read (@takes_expect false _) fun _ => .done same

theorem mayPlace_catchClause : (catchClause syn).MayPlace edge := by
  refine .onNext (fun token => .nextStartAt (.mark (.read takes_bump fun _ => ?_))) (.done rfl)
  refine .add (mayPlace_catchParam places) fun param entries same => ?_
  refine .addNode (places_block places) fun body span => .map_some ?_
  exact .nodeFrom rfl (by simp [Entry.isSolid]) (by simp [same, NodeKind.children]) rfl rfl

theorem mayPlace_finallyBlock : (finallyBlock syn).MayPlace edge := by
  refine .read (takes_nextIs _) fun isFinally => .ite (.read takes_bump fun _ => ?_) (.done rfl)
  exact .map_some (places_block places)

theorem lays_tryStatement : Lays edge [.mark start] (tryStatement syn start) fun id => [id] := by
  refine .read takes_bump fun _ => .addNode (places_block places) fun body span => ?_
  refine .add (mayPlace_catchClause places) fun handler entries same => ?_
  refine .add (mayPlace_finallyBlock places) fun finalizer entries' same' => .ite (.unexpected _) ?_
  exact .nodeFrom rfl rfl (by simp [same, same', NodeKind.children]) rfl rfl

theorem places_exportedStatement : (exportedStatement syn).Places edge := by
  refine .read takes_bump fun _ => .read (takes_nextIs _) fun isDefault => ?_
  exact .ite (.read takes_bump fun _ => places.statement) places.statement

theorem places_wordStatement (word : String) :
    (wordStatement syn word token.span.start).PlacesAt edge token := by
  refine .glance (looks_nthIs _ _) fun _ => .ite ?_ ?_
  · exact .mark (.read takes_bump fun _ => lays_functionDeclaration places true)
  refine .glance (looks_nthIs _ _) fun _ => .ite (.mark (.any (lays_ambientDeclaration places))) ?_
  refine .ite (.any (places_exportedStatement places)) ?_
  refine .glance (looks_nthIs _ _) fun _ => .ite (.mark lays_importDeclaration) ?_
  refine .glance (looks_nthIs _ _) fun _ => .ite (.mark (.any lays_typeAlias)) ?_
  refine .glance (looks_nthIs _ _) fun _ => .ite (.mark (.any lays_interfaceDeclaration)) ?_
  refine .glance (looks_nthIs _ _) fun _ => .ite ?_ ?_
  · exact .mark (.read takes_bump fun _ => lays_classDeclaration places false)
  refine .glance (looks_nthIs _ _) fun _ => .ite (.mark (.any (lays_switchStatement places))) ?_
  refine .glance (looks_nthIs _ _) fun _ => .ite (.mark (.any (lays_doWhileStatement places))) ?_
  refine .glance (looks_nthIs _ _) fun _ => .ite (.mark (.any (lays_tryStatement places))) ?_
  have jump : ∀ {kind : Option String → NodeKind}, (∀ label, (kind label).children = []) →
      (∀ label, (kind label).isAhead = false) →
      (jumpStatement kind token.span.start).PlacesAt edge token :=
    fun childless level => .mark (lays_jumpStatement childless level)
  refine .glance looks_atJump fun _ => .ite (jump (fun _ => rfl) fun _ => rfl) ?_
  refine .glance looks_atJump fun _ => .ite (jump (fun _ => rfl) fun _ => rfl) ?_
  refine .glance (looks_nthIs _ _) fun _ => .ite (.mark (.any (lays_labeledStatement places))) ?_
  exact .any (places_expressionStatement places)

theorem places_statement : (statement syn).Places edge := by
  refine .onPeek (.unexpected _) fun token => ?_
  dsimp only
  split
  · exact .any (places_block places)
  · exact places_leaf token rfl
  · exact .mark (.any (lays_functionDeclaration places false))
  · exact .mark (.any (lays_classDeclaration places false))
  · exact .mark (lays_returnStatement places)
  · exact .mark (.any (lays_ifStatement places))
  · exact .mark (.any (lays_whileStatement places))
  · exact .mark (.any (lays_forStatement places))
  · exact .mark (.any (lays_throwStatement places))
  · exact places_wordStatement places _
  · split
    · refine .bindNode (.mark (lays_variableDeclaration places _ false)) fun declaration span => ?_
      exact .read takes_endStatement fun _ => .done rfl
    · exact .any (places_expressionStatement places)

end Statements

omit places in
theorem placeNodes_productions (edge : Nat → Prop) (budget : Nat) :
    (productions budget).PlaceNodes edge := by
  induction budget with
  | zero =>
      exact ⟨makeTrees_productions 0, .exhausted, .exhausted, fun _ => .exhausted, .exhausted, .exhausted⟩
  | succ budget places =>
      exact ⟨makeTrees_productions (budget + 1), places_statement places, places_expression places,
        places_operation places, places_unary places, places_bindingTarget places⟩

theorem lays_body : Lays edge [] (do collect do
    if ← (atEnd : Reader Bool) then return .stop else return .more (some (← syn.statement))) id := by
  refine .collect (.read takes_atEnd fun isEnd => .ite (.done rfl) ?_)
  exact .bind places.statement fun _ _ same => .done same

/-- The program spans all of the source, and with it the tokens that its statements are built of. -/
theorem settled_program {sourceLength root : Nat} {draft after : Draft}
    (success : program syn sourceLength draft = .ok (root, after)) (sound : Sound edge draft)
    (edge_zero : edge 0) (edge_length : edge sourceLength)
    (edge_le : ∀ offset, edge offset → offset ≤ sourceLength) :
    Settled edge after.nodes := by
  obtain ⟨body, middle, built, allocated⟩ := bind_ok success
  obtain ⟨-, rfl⟩ := Prod.mk.inj (Except.ok.inj allocated)
  have ahead := sound.laid.lower (Nat.zero_le _)
  obtain ⟨sound', -, entries, same, row⟩ := lays_body places draft body middle built sound trivial 0 ahead
  refine sound'.settled.push (row.sits sound'.settled same rfl (Nat.zero_le _) (fun other => absurd rfl (other body))
    edge_zero edge_length ?_ fun returns => by cases returns)
  intro entry member isSolid
  exact ⟨Nat.zero_le _, edge_le _ ((row.of_mem member).2.taken isSolid).edge_stop⟩

end Grammar

end Heed
