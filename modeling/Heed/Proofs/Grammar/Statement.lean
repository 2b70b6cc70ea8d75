import Heed.Grammar.Program
import Heed.Proofs.Grammar.Expression

/-!
# Declarations, statements and programs build trees

Every production leaves one new root, with all that it built below it. So the nodes of a program make up one
tree, but for the ascriptions of patterns.
-/

set_option autoImplicit false

namespace Heed

open Builder (Turns)

namespace Grammar

open Reader Builder

/-! ## Readers of declarations and statements -/

theorem takes_memberModifiers : memberModifiers.Takes false := by
  refine takes_grow (fun found => ?_) _
  refine ((takes_nextIs _).andThen fun _ => (takes_nthIs _ _).andThen fun _ => .done _).andThen fun _ => ?_
  refine .ite ?_ (.done _)
  refine (takes_nextIs _).andThen fun _ => (takes_nextIs _).andThen fun _ => ?_
  exact takes_bump.andThen fun _ => .done _

theorem takes_heritage : heritage.Takes false := by
  refine (takes_collect ?_).andThen fun _ => .done _
  refine (takes_nextIs _).andThen fun _ => (takes_nextIs _).andThen fun _ => .ite ?_ (.done _)
  exact takes_bump.andThen fun _ => (takes_commaSeparated takes_type.weaken).andThen fun _ => .done _

theorem advances_importEnd (openBraces : Int) (tokens : List Token) (cursor : Cursor) :
    cursor.Advances false (importEnd openBraces tokens cursor) := by
  induction tokens generalizing openBraces cursor with
  | nil => exact .refl cursor
  | cons token rest ih =>
      rw [importEnd]
      split
      · exact Cursor.advances_advanceRaw cursor
      split
      · exact .refl cursor
      · exact (Cursor.advances_advanceRaw cursor).trans (ih _ _)

theorem takes_importEnd :
    (modify fun cursor => importEnd 0 cursor.rest cursor : Reader Unit).Takes false := by
  intro cursor
  exact advances_importEnd 0 cursor.rest cursor

theorem takes_atSwitchLabel : atSwitchLabel.Takes false := by
  refine (takes_nextIs _).andThen fun _ => .ite (.done _) ?_
  exact (takes_nextIs _).andThen fun _ => .ite (takes_nthIs _ _) (.done _)

theorem looks_atJump : atJump.Looks := by
  intro cursor
  rw [atJump, get_bind]
  cases cursor.significant.tail.head? with
  | none => exact ⟨_, rfl⟩
  | some token => exact ⟨_, rfl⟩

instance : Steady memberModifiers := ⟨takes_memberModifiers⟩

instance : Steady heritage := ⟨takes_heritage⟩

instance : Steady (modify fun cursor => importEnd 0 cursor.rest cursor : Reader Unit) := ⟨takes_importEnd⟩

instance : Steady atSwitchLabel := ⟨takes_atSwitchLabel⟩

instance : Steady atJump := ⟨looks_atJump.takes⟩

/-! ## Declarations and statements -/

/-- A name behind a word of its own. -/
theorem turns_named {next : Nat → Builder Nat} {read : Reader (String × Span)} [read.Steady]
    (rest : ∀ name, Turns [⟨name, .name⟩] (next name) fun id => [⟨id, .plain⟩]) :
    Turns [] (do
      let (name, span) ← read
      let name ← identifier name span
      next name) fun id => [⟨id, .plain⟩] :=
  .read fun ⟨name, span⟩ => .bind (makes_identifier .name name span fun _ => rfl) rest

section Types

theorem makes_indexSignature (start : Nat) : (indexSignature start).Makes .plain := by
  refine .read fun _ => .read fun isTyped => .ite (.read fun _ => .read fun _ => ?_) (.read fun _ => ?_)
  all_goals exact .nodeFrom rfl fun _ => rfl

theorem makes_typeAlias (start : Nat) : (typeAlias start).Makes .plain := by
  refine .read fun _ => turns_named fun name => .read fun typeParams => .read fun _ => ?_
  refine .add makes_typeAscription fun ascription => .read fun _ => ?_
  exact .nodeFrom rfl fun _ => rfl

theorem makes_interfaceDeclaration (start : Nat) : (interfaceDeclaration start).Makes .plain := by
  refine .read fun _ => turns_named fun name => .read fun typeParams => .read fun extending => ?_
  have members : ∀ bases, Turns [⟨name, .name⟩] (do
      let members ← withTypes typeMembers
      allocFrom (.interfaceDeclaration name typeParams bases members) start) fun id => [⟨id, .plain⟩] :=
    fun bases => .read fun members => .nodeFrom rfl fun _ => rfl
  refine .ite (.read fun _ => .skip ?_ members) (members [])
  exact .commaSeparatedReads _

theorem makes_ambientModule (start : Nat) : (ambientModule start).Makes .plain := by
  refine .skip (.repeat () fun _ => ?_) fun _ => ?_
  · refine .read fun isEnd => .read fun isOpen => .ite (.done rfl) ?_
    exact .read fun _ => .done rfl
  · exact .read fun _ => .nodeFrom rfl fun _ => rfl

theorem makes_importDeclaration (start : Nat) : (importDeclaration start).Makes .plain :=
  .read fun _ => .read fun _ => .nodeFrom rfl fun _ => rfl

theorem makes_jumpStatement {kind : Option String → NodeKind} (start : Nat)
    (lone : ∀ label, (kind label).slots = [])
    (accepted : ∀ kindOf label, Role.plain.accepts kindOf (kind label) = true) :
    (jumpStatement kind start).Makes .plain := by
  refine .read fun _ => .inspect fun draft => ?_
  split
  · refine .read fun _ => .read fun _ => ?_
    exact .nodeFrom (lone _).symm fun kindOf => accepted kindOf _
  · exact .read fun _ => .nodeFrom (lone none).symm fun kindOf => accepted kindOf none

end Types

variable {syn : Productions} (trees : syn.MakeTrees)

include trees

theorem makes_declarator : (declarator syn).Makes .declarator := by
  refine endsNew_bindingTarget.turns (makes_bindingTarget trees) fun target => .read fun _ => ?_
  refine .first (turns_attachAscription target) fun _ => .read fun isInit => .ite ?_ ?_
  · refine .add trees.expression fun init => .look (by simp) fun _ => .look (by simp) fun _ => ?_
    exact .node rfl fun _ => rfl
  · exact .look (by simp) fun _ => .node rfl fun _ => rfl

theorem makes_variableDeclaration (word : DeclarationWord) (ambient : Bool) (start : Nat) :
    (variableDeclaration syn word ambient start).Makes .plain := by
  refine .read fun _ => .bind (.commaSeparated (makes_declarator trees)) fun declarators => ?_
  exact .nodeFrom rfl fun _ => rfl

theorem makes_functionDeclaration (isAsync : Bool) (start : Nat) :
    (functionDeclaration syn isAsync start).Makes .plain := by
  refine .read fun _ => .read fun _ => turns_named fun name => .read fun _ => ?_
  refine .add (turns_params trees) fun params => ?_
  refine .add mayMake_returnAscription fun returnType => ?_
  refine .add (mayMake_optionalBlock trees) fun body => ?_
  exact .nodeFrom rfl fun _ => rfl

theorem turns_methodDefinition (key : Nat) (modifiers : Modifiers) (start : Nat) :
    Turns [⟨key, .name⟩] (methodDefinition syn key modifiers start) fun id => [⟨id, .plain⟩] := by
  refine .read fun _ => .add (turns_params trees) fun params => ?_
  refine .add mayMake_returnAscription fun returnType => ?_
  refine .add (mayMake_optionalBlock trees) fun body => ?_
  exact .nodeFrom rfl fun _ => rfl

/-- What stands behind the ascription of a property of a class. -/
theorem turns_propertyTail (key : Nat) (ascription : Option Nat) (modifiers : Modifiers) (start : Nat) :
    Turns (⟨key, .name⟩ :: Slot.row .ascription ascription.toList) (do
      let value ← if ← eat .assign then pure (some (← syn.expression)) else pure none
      if !(← eat .semicolon) then
        let _ ← eat .comma
      allocFrom (.propertyDefinition key ascription value modifiers.isStatic) start)
      fun id => [⟨id, .plain⟩] := by
  have ending : ∀ value, Turns (⟨key, .name⟩ :: Slot.row .ascription ascription.toList ++
      Slot.row .plain value.toList) (do
        if !(← (eat .semicolon : Reader Bool)) then
          let _ ← (eat .comma : Reader Bool)
        allocFrom (.propertyDefinition key ascription value modifiers.isStatic) start)
        fun id => [⟨id, .plain⟩] := by
    intro value
    refine .read fun isEnd => .ite (.read fun _ => ?_) ?_
    all_goals exact .nodeFrom rfl fun _ => rfl
  refine .read fun isInit => .ite ?_ ?_
  · exact .add trees.expression fun value => ending (some value)
  · exact .absent ending

theorem turns_propertyDefinition (key : Nat) (modifiers : Modifiers) (start : Nat) :
    Turns [⟨key, .name⟩] (propertyDefinition syn key modifiers start) fun id => [⟨id, .plain⟩] := by
  refine .read fun isTyped => .ite ?_ ?_
  · exact .add makes_typeAscription fun ascription =>
      turns_propertyTail trees key (some ascription) modifiers start
  · exact turns_propertyTail trees key none modifiers start

theorem makes_classMember : (classMember syn).Makes .plain := by
  refine .read fun start => .read fun modifiers => .read fun isIndex => ?_
  refine .ite (makes_indexSignature start) (turns_named fun key => ?_)
  refine .read fun isOptional => .ite (.read fun _ => ?_) ?_
  all_goals
    refine .read fun isGeneric => .read fun isMethod => .ite ?_ ?_
    · exact turns_methodDefinition trees key modifiers start
    · exact turns_propertyDefinition trees key modifiers start

theorem mayMake_classMember? : (classMember? syn).MayMake .plain := by
  refine .read fun isNone => .ite (.done rfl) ?_
  exact .bind (makes_classMember trees) fun _ => .done rfl

theorem makes_classDeclaration (ambient : Bool) (start : Nat) :
    (classDeclaration syn ambient start).Makes .plain := by
  refine .read fun _ => turns_named fun name => .read fun typeParams => .read fun heritage => ?_
  refine .read fun _ => .add (.bracedItems (mayMake_classMember? trees)) fun body => .read fun _ => ?_
  exact .nodeFrom rfl fun _ => rfl

theorem makes_ambientDeclaration (start : Nat) : (ambientDeclaration syn start).Makes .plain := by
  refine .read fun _ => .read fun next => ?_
  cases next with
  | none => exact .unexpected _
  | some token =>
      dsimp only
      split
      case h_1 word _ =>
          refine .bind (makes_variableDeclaration trees word true start) fun declaration => ?_
          exact .read fun _ => .done rfl
      case h_2 =>
          refine .ite (makes_functionDeclaration trees false start) ?_
          refine .ite (makes_classDeclaration trees true start) ?_
          refine .ite (.read fun _ => makes_functionDeclaration trees true start) ?_
          refine .ite (.read fun _ => makes_classDeclaration trees true start) ?_
          refine .ite (makes_typeAlias start) ?_
          exact .ite (makes_interfaceDeclaration start) (makes_ambientModule start)

theorem makes_expressionStatement : (expressionStatement syn).Makes .plain := by
  refine .bind (makes_expression trees) fun expression => .read fun _ => .look (by simp) fun _ => ?_
  exact .node rfl fun _ => rfl

theorem makes_throwStatement (start : Nat) : (throwStatement syn start).Makes .plain := by
  refine .read fun _ => .bind trees.expression fun argument => .read fun _ => ?_
  exact .nodeFrom rfl fun _ => rfl

theorem makes_returnStatement (start : Nat) : (returnStatement syn start).Makes .plain := by
  refine .read fun _ => .inspect fun draft => ?_
  split
  case h_1 => exact .read fun _ => .nodeFrom rfl fun _ => rfl
  case h_2 =>
      refine .ite (.given ?_) (.bind trees.expression fun argument => .given ?_)
      all_goals exact .read fun _ => .nodeFrom rfl fun _ => rfl

theorem makes_condition : (condition syn).Makes .plain := by
  refine .read fun _ => .bind trees.expression fun test => ?_
  exact .read fun _ => .done rfl

theorem makes_ifStatement (start : Nat) : (ifStatement syn start).Makes .plain := by
  refine .read fun _ => .bind (makes_condition trees) fun test => ?_
  refine .add trees.statement fun consequent => .read fun hasAlternate => .ite ?_ ?_
  · exact .add trees.statement fun alternate => .nodeFrom rfl fun _ => rfl
  · exact .nodeFrom rfl fun _ => rfl

theorem makes_whileStatement (start : Nat) : (whileStatement syn start).Makes .plain := by
  refine .read fun _ => .bind (makes_condition trees) fun test => ?_
  exact .add trees.statement fun body => .nodeFrom rfl fun _ => rfl

theorem makes_doWhileStatement (start : Nat) : (doWhileStatement syn start).Makes .plain := by
  refine .read fun _ => .bind trees.statement fun body => .read fun _ => ?_
  refine .add (makes_condition trees) fun test => .read fun _ => ?_
  exact .nodeFrom rfl fun _ => rfl

theorem mayMake_loopInit : (loopInit syn).MayMake .plain := by
  have value : Turns [] (do return some (← syn.expression))
      fun found => Slot.row .plain found.toList := .bind trees.expression fun _ => .done rfl
  refine .read fun next => ?_
  cases next with
  | none => exact value
  | some token =>
      refine .ite (.done rfl) ?_
      split
      · exact .bind (makes_variableDeclaration trees _ false _) fun _ => .done rfl
      · exact value

theorem turns_loopOver {kind : Nat → Nat → NodeKind} (left start : Nat)
    (slots_eq : ∀ right body, (kind right body).slots =
      [⟨left, .plain⟩, ⟨right, .plain⟩, ⟨body, .plain⟩])
    (accepted : ∀ kindOf right body, Role.plain.accepts kindOf (kind right body) = true) :
    Turns [⟨left, .plain⟩] (loopOver syn kind start) fun id => [⟨id, .plain⟩] := by
  refine .read fun _ => .add trees.expression fun right => .read fun _ => ?_
  refine .add trees.statement fun body => ?_
  exact .nodeFrom (slots_eq right body).symm fun kindOf => accepted kindOf right body

theorem turns_loopClauses (init : Option Nat) (start : Nat) :
    Turns (Slot.row .plain init.toList) (loopClauses syn init start) fun id => [⟨id, .plain⟩] := by
  have loopBody : ∀ test next : Option Nat, Turns (Slot.row .plain init.toList ++
      Slot.row .plain test.toList ++ Slot.row .plain next.toList) (do
        let _ ← expect .parenClose
        let body ← syn.statement
        allocFrom (.forStatement init test next body) start) fun id => [⟨id, .plain⟩] := by
    intro test next
    refine .read fun _ => .add trees.statement fun body => ?_
    exact .nodeFrom rfl fun _ => rfl
  have clauses : ∀ test : Option Nat, Turns (Slot.row .plain init.toList ++
      Slot.row .plain test.toList) (do
        let _ ← expect .semicolon
        let next ← if ← check .parenClose then pure none else pure (some (← syn.expression))
        let _ ← expect .parenClose
        let body ← syn.statement
        allocFrom (.forStatement init test next body) start) fun id => [⟨id, .plain⟩] := by
    intro test
    refine .read fun _ => .read fun isEnd => .ite (.given (.absent (loopBody test))) ?_
    exact .add trees.expression fun next => loopBody test (some next)
  refine .read fun _ => .read fun isEnd => .ite (.given (.absent clauses)) ?_
  exact .add trees.expression fun test => clauses (some test)

theorem makes_forStatement (start : Nat) : (forStatement syn start).Makes .plain := by
  refine .read fun _ => .read fun _ => .read fun _ => ?_
  refine .bind (mayMake_loopInit trees) fun init => ?_
  cases init with
  | none => exact turns_loopClauses trees none start
  | some left =>
      refine .read fun isOf => .ite ?_ (.read fun isIn => .ite ?_ ?_)
      · exact turns_loopOver trees left start (fun _ _ => rfl) fun _ _ _ => rfl
      · exact turns_loopOver trees left start (fun _ _ => rfl) fun _ _ _ => rfl
      · exact turns_loopClauses trees (some left) start

theorem mayMake_caseTest : (caseTest syn).MayMake .plain := by
  refine .read fun isCase => .ite ?_ (.read fun isDefault => .ite ?_ (.unexpected _))
  · exact .read fun _ => .bind trees.expression fun _ => .done rfl
  · exact .read fun _ => .done rfl

theorem makes_switchCase : (switchCase syn).Makes .plain := by
  refine .read fun start => .bind (mayMake_caseTest trees) fun test => .read fun _ => ?_
  refine .add (.collect (fun id => [⟨id, .plain⟩]) ?_) fun consequent => ?_
  · refine .read fun isClose => .read fun isLabel => .ite (.done rfl) ?_
    refine .read fun isEnd => .ite (.unexpected _) ?_
    exact .bind trees.statement fun _ => .done rfl
  · exact .nodeFrom rfl fun _ => rfl

theorem makes_switchStatement (start : Nat) : (switchStatement syn start).Makes .plain := by
  refine .read fun _ => .bind (makes_condition trees) fun discriminant => .read fun _ => ?_
  refine .add (.bracedItems (.map_some (makes_switchCase trees))) fun cases => .read fun _ => ?_
  exact .nodeFrom rfl fun _ => rfl

theorem makes_labeledStatement (start : Nat) : (labeledStatement syn start).Makes .plain := by
  refine .read fun ⟨label, span⟩ => .read fun _ => .bind trees.statement fun body => ?_
  exact .nodeFrom rfl fun _ => rfl

theorem turns_catchParam : Turns [] (catchParam syn) fun found => Slot.row .binding found.toList := by
  refine .read fun isParam => .ite ?_ (.done rfl)
  refine endsNew_bindingTarget.turns (makes_bindingTarget trees) fun param => ?_
  exact .first (turns_attachAscription param) fun _ => .read fun _ => .done rfl

theorem mayMake_catchClause : (catchClause syn).MayMake .plain := by
  refine .read fun isCatch => .ite (.read fun start => .read fun _ => ?_) (.done rfl)
  refine .bind (turns_catchParam trees) fun param => .add (makes_block trees) fun body => ?_
  exact .bind (.nodeFrom rfl fun _ => rfl) fun _ => .done rfl

theorem mayMake_finallyBlock : (finallyBlock syn).MayMake .plain := by
  refine .read fun isFinally => .ite (.read fun _ => ?_) (.done rfl)
  exact .bind (makes_block trees) fun _ => .done rfl

theorem makes_tryStatement (start : Nat) : (tryStatement syn start).Makes .plain := by
  refine .read fun _ => .bind (makes_block trees) fun body => ?_
  refine .add (mayMake_catchClause trees) fun handler => ?_
  refine .add (mayMake_finallyBlock trees) fun finalizer => .ite (.unexpected _) ?_
  exact .nodeFrom rfl fun _ => rfl

theorem makes_exportedStatement : (exportedStatement syn).Makes .plain := by
  refine .read fun _ => .read fun isDefault => .ite (.read fun _ => ?_) ?_
  all_goals exact trees.statement

theorem makes_wordStatement (word : String) (start : Nat) :
    (wordStatement syn word start).Makes .plain := by
  refine .read fun _ => .ite (.read fun _ => makes_functionDeclaration trees true start) ?_
  refine .read fun _ => .ite (makes_ambientDeclaration trees start) ?_
  refine .ite (makes_exportedStatement trees) ?_
  refine .read fun _ => .ite (makes_importDeclaration start) ?_
  refine .read fun _ => .ite (makes_typeAlias start) ?_
  refine .read fun _ => .ite (makes_interfaceDeclaration start) ?_
  refine .read fun _ => .ite (.read fun _ => makes_classDeclaration trees false start) ?_
  refine .read fun _ => .ite (makes_switchStatement trees start) ?_
  refine .read fun _ => .ite (makes_doWhileStatement trees start) ?_
  refine .read fun _ => .ite (makes_tryStatement trees start) ?_
  refine .read fun _ => .ite (makes_jumpStatement start (fun _ => rfl) fun _ _ => rfl) ?_
  refine .read fun _ => .ite (makes_jumpStatement start (fun _ => rfl) fun _ _ => rfl) ?_
  exact .read fun _ => .ite (makes_labeledStatement trees start) (makes_expressionStatement trees)

theorem makes_statement : (statement syn).Makes .plain := by
  refine .read fun next => ?_
  cases next with
  | none => exact .unexpected _
  | some token =>
      dsimp only
      split
      · exact makes_block trees
      · exact makes_leaf token rfl fun _ => rfl
      · exact makes_functionDeclaration trees false _
      · exact makes_classDeclaration trees false _
      · exact makes_returnStatement trees _
      · exact makes_ifStatement trees _
      · exact makes_whileStatement trees _
      · exact makes_forStatement trees _
      · exact makes_throwStatement trees _
      · exact makes_wordStatement trees _ _
      · split
        · refine .bind (makes_variableDeclaration trees _ false _) fun declaration => ?_
          exact .read fun _ => .done rfl
        · exact makes_expressionStatement trees

omit trees in
theorem makeTrees_productions : ∀ budget, (productions budget).MakeTrees
  | 0 => ⟨.exhausted, .exhausted, fun _ => .exhausted, .exhausted, .exhausted⟩
  | budget + 1 =>
      have trees := makeTrees_productions budget
      { statement := makes_statement trees
        expression := makes_expression trees
        operation := makes_operation trees
        unary := makes_unary trees
        binding := makes_bindingTarget trees }

theorem turns_body : Turns [] (do collect do
    if ← (atEnd : Reader Bool) then return .stop else return .more (some (← syn.statement)))
    (Slot.row .plain) := by
  refine .collect (fun id => [⟨id, .plain⟩]) (.read fun isEnd => .ite (.done rfl) ?_)
  exact .bind trees.statement fun _ => .done rfl

theorem makes_program (sourceLength : Nat) : (program syn sourceLength).Makes .plain :=
  .bind (turns_body trees) fun _ => .node rfl fun _ => rfl

/-- The program is the last node, above all the others. -/
theorem forest_of_program {sourceLength root : Nat} {cursor : Cursor} {after : Draft}
    (success : program syn sourceLength ⟨cursor, #[]⟩ = .ok (root, after)) :
    Forest after.nodes [⟨root, .plain⟩] ∧ root + 1 = after.nodes.size ∧
      ∃ body, kindAt after.nodes root = .program body := by
  refine ⟨((makes_program trees sourceLength).made _ _ _ success).2 [] .empty, ?_⟩
  obtain ⟨body, middle, -, allocated⟩ := bind_ok success
  obtain ⟨rfl, rfl⟩ := Prod.mk.inj (Except.ok.inj allocated)
  exact ⟨(Array.size_push _).symm, body, kindAt_push_size _ _⟩

end Grammar

theorem Tree.exists_forest_of_parse {source : String} {tree : Tree} (parsed : Tree.parse source = .ok tree) :
    ∃ nodes root, tree = Tree.ofNodes nodes root ∧ Forest nodes [⟨root, .plain⟩] ∧
      root + 1 = nodes.size ∧ ∃ body, kindAt nodes root = .program body := by
  rw [Tree.parse] at parsed
  split at parsed
  case h_1 tokens _ =>
      rw [Tree.ofTokens] at parsed
      split at parsed
      case h_1 root draft built =>
          obtain rfl := Except.ok.inj parsed
          exact ⟨draft.nodes, root, rfl, Grammar.forest_of_program (Grammar.makeTrees_productions _) built⟩
      case h_2 => cases parsed
  case h_2 => cases parsed

end Heed
