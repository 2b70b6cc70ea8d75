import Heed.Grammar.Program
import Heed.Proofs.Grammar.ExpressionAgreement
import Heed.Proofs.Grammar.StatementLayout

/-!
# Statements and programs do not depend on layout

The builders of declarations and statements agree on alike tokens, whatever budgets tie them together, as long
as the tokens ahead cannot use the budgets up. So two rows of alike tokens make the same nodes, up to spans,
or are refused for the same cause.
-/

set_option autoImplicit false

namespace Heed

namespace Grammar

open Reader Builder

variable {room : Nat}

/-! ## Readers of declarations and statements -/

theorem marks_atMemberModifier : Marks atMemberModifier atMemberModifier :=
  (marks_nextIs fun _ _ _ => rfl).also (sees_nthIs fun _ _ _ => rfl)

theorem agree_memberModifiers : Agree room free Eq memberModifiers memberModifiers := by
  refine agree_grow (fun _ => ?_) _
  refine .onMark marks_atMemberModifier (fun _ _ => ?_) (.idle rfl id)
  refine .see (sees_nextIs fun _ _ _ => rfl) fun _ => .see (sees_nextIs fun _ _ _ => rfl) fun _ => ?_
  exact AgreeWhen.bump.returning fun _ _ _ => rfl

theorem agree_heritage : Agree room free Eq heritage heritage := by
  refine (agree_collect ?_).andThen fun _ => .done rfl
  refine .onEither (marks_nextIs fun _ _ _ => rfl) (marks_nextIs fun _ _ _ => rfl) (fun _ _ => ?_) ?_
  · refine AgreeWhen.bump.paid fun _ => ?_
    exact (agree_commaSeparated agree_type.loose).andThen fun _ => .done rfl
  · exact .idle rfl id

def importRest : Int → List Token → List Token
  | _, [] => []
  | openBraces, token :: rest =>
      if token.isSymbol .semicolon then rest
      else if token.isNewline && openBraces ≤ 0 then token :: rest
      else importRest (openBraces + braceChange token) rest

theorem rest_importEnd (openBraces : Int) (row : List Token) (cursor : Cursor) (same : cursor.rest = row) :
    (importEnd openBraces row cursor).rest = importRest openBraces row := by
  induction row generalizing openBraces cursor with
  | nil => exact same
  | cons token row ih =>
      have behind : cursor.advanceRaw.rest = row := by rw [Cursor.advanceRaw, same]
      rw [importEnd, importRest]
      split
      · exact behind
      · split
        · exact same
        · exact ih _ _ behind

theorem importRest_dropWhile {openBraces : Int} (inBraces : 0 < openBraces) (row : List Token) :
    importRest openBraces (row.dropWhile Token.isNewline) = importRest openBraces row := by
  induction row with
  | nil => rfl
  | cons token row ih =>
      cases isLine : token.isNewline with
      | false => rw [List.dropWhile_cons_of_neg (by simp [isLine])]
      | true =>
          have unchanged : braceChange token = 0 := by
            simp [braceChange, Token.not_isSymbol_of_isNewline isLine]
          rw [List.dropWhile_cons_of_pos isLine, ih, importRest,
            Token.not_isSymbol_of_isNewline isLine, unchanged, Int.add_zero]
          simp [Int.not_le.mpr inBraces]

theorem alike_importRest {left right : List Token} (alike : Token.Alike left right) (openBraces : Int) :
    Token.Alike (importRest openBraces left) (importRest openBraces right) := by
  induction alike generalizing openBraces with
  | nil => exact .nil
  | @word token span left right significant rest ih =>
      have significant' : Token.isNewline { token with span } = false := significant
      rw [importRest, importRest, significant, significant', Bool.false_and]
      change Token.Alike (if token.isSymbol .semicolon then left else importRest _ left)
        (if token.isSymbol .semicolon then right else importRest _ right)
      split
      · exact rest
      · exact ih _
  | @line first second left right isLine isLine' rest ih =>
      by_cases outside : openBraces ≤ 0
      · rw [importRest, importRest, Token.not_isSymbol_of_isNewline isLine,
          Token.not_isSymbol_of_isNewline isLine', isLine, isLine']
        simp only [outside]
        exact .line isLine isLine' rest
      · have inBraces : 0 < openBraces := Int.not_le.mp outside
        rw [← importRest_dropWhile inBraces, ← importRest_dropWhile inBraces (_ :: _),
          List.dropWhile_cons_of_pos isLine, List.dropWhile_cons_of_pos isLine']
        exact ih openBraces

theorem agree_importEnd :
    Agree room free Eq (modify fun cursor => importEnd 0 cursor.rest cursor : Reader Unit)
      (modify fun cursor => importEnd 0 cursor.rest cursor) := by
  intro left right alike _ _
  refine .finish rfl ?_ (advances_importEnd 0 left.rest left).suffix False.elim
  change Token.Alike (importEnd 0 left.rest left).rest (importEnd 0 right.rest right).rest
  rw [rest_importEnd 0 left.rest left rfl, rest_importEnd 0 right.rest right rfl]
  exact alike_importRest alike 0

theorem sees_atSwitchLabel : Sees Eq atSwitchLabel atSwitchLabel := by
  refine (sees_nextIs fun _ _ _ => rfl).bind fun _ => .ite (.done _) ?_
  exact (sees_nextIs fun _ _ _ => rfl).bind fun _ => .ite (sees_nthIs fun _ _ _ => rfl) (.done _)

theorem sees_atJump : Sees Eq atJump atJump := by
  have looked : ∀ cursor : Cursor, atJump cursor =
      .ok (!cursor.significant.tail.head?.any (fun token => !(endsHere token || token.isName)), cursor) := by
    intro cursor
    rw [atJump, get_bind]
    cases cursor.significant.tail.head? with
    | none => rfl
    | some token =>
        rw [Option.any_some, Bool.not_not]
        rfl
  intro left right alike
  refine ⟨_, _, looked left, looked right, congrArg (!·) ?_⟩
  unfold Cursor.significant
  refine Token.ByKind.any (fun _ _ _ => rfl) ?_
  rcases Token.Alike.significant_cases alike with
    ⟨empty, empty'⟩ | ⟨token, span, rest, rest', -, restAlike, first, first'⟩
  · rw [empty, empty']
  · rw [first, first']
    exact restAlike.head?_kind

/-! ## Declarations -/

section

variable {token : Token} {span : Span} {start start' : Nat}

theorem agree_indexSignature :
    Agree room strict Eq (indexSignature start) (indexSignature start') := by
  refine agree_skipBalanced.paid fun _ => agree_eat.andThen fun _ => .joined (fun rest => ?_) ?_
  · exact (agree_lift agree_type).andThen fun _ => rest
  · exact agree_endStatement.andThen fun _ => agree_allocFrom

theorem agree_typeAlias : AgreeWhen (Facing token span) room strict Eq (typeAlias start) (typeAlias start') := by
  refine AgreeWhen.bump.paid fun _ => agree_expectName.andThenBut fun _ _ _ => ?_
  refine agree_alloc.andThen fun _ => (agree_lift agree_withTypeParams).andThen fun _ => ?_
  refine agree_expect.andThenAs fun _ _ _ => agree_typeAscription.andThen fun _ => ?_
  exact agree_endStatement.andThen fun _ => agree_allocFrom

theorem agree_withTypeMembers : Agree room free Eq (withTypes typeMembers) (withTypes typeMembers) :=
  agree_withTypes fun _ _ _ agrees => (agree_typeMembers agrees).inside

theorem agree_interfaceDeclaration :
    AgreeWhen (Facing token span) room strict Eq (interfaceDeclaration start) (interfaceDeclaration start') := by
  have members : ∀ name typeParams bases, Agree room free Eq
      (do let members ← withTypes typeMembers
          allocFrom (.interfaceDeclaration name typeParams bases members) start : Builder Nat)
      (do let members ← withTypes typeMembers
          allocFrom (.interfaceDeclaration name typeParams bases members) start') := by
    intro name typeParams bases
    exact (agree_lift agree_withTypeMembers).andThen fun _ => agree_allocFrom
  refine AgreeWhen.bump.paid fun _ => agree_expectName.andThenBut fun _ _ _ => ?_
  refine agree_alloc.andThen fun _ => (agree_lift agree_withTypeParams).andThen fun _ => ?_
  refine .see (sees_nextIs fun _ _ _ => rfl) fun _ => .ite ?_ ?_
  · refine agree_bump.andThen fun _ => (agree_commaSeparated ?_).andThen fun _ => members _ _ _
    exact (agree_lift agree_type).loose
  · exact (AgreeWhen.done rfl).andThen fun _ => members _ _ _

theorem agree_ambientModule : Agree room strict Eq (ambientModule start) (ambientModule start') := by
  refine (agree_grow (fun _ => ?_) ()).andThen fun _ => agree_skipBalanced.paid fun _ => agree_allocFrom
  refine .onEnd (.see (sees_nextIs fun _ _ _ => rfl) fun _ => .surely rfl (.idle rfl id)) fun _ _ => ?_
  refine .see (sees_nextIs fun _ _ _ => rfl) fun _ => .ite (.idle rfl id) ?_
  exact AgreeWhen.bump.returning fun _ _ _ => rfl

theorem agree_importDeclaration :
    AgreeWhen (Facing token span) room strict Eq (importDeclaration start) (importDeclaration start') :=
  AgreeWhen.bump.paid fun _ => (agree_lift agree_importEnd).andThen fun _ => agree_allocFrom

end

variable {syn syn' : Productions} (agrees : syn.Agrees room syn')

include agrees

theorem agree_declarator : Agree (room + 1) strict Eq (declarator syn) (declarator syn') := by
  refine (agree_bindingTarget agrees).first fun _ => agree_eat.andThen fun _ => ?_
  refine agree_attachAscription.andThen fun _ => agree_eat.andThen fun _ => .ite ?_ agree_node
  exact agrees.expression.andThen fun _ => .onSpan fun _ _ => agree_node

section

variable {token : Token} {span : Span} {start start' : Nat}

theorem agree_variableDeclaration {word : DeclarationWord} {ambient : Bool} :
    AgreeWhen (Facing token span) (room + 1) strict Eq (variableDeclaration syn word ambient start)
      (variableDeclaration syn' word ambient start') := by
  refine AgreeWhen.bump.first fun _ => ?_
  exact (agree_commaSeparated (agree_declarator agrees).inside).andThen fun _ => agree_allocFrom

theorem agree_functionDeclaration {isAsync : Bool} :
    Agree (room + 1) strict Eq (functionDeclaration syn isAsync start)
      (functionDeclaration syn' isAsync start') := by
  refine agree_expectWord.firstAs fun _ _ _ => agree_eat.andThen fun _ => ?_
  refine agree_expectName.andThenBut fun _ _ _ => agree_alloc.andThen fun _ => ?_
  refine (agree_lift agree_withTypeParams).andThen fun _ => (agree_params agrees).inside.andThen fun _ => ?_
  refine agree_returnAscription.andThen fun _ => ?_
  exact (agree_optionalBlock agrees).inside.andThen fun _ => agree_allocFrom

theorem agree_methodDefinition {key : Nat} {modifiers : Modifiers} :
    Agree room free Eq (methodDefinition syn key modifiers start) (methodDefinition syn' key modifiers start') := by
  refine (agree_lift agree_withTypeParams).andThen fun _ => (agree_params agrees).inside.andThen fun _ => ?_
  refine agree_returnAscription.andThen fun _ => ?_
  exact (agree_optionalBlock agrees).inside.andThen fun _ => agree_allocFrom

theorem agree_propertyDefinition {key : Nat} {modifiers : Modifiers} :
    Agree room free Eq (propertyDefinition syn key modifiers start)
      (propertyDefinition syn' key modifiers start') := by
  have last : ∀ ascription value : Option Nat, Agree room free Eq
      (do if !(← eat .semicolon) then
            let _ ← eat .comma
          allocFrom (.propertyDefinition key ascription value modifiers.isStatic) start : Builder Nat)
      (do if !(← eat .semicolon) then
            let _ ← eat .comma
          allocFrom (.propertyDefinition key ascription value modifiers.isStatic) start') := fun _ _ =>
    agree_eat.andThen fun _ => .joined (fun rest => agree_eat.andThen fun _ => rest) agree_allocFrom
  have value : ∀ ascription : Option Nat, Agree room free Eq
      (do let value ← if ← eat .assign then pure (some (← syn.expression)) else pure none
          if !(← eat .semicolon) then
            let _ ← eat .comma
          allocFrom (.propertyDefinition key ascription value modifiers.isStatic) start : Builder Nat)
      (do let value ← if ← eat .assign then pure (some (← syn'.expression)) else pure none
          if !(← eat .semicolon) then
            let _ ← eat .comma
          allocFrom (.propertyDefinition key ascription value modifiers.isStatic) start') := by
    intro ascription
    refine agree_eat.andThen fun _ => .ite (agrees.expression.andThen fun _ => ?_) ?_
    · exact (AgreeWhen.done rfl).andThen (last ascription)
    · exact (AgreeWhen.done rfl).andThen (last ascription)
  refine agree_eat.andThen fun _ => .ite (agree_typeAscription.andThen fun _ => ?_) ?_
  · exact (AgreeWhen.done rfl).andThen value
  · exact (AgreeWhen.done rfl).andThen value

theorem agree_classMember : Agree (room + 1) strict Eq (classMember syn) (classMember syn') := by
  refine .look sees_nextStart fun _ _ _ => (agree_lift agree_memberModifiers).andThen fun _ => ?_
  refine .see (sees_nextIs fun _ _ _ => rfl) fun _ => .ite agree_indexSignature ?_
  refine agree_expectPropertyName.firstBut fun _ _ _ => agree_alloc.andThen fun _ => ?_
  refine agree_eat.andThen fun _ => .joined (fun rest => agree_eat.andThen fun _ => rest) ?_
  refine .see (sees_nextIs fun _ _ _ => rfl) fun _ => .see (sees_nextIs fun _ _ _ => rfl) fun _ => ?_
  exact .ite (agree_methodDefinition agrees) (agree_propertyDefinition agrees)

theorem agree_classMember? : Agree (room + 1) strict Eq (classMember? syn) (classMember? syn') :=
  agree_eat.choose (.done rfl) ((agree_classMember agrees).returning fun _ _ => congrArg some)

theorem agree_classDeclaration {ambient : Bool} :
    Agree (room + 1) strict Eq (classDeclaration syn ambient start) (classDeclaration syn' ambient start') := by
  refine agree_expectWord.firstAs fun _ _ _ => agree_expectName.andThenBut fun _ _ _ => ?_
  refine agree_alloc.andThen fun _ => (agree_lift agree_withTypeParams).andThen fun _ => ?_
  refine (agree_lift agree_heritage).andThen fun _ => agree_expect.andThenAs fun _ _ _ => ?_
  refine (agree_bracedItems ((agree_classMember? agrees).lower (Nat.le_succ room))).andThen fun _ => ?_
  exact agree_expect.andThenAs fun _ _ _ => agree_allocFrom

theorem agree_ambientDeclaration :
    AgreeWhen (Facing token span) (room + 1) strict Eq (ambientDeclaration syn start)
      (ambientDeclaration syn' start') := by
  refine AgreeWhen.bump.first fun _ => .onPeek agree_unexpected fun token span => ?_
  dsimp only
  cases declarationWord? token.kind with
  | some word =>
      refine (agree_variableDeclaration agrees).inside.andThen fun _ => ?_
      exact agree_endStatement.andThen fun _ => .done rfl
  | none =>
      refine .ite (agree_functionDeclaration agrees).inside.at_ ?_
      refine .ite (agree_classDeclaration agrees).inside.at_ ?_
      refine .ite (AgreeWhen.bump.paid fun _ => (agree_functionDeclaration agrees).inside) ?_
      refine .ite (AgreeWhen.bump.paid fun _ => (agree_classDeclaration agrees).inside) ?_
      exact .ite agree_typeAlias.loose (.ite agree_interfaceDeclaration.loose agree_ambientModule.loose.at_)

/-! ## Statements -/

omit token span start start' in
theorem agree_expressionStatement :
    Agree (room + 1) strict Eq (expressionStatement syn) (expressionStatement syn') :=
  (agree_expression agrees).first fun _ => agree_endStatement.andThen fun _ => agree_node

theorem agree_throwStatement :
    AgreeWhen (Facing token span) (room + 1) strict Eq (throwStatement syn start) (throwStatement syn' start') := by
  refine AgreeWhen.bump.first fun _ => agrees.expression.andThen fun _ => ?_
  exact agree_endStatement.andThen fun _ => agree_allocFrom

theorem agree_returnStatement :
    AgreeWhen (Facing token span) (room + 1) strict Eq (returnStatement syn start)
      (returnStatement syn' start') := by
  have last : ∀ argument : Option Nat, Agree room free Eq
      (do endStatement; allocFrom (.returnStatement argument) start : Builder Nat)
      (do endStatement; allocFrom (.returnStatement argument) start') :=
    fun _ => agree_endStatement.andThen fun _ => agree_allocFrom
  refine AgreeWhen.bump.first fun _ => .look sees_draft fun left right alike => ?_
  rcases alike.head?_cases with ⟨none_, none_'⟩ | ⟨kind, place, text, place', text', next, next'⟩
  · rw [none_, none_']
    exact last none
  · rw [next, next']
    refine .ite ((AgreeWhen.done rfl).andThen last) (agrees.expression.andThen fun _ => ?_)
    exact (AgreeWhen.done rfl).andThen last

omit token span start start' in
theorem agree_condition : Agree room strict Eq (condition syn) (condition syn') := by
  refine agree_expect.paidAs fun _ _ _ => agrees.expression.andThen fun _ => ?_
  exact agree_expect.andThenAs fun _ _ _ => .done rfl

theorem agree_ifStatement :
    AgreeWhen (Facing token span) (room + 1) strict Eq (ifStatement syn start) (ifStatement syn' start') := by
  refine AgreeWhen.bump.first fun _ => (agree_condition agrees).andThen fun _ => ?_
  refine agrees.statement.andThen fun _ => agree_eatWord.andThen fun _ => .ite ?_ ?_
  · exact agrees.statement.andThen fun _ => (AgreeWhen.done rfl).andThen fun _ => agree_allocFrom
  · exact (AgreeWhen.done rfl).andThen fun _ => agree_allocFrom

theorem agree_whileStatement :
    AgreeWhen (Facing token span) (room + 1) strict Eq (whileStatement syn start) (whileStatement syn' start') := by
  refine AgreeWhen.bump.first fun _ => (agree_condition agrees).andThen fun _ => ?_
  exact agrees.statement.andThen fun _ => agree_allocFrom

theorem agree_doWhileStatement :
    AgreeWhen (Facing token span) (room + 1) strict Eq (doWhileStatement syn start)
      (doWhileStatement syn' start') := by
  refine AgreeWhen.bump.first fun _ => agrees.statement.andThen fun _ => ?_
  refine agree_expectWord.andThenAs fun _ _ _ => (agree_condition agrees).andThen fun _ => ?_
  exact agree_endStatement.andThen fun _ => agree_allocFrom

omit token span start start' in
theorem agree_loopInit : Agree room free Eq (loopInit syn) (loopInit syn') := by
  refine .onPeek (agrees.expression.andThen fun _ => .done rfl) fun token span => .ite (.done rfl) ?_
  dsimp only
  cases declarationWord? token.kind with
  | some word => exact (agree_variableDeclaration agrees).inside.andThen fun _ => .done rfl
  | none => exact AgreeWhen.at_ (agrees.expression.andThen fun _ => .done rfl)

theorem agree_loopOver {kind : Nat → Nat → NodeKind} :
    Agree room free Eq (loopOver syn kind start) (loopOver syn' kind start') := by
  refine agree_bump.andThen fun _ => agrees.expression.andThen fun _ => ?_
  refine agree_expect.andThenAs fun _ _ _ => agrees.statement.andThen fun _ => agree_allocFrom

theorem agree_loopClauses {init : Option Nat} :
    Agree room free Eq (loopClauses syn init start) (loopClauses syn' init start') := by
  have body : ∀ test next : Option Nat, Agree room free Eq
      (do let _ ← expect .parenClose
          let body ← syn.statement
          allocFrom (.forStatement init test next body) start : Builder Nat)
      (do let _ ← expect .parenClose
          let body ← syn'.statement
          allocFrom (.forStatement init test next body) start') := fun _ _ =>
    agree_expect.andThenAs fun _ _ _ => agrees.statement.andThen fun _ => agree_allocFrom
  have next : ∀ test : Option Nat, Agree room free Eq
      (do let _ ← expect .semicolon
          let next ← if ← check .parenClose then pure none else pure (some (← syn.expression))
          let _ ← expect .parenClose
          let body ← syn.statement
          allocFrom (.forStatement init test next body) start : Builder Nat)
      (do let _ ← expect .semicolon
          let next ← if ← check .parenClose then pure none else pure (some (← syn'.expression))
          let _ ← expect .parenClose
          let body ← syn'.statement
          allocFrom (.forStatement init test next body) start') := by
    intro test
    refine agree_expect.andThenAs fun _ _ _ => .see (sees_nextIs fun _ _ _ => rfl) fun _ => .ite ?_ ?_
    · exact (AgreeWhen.done rfl).andThen (body test)
    · exact agrees.expression.andThen fun _ => (AgreeWhen.done rfl).andThen (body test)
  refine agree_expect.andThenAs fun _ _ _ => .see (sees_nextIs fun _ _ _ => rfl) fun _ => .ite ?_ ?_
  · exact (AgreeWhen.done rfl).andThen next
  · exact agrees.expression.andThen fun _ => (AgreeWhen.done rfl).andThen next

theorem agree_forStatement :
    AgreeWhen (Facing token span) (room + 1) strict Eq (forStatement syn start) (forStatement syn' start') := by
  refine AgreeWhen.bump.first fun _ => agree_eatWord.andThen fun _ => agree_expect.andThenAs fun _ _ _ => ?_
  refine (agree_loopInit agrees).andThen fun init => ?_
  cases init with
  | none => exact agree_loopClauses agrees
  | some left =>
      refine .see (sees_nextIs fun _ _ _ => rfl) fun _ => .ite (agree_loopOver agrees) ?_
      refine .see (sees_nextIs fun _ _ _ => rfl) fun _ => .ite (agree_loopOver agrees) ?_
      exact agree_loopClauses agrees

omit token span start start' in
theorem agree_caseTest : Agree room strict Eq (caseTest syn) (caseTest syn') := by
  refine .onMark (marks_nextIs fun _ _ _ => rfl) (fun _ _ => AgreeWhen.bump.paid fun _ => ?_) ?_
  · exact agrees.expression.andThen fun _ => .done rfl
  · exact .onMark (marks_nextIs fun _ _ _ => rfl) (fun _ _ => AgreeWhen.bump.paid fun _ => .done rfl)
      agree_unexpected

omit token span start start' in
theorem agree_switchCase : Agree room strict Eq (switchCase syn) (switchCase syn') := by
  refine .look sees_nextStart fun _ _ _ => (agree_caseTest agrees).paid fun _ => ?_
  refine agree_expect.andThenAs fun _ _ _ => (agree_collect ?_).andThen fun _ => agree_allocFrom
  refine .see (sees_nextIs fun _ _ _ => rfl) fun _ => .see (sees_lift sees_atSwitchLabel) fun _ => ?_
  refine .ite (.idle rfl id) (.onEnd agree_unexpected fun _ _ => AgreeWhen.at_ ?_)
  exact agrees.statement.returning fun _ _ same => congrArg (Turn.more ∘ some) same

theorem agree_switchStatement :
    AgreeWhen (Facing token span) (room + 1) strict Eq (switchStatement syn start)
      (switchStatement syn' start') := by
  refine AgreeWhen.bump.first fun _ => (agree_condition agrees).andThen fun _ => ?_
  refine agree_expect.andThenAs fun _ _ _ => ?_
  refine (agree_bracedItems (agree_some (agree_switchCase agrees))).andThen fun _ => ?_
  exact agree_expect.andThenAs fun _ _ _ => agree_allocFrom

theorem agree_labeledStatement :
    Agree (room + 1) strict Eq (labeledStatement syn start) (labeledStatement syn' start') := by
  refine agree_expectName.firstBut fun _ _ _ => agree_expect.andThenAs fun _ _ _ => ?_
  exact agrees.statement.andThen fun _ => agree_allocFrom

omit agrees in
theorem agree_jumpStatement {kind : Option String → NodeKind} :
    AgreeWhen (Facing token span) room strict Eq (jumpStatement kind start) (jumpStatement kind start') := by
  have last : ∀ label : Option String, Agree room free Eq
      (do endStatement; allocFrom (kind label) start : Builder Nat)
      (do endStatement; allocFrom (kind label) start') :=
    fun _ => agree_endStatement.andThen fun _ => agree_allocFrom
  refine AgreeWhen.bump.paid fun _ => .look sees_draft fun left right alike => ?_
  rcases alike.head?_cases with ⟨none_, none_'⟩ | ⟨found, place, text, place', text', next, next'⟩
  · rw [none_, none_']
    exact last none
  · rw [next, next']
    cases found with
    | name label => exact agree_bump.andThen fun _ => last (some label)
    | _ => exact last none

omit token span start start' in
theorem agree_catchParam : Agree room free Eq (catchParam syn) (catchParam syn') := by
  refine agree_eat.andThen fun _ => .ite ((agree_bindingTarget agrees).inside.andThen fun _ => ?_) (.done rfl)
  exact agree_attachAscription.andThen fun _ => agree_expect.andThenAs fun _ _ _ => .done rfl

omit token span start start' in
theorem agree_catchClause : Agree room free Eq (catchClause syn) (catchClause syn') := by
  refine .see (sees_nextIs fun _ _ _ => rfl) fun _ => .ite (.look sees_nextStart fun _ _ _ => ?_) (.done rfl)
  refine agree_bump.andThen fun _ => (agree_catchParam agrees).andThen fun _ => ?_
  exact (agree_block agrees).inside.andThen fun _ => agree_allocFrom.andThen fun _ => .done rfl

omit token span start start' in
theorem agree_finallyBlock : Agree room free Eq (finallyBlock syn) (finallyBlock syn') := by
  refine .see (sees_nextIs fun _ _ _ => rfl) fun _ => .ite (agree_bump.andThen fun _ => ?_) (.done rfl)
  exact (agree_block agrees).inside.andThen fun _ => .done rfl

theorem agree_tryStatement :
    AgreeWhen (Facing token span) (room + 1) strict Eq (tryStatement syn start) (tryStatement syn' start') := by
  refine AgreeWhen.bump.first fun _ => (agree_block agrees).inside.andThen fun _ => ?_
  refine (agree_catchClause agrees).andThen fun _ => (agree_finallyBlock agrees).andThen fun _ => ?_
  exact .ite agree_unexpected agree_allocFrom

omit start start' in
theorem agree_exportedStatement :
    AgreeWhen (Facing token span) (room + 1) strict Eq (exportedStatement syn) (exportedStatement syn') := by
  refine AgreeWhen.bump.first fun _ => .see (sees_nextIs fun _ _ _ => rfl) fun _ => ?_
  exact .joined (fun rest => agree_bump.andThen fun _ => rest) agrees.statement.loose

theorem agree_wordStatement {word : String} :
    AgreeWhen (Facing token span) (room + 1) strict Eq (wordStatement syn word start)
      (wordStatement syn' word start') := by
  refine .see (sees_nthIs fun _ _ _ => rfl) fun _ => .ite ?_ ?_
  · exact AgreeWhen.bump.first fun _ => (agree_functionDeclaration agrees).inside
  refine .see (sees_nthIs fun _ _ _ => rfl) fun _ => .ite (agree_ambientDeclaration agrees) ?_
  refine .ite (agree_exportedStatement agrees) ?_
  refine .see (sees_nthIs fun _ _ _ => rfl) fun _ => .ite agree_importDeclaration ?_
  refine .see (sees_nthIs fun _ _ _ => rfl) fun _ => .ite agree_typeAlias ?_
  refine .see (sees_nthIs fun _ _ _ => rfl) fun _ => .ite agree_interfaceDeclaration ?_
  refine .see (sees_nthIs fun _ _ _ => rfl) fun _ => .ite ?_ ?_
  · exact AgreeWhen.bump.first fun _ => (agree_classDeclaration agrees).inside
  refine .see (sees_nthIs fun _ _ _ => rfl) fun _ => .ite (agree_switchStatement agrees) ?_
  refine .see (sees_nthIs fun _ _ _ => rfl) fun _ => .ite (agree_doWhileStatement agrees) ?_
  refine .see (sees_nthIs fun _ _ _ => rfl) fun _ => .ite (agree_tryStatement agrees) ?_
  refine .see (sees_lift sees_atJump) fun _ => .ite agree_jumpStatement ?_
  refine .see (sees_lift sees_atJump) fun _ => .ite agree_jumpStatement ?_
  refine .see (sees_nthIs fun _ _ _ => rfl) fun _ => .ite (agree_labeledStatement agrees).at_ ?_
  exact (agree_expressionStatement agrees).at_

end

theorem agree_statement : Agree (room + 1) strict Eq (statement syn) (statement syn') := by
  refine .onPeek agree_unexpected fun token span => ?_
  dsimp only
  generalize token.kind = kind
  split
  · exact (agree_block agrees).at_
  · exact agree_leaf
  · exact (agree_functionDeclaration agrees).at_
  · exact (agree_classDeclaration agrees).at_
  · exact agree_returnStatement agrees
  · exact agree_ifStatement agrees
  · exact agree_whileStatement agrees
  · exact agree_forStatement agrees
  · exact agree_throwStatement agrees
  · exact agree_wordStatement agrees
  · cases declarationWord? _ with
    | some word => exact (agree_variableDeclaration agrees).first fun _ => agree_endStatement.andThen fun _ => .done rfl
    | none => exact (agree_expressionStatement agrees).at_

/-! ## Programs -/

omit agrees in
theorem agrees_productions {room budget budget' : Nat} (enough : room ≤ budget) (enough' : room ≤ budget') :
    (productions budget).Agrees room (productions budget') := by
  induction room generalizing budget budget' with
  | zero => exact ⟨.noRoom, .noRoom, fun _ => .noRoom, .noRoom, .noRoom⟩
  | succ room ih =>
      cases budget with
      | zero => omega
      | succ budget =>
          cases budget' with
          | zero => omega
          | succ budget' =>
              have inner := ih (Nat.le_of_succ_le_succ enough) (Nat.le_of_succ_le_succ enough')
              exact
                { statement := agree_statement inner
                  expression := agree_expression inner
                  operation := agree_operation inner
                  unary := agree_unary inner
                  binding := agree_bindingTarget inner }

theorem agree_program {sourceLength sourceLength' : Nat} :
    Agree room free Eq (program syn sourceLength) (program syn' sourceLength') := by
  refine (agree_collect ?_).andThen fun _ => agree_alloc
  refine .onEnd (.idle rfl id) fun _ _ => AgreeWhen.at_ ?_
  exact agrees.statement.returning fun _ _ same => congrArg (Turn.more ∘ some) same

end Grammar

theorem Tree.parse_of_scan {source : String} {tokens : List Token} (scanned : Token.scan source = .ok tokens) :
    Tree.parse source = ofTokens tokens source.utf8ByteSize := by
  rw [parse, scanned]

end Heed
