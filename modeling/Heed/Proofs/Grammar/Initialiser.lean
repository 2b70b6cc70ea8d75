import Heed.Proofs.Grammar.RoundTrip

/-!
# A constant and its initial value

A text `const v =` is the declaration of one constant, and nothing else, just if the expression behind it ends
where the tokens do, a semicolon aside. The tree then has the nodes that the expression has made, and three
more above them.
-/

set_option autoImplicit false

namespace Heed

/-! ## The end of a statement -/

def Cursor.Ends (cursor : Cursor) : Prop :=
  cursor.peek? = none ∨
    ∃ token, cursor.peek? = some token ∧ token.isSymbol .semicolon = true ∧ cursor.advance.peek? = none

namespace Cursor.Ends

open Reader Grammar

variable {cursor cursor' : Cursor}

/-- The sign that comes next, if one does. -/
theorem not_sign (ends : cursor.Ends) {sign : Symbol} (other : sign ≠ .semicolon) :
    cursor.peek?.any (·.isSymbol sign) = false := by
  rcases ends with none_ | ⟨token, found, isSemicolon, -⟩
  · rw [none_]
    rfl
  · have kind : token.kind = .symbol .semicolon := eq_of_beq isSemicolon
    rw [found, Option.any_some, Token.isSymbol, kind, beq_eq_false_iff_ne]
    exact fun same => other (Token.Kind.symbol.inj same).symm

theorem pass (ends : cursor.Ends) {sign : Symbol} (other : sign ≠ .semicolon) :
    Runs (eat sign) cursor false cursor := by
  have looked : Runs (check sign) cursor (cursor.peek?.any (·.isSymbol sign)) cursor := rfl
  rw [ends.not_sign other] at looked
  exact looked.bind (.no Bool.false_ne_true .done)

theorem endStatement (ends : cursor.Ends) :
    ∃ after, Runs endStatement cursor () after ∧ after.peek? = none := by
  have looked : Runs (check .semicolon) cursor (cursor.peek?.any (·.isSymbol .semicolon)) cursor := rfl
  rcases ends with none_ | ⟨token, found, isSemicolon, behind⟩
  · rw [none_] at looked
    have left : Runs (eat .semicolon) cursor false cursor := looked.bind (.no Bool.false_ne_true .done)
    exact ⟨cursor, left.bind .done, none_⟩
  · rw [found, Option.any_some, isSemicolon] at looked
    have eaten : Runs (eat .semicolon) cursor true cursor.advance := looked.bind (.yes rfl ((Faces.bumps _).bind .done))
    exact ⟨cursor.advance, eaten.bind .done, behind⟩

theorem of_endStatement {after : Cursor} (ran : Grammar.endStatement cursor = .ok ((), after))
    (empty : after.peek? = none) : cursor.Ends := by
  obtain ⟨found, middle, eaten, returned⟩ := bind_ok ran
  obtain ⟨-, rfl⟩ := pure_ok returned
  rcases eat_ok eaten with ⟨-, rfl⟩ | ⟨-, rfl, token, ahead, kind⟩
  · exact .inl empty
  · exact .inr ⟨token, ahead, beq_iff_eq.mpr kind, empty⟩

theorem alike (ends : cursor.Ends) (same : Token.Alike cursor.rest cursor'.rest) : cursor'.Ends := by
  have empty : ∀ {left right : Cursor}, Token.Alike left.rest right.rest → left.peek? = none →
      right.peek? = none := by
    intro left right same none_
    rcases facing_cases (show Located.Alike left right from same) with ⟨-, none_'⟩ | ⟨token, span, found, -⟩
    · exact none_'
    · cases none_.symm.trans found
  rcases ends with none_ | ⟨token, found, isSemicolon, behind⟩
  · exact .inl (empty same none_)
  · rcases facing_cases (show Located.Alike cursor cursor' from same) with ⟨none_, -⟩ | ⟨_, span, found', facing⟩
    · cases none_.symm.trans found
    · obtain rfl := Option.some.inj (found.symm.trans found')
      exact .inr ⟨_, facing, isSemicolon, empty (alike_advance same) behind⟩

end Cursor.Ends

/-! ## Loops of one turn -/

section

variable {α : Type} {turn : Builder (Turn α)} {budget : Nat} {draft after : Draft} {item : α}

def Turn.IsWhole : Turn α → Prop
  | .more none => False
  | _ => True

theorem turn_of_collectWithin_nil (whole : ∀ draft outcome after, turn draft = .ok (outcome, after) → outcome.IsWhole)
    (ran : collectWithin turn budget draft = .ok ([], after)) : turn draft = .ok (.stop, after) := by
  cases budget with
  | zero => cases ran
  | succ budget =>
      obtain ⟨outcome, middle, turned, rest⟩ := bind_ok ran
      have isWhole := whole _ _ _ turned
      cases outcome with
      | stop =>
          obtain ⟨-, rfl⟩ := pure_ok rest
          exact turned
      | last item => cases (pure_ok rest).1
      | more found =>
          cases found with
          | none => exact isWhole.elim
          | some item =>
              obtain ⟨items, _, -, returned⟩ := bind_ok rest
              cases (pure_ok returned).1

theorem turn_of_collectWithin_singleton
    (whole : ∀ draft outcome after, turn draft = .ok (outcome, after) → outcome.IsWhole)
    (ran : collectWithin turn budget draft = .ok ([item], after)) :
    turn draft = .ok (.last item, after) ∨
      ∃ middle, turn draft = .ok (.more (some item), middle) ∧ turn middle = .ok (.stop, after) := by
  cases budget with
  | zero => cases ran
  | succ budget =>
      obtain ⟨outcome, middle, turned, rest⟩ := bind_ok ran
      have isWhole := whole _ _ _ turned
      cases outcome with
      | stop => cases (pure_ok rest).1
      | last found =>
          obtain ⟨same, rfl⟩ := pure_ok rest
          obtain rfl := List.singleton_inj.mp same
          exact .inl turned
      | more found =>
          cases found with
          | none => exact isWhole.elim
          | some found =>
              obtain ⟨items, _, collected, returned⟩ := bind_ok rest
              obtain ⟨same, rfl⟩ := pure_ok returned
              obtain ⟨rfl, rfl⟩ := List.cons.inj same
              exact .inr ⟨middle, turned, turn_of_collectWithin_nil whole collected⟩

end

/-! ## One constant -/

/-- A tree declares one constant, with this initial value, and nothing else. -/
def Tree.Initialises (tree : Tree) (init : Nat) : Prop :=
  ∃ declaration declarator target, tree.kind tree.root = .program [declaration] ∧
    tree.kind declaration = .variableDeclaration .const_ [declarator] false ∧
    tree.kind declarator = .declarator target (some init)

/-- The initial value of the constant, if a tree declares one constant and nothing else. -/
def Tree.initial? (tree : Tree) : Option Nat :=
  match tree.kind tree.root with
  | .program [declaration] =>
      match tree.kind declaration with
      | .variableDeclaration .const_ [declarator] false =>
          match tree.kind declarator with
          | .declarator _ init => init
          | _ => none
      | _ => none
  | _ => none

theorem Tree.initialises_of_initial? {tree : Tree} {init : Nat} (found : tree.initial? = some init) :
    tree.Initialises init := by
  rw [initial?] at found
  split at found
  case h_2 => cases found
  case h_1 declaration rooted =>
      split at found
      case h_2 => cases found
      case h_1 declarator declares =>
          split at found
          case h_2 => cases found
          case h_1 target init' declared =>
              subst found
              exact ⟨declaration, declarator, target, rooted, declares, declared⟩

namespace Grammar

open Reader Builder

def nameRow (name sign : Span) (rest : List Token) : List Token :=
  ⟨.name "v", name, "v"⟩ :: ⟨.symbol .assign, sign, "="⟩ :: rest

def constRow (word name sign : Span) (rest : List Token) : List Token :=
  ⟨.keyword .const_, word, "const"⟩ :: nameRow name sign rest

def behindConst (name sign : Span) (rest : List Token) (sourceEnd : Nat) : Draft :=
  ⟨⟨rest, sign.stop, sourceEnd⟩, #[⟨.identifier "v" none, name⟩]⟩

variable {syn : Productions} {word name sign : Span} {rest : List Token} {low sourceEnd length init : Nat}
  {after : Draft} {tree : Tree}

theorem declarator_const : declarator syn ⟨⟨nameRow name sign rest, low, sourceEnd⟩, #[]⟩ =
    (do let init ← syn.expression
        alloc (.declarator 0 (some init)) ((← spanOf 0).join (← spanOf init)) : Builder Nat)
      (behindConst name sign rest sourceEnd) := rfl

theorem statement_const : statement syn ⟨⟨constRow word name sign rest, low, sourceEnd⟩, #[]⟩ =
    (do let declaration ← (do
          let declarators ← commaSeparated (declarator syn)
          allocFrom (.variableDeclaration .const_ declarators false) word.start : Builder Nat)
        endStatement
        return declaration : Builder Nat)
      ⟨⟨nameRow name sign rest, word.stop, sourceEnd⟩, #[]⟩ := by
  rw [statement]
  rfl

theorem ofTokens_of_program {tokens : List Token} {root : Nat}
    (ran : Runs (program (productions (tokens.length + 1)) length) ⟨Cursor.ofTokens tokens, #[]⟩ root after) :
    Tree.ofTokens tokens length = .ok (Tree.ofNodes after.nodes root) := by
  rw [Tree.ofTokens, show program _ _ _ = _ from ran]

theorem program_of_ofTokens {tokens : List Token} (parsed : Tree.ofTokens tokens length = .ok tree) :
    ∃ after, Runs (program (productions (tokens.length + 1)) length) ⟨Cursor.ofTokens tokens, #[]⟩ tree.root after ∧
      tree.nodes = after.nodes := by
  rw [Tree.ofTokens] at parsed
  split at parsed
  case h_1 root draft ran =>
      obtain rfl := Except.ok.inj parsed
      exact ⟨draft, ran, rfl⟩
  case h_2 => cases parsed

/-! ### From the expression to the tree -/

theorem declarator_runs_const (runs : Runs syn.expression (behindConst name sign rest sourceEnd) init after)
    (positive : 0 < after.nodes.size) (inside : init < after.nodes.size) :
    ∃ span, Runs (declarator syn) ⟨⟨nameRow name sign rest, low, sourceEnd⟩, #[]⟩ after.nodes.size
      (after.added (.declarator 0 (some init)) span) := by
  have made : ∃ span, Runs (do
      let init ← syn.expression
      alloc (.declarator 0 (some init)) ((← spanOf 0).join (← spanOf init)))
      (behindConst name sign rest sourceEnd) after.nodes.size (after.added (.declarator 0 (some init)) span) :=
    ⟨_, runs.bind ((spans positive).bind ((spans inside).bind (allocs _ _ _)))⟩
  obtain ⟨span, made⟩ := made
  exact ⟨span, declarator_const.trans made⟩

theorem statement_runs_const (trees : syn.MakeTrees)
    (runs : Runs syn.expression (behindConst name sign rest sourceEnd) init after) (ends : after.cursor.Ends) :
    ∃ declarator declaration cursor, cursor.peek? = none ∧
      Runs (statement syn) ⟨⟨constRow word name sign rest, low, sourceEnd⟩, #[]⟩ (after.nodes.size + 1)
        ⟨cursor, (after.nodes.push ⟨.declarator 0 (some init), declarator⟩).push
          ⟨.variableDeclaration .const_ [after.nodes.size] false, declaration⟩⟩ := by
  have grows := (trees.expression.made _ _ _ runs).1
  obtain ⟨declarator, declared⟩ := @declarator_runs_const _ _ _ _ word.stop _ _ _ runs
    (Nat.lt_of_lt_of_le Nat.one_pos grows.size_le) (trees.expression.lt_size runs)
  obtain ⟨cursor, ended, empty⟩ := ends.endStatement
  let named := after.added (.declarator 0 (some init)) declarator
  have gathered : Runs (commaSeparated (Grammar.declarator syn))
      ⟨⟨nameRow name sign rest, word.stop, sourceEnd⟩, #[]⟩ [after.nodes.size] named := by
    have passed : Runs (eat .comma) named.cursor false named.cursor := ends.pass (by decide)
    exact .collect (.last (declared.bind (passed.lift.bind (.no Bool.false_ne_true .done))))
  have placed : Runs (liftM lastEnd : Builder Nat) named after.cursor.lastEnd named := rfl
  have size : (after.nodes.push ⟨.declarator 0 (some init), declarator⟩).size = after.nodes.size + 1 :=
    Array.size_push _
  let declaration : Draft := named.added (.variableDeclaration .const_ [after.nodes.size] false)
    ⟨word.start, after.cursor.lastEnd⟩
  have last : Runs (liftM Grammar.endStatement : Builder Unit) declaration () { declaration with cursor } :=
    Runs.lift ended
  refine ⟨declarator, ⟨word.start, after.cursor.lastEnd⟩, cursor, empty, statement_const.trans ?_⟩
  rw [← size]
  exact (gathered.bind (placed.bind (allocs _ _ _))).bind (last.bind .done)

/-- An expression that ends where the tokens do is the initial value of the constant. -/
theorem initialises_of_expression
    (runs : Runs (productions (constRow word name sign rest).length).expression
      (behindConst name sign rest (Cursor.ofTokens (constRow word name sign rest)).sourceEnd) init after)
    (ends : after.cursor.Ends) :
    ∃ tree, Tree.ofTokens (constRow word name sign rest) length = .ok tree ∧ tree.Initialises init ∧
      Grows [] [] after.nodes tree.nodes := by
  have trees := makeTrees_productions (constRow word name sign rest).length
  obtain ⟨declarator, declaration, cursor, empty, stated⟩ := statement_runs_const trees runs ends
  let nodes := (after.nodes.push ⟨.declarator 0 (some init), declarator⟩).push
    ⟨.variableDeclaration .const_ [after.nodes.size] false, declaration⟩
  have body : Runs (collect do
      if ← atEnd then return .stop
      else return .more (some (← (productions ((constRow word name sign rest).length + 1)).statement)) :
      Builder (List Nat)) ⟨Cursor.ofTokens (constRow word name sign rest), #[]⟩ [after.nodes.size + 1]
      ⟨cursor, nodes⟩ := by
    refine .collect (.more ((atEnds rfl).bind (.no Bool.false_ne_true (stated.bind .done))) ?_)
    exact .stop ((atEnds empty).bind (.yes rfl .done))
  have ran : Runs (program (productions ((constRow word name sign rest).length + 1)) length) _ nodes.size _ :=
    body.bind (allocs _ _ _)
  have size : (after.nodes.push ⟨.declarator 0 (some init), declarator⟩).size = after.nodes.size + 1 :=
    Array.size_push _
  have below : after.nodes.size + 1 < nodes.size := by
    rw [← size]
    exact size_lt_push _ _
  refine ⟨Tree.ofNodes (nodes.push ⟨.program [after.nodes.size + 1], ⟨0, length⟩⟩) nodes.size, ?_, ?_, ?_⟩
  · exact ofTokens_of_program ran
  · refine ⟨after.nodes.size + 1, after.nodes.size, 0, kindAt_push_size nodes _, ?_, ?_⟩
    · rw [Tree.kind_eq_kindAt]
      refine (kindAt_push_of_lt _ below).trans ?_
      rw [← size]
      exact kindAt_push_size _ _
    · rw [Tree.kind_eq_kindAt]
      refine (kindAt_push_of_lt _ (by omega)).trans ((kindAt_push_of_lt _ (by omega)).trans ?_)
      exact kindAt_push_size _ _
  · exact ((Grows.addNode _ _).trans (.addNode _ _)).trans (.addNode _ _)

/-! ### From the tree to the expression -/

/-- A turn of the loop over the statements of a program. -/
theorem bodyTurn_ok {draft : Draft} {outcome : Turn Nat}
    (turned : (do if ← atEnd then return .stop else return .more (some (← syn.statement)) : Builder (Turn Nat)) draft =
      .ok (outcome, after)) :
    outcome = .stop ∧ after = draft ∧ draft.cursor.peek? = none ∨
      ∃ statement, outcome = .more (some statement) ∧ syn.statement draft = .ok (statement, after) := by
  obtain ⟨isEnd, _, looked, turned⟩ := bind_ok turned
  have looks : (liftM atEnd : Builder Bool) draft = .ok (draft.cursor.peek?.isNone, draft) := rfl
  obtain ⟨rfl, rfl⟩ := Prod.mk.inj (Except.ok.inj (looks.symm.trans looked))
  split at turned
  case isTrue none_ =>
      obtain ⟨rfl, rfl⟩ := pure_ok turned
      exact .inl ⟨rfl, rfl, Option.isNone_iff_eq_none.mp none_⟩
  case isFalse =>
      obtain ⟨statement, _, stated, returned⟩ := bind_ok turned
      obtain ⟨rfl, rfl⟩ := pure_ok returned
      exact .inr ⟨statement, rfl, stated⟩

/-- A turn of a loop over items that commas separate. -/
theorem commaTurn_ok {item : Builder Nat} {draft : Draft} {outcome : Turn Nat}
    (turned : (do
      let value ← item
      if ← eat .comma then return .more (some value) else return .last value : Builder (Turn Nat)) draft =
        .ok (outcome, after)) :
    ∃ value middle, item draft = .ok (value, middle) ∧
      (outcome = .last value ∧ after = middle ∨ outcome = .more (some value)) := by
  obtain ⟨value, middle, made, turned⟩ := bind_ok turned
  refine ⟨value, middle, made, ?_⟩
  obtain ⟨found, behind, eaten, turned⟩ := bind_ok turned
  obtain ⟨cursor, read, rfl⟩ := read_ok eaten
  rcases eat_ok read with ⟨rfl, rfl⟩ | ⟨rfl, -⟩
  · obtain ⟨rfl, rfl⟩ := pure_ok turned
    exact .inl ⟨rfl, rfl⟩
  · obtain ⟨rfl, rfl⟩ := pure_ok turned
    exact .inr rfl

theorem item_of_commaSeparated {item : Builder Nat} {draft : Draft} {value : Nat}
    (ran : commaSeparated item draft = .ok ([value], after)) : item draft = .ok (value, after) := by
  obtain ⟨_, _, counted, ran⟩ := bind_ok ran
  obtain ⟨-, rfl⟩ := Prod.mk.inj (Except.ok.inj counted)
  have turns : ∀ draft outcome after, (do
      let value ← item
      if ← eat .comma then return .more (some value) else return .last value : Builder (Turn Nat)) draft =
        .ok (outcome, after) → outcome.IsWhole ∧ outcome ≠ .stop := by
    intro draft outcome after turned
    obtain ⟨_, _, -, ⟨rfl, -⟩ | rfl⟩ := commaTurn_ok turned
    · exact ⟨trivial, nofun⟩
    · exact ⟨trivial, nofun⟩
  have whole := fun draft outcome after turned => (turns draft outcome after turned).1
  rcases turn_of_collectWithin_singleton whole ran with turned | ⟨middle, -, stopped⟩
  · obtain ⟨_, _, made, ⟨same, rfl⟩ | wrong⟩ := commaTurn_ok turned
    · obtain rfl := Turn.last.inj same
      exact made
    · cases wrong
  · exact absurd rfl (turns _ _ _ stopped).2

/-- A node of another kind than the last one was there before. -/
theorem kindAt_of_push {nodes : Array Node} {node : Node} {id : Nat} {kind : NodeKind}
    (found : kindAt (nodes.push node) id = kind) (other : node.kind ≠ kind) (nonempty : kind ≠ .emptyStatement) :
    kindAt nodes id = kind := by
  have inside := lt_size_of_kindAt found nonempty
  rw [Array.size_push] at inside
  rcases Nat.lt_or_eq_of_le (Nat.le_of_lt_succ inside) with below | rfl
  · rwa [kindAt_push_of_lt _ below] at found
  · rw [kindAt_push_size] at found
    exact absurd found other

theorem expression_of_declarator {node : Nat}
    (declared : declarator syn ⟨⟨nameRow name sign rest, low, sourceEnd⟩, #[]⟩ = .ok (node, after)) :
    ∃ init middle span, Runs syn.expression (behindConst name sign rest sourceEnd) init middle ∧
      node = middle.nodes.size ∧ after = middle.added (.declarator 0 (some init)) span := by
  rw [declarator_const] at declared
  obtain ⟨init, middle, runs, next⟩ := bind_ok declared
  obtain ⟨first, _, seen, next'⟩ := bind_ok next
  obtain ⟨-, rfl⟩ := spanOf_ok seen
  obtain ⟨second, _, seen', made⟩ := bind_ok next'
  obtain ⟨-, rfl⟩ := spanOf_ok seen'
  obtain ⟨rfl, rfl⟩ := Prod.mk.inj (Except.ok.inj made)
  exact ⟨init, _, first.join second, runs, rfl, rfl⟩

/-- A statement that is the declaration of one constant. -/
theorem expression_of_statement {declaration declarator target : Nat}
    (stated : statement syn ⟨⟨constRow word name sign rest, low, sourceEnd⟩, #[]⟩ = .ok (declaration, after))
    (declares : kindAt after.nodes declaration = .variableDeclaration .const_ [declarator] false)
    (initialises : kindAt after.nodes declarator = .declarator target (some init)) (empty : after.cursor.peek? = none) :
    ∃ middle, Runs syn.expression (behindConst name sign rest sourceEnd) init middle ∧ middle.cursor.Ends ∧
      Grows [] [] middle.nodes after.nodes := by
  rw [statement_const] at stated
  obtain ⟨_, named, made, stated⟩ := bind_ok stated
  obtain ⟨declarators, before, gathered, made⟩ := bind_ok made
  obtain ⟨rfl, rfl⟩ := Prod.mk.inj (Except.ok.inj made)
  obtain ⟨_, _, lifted, returned⟩ := bind_ok stated
  obtain ⟨cursor, ended, rfl⟩ := read_ok lifted
  obtain ⟨rfl, rfl⟩ := pure_ok returned
  rw [kindAt_push_size] at declares
  obtain ⟨-, rfl, -⟩ := NodeKind.variableDeclaration.inj declares
  obtain ⟨value, middle, span, runs, rfl, rfl⟩ := expression_of_declarator (item_of_commaSeparated gathered)
  have inside : middle.nodes.size < (middle.added (.declarator 0 (some value)) span).nodes.size := size_lt_push _ _
  rw [kindAt_push_of_lt _ inside, Draft.added, kindAt_push_size] at initialises
  obtain ⟨-, same⟩ := NodeKind.declarator.inj initialises
  obtain rfl := Option.some.inj same
  exact ⟨middle, runs, .of_endStatement ended empty, (Grows.addNode _ _).trans (.addNode _ _)⟩

/-- The initial value of the constant was made by the expression, which ends where the tokens do. -/
theorem expression_of_initialises (parsed : Tree.ofTokens (constRow word name sign rest) length = .ok tree)
    (initialises : tree.Initialises init) :
    ∃ after, Runs (productions (constRow word name sign rest).length).expression
        (behindConst name sign rest (Cursor.ofTokens (constRow word name sign rest)).sourceEnd) init after ∧
      after.cursor.Ends ∧ Grows [] [] after.nodes tree.nodes := by
  obtain ⟨declaration, declarator, target, rooted, declares, declared⟩ := initialises
  obtain ⟨final, ran, nodes_eq⟩ := program_of_ofTokens parsed
  rw [Tree.kind_eq_kindAt, nodes_eq] at rooted declares declared
  obtain ⟨body, after, gathered, made⟩ := bind_ok ran
  obtain ⟨root_eq, rfl⟩ := Prod.mk.inj (Except.ok.inj made)
  rw [← root_eq, kindAt_push_size] at rooted
  obtain rfl := NodeKind.program.inj rooted
  obtain ⟨_, _, counted, gathered⟩ := bind_ok gathered
  obtain ⟨-, rfl⟩ := Prod.mk.inj (Except.ok.inj counted)
  have whole : ∀ draft outcome after, (do
      if ← atEnd then return .stop
      else return .more (some (← (productions ((constRow word name sign rest).length + 1)).statement)) :
        Builder (Turn Nat)) draft = .ok (outcome, after) → outcome.IsWhole := by
    intro draft outcome after turned
    obtain ⟨rfl, -⟩ | ⟨_, rfl, -⟩ := bodyTurn_ok turned
    · trivial
    · trivial
  rcases turn_of_collectWithin_singleton whole gathered with turned | ⟨middle, turned, stopped⟩
  · obtain ⟨wrong, -⟩ | ⟨_, wrong, -⟩ := bodyTurn_ok turned
    · cases wrong
    · cases wrong
  obtain ⟨-, rfl, empty⟩ | ⟨_, wrong, -⟩ := bodyTurn_ok stopped
  case inr => cases wrong
  obtain ⟨wrong, -⟩ | ⟨_, same, stated⟩ := bodyTurn_ok turned
  case inl => cases wrong
  obtain rfl := Option.some.inj (Turn.more.inj same)
  obtain ⟨middle, runs, ends, grows⟩ := expression_of_statement stated (kindAt_of_push declares nofun nofun)
    (kindAt_of_push declared nofun nofun) empty
  refine ⟨middle, runs, ends, ?_⟩
  rw [nodes_eq]
  exact grows.trans (.addNode _ _)

end Grammar

end Heed
