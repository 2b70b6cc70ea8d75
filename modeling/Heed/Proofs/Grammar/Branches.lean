import Heed.Proofs.Grammar.Initialiser
import Heed.Proofs.Grammar.Relocation
import Heed.Proofs.Grammar.StatementShifting
import Heed.Proofs.Token.Openings

/-!
# Conditionals whose first branch stands in parentheses

In `c ? (a) : e` the parentheses with the colon behind them are also the start of an arrow function with a
return type. They are tried as one first, so that the text is a conditional with the branches `a` and `e` just
if `: e` is not what stands behind the parameters of an arrow function: a return type, an arrow and a body.
-/

set_option autoImplicit false

namespace Heed

theorem Runs.bind_eq {σ ε α β : Type} {run : StateT σ (Except ε) α} {next : α → StateT σ (Except ε) β}
    {state middle : σ} {value : α} (runs : Runs run state value middle) :
    (run >>= next) state = next value middle := by
  rw [bind_apply, show run state = _ from runs]
  rfl

namespace Grammar

open Reader Builder

variable {syn : Productions} {draft middle : Draft} {word : String} {place : Span}

/-! ## A name before a sign -/

/-- A sign that ends an operand comes next. -/
inductive Delimited : Draft → Prop
  | question {place : Span} {text : String} {rest : List Token} {low sourceEnd : Nat} {nodes : Array Node} :
      Delimited ⟨⟨⟨.symbol .question, place, text⟩ :: rest, low, sourceEnd⟩, nodes⟩
  | parenClose {place : Span} {text : String} {rest : List Token} {low sourceEnd : Nat} {nodes : Array Node} :
      Delimited ⟨⟨⟨.symbol .parenClose, place, text⟩ :: rest, low, sourceEnd⟩, nodes⟩
  | colon {place : Span} {text : String} {rest : List Token} {low sourceEnd : Nat} {nodes : Array Node} :
      Delimited ⟨⟨⟨.symbol .colon, place, text⟩ :: rest, low, sourceEnd⟩, nodes⟩

namespace Delimited

theorem added (delimited : Delimited draft) (kind : NodeKind) (span : Span) : Delimited (draft.added kind span) := by
  cases delimited with
  | question => exact .question
  | parenClose => exact .parenClose
  | colon => exact .colon

theorem valueTail (delimited : Delimited draft) (value : Nat) : Runs (valueTail syn value) draft none draft := by
  cases delimited <;> rfl

theorem operationTail (delimited : Delimited draft) (left : Nat) :
    Runs (operationTail syn 1 left) draft none draft := by
  cases delimited <;> rfl

theorem assignmentTail (delimited : Delimited draft) (left : Nat) :
    Runs (assignmentTail syn left) draft left draft := by
  cases delimited <;> rfl

theorem updateTail (delimited : Delimited draft) {argument : Nat} (inside : argument < draft.nodes.size) :
    Runs (updateTail argument) draft argument draft := by
  refine (spans inside).bind ?_
  cases delimited <;> rfl

/-- A value that is not continued is an operation on its own. -/
theorem operation (delimited : Delimited middle) {value : Nat} {token : Token} (inside : value < middle.nodes.size)
    (found : draft.cursor.peek? = some token) (notOperator : unaryOperator? token.kind = none)
    (notNew : token.isKeyword .new_ = false) (runs : Runs (primary syn) draft value middle) :
    Runs (operation syn 1) draft value middle := by
  have looked : Runs (liftM (checkWord .new_) : Builder Bool) draft false draft := by
    refine Runs.lift ?_
    rw [checkWord, nextIs, Runs, peek_bind, found, Option.any_some, notNew]
    rfl
  have called : Runs (callOrMember syn) draft value middle :=
    looked.bind (.no Bool.false_ne_true (runs.bind ((Climbs.stay _ _).grow (delimited.valueTail value))))
  have operand : Runs (unary syn) draft value middle := by
    refine (peeks found).bind ?_
    simp only [notOperator]
    exact called.bind (delimited.updateTail inside)
  exact operand.bind ((Climbs.stay _ _).grow (delimited.operationTail value))

/-- An operation that is not continued is an expression on its own. -/
theorem expression (delimited : Delimited middle) {value : Nat} (notArrow : Runs (arrowFunction? syn) draft none draft)
    (operated : Runs (Grammar.operation syn 1) draft value middle)
    (passed : Runs (liftM (eat .question) : Builder Bool) middle false middle) :
    Runs (expression syn) draft value middle := by
  have chosen : Runs (conditional syn) draft value middle :=
    operated.bind (passed.bind (.no Bool.false_ne_true .done))
  exact notArrow.bind (chosen.bind (delimited.assignmentTail value))

end Delimited

inductive Named (word : String) (place : Span) : Draft → Prop
  | intro {text : String} {row : List Token} {low sourceEnd : Nat} {nodes : Array Node}
      (delimited : Delimited ⟨⟨row, place.stop, sourceEnd⟩, nodes⟩) :
      Named word place ⟨⟨⟨.name word, place, text⟩ :: row, low, sourceEnd⟩, nodes⟩

namespace Named

theorem peek? (named : Named word place draft) : ∃ text, draft.cursor.peek? = some ⟨.name word, place, text⟩ := by
  cases named
  exact ⟨_, rfl⟩

theorem delimited (named : Named word place draft) : Delimited (draft.next.added (.identifier word none) place) := by
  cases named with
  | intro delimited => exact delimited.added _ _

theorem operation (named : Named word place draft) :
    Runs (operation syn 1) draft draft.nodes.size (draft.next.added (.identifier word none) place) := by
  obtain ⟨text, found⟩ := named.peek?
  have notFunction : Runs (liftM (nthIs 1 (·.isKeyword .function_)) : Builder Bool) draft false draft := by
    cases named with
    | intro delimited => cases delimited <;> rfl
  have taken : Runs (primary syn) draft draft.nodes.size (draft.next.added (.identifier word none) place) := by
    refine (peeks found).bind (notFunction.bind (.no (fun both => Bool.false_ne_true both.2) ?_))
    exact (bumps draft).bind (allocs _ _ _)
  exact named.delimited.operation (size_lt_push _ _) found rfl rfl taken

/-- No arrow function starts with a name that ends an operand. -/
theorem arrowFunction? (named : Named word place draft) : Runs (arrowFunction? syn) draft none draft := by
  cases named with
  | @intro text row low sourceEnd nodes delimited =>
      have notAsync : startsAsync ⟨.name word, place, text⟩ row = false := by
        cases delimited <;> exact Bool.and_false _
      let cursor : Cursor := ⟨⟨.name word, place, text⟩ :: row, low, sourceEnd⟩
      have ahead : cursor.significant = ⟨.name word, place, text⟩ :: row := rfl
      have absent : Runs (arrowSign (⟨.name word, place, text⟩ :: row)) cursor .absent cursor := by
        cases delimited <;> rfl
      rw [Runs, Grammar.arrowFunction?, get_bind, ahead]
      simp only [notAsync, Bool.false_eq_true, if_false]
      exact absent.lift.bind .done

end Named

/-! ## A name in parentheses with a colon behind -/

structure GroupSpans where
  opening : Span
  name : Span
  closing : Span
  colon : Span

variable {spans : GroupSpans} {rest : List Token} {low sourceEnd start : Nat} {nodes : Array Node}

/-- The tokens of `(a) :` before others. -/
def groupRow (spans : GroupSpans) (word : String) (rest : List Token) : List Token :=
  ⟨.symbol .parenOpen, spans.opening, "("⟩ :: ⟨.name word, spans.name, word⟩ ::
    ⟨.symbol .parenClose, spans.closing, ")"⟩ :: ⟨.symbol .colon, spans.colon, ":"⟩ :: rest

def behindGroup (spans : GroupSpans) (word : String) (rest : List Token) (sourceEnd : Nat) (nodes : Array Node) :
    Draft :=
  ⟨⟨⟨.symbol .colon, spans.colon, ":"⟩ :: rest, spans.closing.stop, sourceEnd⟩,
    nodes.push ⟨.identifier word none, spans.name⟩⟩

/-- The group may start an arrow function, and is tried as one. -/
theorem arrowFunction?_group : arrowFunction? syn ⟨⟨groupRow spans word rest, low, sourceEnd⟩, nodes⟩ =
    attempt (arrowFunction syn false spans.opening.start) ⟨⟨groupRow spans word rest, low, sourceEnd⟩, nodes⟩ := by
  rw [arrowFunction?, get_bind]
  rfl

/-- The name is read as a parameter. -/
theorem param_group : Runs (param syn)
    ⟨⟨(groupRow spans word rest).tail, spans.opening.stop, sourceEnd⟩, nodes⟩ nodes.size
    ⟨⟨(groupRow spans word rest).tail.tail, spans.name.stop, sourceEnd⟩,
      nodes.push ⟨.identifier word none, spans.name⟩⟩ := by
  have noModifier : Runs atParamModifier ⟨(groupRow spans word rest).tail, spans.opening.stop, sourceEnd⟩ false
      ⟨(groupRow spans word rest).tail, spans.opening.stop, sourceEnd⟩ :=
    congrArg (fun found => Except.ok (found, _)) (Bool.and_false _)
  let draft : Draft := ⟨⟨(groupRow spans word rest).tail, spans.opening.stop, sourceEnd⟩, nodes⟩
  have counted : Runs (liftM remaining : Builder Nat) draft (rest.length + 3) draft := rfl
  refine Runs.bind (counted.bind (Runs.bind (noModifier.lift.bind (.no Bool.false_ne_true .done)) .done)) ?_
  rfl

/-- The group is read as parameters. -/
theorem params_group : Runs (params syn) ⟨⟨groupRow spans word rest, low, sourceEnd⟩, nodes⟩ [nodes.size]
    (behindGroup spans word rest sourceEnd nodes) := by
  let draft : Draft := ⟨⟨(groupRow spans word rest).tail, spans.opening.stop, sourceEnd⟩, nodes⟩
  have opened : Runs (liftM (expect .parenOpen) : Builder Span) ⟨⟨groupRow spans word rest, low, sourceEnd⟩, nodes⟩
      spans.opening draft := rfl
  have notClosed : Runs (liftM (check .parenClose) : Builder Bool) draft false draft := rfl
  have gathered : Runs (commaList .parenClose (param syn)) draft [nodes.size]
      ⟨⟨(groupRow spans word rest).tail.tail, spans.name.stop, sourceEnd⟩,
        nodes.push ⟨.identifier word none, spans.name⟩⟩ :=
    .collect (.last (notClosed.bind (.no Bool.false_ne_true (param_group.bind rfl))))
  exact opened.bind (gathered.bind rfl)

/-! ### The group as the parameters of an arrow function -/

def arrowBody (syn : Productions) : Builder Nat := do
  if ← check .braceOpen then block syn else syn.expression

/-- What stands behind the parameters of an arrow function: perhaps a return type, the arrow and the body. -/
def arrowTail (syn : Productions) : Builder Nat := do
  let _ ← returnAscription
  let _ ← expect .arrow
  arrowBody syn

theorem arrowBody_bind {α : Type} (next : Nat → Builder α) : arrowBody syn >>= next =
    (do if ← check .braceOpen then block syn >>= next else syn.expression >>= next) := by
  rw [arrowBody, bind_assoc]
  refine congrArg _ (funext fun isBlock => ?_)
  split <;> rfl

theorem shifts_arrowTail {front : Array Node} (shift : syn.Shift front) :
    Shifts front (shifted front) (arrowTail syn) (arrowTail syn) :=
  shifts_returnAscription.bind fun _ => .read fun _ => .read fun _ => .ite (shifts_block shift) shift.expression

theorem agree_arrowTail {syn' : Productions} {room : Nat} (agrees : syn.Agrees room syn') :
    Agree room free Eq (arrowTail syn) (arrowTail syn') := by
  refine agree_returnAscription.andThen fun _ => agree_expect.andThenAs fun _ _ _ => ?_
  exact .see (sees_nextIs fun _ _ _ => rfl) fun _ => .ite (agree_block agrees).inside.loose agrees.expression.loose

/-- Whether such a tail comes next does not depend on the nodes, on the spans or on the budget. -/
theorem exists_arrowTail {budget budget' : Nat} {cursor cursor' : Cursor} {front front' : Array Node}
    (alike : Token.Alike cursor.rest cursor'.rest) (enough : cursor.rest.length < budget)
    (enough' : cursor'.rest.length < budget')
    (found : ∃ body after, Runs (arrowTail (productions budget)) ⟨cursor, front⟩ body after) :
    ∃ body after, Runs (arrowTail (productions budget')) ⟨cursor', front'⟩ body after := by
  obtain ⟨body, after, runs⟩ := found
  obtain ⟨room, fits, less, less'⟩ := exists_room alike enough enough'
  obtain ⟨body', after', runs', -⟩ := relocate (shifts_arrowTail (shift_productions budget))
    (shifts_arrowTail (shift_productions budget')) (agree_arrowTail (agrees_productions less less')) alike fits runs
  exact ⟨body', after', runs'⟩

def arrowRest (syn : Productions) (params : List Nat) (start : Nat) : Builder Nat := do
  let returnType ← returnAscription
  let _ ← expect .arrow
  let body ← arrowBody syn
  alloc (.arrowFunction params returnType body false) ⟨start, (← spanOf body).stop⟩

theorem arrowFunction_group : arrowFunction syn false start ⟨⟨groupRow spans word rest, low, sourceEnd⟩, nodes⟩ =
    arrowRest syn [nodes.size] start (behindGroup spans word rest sourceEnd nodes) := by
  have split_eq : arrowFunction syn false start ⟨⟨groupRow spans word rest, low, sourceEnd⟩, nodes⟩ =
      (do arrowRest syn (← params syn) start : Builder Nat) ⟨⟨groupRow spans word rest, low, sourceEnd⟩, nodes⟩ := by
    simp only [arrowRest, arrowBody_bind]
    rfl
  rw [split_eq, params_group.bind_eq]

theorem arrowTail_of_arrowFunction {node : Nat} {after : Draft}
    (success : arrowFunction syn false start ⟨⟨groupRow spans word rest, low, sourceEnd⟩, nodes⟩ = .ok (node, after)) :
    (∃ body middle, Runs (arrowTail syn) (behindGroup spans word rest sourceEnd nodes) body middle) ∧
      ∃ returnType body, kindAt after.nodes node = .arrowFunction [nodes.size] returnType body false := by
  rw [arrowFunction_group] at success
  obtain ⟨returnType, draft₁, typed, success₁⟩ := bind_ok success
  obtain ⟨arrow, draft₂, found, success₂⟩ := bind_ok success₁
  obtain ⟨body, draft₃, ran, success₃⟩ := bind_ok success₂
  obtain ⟨span, draft₄, -, made⟩ := bind_ok success₃
  obtain ⟨rfl, rfl⟩ := Prod.mk.inj (Except.ok.inj made)
  exact ⟨⟨body, draft₃, Runs.bind typed (Runs.bind found ran)⟩, returnType, body, kindAt_push_size _ _⟩

theorem arrowFunction_of_arrowTail (trees : syn.MakeTrees) {body : Nat} {middle : Draft}
    (runs : Runs (arrowTail syn) (behindGroup spans word rest sourceEnd nodes) body middle) :
    ∃ node after, Runs (arrowFunction syn false start) ⟨⟨groupRow spans word rest, low, sourceEnd⟩, nodes⟩ node
      after := by
  obtain ⟨returnType, draft₁, typed, rest₁⟩ := bind_ok runs
  obtain ⟨arrow, draft₂, found, ran⟩ := bind_ok rest₁
  have makes : (arrowBody syn).Makes .plain := .read fun _ => .ite (makes_block trees) trees.expression
  have seen : Runs (spanOf body) middle _ middle := Grammar.spans (makes.lt_size ran)
  have made : Runs (arrowRest syn [nodes.size] start) (behindGroup spans word rest sourceEnd nodes) _ _ :=
    Runs.bind typed (Runs.bind found (Runs.bind ran (seen.bind (allocs _ _ _))))
  exact ⟨_, _, arrowFunction_group.trans made⟩

/-! ### The group as an operand -/

/-- The group is read as the name in it. -/
theorem operation_group {budget : Nat} : Runs (operation (productions (budget + 1)) 1)
    ⟨⟨groupRow spans word rest, low, sourceEnd⟩, nodes⟩ nodes.size
    (behindGroup spans word rest sourceEnd nodes) := by
  let inner : Draft := ⟨⟨(groupRow spans word rest).tail, spans.opening.stop, sourceEnd⟩, nodes⟩
  have named : Named word spans.name inner := .intro .parenClose
  have read : Runs (expression (productions budget)) inner nodes.size
      (inner.next.added (.identifier word none) spans.name) :=
    named.delimited.expression named.arrowFunction? named.operation rfl
  have taken : Runs (primary (productions (budget + 1))) ⟨⟨groupRow spans word rest, low, sourceEnd⟩, nodes⟩
      nodes.size (behindGroup spans word rest sourceEnd nodes) := by
    refine Runs.bind (peeks rfl) ?_
    exact Runs.bind (show Runs (liftM bump : Builder Unit) _ () inner from rfl) (read.bind rfl)
  exact Delimited.colon.operation (size_lt_push _ _) rfl rfl rfl taken

/-- A group that is no list of parameters is an expression on its own. -/
theorem expression_group {budget : Nat} (enough : rest.length < budget)
    (fails : Fails (arrowTail (productions (budget + 3))) (behindGroup spans word rest sourceEnd nodes)) :
    Runs (expression (productions (budget + 3))) ⟨⟨groupRow spans word rest, low, sourceEnd⟩, nodes⟩ nodes.size
      (behindGroup spans word rest sourceEnd nodes) := by
  have makes := makes_arrowFunction (makeTrees_productions (budget + 3)) false spans.opening.start
  have fits : ahead (⟨⟨groupRow spans word rest, low, sourceEnd⟩, nodes⟩ : Draft) < budget + 3 + 1 := by
    have counted : ahead (⟨⟨groupRow spans word rest, low, sourceEnd⟩, nodes⟩ : Draft) ≤ rest.length + 4 :=
      List.length_filter_le _ _
    omega
  have notArrow : Runs (arrowFunction? (productions (budget + 3)))
      ⟨⟨groupRow spans word rest, low, sourceEnd⟩, nodes⟩ none
      ⟨⟨groupRow spans word rest, low, sourceEnd⟩, nodes⟩ := by
    refine arrowFunction?_group.trans (attempt_of_fails makes ?_ (arrowFunction_settles fits))
    intro node after runs
    obtain ⟨⟨body, middle, tail⟩, -⟩ := arrowTail_of_arrowFunction runs
    exact fails body middle tail
  exact Delimited.colon.expression notArrow operation_group rfl

/-! ## The conditional -/

structure BranchSpans extends GroupSpans where
  test : Span
  question : Span

def branchRow (spans : BranchSpans) (test word : String) (rest : List Token) : List Token :=
  ⟨.name test, spans.test, test⟩ :: ⟨.symbol .question, spans.question, "?"⟩ ::
    groupRow spans.toGroupSpans word rest

variable {spans : BranchSpans} {test : String} {budget : Nat} {after : Draft}

def testNodes (spans : BranchSpans) (test : String) (nodes : Array Node) : Array Node :=
  nodes.push ⟨.identifier test none, spans.test⟩

def beforeAlternate (spans : BranchSpans) (test word : String) (rest : List Token) (sourceEnd : Nat)
    (nodes : Array Node) : Draft :=
  (behindGroup spans.toGroupSpans word rest sourceEnd (testNodes spans test nodes)).next

def branches (syn : Productions) (test : Nat) : Builder Nat := do
  let consequent ← syn.expression
  let _ ← expect .colon
  let alternate ← syn.expression
  alloc (.conditional test consequent alternate) ((← spanOf test).join (← spanOf alternate))

/-- Up to the consequent, it does not matter what the group is. -/
theorem expression_branch : expression syn ⟨⟨branchRow spans test word rest, low, sourceEnd⟩, nodes⟩ =
    (do assignmentTail syn (← branches syn nodes.size) : Builder Nat)
      ⟨⟨groupRow spans.toGroupSpans word rest, spans.question.stop, sourceEnd⟩, testNodes spans test nodes⟩ := by
  let draft : Draft := ⟨⟨branchRow spans test word rest, low, sourceEnd⟩, nodes⟩
  have named : Named test spans.test draft := .intro .question
  have chosen : conditional syn draft = branches syn nodes.size
      ⟨⟨groupRow spans.toGroupSpans word rest, spans.question.stop, sourceEnd⟩, testNodes spans test nodes⟩ :=
    named.operation.bind_eq.trans rfl
  rw [expression, named.arrowFunction?.bind_eq, bind_apply]
  dsimp only
  rw [bind_apply, chosen]

theorem assignmentTail_ends {left : Nat} (ends : draft.cursor.Ends) :
    Runs (assignmentTail syn left) draft left draft := by
  rcases ends with none_ | ⟨⟨kind, span, text⟩, found, isSemicolon, -⟩
  · exact (peeks none_).bind .done
  · obtain rfl : kind = .symbol .semicolon := eq_of_beq isSemicolon
    exact (peeks found).bind .done

/-- A group that is no list of parameters is the consequent, and the expression behind the colon is the
alternate. -/
theorem expression_branch_of_fails (low : Nat) (enough : rest.length < budget)
    (fails : Fails (arrowTail (productions (budget + 3)))
      (behindGroup spans.toGroupSpans word rest sourceEnd (testNodes spans test nodes))) {alternate : Nat}
    (runs : Runs (productions (budget + 4)).expression (beforeAlternate spans test word rest sourceEnd nodes) alternate
      after)
    (ends : after.cursor.Ends) :
    ∃ span, Runs (expression (productions (budget + 4))) ⟨⟨branchRow spans test word rest, low, sourceEnd⟩, nodes⟩
      after.nodes.size (after.added (.conditional nodes.size (testNodes spans test nodes).size alternate) span) := by
  have trees := makeTrees_productions (budget + 4)
  have grows := (trees.expression.made _ _ _ runs).1
  have inside : nodes.size < after.nodes.size := by
    refine Nat.lt_of_lt_of_le ?_ grows.size_le
    exact Nat.lt_trans (size_lt_push _ _) (size_lt_push (testNodes spans test nodes) _)
  have made : ∃ span, Runs (branches (productions (budget + 4)) nodes.size)
      ⟨⟨groupRow spans.toGroupSpans word rest, spans.question.stop, sourceEnd⟩, testNodes spans test nodes⟩
      after.nodes.size (after.added (.conditional nodes.size (testNodes spans test nodes).size alternate) span) := by
    have colon : Runs (liftM (expect .colon) : Builder Span)
        (behindGroup spans.toGroupSpans word rest sourceEnd (testNodes spans test nodes)) spans.colon
        (beforeAlternate spans test word rest sourceEnd nodes) := rfl
    have seen := Grammar.spans inside
    have seen' := Grammar.spans (trees.expression.lt_size runs)
    exact ⟨_, (expression_group enough fails).bind (colon.bind (runs.bind (seen.bind (seen'.bind (allocs _ _ _)))))⟩
  obtain ⟨span, made⟩ := made
  exact ⟨span, expression_branch.trans (made.bind (assignmentTail_ends ends))⟩

/-- An assignment is a node of its own. -/
theorem assignmentTail_ok {left value : Nat} (success : assignmentTail syn left draft = .ok (value, after)) :
    value = left ∧ after = draft ∨ ∃ operator right, kindAt after.nodes value = .assignment operator left right := by
  obtain ⟨found, _, looked, success₁⟩ := bind_ok success
  obtain ⟨cursor, read, rfl⟩ := read_ok looked
  obtain ⟨-, rfl⟩ := Prod.mk.inj (Except.ok.inj read)
  cases found with
  | none => exact .inl ((pure_ok success₁).imp Eq.symm Eq.symm)
  | some token =>
      obtain ⟨kind, span, text⟩ := token
      cases kind with
      | symbol sign =>
          dsimp only at success₁
          cases isAssign : assignOperator? sign with
          | none =>
              rw [isAssign] at success₁
              exact .inl ((pure_ok success₁).imp Eq.symm Eq.symm)
          | some operator =>
              rw [isAssign] at success₁
              obtain ⟨_, draft₁, -, success₂⟩ := bind_ok success₁
              obtain ⟨right, draft₂, -, success₃⟩ := bind_ok success₂
              obtain ⟨_, draft₃, -, success₄⟩ := bind_ok success₃
              obtain ⟨_, draft₄, -, made⟩ := bind_ok success₄
              obtain ⟨rfl, rfl⟩ := Prod.mk.inj (Except.ok.inj made)
              exact .inr ⟨operator, right, kindAt_push_size _ _⟩
      | _ => exact .inl ((pure_ok success₁).imp Eq.symm Eq.symm)

/-- A group that is a list of parameters starts an arrow function. -/
theorem expression_arrow (low : Nat) {body : Nat} {spans : GroupSpans}
    (tail : Runs (arrowTail (productions budget)) (behindGroup spans word rest sourceEnd nodes) body middle) :
    ∃ node after,
      Runs (expression (productions budget)) ⟨⟨groupRow spans word rest, low, sourceEnd⟩, nodes⟩ node after ∧
      ∃ params returnType body, kindAt after.nodes node = .arrowFunction params returnType body false := by
  obtain ⟨node, after, runs⟩ := arrowFunction_of_arrowTail (makeTrees_productions budget) tail
  obtain ⟨-, returnType, body, kind⟩ := arrowTail_of_arrowFunction runs
  have found : Runs (arrowFunction? (productions budget)) ⟨⟨groupRow spans word rest, low, sourceEnd⟩, nodes⟩
      (some node) after := by
    rw [Runs, arrowFunction?_group, attempt, show arrowFunction _ _ _ _ = _ from runs]
  exact ⟨node, after, found.bind .done, _, returnType, body, kind⟩

/-- A group that is a list of parameters starts the consequent, which is an arrow function. -/
theorem expression_branch_of_arrow {body value first second third : Nat} {middle : Draft}
    (tail : Runs (arrowTail (productions budget))
      (behindGroup spans.toGroupSpans word rest sourceEnd (testNodes spans test nodes)) body middle)
    (success : expression (productions (budget + 1)) ⟨⟨branchRow spans test word rest, low, sourceEnd⟩, nodes⟩ =
      .ok (value, after))
    (kind : kindAt after.nodes value = .conditional first second third) :
    ∃ params returnType body, kindAt after.nodes second = .arrowFunction params returnType body false := by
  rw [expression_branch] at success
  obtain ⟨chosen, draft₁, branched, assigned⟩ := bind_ok success
  rcases assignmentTail_ok assigned with ⟨rfl, rfl⟩ | ⟨_, _, other⟩
  case inr => cases kind.symm.trans other
  obtain ⟨node, draft₂, runs, params, returnType, body, isArrow⟩ :=
    expression_arrow spans.question.stop tail
  rw [branches, show (productions (budget + 1)).expression = expression (productions budget) from rfl,
    runs.bind_eq] at branched
  obtain ⟨_, draft₃, colon, branched₁⟩ := bind_ok branched
  obtain ⟨cursor, -, rfl⟩ := read_ok colon
  obtain ⟨alternate, _, ran, branched₂⟩ := bind_ok branched₁
  obtain ⟨_, _, seen, branched₃⟩ := bind_ok branched₂
  obtain ⟨-, rfl⟩ := spanOf_ok seen
  obtain ⟨_, draft₄, seen', made⟩ := bind_ok branched₃
  obtain ⟨-, rfl⟩ := spanOf_ok seen'
  obtain ⟨rfl, rfl⟩ := Prod.mk.inj (Except.ok.inj made)
  obtain ⟨-, rfl, -⟩ := NodeKind.conditional.inj ((kindAt_push_size _ _).symm.trans kind)
  have grows := ((makeTrees_productions (budget + 1)).expression.made _ _ _ ran).1
  have inside := lt_size_of_kindAt isArrow nofun
  refine ⟨params, returnType, body, ?_⟩
  calc kindAt (draft₄.nodes.push _) node
    _ = kindAt draft₄.nodes node := kindAt_push_of_lt _ (Nat.lt_of_lt_of_le inside grows.size_le)
    _ = kindAt draft₂.nodes node := grows.kindAt_eq inside
    _ = .arrowFunction params returnType body false := isArrow

end Grammar

end Heed
