import Heed.Proofs.Grammar.Facing
import Heed.Proofs.Grammar.Totality

/-!
# Written expressions are read back

Each production makes of a written expression the nodes that stand for it, if the expression binds tight enough
for the production or stands in parentheses. The productions are followed from the inside out: values, operands,
operators, conditionals. An expression as a whole may be tried as an arrow function first, which fails because
no arrow is ahead.
-/

set_option autoImplicit false

namespace Heed

namespace Grammar

open Reader Builder

variable {syn : Productions} {room level : Nat} {draft : Draft} {rest : List Lexeme}

theorem peeks {next : Option Token} (found : draft.cursor.peek? = next) :
    Runs (liftM peek : Builder (Option Token)) draft next draft := by
  refine Runs.lift ?_
  rw [Runs, ← found]
  rfl

theorem bumps (draft : Draft) : Runs (liftM bump : Builder Unit) draft () draft.next := rfl

theorem allocs (draft : Draft) (kind : NodeKind) (span : Span) :
    Runs (alloc kind span) draft draft.nodes.size (draft.added kind span) := rfl

theorem lt_size_of_kindAt {nodes : Array Node} {id : Nat} {kind : NodeKind} (kind_eq : kindAt nodes id = kind)
    (nonempty : kind ≠ .emptyStatement) : id < nodes.size := by
  by_contra outside
  rw [kindAt, Array.getElem?_eq_none (Nat.le_of_not_lt outside)] at kind_eq
  exact nonempty kind_eq.symm

/-- A node that stands for an expression was built. -/
theorem lt_size_of_unfolds {nodes : Array Node} {expr : Expr} {id : Nat}
    (unfolds : expr.Unfolds (kindAt nodes) id) : id < nodes.size := by
  cases expr with
  | name word => exact lt_size_of_kindAt unfolds (by simp)
  | member object property =>
      obtain ⟨_, _, kind_eq, -⟩ := unfolds
      exact lt_size_of_kindAt kind_eq (by simp)
  | call callee arguments =>
      obtain ⟨_, _, kind_eq, -⟩ := unfolds
      exact lt_size_of_kindAt kind_eq (by simp)
  | leading operator operand =>
      obtain ⟨_, kind_eq, -⟩ := unfolds
      exact lt_size_of_kindAt kind_eq (by cases operator <;> simp [Leading.node])
  | operation operator left right =>
      obtain ⟨_, _, kind_eq, -⟩ := unfolds
      exact lt_size_of_kindAt kind_eq (by cases operator <;> simp [Operator.node])
  | conditional test consequent alternate =>
      obtain ⟨_, _, _, kind_eq, -⟩ := unfolds
      exact lt_size_of_kindAt kind_eq (by simp)

theorem spans {id : Nat} (inside : id < draft.nodes.size) :
    Runs (spanOf id) draft (draft.nodes.getD id default).span draft := by
  rw [Runs, spanOf_eq inside, Array.getD_eq_getD_getElem?, Array.getElem?_eq_getElem inside]
  rfl

theorem spansOf {id : Nat} {expr : Expr} (unfolds : expr.Unfolds (kindAt draft.nodes) id) :
    Runs (spanOf id) draft (draft.nodes.getD id default).span draft := spans (lt_size_of_unfolds unfolds)

/-! ## Where tails stop -/

theorem valueTail_stops (faces : Faces room draft rest) (follows : Follows level rest) (value : Nat) :
    Runs (valueTail syn value) draft none draft := by
  refine (faces.pass (follows.not_next rfl)).bind (.no Bool.false_ne_true ?_)
  refine (faces.pass (follows.not_next rfl)).bind (.no Bool.false_ne_true ?_)
  refine (faces.rawIs .parenOpen).bind (.no (follows.absent rfl) ?_)
  refine (faces.rawIs .bracketOpen).bind (.no (follows.absent rfl) ?_)
  exact (faces.rawIs .bang).bind (.no (follows.absent rfl) .done)

theorem updateTail_stops (faces : Faces room draft rest) (follows : Follows level rest) {expr : Expr}
    {argument : Nat} (unfolds : expr.Unfolds (kindAt draft.nodes) argument) :
    Runs (updateTail argument) draft argument draft := by
  refine (spansOf unfolds).bind ?_
  refine (faces.rawIs .increment).bind (.no (follows.absent rfl) ?_)
  exact (faces.rawIs .decrement).bind (.no (follows.absent rfl) .done)

theorem operatorTail_stops (faces : Faces room draft rest) (follows : Follows level rest) (left : Nat) :
    Runs (operatorTail syn level left) draft none draft := by
  cases rest with
  | nil => exact (peeks faces.peek?_eq_none).bind .done
  | cons lexeme rest =>
      obtain ⟨sign, rfl, -⟩ := follows.exists_sign
      obtain ⟨⟨_, span, text⟩, found, rfl, -⟩ := faces.exists_token
      refine (peeks found).bind ?_
      simp only [Lexeme.kind]
      cases meaning : operator? sign with
      | none => exact .done
      | some found => exact .yes (follows.looser meaning) .done

theorem operationTail_stops (faces : Faces room draft rest) (follows : Follows level rest) (left : Nat) :
    Runs (operationTail syn level left) draft none draft := by
  have absent : ∀ text, ¬ (level ≤ assertionPrecedence ∧ (ahead? rest).any (· == .name text) = true) :=
    fun text both => Bool.false_ne_true ((follows.not_text text).symm.trans both.2)
  refine (faces.checkText "as").bind (.no (absent _) ?_)
  refine (faces.checkText "satisfies").bind (.no (absent _) ?_)
  exact operatorTail_stops faces follows left

/-! ## Values -/

theorem primary_name (word : Name) : Reads room (primary syn) [.name word] (fun _ => True) (.name word) := by
  intro draft rest faces _
  obtain ⟨⟨_, span, text⟩, found, rfl, -⟩ := faces.exists_token
  have plain : Runs (liftM (nthIs 1 (·.isKeyword .function_)) : Builder Bool) draft false draft := by
    have absent : (Cursor.nthOf 1 draft.cursor.rest).any (·.isKeyword .function_) = false := by
      rw [Option.any_eq_false_iff_get]
      intro some_
      exact Bool.not_eq_true _ ▸ faces.not_function (mem_of_nthOf (Option.some_get some_).symm)
    refine Runs.lift ?_
    rw [Runs, nthIs, get_bind, absent]
    rfl
  have runs : Runs (primary syn) draft draft.nodes.size
      (draft.next.added (.identifier word.text none) span) := by
    refine (peeks found).bind ?_
    simp only [Lexeme.kind]
    refine plain.bind (.no (fun both => Bool.false_ne_true both.2) ?_)
    exact (bumps draft).bind (allocs _ _ _)
  exact ⟨_, _, runs, Lands.made faces.later (.refl _) fun kinds _ made => made⟩

theorem primary_group {row : List Lexeme} {expr : Expr}
    (whole : Reads room syn.expression row (Follows 0) expr) :
    Reads (room + 1) (primary syn) (.symbol .parenOpen :: row ++ [.symbol .parenClose]) (fun _ => True)
      expr := by
  intro draft rest faces _
  rw [List.append_assoc, List.cons_append] at faces
  obtain ⟨⟨_, span, text⟩, found, rfl, -⟩ := faces.exists_token
  obtain ⟨node, after, runs, lands⟩ := whole draft.next _ faces.next (.parenClose rest)
  obtain ⟨close, closes⟩ := lands.faces.expect
  refine ⟨node, after.next, (peeks found).bind ?_, lands.faces.later.wide, lands.kept, lands.unfolds⟩
  simp only [Lexeme.kind]
  exact (bumps draft).bind (runs.bind (closes.bind .done))

theorem valueTail_member {object : Expr} {property : Name} {base : Nat}
    (faces : Faces room draft (.symbol .dot :: .name property :: rest))
    (unfolds : object.Unfolds (kindAt draft.nodes) base) :
    ∃ node after, Runs (valueTail syn base) draft (some node) after ∧
      Lands room draft after rest (.member object property) node := by
  obtain ⟨span, named⟩ := faces.later.expectPropertyName
  have kept := Kept.push draft.nodes ⟨.identifier property.text none, span⟩
  have key := kindAt_push_size draft.nodes ⟨.identifier property.text none, span⟩
  let keyed := draft.next.next.added (.identifier property.text none) span
  have made : ∃ span, Runs (memberTail base false) draft.next keyed.nodes.size
      (keyed.added (.member base draft.nodes.size false false) span) :=
    ⟨_, named.bind ((allocs _ _ _).bind ((spansOf (unfolds.kept kept)).bind (allocs _ _ _)))⟩
  obtain ⟨_, made⟩ := made
  refine ⟨_, _, faces.eat.bind (.yes rfl (made.bind .done)),
    Lands.made (faces.later.later.added _ _) kept fun kinds kept' made => ?_⟩
  exact ⟨base, draft.nodes.size, made, (unfolds.kept kept).kept kept', kept' _ _ key (by simp)⟩

/-! ## Arguments -/

/-- An argument that is not spread. -/
theorem argument_reads {expr : Expr} (whole : Reads room syn.expression expr.words (Follows 0) expr) :
    Reads room (spreadOrExpression syn) expr.words (Follows 0) expr := by
  intro draft rest faces follows
  obtain ⟨node, after, runs, lands⟩ := whole draft rest faces follows
  refine ⟨node, after, ?_, lands⟩
  have plain := (expr.opening_words.not_next rest).2
  obtain ⟨first, more, words, -⟩ := expr.opening_words
  rw [words, List.cons_append] at faces plain
  obtain ⟨token, found, kind, -⟩ := faces.exists_token
  have plain : token.isSymbol .spread = false := by
    rw [Token.isSymbol, kind]
    exact plain
  exact (peeks found).bind (.no (Bool.eq_false_iff.mp plain) runs)

def argumentTurn (syn : Productions) : Builder (Turn Nat) := do
  if ← check .parenClose then
    return .stop
  else
    let value ← spreadOrExpression syn
    if ← eat .comma then return .more (some value) else return .last value

theorem commaList_arguments : commaList .parenClose (spreadOrExpression syn) = collect (argumentTurn syn) := rfl

theorem argumentTurn_last {expr : Expr} (whole : Reads room syn.expression expr.words (Follows 0) expr)
    (faces : Faces room draft (expr.words ++ .symbol .parenClose :: rest)) :
    ∃ node after, Runs (argumentTurn syn) draft (.last node) after ∧
      Lands room draft after (.symbol .parenClose :: rest) expr node := by
  obtain ⟨node, after, runs, lands⟩ := argument_reads whole draft _ faces (.parenClose rest)
  have open_ := (expr.opening_words.not_next (.symbol .parenClose :: rest)).1
  refine ⟨node, after, (faces.check .parenClose).bind (.no (Bool.eq_false_iff.mp open_) ?_), lands⟩
  exact runs.bind ((lands.faces.pass rfl).bind (.no Bool.false_ne_true .done))

theorem argumentTurn_more {expr : Expr} (whole : Reads room syn.expression expr.words (Follows 0) expr)
    (faces : Faces room draft (expr.words ++ .symbol .comma :: rest)) :
    ∃ node after, Runs (argumentTurn syn) draft (.more (some node)) after ∧
      Lands room draft after rest expr node := by
  obtain ⟨node, after, runs, lands⟩ := argument_reads whole draft _ faces (.comma rest)
  have open_ := (expr.opening_words.not_next (.symbol .comma :: rest)).1
  refine ⟨node, after.next, (faces.check .parenClose).bind (.no (Bool.eq_false_iff.mp open_) ?_),
    lands.faces.later, lands.kept, lands.unfolds⟩
  exact runs.bind (lands.faces.eat.bind (.yes rfl .done))

/-- The arguments up to the closing parenthesis. -/
theorem collect_arguments (exprs : List Expr)
    (whole : ∀ expr ∈ exprs, Reads room syn.expression expr.words (Follows 0) expr) (budget : Nat)
    (faces : Faces room draft (Expr.listed exprs ++ .symbol .parenClose :: rest))
    (enough : draft.cursor.rest.length < budget) :
    ∃ nodes after, Runs (collectWithin (argumentTurn syn) budget) draft nodes after ∧
      Faces room after (.symbol .parenClose :: rest) ∧ Kept (kindAt draft.nodes) (kindAt after.nodes) ∧
        Expr.AllUnfold (kindAt after.nodes) exprs nodes := by
  induction exprs generalizing draft budget with
  | nil =>
      cases budget with
      | zero => cases enough
      | succ budget =>
          have stops : Runs (argumentTurn syn) draft .stop draft :=
            (faces.check .parenClose).bind (.yes rfl .done)
          exact ⟨[], draft, stops.stop, faces, .refl _, trivial⟩
  | cons expr exprs ih =>
      cases budget with
      | zero => cases enough
      | succ budget =>
          have own := whole expr List.mem_cons_self
          cases exprs with
          | nil =>
              obtain ⟨node, after, runs, lands⟩ := argumentTurn_last own faces
              exact ⟨[node], after, runs.last, lands.faces, lands.kept, lands.unfolds, trivial⟩
          | cons next exprs =>
              rw [Expr.listed, List.append_assoc, List.cons_append] at faces
              obtain ⟨node, middle, runs, lands⟩ := argumentTurn_more own faces
              have fewer : middle.cursor.rest.length < budget := by
                rw [faces.rest_length] at enough
                rw [lands.faces.rest_length]
                simp only [List.length_append, List.length_cons] at enough ⊢
                omega
              obtain ⟨nodes, after, collects, faces', kept, all⟩ :=
                ih (fun expr listed => whole expr (List.mem_cons_of_mem _ listed)) budget lands.faces fewer
              exact ⟨node :: nodes, after, runs.more collects, faces', lands.kept.trans kept,
                lands.unfolds.kept kept, all⟩

theorem valueTail_call {callee : Expr} {exprs : List Expr} {base : Nat}
    (whole : ∀ expr ∈ exprs, Reads room syn.expression expr.words (Follows 0) expr)
    (faces : Faces (room + 1) draft
      (.symbol .parenOpen :: (Expr.listed exprs ++ .symbol .parenClose :: rest)))
    (unfolds : callee.Unfolds (kindAt draft.nodes) base) :
    ∃ node after, Runs (valueTail syn base) draft (some node) after ∧
      Lands (room + 1) draft after rest (.call callee exprs) node := by
  obtain ⟨_, opens⟩ := faces.expect
  obtain ⟨nodes, after, collects, faces', kept, all⟩ :=
    collect_arguments exprs whole _ faces.next (Nat.lt_succ_self _)
  obtain ⟨close, closes⟩ := faces'.expect
  have listed : Runs (commaList .parenClose (spreadOrExpression syn)) draft.next nodes after := by
    rw [commaList_arguments]
    exact collects.collect
  have arguments : Runs (arguments syn) draft (nodes, close.stop) after.next :=
    opens.bind (listed.bind (closes.bind .done))
  have unfolds' : callee.Unfolds (kindAt after.next.nodes) base := unfolds.kept kept
  have called : ∃ span, Runs (callTail syn base) draft after.nodes.size
      (after.next.added (.call base nodes) span) :=
    ⟨_, arguments.bind ((spansOf unfolds').bind (allocs _ _ _))⟩
  obtain ⟨span, called⟩ := called
  have turned : Runs (valueTail syn base) draft (some after.nodes.size)
      (after.next.added (.call base nodes) span) := by
    refine (faces.pass rfl).bind (.no Bool.false_ne_true ?_)
    refine (faces.pass rfl).bind (.no Bool.false_ne_true ?_)
    exact (faces.rawIs .parenOpen).bind (.yes rfl (called.bind .done))
  exact ⟨_, _, turned, Lands.made faces'.later.wide kept fun kinds kept' made =>
    ⟨base, nodes, made, (unfolds.kept kept).kept kept', all.kept kept'⟩⟩

/-! ## Operands -/

def Tight (row : List Lexeme) : Prop :=
  ∃ first rest, row = first :: rest ∧ (first = .symbol .parenOpen ∨ ∃ word, first = .name word)

theorem callOrMember_reads {row : List Lexeme} {expr : Expr} (tight : Tight row)
    (passes : Passes room (primary syn) (valueTail syn) row (fun _ => True) expr) :
    Reads room (callOrMember syn) row (Follows 7) expr := by
  intro draft rest faces follows
  have plain : Runs (liftM (checkWord .new_) : Builder Bool) draft false draft := by
    have absent : (ahead? (row ++ rest)).any (· == .keyword .new_) = false := by
      obtain ⟨first, more, rfl, rfl | ⟨word, rfl⟩⟩ := tight <;> rfl
    exact absent ▸ (faces.sees (· == .keyword .new_) fun _ => rfl).lift
  obtain ⟨node, after, runs, lands⟩ := passes.reads (fun _ _ => trivial)
    (fun _ _ value faces follows => valueTail_stops faces follows value) draft rest faces follows
  exact ⟨node, after, plain.bind (.no Bool.false_ne_true runs), lands⟩

theorem unary_value {row : List Lexeme} {expr : Expr} (tight : Tight row)
    (passes : Passes room (primary syn) (valueTail syn) row (fun _ => True) expr) :
    Reads room (unary syn) row (Follows 7) expr := by
  intro draft rest faces follows
  obtain ⟨node, after, runs, lands⟩ := callOrMember_reads tight passes draft rest faces follows
  obtain ⟨first, more, rfl, opens⟩ := tight
  obtain ⟨token, found, kind, -⟩ := faces.exists_token
  have meaning : unaryOperator? token.kind = none := by
    rw [kind]
    rcases opens with rfl | ⟨word, rfl⟩ <;> rfl
  refine ⟨node, after, (peeks found).bind ?_, lands⟩
  simp only [meaning]
  exact runs.bind (updateTail_stops lands.faces follows lands.unfolds)

theorem unaryOperator?_lexeme (operator : Leading) :
    unaryOperator? operator.lexeme.kind = some operator.node := by
  rcases operator with (_ | _ | _) | _ <;> rfl

theorem unary_leading (operator : Leading) {row : List Lexeme} {operand : Expr}
    (inner : Reads room syn.unary row (Follows 7) operand) :
    Reads (room + 1) (unary syn) (operator.lexeme :: row) (Follows 7) (.leading operator operand) := by
  intro draft rest faces follows
  obtain ⟨token, found, kind, -⟩ := faces.exists_token
  obtain ⟨argument, after, runs, lands⟩ := inner draft.next rest faces.next follows
  have made : Runs (unary syn) draft after.nodes.size
      (after.added (operator.node argument) (token.span.join (after.nodes.getD argument default).span)) := by
    refine (peeks found).bind ?_
    simp only [kind, unaryOperator?_lexeme]
    exact (bumps draft).bind (runs.bind ((spansOf lands.unfolds).bind (allocs _ _ _)))
  exact ⟨_, _, made, Lands.made lands.faces.wide lands.kept fun kinds kept made =>
    ⟨argument, made, lands.unfolds.kept kept⟩⟩

/-! ## Operators between operands -/

theorem operationTail_takes {operator : Operator} {precedence first : Nat} {row : List Lexeme}
    {left right : Expr} (le : precedence ≤ operator.level)
    (inner : Reads room (syn.operation (operator.level + 1)) row (Follows (operator.level + 1)) right)
    (faces : Faces (room + 1) draft (.symbol operator.sign :: row ++ rest))
    (follows : Follows (operator.level + 1) rest) (unfolds : left.Unfolds (kindAt draft.nodes) first) :
    ∃ node after, Runs (operationTail syn precedence first) draft (some node) after ∧
      Lands (room + 1) draft after rest (.operation operator left right) node := by
  have absent : ¬ (precedence ≤ assertionPrecedence ∧ false = true) := fun both => Bool.false_ne_true both.2
  obtain ⟨⟨_, span, text⟩, found, rfl, -⟩ := faces.exists_token
  obtain ⟨second, after, runs, lands⟩ := inner draft.next rest faces.next follows
  have taken : Runs (operatorTail syn precedence first) draft (some after.nodes.size)
      (after.added (operator.node first second)
        ((after.nodes.getD first default).span.join (after.nodes.getD second default).span)) := by
    refine (peeks found).bind ?_
    simp only [Lexeme.kind, operator?_sign]
    refine .no (Nat.not_lt.mpr le) ((bumps draft).bind (runs.bind ?_))
    refine (spansOf (unfolds.kept lands.kept)).bind ((spansOf lands.unfolds).bind ?_)
    exact (allocs _ _ _).bind .done
  refine ⟨_, _, (faces.checkText "as").bind (.no absent ((faces.checkText "satisfies").bind (.no absent taken))),
    Lands.made lands.faces.wide lands.kept fun kinds kept made => ?_⟩
  exact ⟨first, second, made, (unfolds.kept lands.kept).kept kept, lands.unfolds.kept kept⟩

theorem operation_reads {precedence : Nat} {row : List Lexeme} {expr : Expr}
    (passes : Passes room (unary syn) (operationTail syn precedence) row (Follows (precedence + 1)) expr) :
    Reads room (operation syn precedence) row (Follows precedence) expr :=
  passes.reads (fun _ follows => follows.raise (Nat.le_succ precedence))
    fun _ _ value faces follows => operationTail_stops faces follows value

/-! ## Conditionals and whole expressions -/

theorem conditional_operation {row : List Lexeme} {expr : Expr}
    (reads : Reads room (operation syn 1) row (Follows 1) expr) :
    Reads room (conditional syn) row (Follows 0) expr := by
  intro draft rest faces follows
  obtain ⟨node, after, runs, lands⟩ := reads draft rest faces (follows.raise (Nat.zero_le 1))
  refine ⟨node, after, runs.bind ?_, lands⟩
  exact (lands.faces.pass follows.not_question).bind (.no Bool.false_ne_true .done)

theorem conditional_branches {tested chosen rejected : List Lexeme} {test consequent alternate : Expr}
    (condition : Reads (room + 1) (operation syn 1) tested (Follows 1) test)
    (onTrue : Reads room syn.expression chosen (Follows 0) consequent)
    (onFalse : Reads room syn.expression rejected (Follows 0) alternate) :
    Reads (room + 1) (conditional syn) (tested ++ .symbol .question :: chosen ++ .symbol .colon :: rejected)
      (Follows 0) (.conditional test consequent alternate) := by
  intro draft rest faces follows
  simp only [List.append_assoc, List.cons_append] at faces
  obtain ⟨first, draft₁, runs₁, lands₁⟩ := condition draft _ faces (.question _ Nat.one_pos)
  obtain ⟨second, draft₂, runs₂, lands₂⟩ := onTrue draft₁.next _ lands₁.faces.next (.colon _)
  obtain ⟨_, colon⟩ := lands₂.faces.expect
  obtain ⟨third, after, runs₃, lands₃⟩ := onFalse draft₂.next _ lands₂.faces.later follows
  have kept : Kept (kindAt draft₁.nodes) (kindAt after.nodes) := lands₂.kept.trans lands₃.kept
  have made : Runs (conditional syn) draft after.nodes.size (after.added (.conditional first second third)
      ((after.nodes.getD first default).span.join (after.nodes.getD third default).span)) := by
    refine runs₁.bind (lands₁.faces.eat.bind (.yes rfl ?_))
    refine runs₂.bind (colon.bind (runs₃.bind ((spansOf (lands₁.unfolds.kept kept)).bind ?_)))
    exact (spansOf lands₃.unfolds).bind (allocs _ _ _)
  refine ⟨_, _, made, Lands.made lands₃.faces.wide (lands₁.kept.trans kept) fun kinds kept' made => ?_⟩
  exact ⟨first, second, third, made, (lands₁.unfolds.kept kept).kept kept',
    (lands₂.unfolds.kept lands₃.kept).kept kept', lands₃.unfolds.kept kept'⟩

theorem assignOperator?_of_mayFollow {sign : Symbol} (may : mayFollow sign = true) :
    assignOperator? sign = none := by
  cases sign with
  | assign => cases may
  | addAssign => cases may
  | subAssign => cases may
  | _ => rfl

theorem assignmentTail_stops (faces : Faces room draft rest) (follows : Follows level rest) (left : Nat) :
    Runs (assignmentTail syn left) draft left draft := by
  cases rest with
  | nil => exact (peeks faces.peek?_eq_none).bind .done
  | cons lexeme rest =>
      obtain ⟨sign, rfl, may⟩ := follows.exists_sign
      obtain ⟨⟨_, span, text⟩, found, rfl, -⟩ := faces.exists_token
      refine (peeks found).bind ?_
      simp only [Lexeme.kind, assignOperator?_of_mayFollow may]
      exact .done

/-! ## No arrow functions

Parentheses with a colon behind them are tried as the parameters of an arrow function. That fails where no
arrow is ahead, since no part of it takes other tokens than those ahead. -/

def Fails {α : Type} (build : Builder α) (draft : Draft) : Prop :=
  ∀ value after, ¬ Runs build draft value after

theorem Fails.bind {α β : Type} {build : Builder α} {next : α → Builder β}
    (rest : ∀ value middle, Runs build draft value middle → Fails (next value) middle) :
    Fails (build >>= next) draft := by
  intro result after runs
  obtain ⟨value, middle, first, second⟩ := bind_ok runs
  exact rest value middle first result after second

/-- No arrow is ahead, and fewer than `room` tokens. -/
structure Arrowless (room : Nat) (draft : Draft) : Prop where
  absent : ∀ token ∈ draft.cursor.tokens, token.isSymbol .arrow = false
  fits : ahead draft < room

theorem Arrowless.onward {α : Type} {build : Builder α} {owes : α → Prop} {same : α → α → Prop}
    {value : α} {after : Draft} (bare : Arrowless room draft) (agree : Agree room owes same build build)
    (runs : Runs build draft value after) : Arrowless room after := by
  have alike : Located.Alike draft draft := ⟨Token.alike_of_contents _ _ rfl, rfl⟩
  have ended := agree draft draft alike trivial bare.fits
  rw [show build draft = _ from runs] at ended
  cases ended with
  | finish _ _ onward _ =>
      exact ⟨fun token member => bare.absent token (onward.subset member),
        Nat.lt_of_le_of_lt onward.length_le bare.fits⟩

theorem expect_arrow_fails (bare : Arrowless room draft) :
    Fails (liftM (expect .arrow) : Builder Span) draft := by
  intro span after runs
  obtain ⟨cursor, read, -⟩ := read_ok runs
  obtain ⟨token, middle, found, -⟩ := bind_ok read
  obtain ⟨peeked, isArrow, -⟩ := expectThat_ok found
  have member : token ∈ draft.cursor.tokens := by
    rw [(Cursor.tokens_eq_cons peeked).1]
    exact List.mem_cons_self
  rw [bare.absent token member] at isArrow
  cases isArrow

theorem arrowTail_fails {next : Option Nat → Span → Builder Nat} (bare : Arrowless room draft) :
    Fails (do let returnType ← returnAscription; let arrow ← expect .arrow; next returnType arrow) draft :=
  .bind fun _ _ runs => .bind fun span after found =>
    absurd found (expect_arrow_fails (bare.onward agree_returnAscription runs) span after)

/-- A choice whose first side goes on with the second one. -/
theorem Fails.joined {condition : Prop} [Decidable condition] {build other : Builder Nat}
    (before : (∀ draft, Arrowless room draft → Fails other draft) → Fails build draft)
    (rest : ∀ draft, Arrowless room draft → Fails other draft) (bare : Arrowless room draft) :
    Fails (if condition then build else other) draft := by
  split
  · exact before rest
  · exact rest draft bare

theorem arrowFunction_fails {isAsync : Bool} {start : Nat} (bare : Arrowless (room + 1) draft) :
    Fails (arrowFunction (productions room) isAsync start) draft := by
  have agrees := agrees_productions (Nat.le_refl room) (Nat.le_refl room)
  refine Fails.joined (fun rest => .bind fun _ middle runs => rest middle (bare.onward agree_bump runs)) ?_ bare
  intro draft bare
  refine .bind fun isName middle seen => ?_
  obtain ⟨cursor, read, rfl⟩ := read_ok seen
  obtain ⟨-, rfl⟩ := Prod.mk.inj (Except.ok.inj read)
  cases isName with
  | true =>
      refine .bind fun named middle runs => ?_
      have bare := bare.onward agree_expectName runs
      refine .bind fun name middle runs => ?_
      have bare := bare.onward agree_alloc runs
      exact .bind fun _ _ same => arrowTail_fails (bare.onward (.done rfl) same)
  | false => exact .bind fun _ _ runs => arrowTail_fails (bare.onward (agree_params agrees) runs)

theorem arrowFunction_settles {isAsync : Bool} {start : Nat} (fits : ahead draft < room + 1) :
    Settles strict draft (arrowFunction (productions room) isAsync start draft) := by
  have agrees := agrees_productions (Nat.le_refl room) (Nat.le_refl room)
  exact settles (agree_arrowFunction agrees) (makes_arrowFunction (makeTrees_productions room) _ _) fits

/-- An attempt at what cannot succeed leaves no trace, since the tokens are to blame. -/
theorem attempt_of_fails {build : Builder Nat} {owes : Nat → Prop} {roots : Nat → List Slot}
    (turns : Turns [] build roots) (fails : Fails build draft) (settled : Settles owes draft (build draft)) :
    Runs (attempt build) draft none draft := by
  rw [Runs, attempt]
  cases outcome : build draft with
  | ok found => exact absurd outcome (fails found.1 found.2)
  | error failure =>
      rw [outcome] at settled
      cases settled with
      | refused blameless =>
          simp only [blameless, Bool.false_eq_true, if_false, (turns.failed draft failure outcome).take_size]

theorem mem_of_behindParens {row : List Token} {token : Token} {cursor after : Cursor}
    (found : Runs (behindParens row) cursor (some token) after) : token ∈ row := by
  rw [behindParens] at found
  split at found
  case h_1 close behind closes =>
      obtain ⟨inner, rfl, -⟩ := Cursor.closeGroup_eq_found closes
      obtain ⟨next, -⟩ := pure_ok found
      exact List.mem_append_right _ (List.mem_cons_of_mem _ (mem_of_nthOf next))
  case h_2 => cases (pure_ok found).1
  case h_3 => cases found

theorem exists_arrow_of_certain {row : List Token} {cursor after : Cursor}
    (certain : Runs (arrowSign row) cursor .certain after) : ∃ token ∈ row, token.isSymbol .arrow = true := by
  cases row with
  | nil => cases (pure_ok certain).1
  | cons first rest =>
      rw [arrowSign] at certain
      split at certain
      case h_1 =>
          obtain ⟨sign, -⟩ := pure_ok certain
          split at sign
          case isTrue isArrow =>
              obtain ⟨token, found, isArrow⟩ := (Option.any_eq_true _ _).mp isArrow
              exact ⟨token, List.mem_cons_of_mem _ (mem_of_nthOf found), isArrow⟩
          case isFalse => cases sign
      case h_2 =>
          obtain ⟨found, middle, behind, returned⟩ := bind_ok certain
          cases found with
          | none => cases (pure_ok returned).1
          | some token =>
              obtain ⟨sign, -⟩ := pure_ok returned
              split at sign
              case isTrue isArrow => exact ⟨token, mem_of_behindParens behind, isArrow⟩
              case isFalse =>
                  split at sign <;> cases sign
      case h_3 => cases (pure_ok certain).1

theorem arrowFunction?_none (faces : Faces (room + 1) draft rest) :
    Runs (arrowFunction? (productions room)) draft none draft := by
  have bare : Arrowless (room + 1) draft := by
    refine ⟨fun token member => faces.not_arrow (List.mem_filter.mp member).1, ?_⟩
    have fits := faces.fits
    rw [← faces.rest_length] at fits
    exact Nat.lt_of_le_of_lt (List.length_filter_le _ _) fits
  refine Runs.bind (show Runs get draft draft draft from rfl) ?_
  cases ahead : draft.cursor.significant with
  | nil => exact .done
  | cons first tail =>
      dsimp only
      generalize tokens_eq : (if startsAsync first tail = true then tail.dropWhile Token.isNewline
        else first :: tail) = tokens
      have within : ∀ token ∈ tokens, token ∈ draft.cursor.rest := by
        intro token member
        have listed : token ∈ first :: tail := by
          subst tokens_eq
          split at member
          · exact List.mem_cons_of_mem _ ((List.dropWhile_sublist _).subset member)
          · exact member
        rw [← ahead] at listed
        exact (List.dropWhile_sublist _).subset listed
      obtain ⟨sign, looked⟩ := looks_arrowSign tokens draft.cursor
      refine (Runs.lift looked).bind ?_
      cases sign with
      | absent => exact .done
      | possible =>
          have makes := makes_arrowFunction (makeTrees_productions room)
          exact attempt_of_fails (makes _ _) (arrowFunction_fails bare) (arrowFunction_settles bare.fits)
      | certain =>
          obtain ⟨token, member, isArrow⟩ := exists_arrow_of_certain looked
          rw [faces.not_arrow (within token member)] at isArrow
          cases isArrow

theorem expression_reads {row : List Lexeme} {expr : Expr}
    (reads : Reads (room + 1) (conditional (productions room)) row (Follows 0) expr) :
    Reads (room + 1) (expression (productions room)) row (Follows 0) expr := by
  intro draft rest faces follows
  obtain ⟨node, after, runs, lands⟩ := reads draft rest faces follows
  refine ⟨node, after, (arrowFunction?_none faces).bind (runs.bind ?_), lands⟩
  exact assignmentTail_stops lands.faces follows node

/-! ## Every expression is read back -/

/-- Productions are tied to builders with less room. -/
theorem reads_productions {row : List Lexeme} {follows : List Lexeme → Prop} {expr : Expr}
    (field build : Productions → Builder Nat)
    (tied : ∀ room, field (productions (room + 1)) = build (productions room))
    (reads : ∀ room, Reads (room + 1) (build (productions room)) row follows expr) (room : Nat) :
    Reads room (field (productions room)) row follows expr := by
  cases room with
  | zero =>
      intro draft rest faces
      exact absurd faces.fits (Nat.not_lt_zero _)
  | succ room =>
      rw [tied]
      exact reads room

theorem Tight.append {row : List Lexeme} (tight : Tight row) (more : List Lexeme) : Tight (row ++ more) := by
  obtain ⟨first, rest, rfl, opens⟩ := tight
  exact ⟨first, rest ++ more, rfl, opens⟩

/-- An expression without parentheses is read by each production that its level allows. -/
structure Readable (expr : Expr) : Prop where
  value : 8 ≤ expr.level → Tight expr.words ∧ ∀ room, Passes (room + 1) (primary (productions room))
    (valueTail (productions room)) expr.words (fun _ => True) expr
  operand : 7 ≤ expr.level → ∀ room, Reads (room + 1) (unary (productions room)) expr.words (Follows 7) expr
  spine : ∀ precedence, 1 ≤ precedence → precedence ≤ expr.level → ∀ room,
    Passes (room + 1) (unary (productions room)) (operationTail (productions room) precedence) expr.words
      (Follows (expr.level + 1)) expr
  whole : ∀ room, Reads (room + 1) (expression (productions room)) expr.words (Follows 0) expr

section

variable {expr : Expr}

theorem whole_of_spine (passes : ∀ room, Passes (room + 1) (unary (productions room))
      (operationTail (productions room) 1) expr.words (Follows 2) expr) (room : Nat) :
    Reads (room + 1) (expression (productions room)) expr.words (Follows 0) expr :=
  expression_reads (conditional_operation (operation_reads (passes room)))

theorem readable_of_operand
    (value : 8 ≤ expr.level → Tight expr.words ∧ ∀ room, Passes (room + 1) (primary (productions room))
      (valueTail (productions room)) expr.words (fun _ => True) expr)
    (operand : ∀ room, Reads (room + 1) (unary (productions room)) expr.words (Follows 7) expr) :
    Readable expr := by
  have spine : ∀ precedence level room, Passes (room + 1) (unary (productions room))
      (operationTail (productions room) precedence) expr.words (Follows level) expr :=
    fun _ _ room => (operand room).passes.narrow fun _ follows => follows.operand
  exact
    { value
      operand := fun _ => operand
      spine := fun precedence _ _ => spine precedence _
      whole := whole_of_spine (spine 1 2) }

theorem readable_of_value (tight : Tight expr.words)
    (value : ∀ room, Passes (room + 1) (primary (productions room)) (valueTail (productions room)) expr.words
      (fun _ => True) expr) : Readable expr :=
  readable_of_operand (fun _ => ⟨tight, value⟩) fun room => unary_value tight (value room)

theorem readable_of_spine (positive : 1 ≤ expr.level) (below : expr.level < 7)
    (spine : ∀ precedence, 1 ≤ precedence → precedence ≤ expr.level → ∀ room,
      Passes (room + 1) (unary (productions room)) (operationTail (productions room) precedence) expr.words
        (Follows (expr.level + 1)) expr) : Readable expr where
  value high := by omega
  operand high := by omega
  spine := spine
  whole := whole_of_spine fun room => (spine 1 (Nat.le_refl 1) positive room).narrow fun _ follows =>
    follows.raise (Nat.succ_le_succ positive)

theorem readable_of_whole (level : expr.level = 0)
    (whole : ∀ room, Reads (room + 1) (expression (productions room)) expr.words (Follows 0) expr) :
    Readable expr where
  value high := by omega
  operand high := by omega
  spine _ _ _ := by omega
  whole := whole

end

namespace Readable

variable {expr : Expr}

theorem expression (readable : Readable expr) :
    Reads room (productions room).expression expr.words (Follows 0) expr :=
  reads_productions (·.expression) Grammar.expression (fun _ => rfl) readable.whole room

theorem group (readable : Readable expr) : Reads (room + 1) (primary (productions room))
    (.symbol .parenOpen :: expr.words ++ [.symbol .parenClose]) (fun _ => True) expr :=
  primary_group readable.expression

theorem valueAt (readable : Readable expr) : Tight (expr.wordsAt 8) ∧ ∀ room,
    Passes (room + 1) (primary (productions room)) (valueTail (productions room)) (expr.wordsAt 8)
      (fun _ => True) expr := by
  rcases Nat.lt_or_ge expr.level 8 with loose | bare
  · rw [Expr.wordsAt_of_lt loose]
    exact ⟨⟨_, _, rfl, .inl rfl⟩, fun _ => readable.group.passes⟩
  · rw [Expr.wordsAt_of_le bare]
    exact readable.value bare

theorem operandAt (readable : Readable expr) (room : Nat) :
    Reads (room + 1) (unary (productions room)) (expr.wordsAt 7) (Follows 7) expr := by
  rcases Nat.lt_or_ge expr.level 7 with loose | bare
  · rw [Expr.wordsAt_of_lt loose]
    exact unary_value ⟨_, _, rfl, .inl rfl⟩ readable.group.passes
  · rw [Expr.wordsAt_of_le bare]
    exact readable.operand bare room

theorem spineAt (readable : Readable expr) {precedence place : Nat} (positive : 1 ≤ precedence)
    (le : precedence ≤ place) (room : Nat) :
    Passes (room + 1) (unary (productions room)) (operationTail (productions room) precedence)
      (expr.wordsAt place) (Follows (place + 1)) expr := by
  rcases Nat.lt_or_ge expr.level place with loose | bare
  · rw [Expr.wordsAt_of_lt loose]
    have reads := unary_value ⟨_, _, rfl, .inl rfl⟩ (@group room _ readable).passes
    exact reads.passes.narrow fun _ follows => follows.operand
  · rw [Expr.wordsAt_of_le bare]
    exact (readable.spine precedence positive (Nat.le_trans le bare) room).narrow fun _ follows =>
      follows.raise (Nat.succ_le_succ bare)

theorem operationAt (readable : Readable expr) {precedence : Nat} (positive : 1 ≤ precedence) (room : Nat) :
    Reads (room + 1) (operation (productions room) precedence) (expr.wordsAt precedence) (Follows precedence)
      expr :=
  operation_reads (readable.spineAt positive (Nat.le_refl _) room)

end Readable

mutual

theorem readable : ∀ expr : Expr, Readable expr
  | .name word =>
      readable_of_value ⟨_, _, rfl, .inr ⟨word, rfl⟩⟩ fun _ => (primary_name word).passes
  | .member object property => by
      obtain ⟨tight, passes⟩ := (readable object).valueAt
      refine readable_of_value (tight.append _) fun room => ?_
      exact (passes room).snoc (fun _ _ => trivial) (List.cons_ne_nil _ _) fun _ _ _ faces _ unfolds =>
        valueTail_member faces unfolds
  | .call callee arguments => by
      obtain ⟨tight, passes⟩ := (readable callee).valueAt
      have inputs : ∀ room, ∀ expr ∈ arguments, Reads room (productions room).expression expr.words (Follows 0)
        expr := fun room expr listed => (readableAll arguments expr listed).expression
      refine readable_of_value ((tight.append _).append _) fun room => ?_
      rw [Expr.words, List.append_assoc]
      refine (passes room).snoc (fun _ _ => trivial) (List.cons_ne_nil _ _) fun _ _ _ faces _ unfolds => ?_
      rw [List.cons_append, List.cons_append, List.append_assoc] at faces
      exact valueTail_call (inputs room) faces unfolds
  | .leading operator operand => by
      have level : (Expr.leading operator operand).level = 7 := rfl
      refine readable_of_operand (by omega) fun room => ?_
      exact unary_leading operator
        (reads_productions (·.unary) unary (fun _ => rfl) (readable operand).operandAt room)
  | .operation operator left right => by
      refine readable_of_spine operator.level_pos operator.level_lt fun precedence positive le room => ?_
      have behind := reads_productions (·.operation (operator.level + 1)) (operation · (operator.level + 1))
        (fun _ => rfl) ((readable right).operationAt (Nat.le_add_left 1 _)) room
      exact ((readable left).spineAt positive le room).snoc
        (fun _ _ => .operator operator _ (Nat.lt_succ_self _)) (List.cons_ne_nil _ _)
        fun _ _ _ faces follows unfolds => operationTail_takes le behind faces follows unfolds
  | .conditional test consequent alternate => by
      refine readable_of_whole rfl fun room => expression_reads ?_
      exact conditional_branches ((readable test).operationAt (Nat.le_refl 1) room)
        (readable consequent).expression (readable alternate).expression

theorem readableAll : ∀ (exprs : List Expr), ∀ expr ∈ exprs, Readable expr
  | [], _, listed => by cases listed
  | first :: rest, expr, listed => by
      rcases List.mem_cons.mp listed with same | listed
      · rw [same]
        exact readable first
      · exact readableAll rest expr listed

end

end Grammar

end Heed
