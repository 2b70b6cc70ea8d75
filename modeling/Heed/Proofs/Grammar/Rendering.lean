import Heed.Proofs.Token.Spelling
import Heed.Proofs.Tree.Forest

/-!
# Expressions as they are written

An expression is made of names by member access, calls, operators and conditionals. It binds at a level, and
each place for an operand asks for a level: parentheses stand around an operand just where it binds looser
than its place asks. From loose to tight the levels are

* 0 for a conditional, 1 for `||` and `??`, 2 for `&&`, 3 for equality, 4 for comparison, 5 for sums, 6 for
  products, 7 for operators before their operand and 8 for names, member access and calls.

An operator between two operands takes its own level on the left and the next one on the right.
-/

set_option autoImplicit false

namespace Heed

inductive Operator where
  | binary (operator : BinaryOperator)
  | logical (operator : LogicalOperator)

inductive Leading where
  | unary (operator : UnaryOperator)
  | await

namespace Operator

def sign : Operator → Symbol
  | .binary .add => .plus
  | .binary .sub => .minus
  | .binary .mul => .star
  | .binary .div => .slash
  | .binary .mod => .percent
  | .binary .eq => .looseEq
  | .binary .ne => .looseNe
  | .binary .strictEq => .strictEq
  | .binary .strictNe => .strictNe
  | .binary .less => .less
  | .binary .greater => .greater
  | .binary .atMost => .atMost
  | .binary .atLeast => .atLeast
  | .logical .and => .and
  | .logical .or => .or
  | .logical .nullish => .nullish

def level : Operator → Nat
  | .logical .or | .logical .nullish => 1
  | .logical .and => 2
  | .binary .eq | .binary .ne | .binary .strictEq | .binary .strictNe => 3
  | .binary .less | .binary .greater | .binary .atMost | .binary .atLeast => 4
  | .binary .add | .binary .sub => 5
  | .binary .mul | .binary .div | .binary .mod => 6

def node : Operator → Nat → Nat → NodeKind
  | .binary operator => .binary operator
  | .logical operator => .logical operator

theorem node_inj {operator operator' : Operator} {left left' right right' : Nat}
    (same : operator.node left right = operator'.node left' right') :
    operator = operator' ∧ left = left' ∧ right = right' := by
  cases operator <;> cases operator' <;> simp_all [node]

end Operator

namespace Leading

def lexeme : Leading → Lexeme
  | .unary .not => .symbol .bang
  | .unary .negate => .symbol .minus
  | .unary .plus => .symbol .plus
  | .await => .reserved .await_

def node : Leading → Nat → NodeKind
  | .unary operator => .unary operator
  | .await => .await

theorem node_inj {operator operator' : Leading} {argument argument' : Nat}
    (same : operator.node argument = operator'.node argument') :
    operator = operator' ∧ argument = argument' := by
  cases operator <;> cases operator' <;> simp_all [node]

end Leading

/-- The nodes of one table stand in another one, those aside that read as nothing. -/
def Kept (kinds kinds' : Nat → NodeKind) : Prop :=
  ∀ node kind, kinds node = kind → kind ≠ .emptyStatement → kinds' node = kind

namespace Kept

theorem refl (kinds : Nat → NodeKind) : Kept kinds kinds := fun _ _ found _ => found

theorem trans {first second third : Nat → NodeKind} (left : Kept first second) (right : Kept second third) :
    Kept first third := fun node kind found solid => right node kind (left node kind found solid) solid

theorem push (nodes : Array Node) (node : Node) : Kept (kindAt nodes) (kindAt (nodes.push node)) := by
  intro id kind found solid
  rcases Nat.lt_or_ge id nodes.size with inside | outside
  · rw [kindAt_push_of_lt node inside, found]
  · rw [kindAt_of_size_le outside] at found
    exact absurd found.symm solid

end Kept

inductive Expr where
  | name (word : Name)
  | member (object : Expr) (property : Name)
  | call (callee : Expr) (arguments : List Expr)
  | leading (operator : Leading) (operand : Expr)
  | operation (operator : Operator) (left right : Expr)
  | conditional (test consequent alternate : Expr)

namespace Expr

def level : Expr → Nat
  | .conditional .. => 0
  | .operation operator .. => operator.level
  | .leading .. => 7
  | .name .. | .member .. | .call .. => 8

/-- A row of lexemes, in parentheses if it binds too loosely. -/
def enclosed (loose : Bool) (row : List Lexeme) : List Lexeme :=
  if loose then .symbol .parenOpen :: row ++ [.symbol .parenClose] else row

mutual

def words : Expr → List Lexeme
  | .name word => [.name word]
  | .member object property =>
      enclosed (object.level < 8) object.words ++ [.symbol .dot, .name property]
  | .call callee arguments =>
      enclosed (callee.level < 8) callee.words ++ .symbol .parenOpen :: listed arguments ++ [.symbol .parenClose]
  | .leading operator operand => operator.lexeme :: enclosed (operand.level < 7) operand.words
  | .operation operator left right =>
      enclosed (left.level < operator.level) left.words ++
        .symbol operator.sign :: enclosed (right.level < operator.level + 1) right.words
  | .conditional test consequent alternate =>
      enclosed (test.level < 1) test.words ++
        .symbol .question :: consequent.words ++ .symbol .colon :: alternate.words

def listed : List Expr → List Lexeme
  | [] => []
  | [last] => last.words
  | first :: next :: rest => first.words ++ .symbol .comma :: listed (next :: rest)

end

/-- The lexemes of an operand in a place that asks for a level. -/
def wordsAt (place : Nat) (expr : Expr) : List Lexeme := enclosed (expr.level < place) expr.words

theorem wordsAt_of_lt {expr : Expr} {place : Nat} (loose : expr.level < place) :
    expr.wordsAt place = .symbol .parenOpen :: expr.words ++ [.symbol .parenClose] := by
  rw [wordsAt, enclosed, decide_eq_true loose, if_pos rfl]

theorem wordsAt_of_le {expr : Expr} {place : Nat} (bare : place ≤ expr.level) :
    expr.wordsAt place = expr.words := by
  rw [wordsAt, enclosed, decide_eq_false (Nat.not_lt.mpr bare), if_neg Bool.false_ne_true]

def text (expr : Expr) : String := spelled expr.words

/-! ## What an expression starts with -/

inductive Opens : Lexeme → Prop where
  | name (word : Name) : Opens (.name word)
  | group : Opens (.symbol .parenOpen)
  | leading (operator : Leading) : Opens operator.lexeme

def Opening (row : List Lexeme) : Prop := ∃ first rest, row = first :: rest ∧ Opens first

theorem Opening.append {row : List Lexeme} (opening : Opening row) (more : List Lexeme) :
    Opening (row ++ more) := by
  obtain ⟨first, rest, rfl, opens⟩ := opening
  exact ⟨first, rest ++ more, rfl, opens⟩

theorem Opening.enclosed {row : List Lexeme} (opening : Opening row) (loose : Bool) :
    Opening (enclosed loose row) := by
  cases loose with
  | true => exact ⟨_, _, rfl, .group⟩
  | false => exact opening

theorem opening_words : ∀ expr : Expr, Opening expr.words
  | .name word => ⟨_, _, rfl, .name word⟩
  | .member object _ => ((opening_words object).enclosed _).append _
  | .call callee _ => (((opening_words callee).enclosed _).append _).append _
  | .leading operator _ => ⟨_, _, rfl, .leading operator⟩
  | .operation _ left _ => ((opening_words left).enclosed _).append _
  | .conditional test _ _ => (((opening_words test).enclosed _).append _).append _

mutual

/-- A node of a table stands for an expression. -/
def Unfolds (kinds : Nat → NodeKind) : Expr → Nat → Prop
  | .name word, node => kinds node = .identifier word.text none
  | .member object property, node =>
      ∃ base key, kinds node = .member base key false false ∧ object.Unfolds kinds base ∧
        kinds key = .identifier property.text none
  | .call callee arguments, node =>
      ∃ base inputs, kinds node = .call base inputs ∧ callee.Unfolds kinds base ∧
        AllUnfold kinds arguments inputs
  | .leading operator operand, node =>
      ∃ argument, kinds node = operator.node argument ∧ operand.Unfolds kinds argument
  | .operation operator left right, node =>
      ∃ first second, kinds node = operator.node first second ∧ left.Unfolds kinds first ∧
        right.Unfolds kinds second
  | .conditional test consequent alternate, node =>
      ∃ first second third, kinds node = .conditional first second third ∧ test.Unfolds kinds first ∧
        consequent.Unfolds kinds second ∧ alternate.Unfolds kinds third

def AllUnfold (kinds : Nat → NodeKind) : List Expr → List Nat → Prop
  | [], [] => True
  | expr :: exprs, node :: nodes => expr.Unfolds kinds node ∧ AllUnfold kinds exprs nodes
  | _, _ => False

end

/-! ## One node, one expression -/

inductive Form where
  | name | member | call | leading | operation | conditional | other

def form : Expr → Form
  | .name .. => .name
  | .member .. => .member
  | .call .. => .call
  | .leading .. => .leading
  | .operation .. => .operation
  | .conditional .. => .conditional

def formOf : NodeKind → Form
  | .identifier .. => .name
  | .member .. => .member
  | .call .. => .call
  | .unary .. | .await .. => .leading
  | .binary .. | .logical .. => .operation
  | .conditional .. => .conditional
  | _ => .other

section

variable {kinds kinds' : Nat → NodeKind}

theorem formOf_of_unfolds {expr : Expr} {node : Nat} (unfolds : expr.Unfolds kinds node) :
    formOf (kinds node) = expr.form := by
  cases expr with
  | name word =>
      rw [Unfolds] at unfolds
      rw [unfolds]
      rfl
  | member object property =>
      obtain ⟨_, _, kind, -⟩ := unfolds
      rw [kind]
      rfl
  | call callee arguments =>
      obtain ⟨_, _, kind, -⟩ := unfolds
      rw [kind]
      rfl
  | leading operator operand =>
      obtain ⟨_, kind, -⟩ := unfolds
      rw [kind]
      cases operator <;> rfl
  | operation operator left right =>
      obtain ⟨_, _, kind, -⟩ := unfolds
      rw [kind]
      cases operator <;> rfl
  | conditional test consequent alternate =>
      obtain ⟨_, _, _, kind, -⟩ := unfolds
      rw [kind]
      rfl

theorem form_eq_of_unfolds {expr other : Expr} {node : Nat} (unfolds : expr.Unfolds kinds node)
    (unfolds' : other.Unfolds kinds node) : expr.form = other.form :=
  (formOf_of_unfolds unfolds).symm.trans (formOf_of_unfolds unfolds')

mutual

theorem unfolds_unique : ∀ (expr other : Expr) (node : Nat),
    expr.Unfolds kinds node → other.Unfolds kinds node → expr = other
  | .name word, other, node, unfolds, unfolds' => by
      have form := form_eq_of_unfolds unfolds unfolds'
      cases other <;> cases form
      rw [Unfolds] at unfolds unfolds'
      obtain ⟨text, -⟩ := NodeKind.identifier.inj (unfolds.symm.trans unfolds')
      rw [Name.ext text]
  | .member object property, other, node, unfolds, unfolds' => by
      have form := form_eq_of_unfolds unfolds unfolds'
      cases other <;> cases form
      obtain ⟨base, key, kind, found, named⟩ := unfolds
      obtain ⟨base', key', kind', found', named'⟩ := unfolds'
      obtain ⟨rfl, rfl, -, -⟩ := NodeKind.member.inj (kind.symm.trans kind')
      obtain ⟨text, -⟩ := NodeKind.identifier.inj (named.symm.trans named')
      rw [unfolds_unique object _ base found found', Name.ext text]
  | .call callee arguments, other, node, unfolds, unfolds' => by
      have form := form_eq_of_unfolds unfolds unfolds'
      cases other <;> cases form
      obtain ⟨base, inputs, kind, found, all⟩ := unfolds
      obtain ⟨base', inputs', kind', found', all'⟩ := unfolds'
      obtain ⟨rfl, rfl⟩ := NodeKind.call.inj (kind.symm.trans kind')
      rw [unfolds_unique callee _ base found found', allUnfold_unique arguments _ inputs all all']
  | .leading operator operand, other, node, unfolds, unfolds' => by
      have form := form_eq_of_unfolds unfolds unfolds'
      cases other <;> cases form
      obtain ⟨argument, kind, found⟩ := unfolds
      obtain ⟨argument', kind', found'⟩ := unfolds'
      obtain ⟨rfl, rfl⟩ := Leading.node_inj (kind.symm.trans kind')
      rw [unfolds_unique operand _ argument found found']
  | .operation operator left right, other, node, unfolds, unfolds' => by
      have form := form_eq_of_unfolds unfolds unfolds'
      cases other <;> cases form
      obtain ⟨first, second, kind, found, behind⟩ := unfolds
      obtain ⟨first', second', kind', found', behind'⟩ := unfolds'
      obtain ⟨rfl, rfl, rfl⟩ := Operator.node_inj (kind.symm.trans kind')
      rw [unfolds_unique left _ first found found', unfolds_unique right _ second behind behind']
  | .conditional test consequent alternate, other, node, unfolds, unfolds' => by
      have form := form_eq_of_unfolds unfolds unfolds'
      cases other <;> cases form
      obtain ⟨first, second, third, kind, tested, onTrue, onFalse⟩ := unfolds
      obtain ⟨first', second', third', kind', tested', onTrue', onFalse'⟩ := unfolds'
      obtain ⟨rfl, rfl, rfl⟩ := NodeKind.conditional.inj (kind.symm.trans kind')
      rw [unfolds_unique test _ first tested tested', unfolds_unique consequent _ second onTrue onTrue',
        unfolds_unique alternate _ third onFalse onFalse']

theorem allUnfold_unique : ∀ (exprs others : List Expr) (nodes : List Nat),
    AllUnfold kinds exprs nodes → AllUnfold kinds others nodes → exprs = others
  | [], [], _, _, _ => rfl
  | [], _ :: _, [], _, all' => by cases all'
  | [], _ :: _, _ :: _, all, _ => by cases all
  | _ :: _, [], [], all, _ => by cases all
  | _ :: _, [], _ :: _, _, all' => by cases all'
  | expr :: exprs, other :: others, [], all, _ => by cases all
  | expr :: exprs, other :: others, node :: nodes, all, all' => by
      rw [unfolds_unique expr other node all.1 all'.1, allUnfold_unique exprs others nodes all.2 all'.2]

end

mutual

theorem Unfolds.kept (kept : Kept kinds kinds') : ∀ {expr : Expr} {node : Nat},
    expr.Unfolds kinds node → expr.Unfolds kinds' node
  | .name _, _, unfolds => kept _ _ unfolds (by simp)
  | .member _ _, _, ⟨base, key, kind, found, named⟩ =>
      ⟨base, key, kept _ _ kind (by simp), found.kept kept, kept _ _ named (by simp)⟩
  | .call _ _, _, ⟨base, inputs, kind, found, all⟩ =>
      ⟨base, inputs, kept _ _ kind (by simp), found.kept kept, all.kept kept⟩
  | .leading operator _, _, ⟨argument, kind, found⟩ =>
      ⟨argument, kept _ _ kind (by cases operator <;> simp [Leading.node]), found.kept kept⟩
  | .operation operator _ _, _, ⟨first, second, kind, found, behind⟩ =>
      ⟨first, second, kept _ _ kind (by cases operator <;> simp [Operator.node]), found.kept kept,
        behind.kept kept⟩
  | .conditional _ _ _, _, ⟨first, second, third, kind, tested, onTrue, onFalse⟩ =>
      ⟨first, second, third, kept _ _ kind (by simp), tested.kept kept, onTrue.kept kept, onFalse.kept kept⟩

theorem AllUnfold.kept (kept : Kept kinds kinds') : ∀ {exprs : List Expr} {nodes : List Nat},
    AllUnfold kinds exprs nodes → AllUnfold kinds' exprs nodes
  | [], [], all => all
  | [], _ :: _, all => all
  | _ :: _, [], all => all
  | _ :: _, _ :: _, ⟨first, rest⟩ => ⟨first.kept kept, rest.kept kept⟩

end

end

end Expr

end Heed
