import Heed.Proofs.Grammar.Recognition

/-!
# The round trip of expressions

An expression that is written down, with parentheses just where its operands ask for them, and made the initial
value of a constant is parsed without error, and the initial value stands for this expression and no other.
-/

set_option autoImplicit false

namespace Heed

namespace Expr

theorem all_enclosed (loose : Bool) (row : List Lexeme) :
    (enclosed loose row).all Lexeme.isPlain = row.all Lexeme.isPlain := by
  cases loose with
  | true => simp [enclosed, Lexeme.isPlain]
  | false => rfl

mutual

/-- An expression has no arrows and no functions. -/
theorem all_words : ∀ expr : Expr, expr.words.all Lexeme.isPlain = true
  | .name _ => rfl
  | .member object _ => by
      simp [words, all_enclosed, all_words object, Lexeme.isPlain]
  | .call callee arguments => by
      simp [words, all_enclosed, all_words callee, all_listed arguments, Lexeme.isPlain]
  | .leading operator operand => by
      rcases operator with (_ | _ | _) | _ <;>
        simp [words, all_enclosed, all_words operand, Leading.lexeme, Lexeme.isPlain]
  | .operation operator left right => by
      have plain : Lexeme.isPlain (.symbol operator.sign) = true := by
        rcases operator with operator | operator <;> cases operator <;> rfl
      simp [words, all_enclosed, all_words left, all_words right, plain]
  | .conditional test consequent alternate => by
      simp [words, all_enclosed, all_words test, all_words consequent, all_words alternate, Lexeme.isPlain]

theorem all_listed : ∀ exprs : List Expr, (listed exprs).all Lexeme.isPlain = true
  | [] => rfl
  | [last] => all_words last
  | first :: next :: rest => by
      simp [listed, all_words first, all_listed (next :: rest), Lexeme.isPlain]

end

end Expr

/-! ## A constant with an initial value -/

def constant (word : Name) (expr : Expr) : List Lexeme :=
  .reserved .const_ :: .name word :: .symbol .assign :: expr.words

theorem spelled_constant (word : Name) (expr : Expr) :
    spelled (constant word expr) = "const " ++ word.text ++ " = " ++ expr.text := by
  obtain ⟨first, rest, words, -⟩ := expr.opening_words
  rw [Expr.text, constant, words, ← String.toList_inj, Token.toList_spelled_cons]
  simp only [List.map_cons, Token.behind, Lexeme.text, String.toList_append, Token.toList_spelled_cons]
  simp [Keyword.text, Symbol.text]

namespace Grammar

open Reader Builder

variable {room : Nat} {draft : Draft} {word : Name} {expr : Expr}

theorem bindingTarget_name {syn : Productions} {rest : List Lexeme}
    (faces : Faces room draft (.name word :: rest)) :
    ∃ name span, Runs (bindingTarget syn) draft draft.nodes.size
      (draft.next.added (.identifier name none) span) := by
  obtain ⟨⟨name, span⟩, named⟩ := faces.expectName
  obtain ⟨⟨_, place, text⟩, found, rfl, -⟩ := faces.exists_token
  refine ⟨name, span, (peeks found).bind ?_⟩
  simp only [Lexeme.kind]
  exact named.bind (allocs _ _ _)

/-- A name, its sign and its initial value. -/
theorem declarator_runs (faces : Faces room draft (.name word :: .symbol .assign :: expr.words)) :
    ∃ node target init after, Runs (declarator (productions room)) draft node after ∧ Faces room after [] ∧
      kindAt after.nodes node = .declarator target (some init) ∧
        expr.Unfolds (kindAt after.nodes) init := by
  obtain ⟨name, span, targeted⟩ := @bindingTarget_name _ _ _ (productions room) _ faces
  let named := draft.next.added (.identifier name none) span
  have assigns : Faces room named (.symbol .assign :: expr.words) := faces.later.added _ _
  have value : Faces room named.next (expr.words ++ []) := by
    rw [List.append_nil]
    exact assigns.later
  obtain ⟨init, after, runs, lands⟩ := (readable expr).expression named.next [] value .nothing
  have unascribed : Runs (attachAscription draft.nodes.size) named () named :=
    (assigns.check .colon).bind (.no Bool.false_ne_true .done)
  have inside : draft.nodes.size < after.nodes.size :=
    lt_size_of_kindAt (lands.kept _ _ (kindAt_push_size draft.nodes _) (by simp)) (by simp)
  have made : ∃ span, Runs (declarator (productions room)) draft after.nodes.size
      (after.added (.declarator draft.nodes.size (some init)) span) :=
    ⟨_, targeted.bind ((assigns.pass rfl).bind (unascribed.bind (assigns.eat.bind (.yes rfl
      (runs.bind ((spans inside).bind ((spansOf lands.unfolds).bind (allocs _ _ _))))))))⟩
  obtain ⟨span, made⟩ := made
  exact ⟨_, _, init, _, made, lands.faces.added _ _, kindAt_push_size _ _,
    lands.unfolds.kept (.push after.nodes _)⟩

theorem endStatement_stops (empty : Faces room draft []) :
    Runs (liftM endStatement : Builder Unit) draft () draft :=
  Runs.lift ((empty.leaves rfl).bind .done)

/-- A node declares one constant with an expression as its initial value. -/
def Declares (kinds : Nat → NodeKind) (declaration : Nat) (expr : Expr) : Prop :=
  ∃ declarator target init, kinds declaration = .variableDeclaration .const_ [declarator] false ∧
    kinds declarator = .declarator target (some init) ∧ expr.Unfolds kinds init

theorem statement_constant (faces : Faces (room + 1) draft (constant word expr)) :
    ∃ declaration after, Runs (statement (productions room)) draft declaration after ∧
      Faces room after [] ∧ Declares (kindAt after.nodes) declaration expr := by
  obtain ⟨⟨_, place, text⟩, found, rfl, -⟩ := faces.exists_token
  obtain ⟨declarator, target, init, after, runs, empty, declared, unfolds⟩ := declarator_runs faces.next
  have gathered : Runs (commaSeparated (Grammar.declarator (productions room))) draft.next [declarator] after :=
    .collect (.last (runs.bind ((empty.pass rfl).bind (.no Bool.false_ne_true .done))))
  have placed : Runs (liftM lastEnd : Builder Nat) after after.cursor.lastEnd after := rfl
  have made : Runs (variableDeclaration (productions room) .const_ false place.start) draft after.nodes.size
      (after.added (.variableDeclaration .const_ [declarator] false) ⟨place.start, after.cursor.lastEnd⟩) :=
    (bumps draft).bind (gathered.bind (placed.bind (allocs _ _ _)))
  have kept := Kept.push after.nodes
    ⟨.variableDeclaration .const_ [declarator] false, ⟨place.start, after.cursor.lastEnd⟩⟩
  have ends := endStatement_stops (empty.added (.variableDeclaration .const_ [declarator] false)
    ⟨place.start, after.cursor.lastEnd⟩)
  refine ⟨_, _, (peeks found).bind (made.bind (ends.bind .done)), empty.added _ _, ?_⟩
  exact ⟨declarator, target, init, kindAt_push_size _ _, kept _ _ declared (by simp), unfolds.kept kept⟩

theorem atEnds {next : Option Token} (found : draft.cursor.peek? = next) :
    Runs (liftM atEnd : Builder Bool) draft next.isNone draft := by
  refine Runs.lift ?_
  rw [Runs, ← found]
  rfl

/-- A program of one constant. -/
theorem program_constant (faces : Faces (room + 1) draft (constant word expr)) (length : Nat) :
    ∃ root declaration after, Runs (program (productions (room + 1)) length) draft root after ∧
      kindAt after.nodes root = .program [declaration] ∧ Declares (kindAt after.nodes) declaration expr := by
  obtain ⟨token, found, -⟩ := faces.exists_token
  obtain ⟨declaration, after, runs, empty, declares⟩ := statement_constant faces
  have count : draft.cursor.rest.length = expr.words.length + 2 + 1 := faces.rest_length
  have body : Runs (collect do
      if ← atEnd then return .stop else return .more (some (← (productions (room + 1)).statement)) :
      Builder (List Nat)) draft [declaration] after := by
    refine .collect ?_
    rw [count]
    refine .more ((atEnds found).bind (.no Bool.false_ne_true (runs.bind .done))) ?_
    exact .stop ((atEnds empty.peek?_eq_none).bind (.yes rfl .done))
  have kept := Kept.push after.nodes ⟨.program [declaration], ⟨0, length⟩⟩
  obtain ⟨declarator, target, init, declared, named, unfolds⟩ := declares
  refine ⟨_, declaration, _, body.bind (allocs _ _ _), kindAt_push_size _ _, ?_⟩
  exact ⟨declarator, target, init, kept _ _ declared (by simp), kept _ _ named (by simp), unfolds.kept kept⟩

end Grammar

def Name.v : Name := ⟨"v", rfl, rfl⟩

/-- The initial value of the constant stands for the expression that was written, and for no other. -/
theorem parse_written_expression (expr : Expr) :
    ∃ tree declaration declarator target init, Tree.parse ("const v = " ++ expr.text) = .ok tree ∧
      tree.kind tree.root = .program [declaration] ∧
      tree.kind declaration = .variableDeclaration .const_ [declarator] false ∧
      tree.kind declarator = .declarator target (some init) ∧
      ∀ other : Expr, other.Unfolds tree.kind init ↔ other = expr := by
  have text : "const v = " ++ expr.text = spelled (constant .v expr) := by
    rw [spelled_constant]
    rfl
  obtain ⟨tokens, scanned, kinds⟩ := Token.scan_spelled (constant .v expr)
  have counts := congrArg List.length kinds
  rw [List.length_map, List.length_map] at counts
  have faces : Faces (tokens.length + 1) ⟨Cursor.ofTokens tokens, #[]⟩ (constant .v expr) :=
    { kinds
      plain := by
        have plain : (constant .v expr).all Lexeme.isPlain = true := expr.all_words
        exact fun lexeme member => List.all_eq_true.mp plain lexeme member
      fits := by omega }
  obtain ⟨root, declaration, after, runs, kind, declarator, target, init, declared, named, unfolds⟩ :=
    Grammar.program_constant faces ("const v = " ++ expr.text).utf8ByteSize
  refine ⟨Tree.ofNodes after.nodes root, declaration, declarator, target, init, ?_, kind, declared, named, ?_⟩
  · rw [Tree.parse, text, scanned, ← text]
    change Tree.ofTokens tokens _ = _
    rw [Tree.ofTokens, show Grammar.program _ _ _ = _ from runs]
  · intro other
    constructor
    · intro unfolds'
      exact Expr.unfolds_unique other expr init unfolds' unfolds
    · rintro rfl
      exact unfolds

example : (Expr.operation (.binary .sub) (.name .v) (.operation (.binary .sub)
    (.leading .await (.call (.member (.name .v) .v) [.name .v]))
    (.conditional (.name .v) (.name .v) (.name .v)))).text =
      "v - ( await v . v ( v ) - ( v ? v : v ) )" := by
  decide

end Heed
