import Heed.Proofs.Grammar.Branches
import Heed.Proofs.Tree.Shape

/-!
# Texts of conditionals

The text `const v = c ? (a) : e` is a choice by `c` between `a` and what `const v = e` makes of `e`, unless the
parentheses are the parameters of an arrow function. They are just if `: e` starts with a return type, an arrow
and a body; without an arrow in `e` they are not.
-/

set_option autoImplicit false

namespace Heed

open Builder

/-! ## Tokens -/

/-- A tree declares one constant, a choice by the name `test` between the name `consequent` and something that
unfolds to `alternate`. -/
def Tree.Chooses (tree : Tree) (test consequent : String) (alternate : Unfolding) : Prop :=
  ∃ value first second third, tree.Initialises value ∧ tree.kind value = .conditional first second third ∧
    tree.kind first = .identifier test none ∧ tree.kind second = .identifier consequent none ∧
    tree.unfold third = alternate

namespace Grammar

variable {word name sign word' name' sign' : Span} {spans : BranchSpans} {test consequent : String}
  {rest rest' : List Token} {length length' init : Nat} {tree tree' : Tree}

theorem length_constRow_branchRow :
    (constRow word name sign (branchRow spans test consequent rest)).length = rest.length + 9 := rfl

def behindBranch (name : Span) (spans : BranchSpans) (test consequent : String) (rest : List Token) (sourceEnd : Nat) :
    Draft :=
  behindGroup spans.toGroupSpans consequent rest sourceEnd (testNodes spans test #[⟨.identifier "v" none, name⟩])

/-- An expression is read from alike tokens behind other nodes as well. -/
theorem relocate_expression {budget budget' value : Nat} {cursor : Cursor} {front : Array Node} {after : Draft}
    (runs : Runs (productions budget).expression ⟨cursor, front⟩ value after) (cursor' : Cursor) (front' : Array Node)
    (alike : Token.Alike cursor.rest cursor'.rest) (enough : cursor.rest.length < budget)
    (enough' : cursor'.rest.length < budget') :
    ∃ value' after', Runs (productions budget').expression ⟨cursor', front'⟩ value' after' ∧
      Relocated (productions budget).expression cursor front front' value value' after after' := by
  obtain ⟨room, fits, less, less'⟩ := exists_room alike enough enough'
  exact relocate (shift_productions budget).expression (shift_productions budget').expression
    (agrees_productions less less').expression alike fits runs

def namesBefore (name : Span) (spans : BranchSpans) (test consequent : String) : Array Node :=
  #[⟨.identifier "v" none, name⟩, ⟨.identifier test none, spans.test⟩, ⟨.identifier consequent none, spans.name⟩]

/-- An expression that is the conditional makes the constant a choice. -/
theorem chooses_of_expression {alternate : Nat} {span : Span} {after : Draft}
    (runs : Runs (productions (constRow word name sign (branchRow spans test consequent rest)).length).expression
      (behindConst name sign (branchRow spans test consequent rest)
        (Cursor.ofTokens (constRow word name sign (branchRow spans test consequent rest))).sourceEnd)
      after.nodes.size (after.added (.conditional 1 2 alternate) span))
    (ends : after.cursor.Ends) (kept : Grows [] [] (namesBefore name spans test consequent) after.nodes) :
    ∃ tree, Tree.ofTokens (constRow word name sign (branchRow spans test consequent rest)) length = .ok tree ∧
      Grows [] [] after.nodes tree.nodes ∧ tree.Chooses test consequent (tree.unfold alternate) := by
  obtain ⟨tree, made, initialises, grows⟩ := initialises_of_expression runs ends
  have added : Grows [] [] after.nodes tree.nodes := (Grows.addNode _ _).trans grows
  have names := kept.trans added
  refine ⟨tree, made, added, after.nodes.size, 1, 2, alternate, initialises, ?_⟩
  rw [Tree.kind_eq_kindAt]
  refine ⟨?_, ?_, ?_, rfl⟩
  · exact (grows.kindAt_eq (size_lt_push _ _)).trans (kindAt_push_size _ _)
  · exact names.kindAt_eq (show 1 < 3 by decide)
  · exact names.kindAt_eq (show 2 < 3 by decide)

/-- If no arrow function starts with the parentheses, the initial value is the conditional. -/
theorem chooses_of_fails (parsed : Tree.ofTokens (constRow word name sign rest) length = .ok tree)
    (initialises : tree.Initialises init) (alike : Token.Alike rest rest')
    (fails : ∀ sourceEnd, Fails (arrowTail (productions (rest'.length + 7)))
      (behindBranch name' spans test consequent rest' sourceEnd)) :
    ∃ tree', Tree.ofTokens (constRow word' name' sign' (branchRow spans test consequent rest')) length' = .ok tree' ∧
      tree'.Chooses test consequent (tree.unfold init) := by
  obtain ⟨after, runs, ends, grows⟩ := expression_of_initialises parsed initialises
  let sourceEnd := (Cursor.ofTokens (constRow word' name' sign' (branchRow spans test consequent rest'))).sourceEnd
  let before := beforeAlternate spans test consequent rest' sourceEnd #[⟨.identifier "v" none, name'⟩]
  have enough : rest.length < (constRow word name sign rest).length := by
    rw [show (constRow word name sign rest).length = rest.length + 3 from rfl]
    omega
  have enough' : rest'.length < rest'.length + 8 := by omega
  -- Behind the colon the expression is what it is behind the equals sign.
  obtain ⟨alternate, after', runs', relocated⟩ :=
    relocate_expression runs before.cursor before.nodes alike enough enough'
  have ends' := ends.alike relocated.rest
  have room : rest'.length < rest'.length + 4 := by omega
  obtain ⟨span, chosen⟩ := expression_branch_of_fails sign'.stop room (fails sourceEnd) runs' ends'
  have built := (makeTrees_productions (rest'.length + 8)).expression.made _ _ _ runs'
  obtain ⟨tree', made, grows', chooses⟩ := chooses_of_expression chosen ends' (built.1.trans (.leave _ _))
  have same := relocated.unfold_eq (makeTrees_productions _).expression grows grows'
  exact ⟨tree', made, same ▸ chooses⟩

/-- If an arrow function starts with the parentheses, no other thing is the consequent. -/
theorem arrow_of_arrowTail {value first second third : Nat}
    (tail : ∀ sourceEnd, ∃ body after, Runs (arrowTail (productions (rest.length + 7)))
      (behindBranch name spans test consequent rest sourceEnd) body after)
    (parsed : Tree.ofTokens (constRow word name sign (branchRow spans test consequent rest)) length = .ok tree)
    (initialises : tree.Initialises value) (kind : tree.kind value = .conditional first second third) :
    ∃ params returnType body, tree.kind second = .arrowFunction params returnType body false := by
  obtain ⟨after, runs, -, grows⟩ := expression_of_initialises parsed initialises
  rw [length_constRow_branchRow] at runs
  obtain ⟨body, middle, tail⟩ := tail _
  have trees := makeTrees_productions (rest.length + 9)
  rw [Tree.kind_eq_kindAt] at kind ⊢
  rw [grows.kindAt_eq (trees.expression.lt_size runs)] at kind
  obtain ⟨params, returnType, body, isArrow⟩ := expression_branch_of_arrow tail runs kind
  refine ⟨params, returnType, body, ?_⟩
  rw [grows.kindAt_eq (lt_size_of_kindAt isArrow nofun), isArrow]

/-! ## Texts -/

open Token

theorem opens_const {chars : List Char} {row : Nat → List Token} (opens : Opens chars row) :
    Opens ("const v = ".toList ++ chars) fun start =>
      constRow ⟨start, start + 5⟩ ⟨start + 6, start + 7⟩ ⟨start + 8, start + 9⟩ (row (start + 10)) := by
  have sign : Opens (" = ".toList ++ chars) _ := .space (.token "=" rfl (fun _ => rfl) opens.space)
  have name : Opens (" v = ".toList ++ chars) _ := .space (.word "v" (by decide) (by decide) sign)
  exact .word "const" (by decide) (by decide) name

theorem scan_const : ∃ word name sign start, ∀ text : String,
    scan ("const v = " ++ text) = (scanFrom start text.toList).map (constRow word name sign) :=
  ⟨_, _, _, _, (opens_const .nothing).scan_append (List.append_nil _).symm⟩

theorem scan_colon : ∃ place start, ∀ text : String,
    scan (": " ++ text) = (scanFrom start text.toList).map (⟨.symbol .colon, place, ":"⟩ :: ·) := by
  have whole : Opens ": ".toList _ := .token ":" rfl (fun _ => rfl) (.space .nothing)
  exact ⟨_, _, whole.scan_append rfl⟩

theorem scan_branch (c a : Name) : ∃ word name sign spans start, ∀ text : String,
    scan ("const v = " ++ c.text ++ " ? (" ++ a.text ++ ") : " ++ text) =
      (scanFrom start text.toList).map fun rest => constRow word name sign (branchRow spans c.text a.text rest) := by
  let group := a.text.toList ++ ") : ".toList
  have closing : Opens ") : ".toList _ :=
    .token ")" rfl (fun _ => rfl) (.space (.token ":" rfl (fun _ => rfl) (.space .nothing)))
  have grouped : Opens (" ? (".toList ++ group) _ :=
    .space (.token "?" rfl (fun _ => rfl) (.space (.token "(" rfl (fun _ => rfl) (.name a (by decide) closing))))
  have branch : Opens (c.text.toList ++ (" ? (".toList ++ group)) _ := .name c (by decide) grouped
  have spells : ("const v = " ++ c.text ++ " ? (" ++ a.text ++ ") : ").toList =
      "const v = ".toList ++ (c.text.toList ++ (" ? (".toList ++ group)) := by
    simp only [String.toList_append, List.append_assoc, group]
  exact ⟨_, _, _, ⟨⟨_, _, _, _⟩, _, _⟩, _, (opens_const branch).scan_append spells⟩

/-- Whether a text starts with what stands behind the parameters of an arrow function. -/
def startsArrowTail (text : String) : Bool :=
  match scan text with
  | .ok tokens => (arrowTail (productions (tokens.length + 1)) ⟨.ofTokens tokens, #[]⟩).isOk
  | .error _ => false

/-- The text may stand anywhere. -/
theorem startsArrowTail_iff {text : String} {start budget low sourceEnd : Nat} {place : Span} {nodes : Array Node}
    (scanned : scanFrom start text.toList = .ok rest) (enough : rest.length + 1 < budget) :
    startsArrowTail (": " ++ text) = true ↔ ∃ body after, Runs (arrowTail (productions budget))
      ⟨⟨⟨.symbol .colon, place, ":"⟩ :: rest, low, sourceEnd⟩, nodes⟩ body after := by
  obtain ⟨place', start', scans⟩ := scan_colon
  obtain ⟨rest', scanned', alike⟩ := scanFrom_alike scanned start'
  let row : List Token := ⟨.symbol .colon, place', ":"⟩ :: rest'
  have text_eq : scan (": " ++ text) = .ok row := by rw [scans, scanned']; rfl
  have alone : startsArrowTail (": " ++ text) = true ↔ ∃ body after, Runs (arrowTail (productions (row.length + 1)))
      ⟨.ofTokens row, #[]⟩ body after := by
    rw [startsArrowTail, text_eq]
    dsimp only [Runs]
    cases arrowTail (productions (row.length + 1)) ⟨.ofTokens row, #[]⟩ with
    | error failure => exact iff_of_false Bool.false_ne_true (by simp)
    | ok pair => exact iff_of_true rfl ⟨pair.1, pair.2, rfl⟩
  have here : Alike (⟨.symbol .colon, place, ":"⟩ :: rest) row := .word place' rfl alike
  have there : Alike row (⟨.symbol .colon, place, ":"⟩ :: rest) := .word place rfl (alike_of_scanFrom scanned' scanned)
  rw [alone]
  exact ⟨exists_arrowTail there (Nat.lt_succ_self _) enough, exists_arrowTail here enough (Nat.lt_succ_self _)⟩

/-- Without an arrow nothing is such a tail. -/
theorem startsArrowTail_of_arrowless {text : String} {start : Nat} (scanned : scanFrom start text.toList = .ok rest)
    (absent : ∀ token ∈ rest, token.isSymbol .arrow = false) : startsArrowTail (": " ++ text) = false := by
  let draft : Draft := ⟨⟨⟨.symbol .colon, ⟨0, 0⟩, ":"⟩ :: rest, 0, 0⟩, #[]⟩
  have bare : Arrowless (rest.length + 2) draft := by
    refine ⟨fun token member => ?_, Nat.lt_succ_of_le (List.length_filter_le _ _)⟩
    rcases List.mem_cons.mp (List.mem_filter.mp member).1 with rfl | listed
    · rfl
    · exact absent token listed
  have fails : Fails (arrowTail (productions (rest.length + 2))) draft := arrowTail_fails bare
  rw [← Bool.not_eq_true, startsArrowTail_iff scanned (Nat.lt_succ_self _)]
  rintro ⟨body, after, runs⟩
  exact fails body after runs

end Grammar

open Grammar Token

variable {text : String} {tree : Tree} {init : Nat}

/-- The branches of `c ? (a) : e` are `a` and `e` just if `: e` does not start with a return type, an arrow and a
body, as it does not without an arrow; if it does, the consequent can only be an arrow function. -/
theorem parse_parenthesised_branch (c a : Name) (parsed : Tree.parse ("const v = " ++ text) = .ok tree)
    (initialises : tree.Initialises init) :
    ((∃ tree', Tree.parse ("const v = " ++ c.text ++ " ? (" ++ a.text ++ ") : " ++ text) = .ok tree' ∧
        tree'.Chooses c.text a.text (tree.unfold init)) ↔ startsArrowTail (": " ++ text) = false) ∧
      ((∀ tokens, scan text = .ok tokens → ∀ token ∈ tokens, token.isSymbol .arrow = false) →
        startsArrowTail (": " ++ text) = false) ∧
      (startsArrowTail (": " ++ text) = true → ∀ tree' value first second third,
        Tree.parse ("const v = " ++ c.text ++ " ? (" ++ a.text ++ ") : " ++ text) = .ok tree' →
        tree'.Initialises value → tree'.kind value = .conditional first second third →
          ∃ params returnType body, tree'.kind second = .arrowFunction params returnType body false) := by
  obtain ⟨word, name, sign, start, scans⟩ := scan_const
  obtain ⟨word', name', sign', spans, start', scans'⟩ := scan_branch c a
  have scanned : ∃ rest, scanFrom start text.toList = .ok rest := by
    cases outcome : scanFrom start text.toList with
    | error error =>
        rw [Tree.parse, scans, outcome] at parsed
        cases parsed
    | ok rest => exact ⟨rest, rfl⟩
  obtain ⟨rest, scanned⟩ := scanned
  obtain ⟨rest', scanned', alike⟩ := scanFrom_alike scanned start'
  have base := Tree.parse_of_scan ((scans text).trans (congrArg (Except.map _) scanned))
  have whole := Tree.parse_of_scan ((scans' text).trans (congrArg (Except.map _) scanned'))
  have tails : ∀ sourceEnd, startsArrowTail (": " ++ text) = true ↔ ∃ body after,
      Runs (arrowTail (productions (rest'.length + 7))) (behindBranch name' spans c.text a.text rest' sourceEnd) body
        after :=
    fun _ => startsArrowTail_iff scanned' (by omega)
  have arrow : startsArrowTail (": " ++ text) = true → ∀ tree' value first second third,
      Tree.parse ("const v = " ++ c.text ++ " ? (" ++ a.text ++ ") : " ++ text) = .ok tree' →
      tree'.Initialises value → tree'.kind value = .conditional first second third →
        ∃ params returnType body, tree'.kind second = .arrowFunction params returnType body false := by
    intro starts tree' value first second third parsed' initialises' kind
    exact arrow_of_arrowTail (fun sourceEnd => (tails sourceEnd).mp starts) (whole.symm.trans parsed') initialises' kind
  refine ⟨⟨?_, ?_⟩, ?_, arrow⟩
  · rintro ⟨tree', parsed', value, first, second, third, initialises', kind, -, isName, -⟩
    refine Bool.eq_false_iff.mpr fun starts => ?_
    obtain ⟨params, returnType, body, isArrow⟩ := arrow starts _ _ _ _ _ parsed' initialises' kind
    cases isName.symm.trans isArrow
  · intro absent
    rw [whole]
    refine chooses_of_fails (base.symm.trans parsed) initialises alike fun sourceEnd body after runs => ?_
    exact Bool.eq_false_iff.mp absent ((tails sourceEnd).mpr ⟨body, after, runs⟩)
  · intro absent
    obtain ⟨tokens, scanned₀, -⟩ := scanFrom_alike scanned 0
    exact startsArrowTail_of_arrowless scanned₀ (absent tokens scanned₀)

/-- Behind the colon `(b) => x` is the type of a function, and no arrow follows it. -/
theorem parse_parenthesised_branch_function :
    ∃ tree tree', Tree.parse ("const v = " ++ "(b) => x") = .ok tree ∧ tree.Initialises 3 ∧
      Tree.parse "const v = c ? (a) : (b) => x" = .ok tree' ∧ tree'.Chooses "c" "a" (tree.unfold 3) := by
  have checks : (Tree.parse ("const v = " ++ "(b) => x")).toOption.any (·.initial? == some 3) = true := by
    decide +kernel
  obtain ⟨tree, parsed, found⟩ := Tree.exists_of_checks checks
  have initialises := Tree.initialises_of_initial? (eq_of_beq found)
  have absent : startsArrowTail (": " ++ "(b) => x") = false := by decide +kernel
  obtain ⟨tree', parsed', chooses⟩ := (parse_parenthesised_branch ⟨"c", by decide, by decide⟩
    ⟨"a", by decide, by decide⟩ parsed initialises).1.mpr absent
  exact ⟨tree, tree', parsed, initialises, parsed', chooses⟩

/-- The text `b => x` makes a constant, and no branch of a conditional. -/
theorem parse_branch_swallowed : (∃ tree, Tree.parse "const v = b => x" = .ok tree ∧ tree.Initialises 3) ∧
    ∀ tree, Tree.parse "const v = c ? (a) : b => x" ≠ .ok tree := by
  have checks : (Tree.parse "const v = b => x").toOption.any (·.initial? == some 3) = true := by decide +kernel
  have refused : (Tree.parse "const v = c ? (a) : b => x").isOk = false := by decide +kernel
  obtain ⟨tree, parsed, found⟩ := Tree.exists_of_checks checks
  refine ⟨⟨tree, parsed, Tree.initialises_of_initial? (eq_of_beq found)⟩, fun tree parsed => ?_⟩
  rw [parsed] at refused
  cases refused

end Heed
