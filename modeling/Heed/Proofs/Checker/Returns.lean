import Heed.Checker.Session
import Heed.Proofs.Tree.SourceOrder

/-!
# What a function returns

The `return` statements of a function are those inside its body that have no other function and no class between
the body and them. A walk down from the body finds them by leaving out what is inside functions and classes; the way
up from a statement finds the function. Both agree, and so no statement is counted for two functions.
-/

set_option autoImplicit false

namespace Heed

namespace NodeKind

def functionBody? : NodeKind → Option Nat
  | .functionDeclaration _ _ _ body _ => body
  | .methodDefinition _ _ _ body _ _ => body
  | .arrowFunction _ _ body _ => some body
  | .functionExpression _ _ _ body _ => some body
  | _ => none

/-- Functions and classes keep the `return` statements inside them to themselves. -/
def keepsReturns (kind : NodeKind) : Bool := kind.isFunctionLike || kind.isClass

def returned : NodeKind → Option Nat
  | .returnStatement argument => argument
  | _ => none

theorem isFunctionLike_of_functionBody? {kind : NodeKind} {body : Nat} (has : kind.functionBody? = some body) :
    kind.isFunctionLike = true := by
  cases kind <;> first | rfl | cases has

theorem mem_children_of_functionBody? {kind : NodeKind} {body : Nat} (has : kind.functionBody? = some body) :
    body ∈ kind.children := by
  cases kind with
  | functionDeclaration name params returnType own isAsync =>
      obtain rfl : own = some body := has
      simp [children]
  | methodDefinition key params returnType own isAsync isStatic =>
      obtain rfl : own = some body := has
      simp [children]
  | arrowFunction params returnType own isAsync =>
      obtain rfl : own = body := Option.some.inj has
      simp [children]
  | functionExpression name params returnType own isAsync =>
      obtain rfl : own = body := Option.some.inj has
      simp [children]
  | _ => cases has

end NodeKind

/-! ## Walks that leave out parts -/

namespace Outline

mutual

theorem sublist_preorder (pruned : Nat → Bool) (depth : Nat) : ∀ outline : Outline,
    ((outline.visit pruned depth).map Prod.fst).Sublist outline.preorder
  | .node id children => by
      rw [visit, List.map_cons, preorder]
      apply List.Sublist.cons_cons
      split
      · exact List.nil_sublist _
      · exact sublist_preorderAll pruned (depth + 1) children

theorem sublist_preorderAll (pruned : Nat → Bool) (depth : Nat) : ∀ outlines : List Outline,
    ((visitAll pruned depth outlines).map Prod.fst).Sublist (preorderAll outlines)
  | [] => List.nil_sublist _
  | outline :: rest => by
      rw [visitAll, List.map_append, preorderAll]
      exact (sublist_preorder pruned depth outline).append (sublist_preorderAll pruned depth rest)

end

end Outline

namespace Tree.WellFormed

variable {tree : Tree} (formed : tree.WellFormed)

include formed

/-- No node above another one lies inside it. -/
theorem not_isWithin_of_mem_ancestors {node outer : Nat} (above : outer ∈ tree.ancestors node) :
    tree.isWithin outer node = false := by
  by_contra within
  rw [Bool.not_eq_false] at within
  have same := formed.isWithin_antisymm within (isWithin_iff.mpr (.inr above))
  rw [same] at above
  exact Nat.lt_irrefl _ (formed.length_lt_of_mem_ancestors above)

/-- A walk meets just the nodes inside its start above which nothing is left out. -/
theorem mem_visit_iff {pruned : Nat → Bool} {top node depth : Nat} :
    node ∈ ((tree.outline top).visit pruned depth).map Prod.fst ↔
      tree.isWithin node top = true ∧
        ∀ outer ∈ tree.ancestors node, tree.isWithin outer top = true → pruned outer = false := by
  induction top using formed.descend generalizing depth with
  | step top ih =>
      rw [formed.visit_outline, List.map_cons, List.mem_cons]
      by_cases same : node = top
      · subst same
        simp only [true_or, true_iff]
        refine ⟨isWithin_iff.mpr (.inl rfl), ?_⟩
        intro outer above within
        rw [formed.not_isWithin_of_mem_ancestors above] at within
        cases within
      · simp only [same, false_or]
        by_cases isPruned : pruned top = true
        · -- The start is above the node, and it is left out itself.
          simp only [isPruned, if_true, List.map_nil, List.not_mem_nil, false_iff, not_and]
          intro within clear
          have above := (isWithin_iff.mp within).resolve_left same
          have unpruned := clear top above (isWithin_iff.mpr (.inl rfl))
          rw [isPruned] at unpruned
          cases unpruned
        · rw [if_neg isPruned, List.map_flatMap, List.mem_flatMap]
          constructor
          · rintro ⟨child, listed, member⟩
            obtain ⟨within, clear⟩ := (ih child listed).mp member
            refine ⟨formed.isWithin_trans within (formed.isWithin_of_child listed), ?_⟩
            intro outer above inTop
            by_cases isTop : outer = top
            · subst isTop
              exact Bool.eq_false_iff.mpr isPruned
            · obtain ⟨other, otherListed, inOther⟩ := formed.exists_child_of_isWithin inTop isTop
              have nodeInOther := formed.isWithin_trans (isWithin_iff.mpr (.inr above)) inOther
              obtain rfl := formed.eq_of_isWithin_siblings listed otherListed within nodeInOther
              exact clear outer above inOther
          · rintro ⟨within, clear⟩
            obtain ⟨child, listed, inChild⟩ := formed.exists_child_of_isWithin within same
            refine ⟨child, listed, (ih child listed).mpr ⟨inChild, ?_⟩⟩
            intro outer above inner
            exact clear outer above (formed.isWithin_trans inner (formed.isWithin_of_child listed))

end Tree.WellFormed

/-! ## Statements and their functions -/

namespace Tree

/-- The nearest function or class around a node. -/
def keeper? (tree : Tree) (node : Nat) : Option Nat :=
  (tree.ancestors node).find? fun outer => (tree.kind outer).keepsReturns

theorem WellFormed.keeper?_eq {tree : Tree} (formed : tree.WellFormed) {node parent : Nat}
    (found : tree.parent? node = some parent) :
    tree.keeper? node = if (tree.kind parent).keepsReturns then some parent else tree.keeper? parent := by
  rw [keeper?, formed.ancestors_eq_cons found, List.find?_cons]
  cases (tree.kind parent).keepsReturns with
  | false => rfl
  | true => rfl

/-- Inside the body of a function, this function is the nearest one unless something comes between. -/
theorem WellFormed.keeper?_eq_iff {tree : Tree} (formed : tree.WellFormed) {func body node : Nat}
    (listed : body ∈ tree.children func) (called : (tree.kind func).isFunctionLike = true)
    (within : tree.isWithin node body = true) : tree.keeper? node = some func ↔
      ∀ outer ∈ tree.ancestors node, tree.isWithin outer body = true → (tree.kind outer).keepsReturns = false := by
  have owner := (formed.parent_iff body func).mpr listed
  induction node using formed.climb with
  | top node orphan =>
      rw [isWithin_iff, ancestors_eq_nil orphan] at within
      rcases within with rfl | absent
      · rw [owner] at orphan
        cases orphan
      · cases absent
  | step node parent found ih =>
      rw [formed.keeper?_eq found, formed.ancestors_eq_cons found]
      by_cases same : node = body
      · subst same
        obtain rfl : func = parent := Option.some.inj (owner.symm.trans found)
        have keeps : (tree.kind func).keepsReturns = true := by simp [NodeKind.keepsReturns, called]
        rw [if_pos keeps]
        simp only [true_iff]
        intro outer above inner
        rw [← formed.ancestors_eq_cons found] at above
        rw [formed.not_isWithin_of_mem_ancestors above] at inner
        cases inner
      · have inner := (formed.isWithin_parent found same).mp within
        by_cases keeps : (tree.kind parent).keepsReturns = true
        · -- The parent is inside the body, where the function itself is not.
          have other : parent ≠ func := by
            rintro rfl
            have above : parent ∈ tree.ancestors body := by
              rw [formed.ancestors_eq_cons owner]
              exact List.mem_cons_self
            rw [formed.not_isWithin_of_mem_ancestors above] at inner
            cases inner
          rw [if_pos keeps]
          constructor
          · intro isFunc
            exact absurd (Option.some.inj isFunc) other
          · intro clear
            rw [clear parent List.mem_cons_self inner] at keeps
            cases keeps
        · rw [if_neg keeps, List.forall_mem_cons]
          have unkept := Bool.eq_false_iff.mpr keeps
          simp only [unkept, implies_true, true_and]
          exact ih inner

end Tree

namespace Checker

variable (checker : Checker)

/-- The `return` statements that a walk over a body meets when it leaves out functions and classes. -/
def returnStatements (body : Nat) : List Nat :=
  (((checker.tree.outline body).visit (fun node => (checker.tree.kind node).keepsReturns) 0).map Prod.fst).filter
    fun node => (checker.tree.kind node).isReturn

theorem returns_eq_map (body : Nat) :
    checker.returns body = (checker.returnStatements body).map fun node => (checker.tree.kind node).returned := by
  rw [returns, returnStatements]
  change List.filterMap _ ((checker.tree.outline body).visit (fun node => (checker.tree.kind node).keepsReturns) 0) = _
  generalize (checker.tree.outline body).visit _ 0 = visited
  induction visited with
  | nil => rfl
  | cons entry rest ih =>
      rw [List.filterMap_cons, ih, List.map_cons, List.filter_cons]
      cases kindEq : checker.tree.kind entry.1 <;> simp [NodeKind.isReturn, NodeKind.returned, kindEq]

variable {checker}

/-- The way down and the way up agree. -/
theorem mem_returnStatements_iff (formed : checker.tree.WellFormed) {func body : Nat}
    (has : (checker.tree.kind func).functionBody? = some body) {node : Nat} :
    node ∈ checker.returnStatements body ↔ (checker.tree.kind node).isReturn = true ∧
      checker.tree.isWithin node body = true ∧ checker.tree.keeper? node = some func := by
  have listed : body ∈ checker.tree.children func := NodeKind.mem_children_of_functionBody? has
  have called := NodeKind.isFunctionLike_of_functionBody? has
  rw [returnStatements, List.mem_filter, formed.mem_visit_iff, and_comm]
  refine and_congr_right fun _ => and_congr_right fun within => ?_
  exact (formed.keeper?_eq_iff listed called within).symm

theorem sublist_returnStatements (checker : Checker) (body : Nat) :
    (checker.returnStatements body).Sublist (checker.tree.outline body).preorder :=
  List.filter_sublist.trans (Outline.sublist_preorder _ 0 _)

theorem starts_returnStatements {source : String} (parsed : Tree.parse source = .ok checker.tree) {body : Nat}
    (inside : body < checker.tree.size) : (checker.returnStatements body).Pairwise fun first second =>
      (checker.tree.span first).start < (checker.tree.span second).start := by
  have returns : ∀ node ∈ checker.returnStatements body, (checker.tree.kind node).isAhead = true := by
    intro node member
    exact NodeKind.isAhead_of_isReturn (List.mem_filter.mp member).2
  apply ((Tree.ahead_in_order parsed inside).sublist (checker.sublist_returnStatements body)).imp_of_mem
  intro first second firstMember secondMember ordered
  exact ordered (returns first firstMember) (returns second secondMember)

/-- What is gathered from the body of a function are the arguments of its `return` statements: just those inside the
body from which the function is the nearest function or class on the way up, in the order of the source and each once.
So no statement counts for two functions. -/
theorem returns_of_function {source : String} {tree : Tree} (parsed : Tree.parse source = .ok tree) :
    (∀ func body, (tree.kind func).functionBody? = some body →
      (ofTree tree).returns body =
          ((ofTree tree).returnStatements body).map (fun node => (tree.kind node).returned) ∧
        ((ofTree tree).returnStatements body).Nodup ∧
        (((ofTree tree).returnStatements body).Pairwise fun first second =>
          (tree.span first).start < (tree.span second).start) ∧
        ∀ node, node ∈ (ofTree tree).returnStatements body ↔ (tree.kind node).isReturn = true ∧
          tree.isWithin node body = true ∧ tree.keeper? node = some func) ∧
      ∀ node func other body otherBody, (tree.kind func).functionBody? = some body →
        (tree.kind other).functionBody? = some otherBody → node ∈ (ofTree tree).returnStatements body →
          node ∈ (ofTree tree).returnStatements otherBody → func = other := by
  have formed : (ofTree tree).tree.WellFormed := Tree.wellFormed_of_parse parsed
  constructor
  · intro func body has
    have inside := formed.child_lt_size func body (NodeKind.mem_children_of_functionBody? has)
    refine ⟨returns_eq_map _ body, ?_, @starts_returnStatements (ofTree tree) source parsed body inside, ?_⟩
    · exact (formed.nodup_preorder_outline body).sublist (sublist_returnStatements _ body)
    · intro node
      exact mem_returnStatements_iff formed has
  · intro node func other body otherBody has otherHas member otherMember
    have keeper := ((mem_returnStatements_iff formed has).mp member).2.2
    have otherKeeper := ((mem_returnStatements_iff formed otherHas).mp otherMember).2.2
    exact Option.some.inj (keeper.symm.trans otherKeeper)

/-- Returns at many places of a function, some of them without an argument, and one in a method of a class inside it.
The argument of another one is a function that returns itself. -/
def returningAround : String :=
  "function f(a) \x7b if (a) return; class C \x7b m() \x7b return a \x7d \x7d\nswitch (a) \x7b case 1: " ++
    "return () => \x7b return 2 \x7d \x7d\ntry \x7b return a \x7d finally \x7b return \x7d \x7d"

theorem returns_of_function_around :
    ∃ tree, Tree.parse returningAround = .ok tree ∧ (tree.kind 28).functionBody? = some 27 ∧
      (tree.kind 17).functionBody? = some 16 ∧ (ofTree tree).returnStatements 27 = [3, 18, 22, 24] ∧
      (ofTree tree).returns 27 = [none, some 17, some 21, none] ∧ (ofTree tree).returnStatements 16 = [15] ∧
      tree.keeper? 18 = some 28 ∧ tree.keeper? 15 = some 17 ∧ tree.keeper? 8 = some 10 := by
  have checks : (Tree.parse returningAround).toOption.any (fun tree =>
      decide ((tree.kind 28).functionBody? = some 27 ∧ (tree.kind 17).functionBody? = some 16 ∧
        (ofTree tree).returnStatements 27 = [3, 18, 22, 24] ∧
        (ofTree tree).returns 27 = [none, some 17, some 21, none] ∧
        (ofTree tree).returnStatements 16 = [15] ∧ tree.keeper? 8 = some 10)) = true := by decide +kernel
  obtain ⟨tree, parsed, checks⟩ := Tree.exists_of_checks checks
  obtain ⟨body, arrowBody, statements, gathered, arrowStatements, method⟩ := of_decide_eq_true checks
  obtain ⟨functions, -⟩ := returns_of_function parsed
  obtain ⟨-, -, -, members⟩ := functions 28 27 body
  obtain ⟨-, -, -, arrowMembers⟩ := functions 17 16 arrowBody
  have outer := ((members 18).mp (by simp [statements])).2.2
  have inner := ((arrowMembers 15).mp (by simp [arrowStatements])).2.2
  exact ⟨tree, parsed, body, arrowBody, statements, gathered, arrowStatements, outer, inner, method⟩

end Checker

end Heed
