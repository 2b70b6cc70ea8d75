import Heed.Proofs.Grammar.Agreement
import Heed.Proofs.Grammar.Facing
import Heed.Proofs.Grammar.Shifting

/-!
# The same expression in two places

A builder that runs on alike tokens and behind other nodes makes the same of them: it ends before alike tokens,
and the nodes that it has made unfold to the same trees.
-/

set_option autoImplicit false

namespace Heed

/-- Tables of the same kinds. -/
theorem kindAt_congr {nodes nodes' : Array Node} (kinds : nodes.map Node.kind = nodes'.map Node.kind) :
    kindAt nodes = kindAt nodes' := by
  have by_kinds : ∀ (nodes : Array Node) id, kindAt nodes id = ((nodes.map Node.kind)[id]?).getD .emptyStatement := by
    intro nodes id
    rw [kindAt, Array.getElem?_map]
    cases nodes[id]? <;> rfl
  funext id
  rw [by_kinds, by_kinds, kinds]

namespace Builder

variable {front front' : Array Node} {build build' : Builder Nat} {room value value' : Nat} {owes : Nat → Prop}
  {cursor cursor' : Cursor} {after after' : Draft} {role : Role}

/-- Two runs have made the same as the builder makes alone, the first one behind `front` and the second one, on
alike tokens, behind `front'`. -/
structure Relocated (build : Builder Nat) (cursor : Cursor) (front front' : Array Node) (value value' : Nat)
    (after after' : Draft) : Prop where
  alone : ∃ own middle middle', Runs build ⟨cursor, #[]⟩ own middle ∧ Located.Alike middle middle' ∧
    value = shifted front own ∧ after = middle.behind front ∧
    value' = shifted front' own ∧ after' = middle'.behind front'

/-- Budgets that are enough for alike tokens leave the same room. -/
theorem exists_room {budget budget' : Nat} (alike : Token.Alike cursor.rest cursor'.rest)
    (enough : cursor.rest.length < budget) (enough' : cursor'.rest.length < budget') :
    ∃ room, cursor.tokens.length < room ∧ room ≤ budget ∧ room ≤ budget' := by
  have same : cursor.tokens.length = cursor'.tokens.length := alike.length_filter
  have within : cursor.tokens.length ≤ cursor.rest.length := List.length_filter_le _ _
  have within' : cursor'.tokens.length ≤ cursor'.rest.length := List.length_filter_le _ _
  exact ⟨cursor.tokens.length + 1, Nat.lt_succ_self _, by omega, by omega⟩

theorem relocate (shifts : Shifts front (shifted front) build build)
    (shifts' : Shifts front' (shifted front') build' build') (agree : Agree room owes Eq build build')
    (alike : Token.Alike cursor.rest cursor'.rest) (fits : cursor.tokens.length < room)
    (runs : Runs build ⟨cursor, front⟩ value after) :
    ∃ value' after', Runs build' ⟨cursor', front'⟩ value' after' ∧
      Relocated build cursor front front' value value' after after' := by
  have moved := shifts ⟨cursor, #[]⟩
  have moved' := shifts' ⟨cursor', #[]⟩
  have ended := agree ⟨cursor, #[]⟩ ⟨cursor', #[]⟩ ⟨alike, rfl⟩ trivial fits
  rw [Draft.behind, placedBehind_empty] at moved moved'
  rw [show build ⟨cursor, front⟩ = _ from runs] at moved
  cases alone : build ⟨cursor, #[]⟩ with
  | error failure =>
      rw [alone] at moved
      cases moved
  | ok pair =>
      rw [alone] at moved ended
      obtain ⟨rfl, rfl⟩ := Prod.mk.inj (Except.ok.inj moved)
      generalize build' ⟨cursor', #[]⟩ = outcome' at ended moved'
      cases ended with
      | @finish own _ middle middle' related alike' _ _ =>
          subst related
          exact ⟨_, _, moved', own, middle, middle', alone, alike', rfl, rfl, rfl, rfl⟩

theorem Relocated.rest (relocated : Relocated build cursor front front' value value' after after') :
    Token.Alike after.cursor.rest after'.cursor.rest := by
  obtain ⟨own, middle, middle', -, alike, -, rfl, -, rfl⟩ := relocated.alone
  exact alike.1

/-- A node unfolds behind others to what it unfolds to alone, in any tree that has the whole table. -/
theorem unfold_placedBehind {own : Nat} {nodes : Array Node} {tree : Tree}
    (closed : ∀ id, ∀ child ∈ (kindAt nodes id).children, child < nodes.size) (inside : own < nodes.size)
    (grows : Grows [] [] (placedBehind front nodes) tree.nodes) :
    tree.unfold (shifted front own) = unfoldAt (kindAt nodes) own := by
  refine unfoldAt_add (fun id _ => closed id) (fun id inside => ?_) inside
  have fits : shifted front id < (placedBehind front nodes).size := by
    rw [size_placedBehind]
    exact Nat.add_lt_add_right inside _
  exact (grows.kindAt_eq fits).trans (kindAt_placedBehind front nodes inside)

/-- The values of the two runs unfold alike in the trees that they end up in. -/
theorem Relocated.unfold_eq {tree tree' : Tree}
    (relocated : Relocated build cursor front front' value value' after after')
    (makes : Turns [] build fun id => [⟨id, role⟩]) (grows : Grows [] [] after.nodes tree.nodes)
    (grows' : Grows [] [] after'.nodes tree'.nodes) : tree'.unfold value' = tree.unfold value := by
  obtain ⟨own, middle, middle', runs, ⟨-, kinds⟩, rfl, rfl, rfl, rfl⟩ := relocated.alone
  have forest : Forest middle.nodes [⟨own, role⟩] := (makes.made _ own middle runs).2 [] .empty
  have inside : own < middle.nodes.size := makes.lt_size runs
  have sizes : middle.nodes.size = middle'.nodes.size := by simpa using congrArg Array.size kinds
  have sameKinds := kindAt_congr kinds
  have closed : ∀ id, ∀ child ∈ (kindAt middle.nodes id).children, child < middle.nodes.size :=
    fun id child listed => forest.inside child (List.mem_append_left _ (mem_owned_iff.mpr ⟨id, listed⟩))
  have closed' : ∀ id, ∀ child ∈ (kindAt middle'.nodes id).children, child < middle'.nodes.size := by
    rwa [sameKinds, sizes] at closed
  rw [unfold_placedBehind closed inside grows, unfold_placedBehind closed' (sizes ▸ inside) grows', sameKinds]

end Builder

end Heed
