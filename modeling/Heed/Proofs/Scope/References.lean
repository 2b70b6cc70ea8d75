import Heed.Proofs.Table
import Heed.Scope.Analysis

/-!
# References stand inside the tree

Every use that a walk over an outline finds is the use of an identifier of the tree, whatever the
outline. So the references of all variables are numbers of nodes, and no list of distinct references is
longer than the table of nodes.
-/

set_option autoImplicit false

namespace Heed

theorem Tree.lt_size_of_identifierName? {tree : Tree} {node : Nat} {name : String}
    (named : tree.identifierName? node = some name) : node < tree.size := by
  rcases Nat.lt_or_ge node tree.size with inside | outside
  · exact inside
  · have absent : tree.nodes[node]? = none := Array.getElem?_eq_none outside
    simp [Tree.identifierName?, Tree.kind, absent, NodeKind.identifierName?] at named

namespace Use

variable {tree : Tree} {declared : Declared}

def Inside (tree : Tree) (use : Use) : Prop := use.reference.identifier < tree.size

theorem inside_of_ofName {scope identifier : Nat} {access : Access} {use : Use}
    (found : ofName tree declared scope identifier access = some use) : use.Inside tree := by
  obtain ⟨name, named, made⟩ := Option.map_eq_some_iff.mp found
  rw [← made]
  exact Tree.lt_size_of_identifierName? named

theorem inside_of_ofBinder (bounded : declared.binderOf.size = tree.size) {identifier : Nat}
    {use : Use} (found : ofBinder declared identifier = some use) : use.Inside tree := by
  obtain ⟨id, binds, made⟩ := Option.map_eq_some_iff.mp found
  rw [← made]
  show identifier < tree.size
  rcases Nat.lt_or_ge identifier tree.size with inside | outside
  · exact inside
  · have absent : declared.binderOf[identifier]? = none := Array.getElem?_eq_none (by omega)
    simp [Declared.binder?, absent] at binds

theorem inside_of_own (bounded : declared.binderOf.size = tree.size) {scope node : Nat} {use : Use}
    (member : use ∈ own tree declared scope node) : use.Inside tree := by
  unfold own at member
  split at member
  · split at member
    · simp at member
    · exact inside_of_ofName (Option.mem_toList.mp member)
  · split at member
    · obtain ⟨identifier, _, found⟩ := List.mem_filterMap.mp member
      exact inside_of_ofBinder bounded found
    · simp at member
  · split at member
    · exact inside_of_ofName (Option.mem_toList.mp member)
    · simp at member
  · split at member
    · exact inside_of_ofName (Option.mem_toList.mp member)
    · split at member
      · obtain ⟨identifier, _, found⟩ := List.mem_filterMap.mp member
        exact inside_of_ofName found
      · simp at member
  · simp at member

mutual

theorem inside_of_visit (bounded : declared.binderOf.size = tree.size) {use : Use} :
    ∀ (scope : Nat) (outline : Outline), use ∈ visit tree declared scope outline →
      use.Inside tree
  | scope, .node node children => by
      intro member
      rw [visit] at member
      rcases List.mem_append.mp member with found | found
      · exact inside_of_own bounded found
      · exact inside_of_visitAll bounded _ node children found

theorem inside_of_visitAll (bounded : declared.binderOf.size = tree.size) {use : Use} :
    ∀ (scope parent : Nat) (outlines : List Outline),
      use ∈ visitAll tree declared scope parent outlines → use.Inside tree
  | _, _, [] => by
      intro member
      simp [visitAll] at member
  | scope, parent, outline :: rest => by
      intro member
      rw [visitAll] at member
      rcases List.mem_append.mp member with found | found
      · split at found
        · simp at found
        · exact inside_of_visit bounded scope outline found
      · exact inside_of_visitAll bounded scope parent rest found

end

end Use

namespace ScopeAnalysis

/-- The uses from which the references of all variables are taken. -/
def usesOf (tree : Tree) : List Use :=
  Use.visit tree (ofTree tree).declared 0 (tree.outline tree.root)

theorem getElem?_allVariables (tree : Tree) (id : Nat) :
    (ofTree tree).allVariables[id]? =
      (ofTree tree).declared.keys[id]?.map (describe (ofTree tree).bindings (usesOf tree) id) := by
  simp only [ofTree, usesOf, List.getElem?_toArray, List.getElem?_map, List.getElem?_zipIdx, Option.map_map,
    Nat.zero_add]
  rfl

/-- The references of a variable are the uses that mean it, in source order. -/
theorem references_eq {tree : Tree} {id : Nat} {owner : Variable}
    (stored : (ofTree tree).allVariables[id]? = some owner) :
    owner.references = ((usesOf tree).filter (·.target == some id)).map (·.reference) := by
  rw [getElem?_allVariables, Option.map_eq_some_iff] at stored
  obtain ⟨key, -, rfl⟩ := stored
  rfl

theorem mem_usesOf_of_reference {tree : Tree} {id : Nat} {owner : Variable} {reference : Reference}
    (stored : (ofTree tree).allVariables[id]? = some owner)
    (listed : reference ∈ owner.references) :
    { reference, target := some id } ∈ usesOf tree := by
  rw [references_eq stored, List.mem_map] at listed
  obtain ⟨use, member, rfl⟩ := listed
  obtain ⟨member, targeted⟩ := List.mem_filter.mp member
  rw [← beq_iff_eq.mp targeted]
  exact member

theorem reference_lt_size {tree : Tree} {id : Nat} {owner : Variable} {reference : Reference}
    (stored : (ofTree tree).allVariables[id]? = some owner)
    (listed : reference ∈ owner.references) : reference.identifier < tree.size :=
  Use.inside_of_visit (tabulate_size _ _) 0 _ (mem_usesOf_of_reference stored listed)

end ScopeAnalysis

end Heed
