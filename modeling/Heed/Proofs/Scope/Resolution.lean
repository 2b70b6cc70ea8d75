import Heed.Proofs.Distinct
import Heed.Proofs.Scope.Declarations
import Heed.Proofs.Scope.References
import Mathlib.Logic.Relation

/-!
# Names are resolved lexically

An identifier that uses a name means the variable of that name in the innermost scope around it that
declares one, wherever in the scope the declaration stands. An identifier that is bound means the variable
that its declaration declares. No two variables share both scope and name.
-/

set_option autoImplicit false

namespace Heed

namespace Declared

variable {tree : Tree}

theorem key_mem {binding : Binding} (member : binding ∈ (Survey.ofTree tree).bindings.toList) :
    binding.key ∈ (ofTree tree).keys :=
  List.mem_eraseDups.mpr (List.mem_map_of_mem member)

/-- Bindings of the same identifier have the same key. -/
theorem key_unique (formed : tree.WellFormed) {left right : Binding}
    (leftMember : left ∈ (Survey.ofTree tree).bindings.toList)
    (rightMember : right ∈ (Survey.ofTree tree).bindings.toList)
    (same : left.identifier = right.identifier) : left.key = right.key := by
  obtain ⟨leftNamed, leftNode, leftHome, leftDeclares, leftLives⟩ :=
    declares_of_binding formed leftMember
  obtain ⟨rightNamed, rightNode, rightHome, rightDeclares, rightLives⟩ :=
    declares_of_binding formed rightMember
  rw [same] at leftNamed leftDeclares
  obtain ⟨rfl, rfl⟩ := formed.declares_unique leftDeclares rightDeclares
  rw [leftLives] at rightLives
  rw [leftNamed] at rightNamed
  exact Prod.ext (Option.some.inj rightLives) (Option.some.inj rightNamed)

theorem binder?_of_binding (formed : tree.WellFormed) {binding : Binding}
    (member : binding ∈ (Survey.ofTree tree).bindings.toList) :
    (ofTree tree).binder? binding.identifier = some ((ofTree tree).keys.idxOf binding.key) := by
  refine tabulate_eq_some ?_ (List.mem_map_of_mem member) ?_
  · exact Tree.lt_size_of_identifierName? (declares_of_binding formed member).1
  · intro other listed
    obtain ⟨found, foundMember, same⟩ := List.mem_map.mp listed
    obtain ⟨sameIdentifier, rfl⟩ := Prod.mk.inj same
    exact congrArg (ofTree tree).keys.idxOf (key_unique formed foundMember member sameIdentifier)

theorem exists_binding_of_binder? {identifier id : Nat}
    (binds : (ofTree tree).binder? identifier = some id) :
    ∃ binding ∈ (Survey.ofTree tree).bindings.toList, binding.identifier = identifier ∧
      id = (ofTree tree).keys.idxOf binding.key := by
  obtain ⟨binding, member, same⟩ := List.mem_map.mp (mem_of_tabulate binds)
  obtain ⟨sameIdentifier, sameId⟩ := Prod.mk.inj same
  exact ⟨binding, member, sameIdentifier, sameId.symm⟩

/-- The scope inside a node: the one that it opens, or else the one around it. -/
def inside (tree : Tree) (node : Nat) : Option Nat :=
  ((ofTree tree).openedBy? node).or (around tree node)

theorem around_eq_inside (formed : tree.WellFormed) {node parent : Nat}
    (found : tree.parent? node = some parent) : around tree node = inside tree parent :=
  around_eq formed found

end Declared

namespace Use

variable {tree : Tree}

theorem visitAll_map (formed : tree.WellFormed) (declared : Declared) (scope parent : Nat) (nodes : List Nat) :
    visitAll tree declared scope parent (nodes.map tree.outline) =
      nodes.flatMap fun child =>
        if skips tree parent child then [] else visit tree declared scope (tree.outline child) := by
  induction nodes with
  | nil => rfl
  | cons node rest ih => rw [List.map_cons, visitAll, ih, formed.id_outline, List.flatMap_cons]

/-- One step of the walk, from a node to a child whose uses are looked for. -/
def Enters (tree : Tree) (node child : Nat) : Prop :=
  child ∈ tree.children node ∧ skips tree node child = false

abbrev Reaches (tree : Tree) : Nat → Nat → Prop := Relation.ReflTransGen (Enters tree)

/-- The uses below a node are those that the nodes reached from it make, each in the scope inside it. -/
theorem mem_visit_iff (formed : tree.WellFormed) {node scope : Nat} {use : Use}
    (enters : Declared.inside tree node = some (((Declared.ofTree tree).openedBy? node).getD scope)) :
    use ∈ visit tree (Declared.ofTree tree) scope (tree.outline node) ↔
      ∃ owner inner, Reaches tree node owner ∧ Declared.inside tree owner = some inner ∧
        use ∈ own tree (Declared.ofTree tree) inner owner := by
  induction node using formed.descend generalizing scope with
  | step node ih =>
      have child_enters : ∀ child ∈ tree.children node, Declared.inside tree child =
          some (((Declared.ofTree tree).openedBy? child).getD
            (((Declared.ofTree tree).openedBy? node).getD scope)) := by
        intro child listed
        rw [Declared.inside, Declared.around_eq_inside formed ((formed.parent_iff child node).mpr listed),
          enters]
        cases (Declared.ofTree tree).openedBy? child <;> rfl
      rw [formed.outline_eq, visit, List.mem_append, visitAll_map formed, List.mem_flatMap]
      constructor
      · rintro (here | ⟨child, listed, member⟩)
        · exact ⟨node, _, .refl, enters, here⟩
        · split at member
          case isTrue => cases member
          case isFalse entered =>
              obtain ⟨owner, inner, reaches, within, member⟩ :=
                (ih child listed (child_enters child listed)).mp member
              exact ⟨owner, inner, .head ⟨listed, eq_false_of_ne_true entered⟩ reaches, within, member⟩
      · rintro ⟨owner, inner, reaches, within, member⟩
        rcases reaches.cases_head with rfl | ⟨child, ⟨listed, entered⟩, reaches⟩
        · rw [enters] at within
          obtain rfl := Option.some.inj within
          exact .inl member
        · refine .inr ⟨child, listed, ?_⟩
          rw [entered]
          exact (ih child listed (child_enters child listed)).mpr ⟨owner, inner, reaches, within, member⟩

theorem mem_usesOf_iff (formed : tree.WellFormed) {use : Use} :
    use ∈ ScopeAnalysis.usesOf tree ↔
      ∃ owner inner, Reaches tree tree.root owner ∧ Declared.inside tree owner = some inner ∧
        use ∈ own tree (Declared.ofTree tree) inner owner := by
  refine mem_visit_iff formed ?_
  rw [Declared.inside, Declared.openedBy?_root formed]
  rfl

/-- The write of an initialised declaration, by an identifier that is bound. -/
def Initialises (tree : Tree) (use : Use) : Prop :=
  use.reference.init = true ∧ use.target.isSome = true ∧
    use.target = (Declared.ofTree tree).binder? use.reference.identifier

/-- The use of a name by an identifier that is not bound. -/
def Names (tree : Tree) (use : Use) : Prop :=
  use.reference.init = false ∧ (Declared.ofTree tree).binder? use.reference.identifier = none ∧
    ∃ scope name, Declared.around tree use.reference.identifier = some scope ∧
      tree.identifierName? use.reference.identifier = some name ∧
      use.target = (Declared.ofTree tree).lookup scope name

/-- What stands in the place of a value is not bound. -/
theorem binder?_eq_none_of_parent (formed : tree.WellFormed) {identifier parent : Nat}
    (found : tree.parent? identifier = some parent) (outside : tree.isPatternPart parent = false)
    (undeclared : ∀ home, ¬ tree.Declares parent home identifier)
    (homeless : tree.homeOf? identifier parent = some (parent, .own)) :
    (Declared.ofTree tree).binder? identifier = none := by
  cases binds : (Declared.ofTree tree).binder? identifier with
  | none => rfl
  | some id =>
      obtain ⟨binding, member, rfl, -⟩ := Declared.exists_binding_of_binder? binds
      obtain ⟨-, node, home, declares, -⟩ := Declared.declares_of_binding formed member
      have home_eq := formed.homeOf?_of_declares declares
      rw [formed.declarer?_of_parent found outside, Option.bind_some, homeless] at home_eq
      obtain ⟨rfl, -⟩ := Prod.mk.inj (Option.some.inj home_eq)
      exact absurd declares (undeclared home)

inductive Operates (tree : Tree) (node operand : Nat) : Access → Prop
  | update {increment signFirst : Bool} :
      tree.kind node = .update operand increment signFirst → Operates tree node operand .readWrite
  | assignment {operator : AssignOperator} {right : Nat} :
      tree.kind node = .assignment operator operand right →
      Operates tree node operand (if operator = .assign then .write else .readWrite)

theorem plain_of_operates {node operand : Nat} {access : Access} (operates : Operates tree node operand access) :
    Slot.mk operand .plain ∈ (tree.kind node).slots := by
  cases operates with
  | update kindEq | assignment kindEq =>
      rw [kindEq]
      exact List.mem_cons_self

/-- What is updated or assigned to is not bound there. -/
theorem unbound_of_operates (formed : tree.WellFormed) {node operand : Nat} {access : Access}
    (operates : Operates tree node operand access) :
    operand ∈ tree.children node ∧ (Declared.ofTree tree).binder? operand = none := by
  have listed : operand ∈ tree.children node := NodeKind.node_mem_children (plain_of_operates operates)
  refine ⟨listed, ?_⟩
  have found := (formed.parent_iff operand node).mpr listed
  cases operates with
  | update kindEq | assignment kindEq =>
      refine binder?_eq_none_of_parent formed found (by rw [Tree.isPatternPart, kindEq])
        (fun home declares => ?_) (by rw [Tree.homeOf?, kindEq])
      cases declares <;> simp_all [NodeKind.params]

/-- The uses that a node makes by itself, by what it is. -/
inductive Makes (tree : Tree) (declared : Declared) (scope node : Nat) (use : Use) : Prop
  | read : declared.binder? node = none → ofName tree declared scope node .read = some use →
      Makes tree declared scope node use
  | initial {target identifier : Nat} {init : Option Nat} : tree.kind node = .declarator target init →
      (init.isSome || isLoopBinding tree node) = true → identifier ∈ tree.boundBy target →
      ofBinder declared identifier = some use → Makes tree declared scope node use
  | operand {operand : Nat} {access : Access} : Operates tree node operand access →
      ofName tree declared scope operand access = some use → Makes tree declared scope node use

theorem isIdentifier_of_ofName {declared : Declared} {scope identifier : Nat} {access : Access} {use : Use}
    (found : ofName tree declared scope identifier access = some use) :
    use.reference.identifier = identifier ∧ (tree.kind identifier).isIdentifier = true := by
  obtain ⟨name, named, rfl⟩ := Option.map_eq_some_iff.mp found
  rw [Tree.identifierName?] at named
  cases kindEq : tree.kind identifier with
  | identifier => exact ⟨rfl, rfl⟩
  | _ => simp [kindEq, NodeKind.identifierName?] at named

theorem mem_own_iff (fits : tree.Fits) {declared : Declared} {scope node : Nat} {use : Use} :
    use ∈ own tree declared scope node ↔ Makes tree declared scope node use := by
  constructor
  · intro member
    rw [own] at member
    split at member
    case h_1 =>
        split at member
        case isTrue => cases member
        case isFalse unbound => exact .read (by simpa using unbound) (Option.mem_toList.mp member)
    case h_2 target init kindEq =>
        split at member
        case isTrue initialised =>
            obtain ⟨identifier, bound, found⟩ := List.mem_filterMap.mp member
            exact .initial kindEq initialised bound found
        case isFalse => cases member
    case h_3 argument increment signFirst kindEq =>
        split at member
        case isTrue => exact .operand (.update kindEq) (Option.mem_toList.mp member)
        case isFalse => cases member
    case h_4 operator left right kindEq =>
        split at member
        case isTrue => exact .operand (.assignment kindEq) (Option.mem_toList.mp member)
        case isFalse =>
            split at member
            case isTrue isPattern =>
                -- What is assigned to stands in a plain place, so it is no pattern.
                have isPlain : (tree.kind left).isPlain = true :=
                  fits node _ (plain_of_operates (.assignment kindEq))
                cases leftEq : tree.kind left <;> simp_all [Use.isPattern, NodeKind.isPlain]
            case isFalse => cases member
    case h_5 => cases member
  · intro makes
    cases makes with
    | read unbound found =>
        obtain ⟨-, named⟩ := isIdentifier_of_ofName found
        cases kindEq : tree.kind node with
        | identifier => simp [own, kindEq, unbound, found]
        | _ => simp [kindEq, NodeKind.isIdentifier] at named
    | initial kindEq initialised bound found =>
        simp only [own, kindEq, initialised, if_true]
        exact List.mem_filterMap.mpr ⟨_, bound, found⟩
    | operand operates found =>
        obtain ⟨-, named⟩ := isIdentifier_of_ofName found
        cases operates with
        | update kindEq | assignment kindEq => simp [own, kindEq, named, found]

theorem names_of_ofName {scope identifier : Nat} {access : Access} {use : Use}
    (surrounds : Declared.around tree identifier = some scope)
    (unbound : (Declared.ofTree tree).binder? identifier = none)
    (found : ofName tree (Declared.ofTree tree) scope identifier access = some use) : use.Names tree := by
  obtain ⟨name, named, rfl⟩ := Option.map_eq_some_iff.mp found
  exact ⟨rfl, unbound, scope, name, surrounds, named, rfl⟩

theorem initialises_or_names (formed : tree.WellFormed) (fits : tree.Fits) {node scope : Nat} {use : Use}
    (enters : Declared.inside tree node = some scope)
    (member : use ∈ own tree (Declared.ofTree tree) scope node) :
    use.Initialises tree ∨ use.Names tree := by
  cases (mem_own_iff fits).mp member with
  | read unbound found =>
      obtain ⟨-, named⟩ := isIdentifier_of_ofName found
      have closed : (Declared.ofTree tree).openedBy? node = none := by
        refine Declared.openedBy?_eq_none formed ?_ ?_
        · rw [Survey.opens?]
          cases kindEq : tree.kind node <;> simp_all [NodeKind.isIdentifier]
        · rintro rfl
          obtain ⟨body, programEq⟩ := formed.root_program
          simp [programEq, NodeKind.isIdentifier] at named
      rw [Declared.inside, closed, Option.none_or] at enters
      exact .inr (names_of_ofName enters unbound found)
  | initial _ _ _ found =>
      obtain ⟨id, binds, rfl⟩ := Option.map_eq_some_iff.mp found
      exact .inl ⟨rfl, rfl, binds.symm⟩
  | operand operates found =>
      obtain ⟨listed, unbound⟩ := unbound_of_operates formed operates
      have surrounds : Declared.around tree _ = some scope :=
        (Declared.around_eq_inside formed ((formed.parent_iff _ node).mpr listed)).trans enters
      exact .inr (names_of_ofName surrounds unbound found)

/-- Every use in a tree is one of the two. -/
theorem cases_of_mem_usesOf (formed : tree.WellFormed) (fits : tree.Fits) {use : Use}
    (member : use ∈ ScopeAnalysis.usesOf tree) : use.Initialises tree ∨ use.Names tree := by
  obtain ⟨owner, inner, -, enters, member⟩ := (mem_usesOf_iff formed).mp member
  exact initialises_or_names formed fits enters member

end Use

namespace ScopeAnalysis

variable {tree : Tree}

theorem variable_of_key {id : Nat} {key : VariableKey} (stored : (Declared.ofTree tree).keys[id]? = some key) :
    ∃ owner, (ofTree tree).allVariables[id]? = some owner ∧ owner.scope = key.1 ∧ owner.name = key.2 := by
  have stored : (ofTree tree).declared.keys[id]? = some key := stored
  rw [getElem?_allVariables, stored]
  exact ⟨_, rfl, rfl, rfl⟩

theorem key_of_variable {id : Nat} {owner : Variable} (stored : (ofTree tree).allVariables[id]? = some owner) :
    (Declared.ofTree tree).keys[id]? = some (owner.scope, owner.name) := by
  rw [getElem?_allVariables, Option.map_eq_some_iff] at stored
  obtain ⟨key, found, rfl⟩ := stored
  exact found

/-- No two variables share both scope and name. -/
theorem variable_unique {left right : Nat} {leftOwner rightOwner : Variable}
    (leftStored : (ofTree tree).allVariables[left]? = some leftOwner)
    (rightStored : (ofTree tree).allVariables[right]? = some rightOwner)
    (sameScope : leftOwner.scope = rightOwner.scope) (sameName : leftOwner.name = rightOwner.name) :
    left = right := by
  have leftKey := key_of_variable leftStored
  have rightKey := key_of_variable rightStored
  rw [← sameScope, ← sameName, ← leftKey] at rightKey
  exact ((List.getElem?_inj (List.getElem?_eq_some_iff.mp leftKey).1 (nodup_eraseDups _)).mp
    rightKey.symm)

def Declares (analysis : ScopeAnalysis) (scope : Nat) (name : String) (id : Nat) : Prop :=
  ∃ owner, analysis.allVariables[id]? = some owner ∧ owner.scope = scope ∧ owner.name = name

/-- The variable of a name in the innermost scope that has one, from a scope outwards. -/
inductive Sees (analysis : ScopeAnalysis) (name : String) : Nat → Option Nat → Prop
  | here {scope id : Nat} : analysis.Declares scope name id → Sees analysis name scope (some id)
  | outwards {id parent : Nat} {scope : Scope} {found : Option Nat} :
      (∀ other, ¬ analysis.Declares id name other) → analysis.scopes[id]? = some scope →
      scope.parent = some parent → Sees analysis name parent found → Sees analysis name id found
  | nowhere {id : Nat} {scope : Scope} :
      (∀ other, ¬ analysis.Declares id name other) → analysis.scopes[id]? = some scope →
      scope.parent = none → Sees analysis name id none

theorem declares_iff {scope id : Nat} {name : String} :
    (ofTree tree).Declares scope name id ↔ (Declared.ofTree tree).keys[id]? = some (scope, name) := by
  constructor
  · rintro ⟨owner, stored, rfl, rfl⟩
    exact key_of_variable stored
  · exact variable_of_key

theorem sees_lookup (name : String) (id : Nat) (inside : id < (Survey.ofTree tree).scopes.size) :
    (ofTree tree).Sees name id ((ofTree tree).lookup id name) := by
  induction id using Nat.strongRecOn with
  | ind id ih =>
      change (ofTree tree).Sees name id ((Declared.ofTree tree).lookup id name)
      rw [Declared.lookup]
      cases found : (Declared.ofTree tree).keys.findIdx? (· == (id, name)) with
      | some position =>
          obtain ⟨bounded, same, -⟩ := List.findIdx?_eq_some_iff_getElem.mp found
          refine .here (declares_iff.mpr ?_)
          rw [List.getElem?_eq_getElem bounded]
          exact congrArg some (beq_iff_eq.mp same)
      | none =>
          have absent : ∀ other, ¬ (ofTree tree).Declares id name other := by
            intro other declares
            have member := List.mem_of_getElem? (declares_iff.mp declares)
            have differs := List.findIdx?_eq_none_iff.mp found _ member
            simp at differs
          obtain ⟨⟨kind, node, parent⟩, stored⟩ : ∃ scope, (Survey.ofTree tree).scopes[id]? = some scope :=
            ⟨_, Array.getElem?_eq_getElem inside⟩
          dsimp only
          rw [show (Declared.ofTree tree).scopes[id]? = some ⟨kind, node, parent⟩ from stored]
          cases parent with
          | none => exact .nowhere absent stored rfl
          | some parent =>
              have below := Survey.rising_ofTree tree id _ parent stored rfl
              dsimp only
              rw [if_pos below]
              exact .outwards absent stored rfl (ih parent below (Nat.lt_trans below inside))

/-- An identifier that uses a name, with the variable to which the use is counted, if any. -/
def Counts (analysis : ScopeAnalysis) (identifier : Nat) : Option Nat → Prop
  | none => identifier ∈ analysis.unresolved
  | some id => ∃ owner reference, analysis.allVariables[id]? = some owner ∧
      reference ∈ owner.references ∧ reference.init = false ∧ reference.identifier = identifier

theorem exists_use_of_counts {identifier : Nat} {target : Option Nat}
    (formed : tree.WellFormed) (fits : tree.Fits)
    (counts : (ofTree tree).Counts identifier target) :
    ∃ use ∈ usesOf tree, use.Names tree ∧ use.reference.identifier = identifier ∧ use.target = target := by
  cases target with
  | none =>
      obtain ⟨use, member, same⟩ := List.mem_map.mp counts
      obtain ⟨member, untargeted⟩ := List.mem_filter.mp member
      have untargeted : use.target = none := by simpa using untargeted
      refine ⟨use, member, ?_, same, untargeted⟩
      rcases Use.cases_of_mem_usesOf formed fits member with ⟨-, targeted, -⟩ | names
      · rw [untargeted] at targeted
        cases targeted
      · exact names
  | some id =>
      obtain ⟨owner, reference, stored, listed, plain, rfl⟩ := counts
      have member := mem_usesOf_of_reference stored listed
      refine ⟨_, member, ?_, rfl, rfl⟩
      rcases Use.cases_of_mem_usesOf formed fits member with ⟨init, -⟩ | names
      · rw [plain] at init
        cases init
      · exact names

/-- Uses of a name by the same identifier have the same target. -/
theorem target_unique {left right : Use} (leftNames : left.Names tree) (rightNames : right.Names tree)
    (same : left.reference.identifier = right.reference.identifier) : left.target = right.target := by
  obtain ⟨-, -, scope, name, surrounds, named, targeted⟩ := leftNames
  obtain ⟨-, -, otherScope, otherName, otherSurrounds, otherNamed, otherTargeted⟩ := rightNames
  rw [same, otherSurrounds] at surrounds
  rw [same, otherNamed] at named
  rw [targeted, otherTargeted, Option.some.inj surrounds, Option.some.inj named]

/-- The identifiers that mean a variable, each with the variable. -/
def meanings (tree : Tree) : List (Nat × Nat) :=
  ((Survey.ofTree tree).bindings.toList.map fun binding =>
      (binding.identifier, (Declared.ofTree tree).keys.idxOf binding.key)) ++
    (usesOf tree).filterMap fun use => use.target.map fun id => (use.reference.identifier, id)

theorem mem_meanings_of_binding {binding : Binding}
    (member : binding ∈ (Survey.ofTree tree).bindings.toList) :
    (binding.identifier, (Declared.ofTree tree).keys.idxOf binding.key) ∈ meanings tree :=
  List.mem_append_left _ (List.mem_map.mpr ⟨binding, member, rfl⟩)

theorem mem_meanings_of_use {use : Use} {id : Nat} (member : use ∈ usesOf tree)
    (targeted : use.target = some id) : (use.reference.identifier, id) ∈ meanings tree :=
  List.mem_append_right _ (List.mem_filterMap.mpr ⟨use, member, by rw [targeted]; rfl⟩)

theorem cases_of_mem_meanings (formed : tree.WellFormed) (fits : tree.Fits) {identifier id : Nat}
    (member : (identifier, id) ∈ meanings tree) :
    (Declared.ofTree tree).binder? identifier = some id ∨
      ∃ use ∈ usesOf tree, use.Names tree ∧ use.reference.identifier = identifier ∧ use.target = some id := by
  rcases List.mem_append.mp member with bound | used
  · obtain ⟨binding, recorded, same⟩ := List.mem_map.mp bound
    obtain ⟨rfl, rfl⟩ := Prod.mk.inj same
    exact .inl (Declared.binder?_of_binding formed recorded)
  · obtain ⟨use, visited, made⟩ := List.mem_filterMap.mp used
    obtain ⟨target, targeted, same⟩ := Option.map_eq_some_iff.mp made
    obtain ⟨rfl, rfl⟩ := Prod.mk.inj same
    rcases Use.cases_of_mem_usesOf formed fits visited with ⟨-, -, bound⟩ | names
    · exact .inl (bound.symm.trans targeted)
    · exact .inr ⟨use, visited, names, rfl, targeted⟩

theorem meaning_unique (formed : tree.WellFormed) (fits : tree.Fits) {identifier left right : Nat}
    (leftMember : (identifier, left) ∈ meanings tree) (rightMember : (identifier, right) ∈ meanings tree) :
    left = right := by
  rcases cases_of_mem_meanings formed fits leftMember with leftBound | ⟨use, -, names, rfl, targeted⟩
  · rcases cases_of_mem_meanings formed fits rightMember with rightBound | ⟨use, -, names, rfl, -⟩
    · exact Option.some.inj (leftBound.symm.trans rightBound)
    · rw [names.2.1] at leftBound
      cases leftBound
  · rcases cases_of_mem_meanings formed fits rightMember with rightBound | ⟨other, -, otherNames, same, otherTargeted⟩
    · rw [names.2.1] at rightBound
      cases rightBound
    · rw [target_unique otherNames names same, targeted] at otherTargeted
      exact Option.some.inj otherTargeted

theorem variableId?_eq_some_iff (formed : tree.WellFormed) (fits : tree.Fits) {identifier id : Nat} :
    (ofTree tree).variableId? identifier = some id ↔ (identifier, id) ∈ meanings tree := by
  refine tabulate_eq_some_iff ?_ fun left right => meaning_unique formed fits
  rintro ⟨other, target⟩ member
  rcases List.mem_append.mp member with bound | used
  · obtain ⟨binding, recorded, same⟩ := List.mem_map.mp bound
    obtain ⟨rfl, -⟩ := Prod.mk.inj same
    exact Tree.lt_size_of_identifierName? (Declared.declares_of_binding formed recorded).1
  · obtain ⟨use, visited, made⟩ := List.mem_filterMap.mp used
    obtain ⟨id, -, same⟩ := Option.map_eq_some_iff.mp made
    obtain ⟨rfl, -⟩ := Prod.mk.inj same
    exact Use.inside_of_visit (tabulate_size _ _) 0 _ visited

/-- An identifier that uses a name means what its use is counted to. -/
theorem variableId?_of_names (formed : tree.WellFormed) (fits : tree.Fits) {use : Use}
    (member : use ∈ usesOf tree) (names : use.Names tree) :
    (ofTree tree).variableId? use.reference.identifier = use.target := by
  cases targeted : use.target with
  | some id => exact (variableId?_eq_some_iff formed fits).mpr (mem_meanings_of_use member targeted)
  | none =>
      cases found : (ofTree tree).variableId? use.reference.identifier with
      | none => rfl
      | some id =>
          rcases cases_of_mem_meanings formed fits ((variableId?_eq_some_iff formed fits).mp found) with
            bound | ⟨other, -, otherNames, same, otherTargeted⟩
          · rw [names.2.1] at bound
            cases bound
          · rw [target_unique otherNames names same, targeted] at otherTargeted
            cases otherTargeted

/-- An identifier that is declared means a variable of its name that lives at the home of the declaration. -/
theorem exists_variable_of_declares (formed : tree.WellFormed) (fits : tree.Fits) {node identifier : Nat}
    {place : Home} (declares : tree.Declares node place identifier) :
    ∃ id owner, (ofTree tree).variableId? identifier = some id ∧
      (ofTree tree).allVariables[id]? = some owner ∧
      tree.identifierName? identifier = some owner.name ∧
      Declared.home tree node place = some owner.scope := by
  obtain ⟨binding, member, rfl, lives⟩ := Declared.exists_binding_of_declares formed fits declares
  have stored := List.getElem?_idxOf (Declared.key_mem member)
  obtain ⟨owner, found, scopeEq, nameEq⟩ := variable_of_key stored
  refine ⟨_, owner, (variableId?_eq_some_iff formed fits).mpr (mem_meanings_of_binding member), found, ?_, ?_⟩
  · rw [nameEq]
    exact (Declared.declares_of_binding formed member).1
  · rw [scopeEq]
    exact lives

/-- Every variable is declared somewhere. -/
theorem exists_declaration_of_declares (formed : tree.WellFormed) {scope id : Nat} {name : String}
    (declares : (ofTree tree).Declares scope name id) :
    ∃ node place identifier, tree.Declares node place identifier ∧
      tree.identifierName? identifier = some name ∧ Declared.home tree node place = some scope := by
  have member := List.mem_eraseDups.mp (List.mem_of_getElem? (declares_iff.mp declares))
  obtain ⟨binding, recorded, same⟩ := List.mem_map.mp member
  obtain ⟨rfl, rfl⟩ := Prod.mk.inj same
  obtain ⟨named, node, place, declares, lives⟩ := Declared.declares_of_binding formed recorded
  exact ⟨node, place, binding.identifier, declares, named, lives⟩

theorem mem_unresolved_of_use {use : Use} (member : use ∈ usesOf tree) (untargeted : use.target = none) :
    use.reference.identifier ∈ (ofTree tree).unresolved :=
  List.mem_map.mpr ⟨use, List.mem_filter.mpr ⟨member, by rw [untargeted]; rfl⟩, rfl⟩

/-- Names are resolved lexically: an identifier that uses a name means the variable of that name in the
innermost scope around it that has one, and is unresolved if there is none; a declared identifier means a
variable of its name in the scope where the declaration places it; and a scope has one variable of a name. The
scopes are that of the program and, in preorder, those of the nodes that open one, each inside the scope around
its node. -/
theorem parse_resolves_lexically (source : String) (tree : Tree) (parsed : Tree.parse source = .ok tree) :
    let analysis := ofTree tree
    (∀ identifier target, analysis.Counts identifier target →
      ∃ scope name, Declared.around tree identifier = some scope ∧
        tree.identifierName? identifier = some name ∧ analysis.lookup scope name = target ∧
        analysis.Sees name scope target ∧ analysis.variableId? identifier = target ∧
        (identifier ∈ analysis.unresolved ↔ target = none)) ∧
    (∀ node place identifier, tree.Declares node place identifier →
      ∃ id owner, analysis.variableId? identifier = some id ∧ analysis.allVariables[id]? = some owner ∧
        tree.identifierName? identifier = some owner.name ∧
        Declared.home tree node place = some owner.scope) ∧
    (∀ scope name id, analysis.Declares scope name id →
      ∃ node place identifier, tree.Declares node place identifier ∧
        tree.identifierName? identifier = some name ∧ Declared.home tree node place = some scope) ∧
    (∀ left right scope name, analysis.Declares scope name left → analysis.Declares scope name right →
      left = right) ∧
    (∀ node id, analysis.declared.openedBy? node = some id ↔
      ∃ scope, analysis.scopes[id]? = some scope ∧ scope.node = node) ∧
    (∀ node kind, Survey.opens? tree node = some kind ↔ tree.Opens node kind) ∧
    analysis.scopes.toList = { kind := .program, node := tree.root, parent := none } ::
      tree.preorder.filterMap fun node => (Survey.opens? tree node).map fun kind =>
        { kind, node, parent := Declared.around tree node } := by
  have formed := Tree.wellFormed_of_parse parsed
  have fits := Tree.fits_of_parse parsed
  refine ⟨?_, fun _ _ _ => exists_variable_of_declares formed fits,
    fun _ _ _ => exists_declaration_of_declares formed, ?_, ?_, fun _ _ => Survey.opens?_eq_some_iff,
    (Survey.adds_ofTree formed).scopes⟩
  · intro identifier target counts
    obtain ⟨use, member, names, rfl, rfl⟩ := exists_use_of_counts formed fits counts
    have ⟨_, _, scope, name, surrounds, named, targeted⟩ := names
    refine ⟨scope, name, surrounds, named, targeted.symm, ?_, variableId?_of_names formed fits member names, ?_⟩
    · rw [targeted]
      exact sees_lookup name scope (Declared.around_lt_size formed surrounds)
    · constructor
      · intro unresolved
        obtain ⟨other, -, otherNames, same, untargeted⟩ :=
          exists_use_of_counts formed fits (show (ofTree tree).Counts _ none from unresolved)
        rw [← target_unique otherNames names same, untargeted]
      · exact mem_unresolved_of_use member
  · rintro left right scope name ⟨leftOwner, leftStored, rfl, rfl⟩ ⟨rightOwner, rightStored, sameScope, sameName⟩
    exact variable_unique leftStored rightStored sameScope.symm sameName.symm
  · intro node id
    exact Declared.openedBy?_iff_exists_scope formed

/-- A use in a block before the declaration, a use of a name that is not declared, and a block with a variable
of the same name, which its own use means. -/
theorem parse_resolves_lexically_hoisted :
    ∃ tree, Tree.parse "{ x }\nvar x = 1\ny\n{ let x; x }" = .ok tree ∧ (ofTree tree).Counts 0 (some 0) ∧
      (ofTree tree).variableId? 0 = some 0 ∧ (ofTree tree).Counts 7 none ∧
      (ofTree tree).variableId? 7 = none ∧ tree.Declares 6 .function 3 ∧
      (∃ id owner, (ofTree tree).variableId? 3 = some id ∧ (ofTree tree).allVariables[id]? = some owner ∧
        Declared.home tree 6 .function = some owner.scope) ∧
      (ofTree tree).Counts 12 (some 1) ∧ (ofTree tree).variableId? 12 = some 1 ∧
      tree.Opens 2 .block ∧ tree.Opens 14 .block ∧
      (ofTree tree).scopes.toList = [⟨.program, 15, none⟩, ⟨.block, 2, some 0⟩, ⟨.block, 14, some 0⟩] := by
  have checks : (Tree.parse "{ x }\nvar x = 1\ny\n{ let x; x }").toOption.any (fun tree =>
      decide ((ofTree tree).allVariables = #[⟨"x", 0, [3], [⟨0, .read, false⟩, ⟨3, .write, true⟩]⟩,
          ⟨"x", 2, [9], [⟨12, .read, false⟩]⟩] ∧
        (ofTree tree).unresolved = [7] ∧ ⟨0, 5, 3, "x"⟩ ∈ (Survey.ofTree tree).bindings.toList ∧
        (tree.declarer? 3).bind (tree.homeOf? 3) = some (6, .function) ∧
        Survey.opens? tree 2 = some .block ∧ Survey.opens? tree 14 = some .block ∧ tree.root = 15 ∧
        tree.preorder.filterMap (Survey.scopeRecord tree) =
          [⟨.block, 2, some 0⟩, ⟨.block, 14, some 0⟩])) = true := by
    decide +kernel
  obtain ⟨tree, parsed, checks⟩ := Tree.exists_of_checks checks
  obtain ⟨stored, unresolved, bound, home_eq, first, second, root_eq, records⟩ := of_decide_eq_true checks
  have ⟨uses, bindings, _, _, _, opens, scopes⟩ := parse_resolves_lexically _ tree parsed
  have read : (ofTree tree).Counts 0 (some 0) :=
    ⟨_, _, by rw [stored]; rfl, List.mem_cons_self, rfl, rfl⟩
  have free : (ofTree tree).Counts 7 none := by
    rw [Counts, unresolved]
    exact List.mem_singleton.mpr rfl
  have shadowed : (ofTree tree).Counts 12 (some 1) :=
    ⟨_, _, by rw [stored]; rfl, List.mem_cons_self, rfl, rfl⟩
  have binds : tree.Declares 6 .function 3 := by
    have formed := Tree.wellFormed_of_parse parsed
    obtain ⟨-, node, home, declares, -⟩ := Declared.declares_of_binding formed bound
    rw [formed.homeOf?_of_declares declares] at home_eq
    obtain ⟨rfl, rfl⟩ := Prod.mk.inj (Option.some.inj home_eq)
    exact declares
  obtain ⟨_, _, -, -, -, -, readMeans, -⟩ := uses 0 (some 0) read
  obtain ⟨_, _, -, -, -, -, freeMeans, -⟩ := uses 7 none free
  obtain ⟨_, _, -, -, -, -, shadowedMeans, -⟩ := uses 12 (some 1) shadowed
  obtain ⟨id, owner, means, found, -, lives⟩ := bindings 6 .function 3 binds
  refine ⟨tree, parsed, read, readMeans, free, freeMeans, binds, ⟨id, owner, means, found, lives⟩, shadowed,
    shadowedMeans, (opens 2 .block).mp first, (opens 14 .block).mp second, ?_⟩
  rw [scopes, root_eq]
  exact congrArg (List.cons _) records

end ScopeAnalysis

end Heed
