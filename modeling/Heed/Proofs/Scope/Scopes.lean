import Heed.Proofs.Table
import Heed.Proofs.Tree.Outline
import Heed.Scope.Analysis

/-!
# Which scope surrounds a node

The scopes of a tree are those of the nodes that open one, in preorder. So a node and the scope that it
opens determine each other, and the scope around a node is the one of its nearest ancestor that opens one.
-/

set_option autoImplicit false

namespace Heed

/-- The nodes that open a scope. The block of a function opens none, since it shares the scope of the function. -/
inductive Tree.Opens (tree : Tree) (node : Nat) : ScopeKind → Prop where
  | function (isFunction : (tree.kind node).isFunctionLike = true) : Opens tree node .function
  | forLoop {init test next : Option Nat} {body : Nat}
      (loops : tree.kind node = .forStatement init test next body) : Opens tree node .loop
  | forOf {left right body : Nat} (loops : tree.kind node = .forOfStatement left right body) :
      Opens tree node .loop
  | forIn {left right body : Nat} (loops : tree.kind node = .forInStatement left right body) :
      Opens tree node .loop
  | switch {discriminant : Nat} {cases : List Nat}
      (switches : tree.kind node = .switchStatement discriminant cases) : Opens tree node .block
  | catchClause {param : Option Nat} {body : Nat} (catches : tree.kind node = .catchClause param body) :
      Opens tree node .block
  | block {body : List Nat} (isBlock : tree.kind node = .block body)
      (standing : ∀ parent, tree.parent? node = some parent → (tree.kind parent).isFunctionLike = false) :
      Opens tree node .block

namespace Survey

variable {tree : Tree}

theorem opens?_block {node : Nat} {body : List Nat} (isBlock : tree.kind node = .block body)
    (standing : ∀ parent, tree.parent? node = some parent → (tree.kind parent).isFunctionLike = false) :
    opens? tree node = some .block := by
  have outside : (tree.parentKind? node).any NodeKind.isFunctionLike = false := by
    rw [Tree.parentKind?]
    cases found : tree.parent? node with
    | none => rfl
    | some parent => exact standing parent found
  simp only [opens?, isBlock, outside, Bool.false_eq_true, if_false]

theorem opens?_eq_some_iff {node : Nat} {kind : ScopeKind} :
    opens? tree node = some kind ↔ tree.Opens node kind := by
  constructor
  · intro opened
    cases kindEq : tree.kind node with
    | block body =>
        simp only [opens?, kindEq] at opened
        split at opened
        case isTrue => cases opened
        case isFalse outside =>
            cases opened
            refine .block kindEq fun parent found => ?_
            rw [Tree.parentKind?, found] at outside
            exact Bool.eq_false_iff.mpr outside
    | functionDeclaration | functionExpression | arrowFunction | methodDefinition =>
        simp only [opens?, kindEq] at opened
        cases opened
        exact .function (by rw [kindEq]; rfl)
    | forStatement =>
        simp only [opens?, kindEq] at opened
        cases opened
        exact .forLoop kindEq
    | forOfStatement =>
        simp only [opens?, kindEq] at opened
        cases opened
        exact .forOf kindEq
    | forInStatement =>
        simp only [opens?, kindEq] at opened
        cases opened
        exact .forIn kindEq
    | switchStatement =>
        simp only [opens?, kindEq] at opened
        cases opened
        exact .switch kindEq
    | catchClause =>
        simp only [opens?, kindEq] at opened
        cases opened
        exact .catchClause kindEq
    | _ => simp [opens?, kindEq] at opened
  · rintro (isFunction | loops | loops | loops | switches | catches | ⟨isBlock, standing⟩)
    · cases kindEq : tree.kind node with
      | functionDeclaration | functionExpression | arrowFunction | methodDefinition => simp only [opens?, kindEq]
      | _ => simp [kindEq, NodeKind.isFunctionLike] at isFunction
    · simp only [opens?, loops]
    · simp only [opens?, loops]
    · simp only [opens?, loops]
    · simp only [opens?, switches]
    · simp only [opens?, catches]
    · exact opens?_block isBlock standing

def records (tree : Tree) (scope owner : Nat) (identifiers : List Nat) : List Binding :=
  identifiers.filterMap fun identifier =>
    (tree.identifierName? identifier).map fun name => { scope, owner, identifier, name }

/-- The bindings of what a node declares around itself: a `var` in the function, all else in the enclosing
scope. -/
def outerRecords (tree : Tree) (enclosing function node : Nat) : List Binding :=
  match tree.kind node with
  | .variableDeclaration word declarators _ =>
      declarators.flatMap fun declarator =>
        match tree.kind declarator with
        | .declarator pattern _ =>
            records tree (if word = .var_ then function else enclosing) declarator (tree.boundBy pattern)
        | _ => []
  | .functionDeclaration name _ _ _ _ => records tree enclosing node [name]
  | .classDeclaration name _ _ _ _ => records tree enclosing node [name]
  | _ => []

def bind (survey : Survey) (bindings : List Binding) : Survey :=
  { survey with bindings := survey.bindings ++ bindings.toArray }

theorem bind_nil (survey : Survey) : survey.bind [] = survey := by simp [bind]

theorem bind_append (survey : Survey) (left right : List Binding) :
    survey.bind (left ++ right) = (survey.bind left).bind right := by simp [bind]

theorem declareOutside_eq (survey : Survey) (scope node : Nat) :
    survey.declareOutside tree scope node =
      survey.bind (outerRecords tree scope (functionScope survey.scopes scope) node) := by
  rw [declareOutside, outerRecords]
  cases tree.kind node with
  | variableDeclaration word declarators =>
      dsimp only
      generalize functionScope survey.scopes scope = function
      induction declarators generalizing survey with
      | nil => exact (survey.bind_nil).symm
      | cons declarator rest ih =>
          rw [List.foldl_cons, ih, List.flatMap_cons, bind_append]
          cases tree.kind declarator with
          | declarator => rfl
          | _ => rw [bind_nil]
  | functionDeclaration => rfl
  | classDeclaration => rfl
  | _ => exact (survey.bind_nil).symm

@[simp] theorem scopes_declare (survey : Survey) (scope owner : Nat) (identifiers : List Nat) :
    (survey.declare tree scope owner identifiers).scopes = survey.scopes := rfl

@[simp] theorem scopes_declareOutside (survey : Survey) (scope node : Nat) :
    (survey.declareOutside tree scope node).scopes = survey.scopes := by
  rw [declareOutside_eq]
  rfl

def opening (tree : Tree) (node : Nat) : Bool := (opens? tree node).isSome

def openers (survey : Survey) : List Nat := survey.scopes.toList.map Scope.node

mutual

theorem openers_visit (scope : Nat) : ∀ (outline : Outline) (survey : Survey),
    (visit tree scope outline survey).openers =
      survey.openers ++ outline.preorder.filter (opening tree)
  | .node node children, survey => by
      rw [visit, Outline.preorder]
      dsimp only
      split
      case h_1 closed =>
          rw [openers_visitAll, List.filter_cons_of_neg (by simp [opening, closed])]
          simp [openers]
      case h_2 kind opened =>
          rw [openers_visitAll, List.filter_cons_of_pos (by simp [opening, opened])]
          simp [openers, push]

theorem openers_visitAll (scope : Nat) : ∀ (outlines : List Outline) (survey : Survey),
    (visitAll tree scope outlines survey).openers =
      survey.openers ++ (Outline.preorderAll outlines).filter (opening tree)
  | [], survey => by simp [visitAll, Outline.preorderAll]
  | outline :: rest, survey => by
      rw [visitAll, openers_visitAll, openers_visit, Outline.preorderAll, List.filter_append,
        List.append_assoc]

end

mutual

theorem scopes_prefix_visit (scope : Nat) : ∀ (outline : Outline) (survey : Survey),
    survey.scopes.toList <+: (visit tree scope outline survey).scopes.toList
  | .node node children, survey => by
      rw [visit]
      dsimp only
      split
      case h_1 =>
          have grown := scopes_prefix_visitAll scope children (survey.declareOutside tree scope node)
          rwa [scopes_declareOutside] at grown
      case h_2 kind _ =>
          refine List.IsPrefix.trans ?_ (scopes_prefix_visitAll _ children _)
          simp [push]

theorem scopes_prefix_visitAll (scope : Nat) : ∀ (outlines : List Outline) (survey : Survey),
    survey.scopes.toList <+: (visitAll tree scope outlines survey).scopes.toList
  | [], _ => List.prefix_refl _
  | outline :: rest, survey =>
      (scopes_prefix_visit scope outline survey).trans
        (scopes_prefix_visitAll scope rest (visit tree scope outline survey))

end

/-- Every scope but the first stands inside an earlier one. -/
def Rising (scopes : Array Scope) : Prop :=
  ∀ (id : Nat) (scope : Scope) (parent : Nat), scopes[id]? = some scope → scope.parent = some parent →
    parent < id

theorem Rising.push {scopes : Array Scope} (rising : Rising scopes) {scope : Scope}
    (below : ∀ parent, scope.parent = some parent → parent < scopes.size) :
    Rising (scopes.push scope) := by
  intro id other parent found inner
  rw [Array.getElem?_push] at found
  split at found
  case isTrue same =>
      obtain rfl := Option.some.inj found
      rw [same]
      exact below parent inner
  case isFalse => exact rising id other parent found inner

mutual

theorem rising_visit (scope : Nat) : ∀ (outline : Outline) (survey : Survey),
    scope < survey.scopes.size → Rising survey.scopes → Rising (visit tree scope outline survey).scopes
  | .node node children, survey => by
      intro inside rising
      rw [visit]
      dsimp only
      split
      case h_1 =>
          exact rising_visitAll scope children _ (by simpa using inside) (by simpa using rising)
      case h_2 kind _ =>
          refine rising_visitAll _ children _ (by simp [Survey.push]) ?_
          rw [scopes_declare]
          refine Rising.push (by simpa using rising) fun parent same => ?_
          obtain rfl := Option.some.inj same
          simpa using inside

theorem rising_visitAll (scope : Nat) : ∀ (outlines : List Outline) (survey : Survey),
    scope < survey.scopes.size → Rising survey.scopes → Rising (visitAll tree scope outlines survey).scopes
  | [], _ => fun _ rising => rising
  | outline :: rest, survey => by
      intro inside rising
      rw [visitAll]
      have between : survey.scopes.toList <+: (visit tree scope outline survey).scopes.toList :=
        scopes_prefix_visit scope outline survey
      have grown := between.length_le
      refine rising_visitAll scope rest _ ?_ (rising_visit scope outline survey inside rising)
      simp only [Array.length_toList] at grown
      omega

end

theorem openers_ofTree (tree : Tree) :
    (ofTree tree).openers = tree.root :: tree.preorder.filter (opening tree) := by
  rw [ofTree, openers_visit]
  rfl

theorem rising_ofTree (tree : Tree) : Rising (ofTree tree).scopes := by
  refine rising_visit 0 _ _ (by simp) fun id scope parent found inner => ?_
  have inside : id = 0 := by
    have inside := (Array.getElem?_eq_some_iff.mp found).1
    simpa using inside
  subst inside
  obtain rfl := Option.some.inj found
  cases inner

end Survey

def Declared.ofTree (tree : Tree) : Declared := ofSurvey tree.size (Survey.ofTree tree)

namespace Declared

/-- The scope around a node: that of its nearest ancestor that opens one. -/
def around (tree : Tree) (node : Nat) : Option Nat :=
  (tree.ancestors node).findSome? (ofTree tree).openedBy?

variable {tree : Tree} (formed : tree.WellFormed)

include formed

theorem opens?_root : Survey.opens? tree tree.root = none := by
  obtain ⟨body, kindEq⟩ := formed.root_program
  rw [Survey.opens?, kindEq]

theorem nodup_openers : (Survey.ofTree tree).openers.Nodup := by
  rw [Survey.openers_ofTree, List.nodup_cons]
  refine ⟨fun member => ?_, (formed.nodup_preorder_outline tree.root).filter _⟩
  have opened := (List.mem_filter.mp member).2
  rw [Survey.opening, opens?_root formed] at opened
  cases opened

theorem lt_size_of_mem_openers {node : Nat} (member : node ∈ (Survey.ofTree tree).openers) :
    node < tree.size := by
  rw [Survey.openers_ofTree, List.mem_cons] at member
  rcases member with rfl | member
  · have last := formed.root_last
    omega
  · exact formed.lt_size_of_mem_preorder (List.mem_filter.mp member).1

/-- A node and the scope that it opens determine each other. -/
theorem openedBy?_eq_some_iff {node scope : Nat} :
    (ofTree tree).openedBy? node = some scope ↔ (Survey.ofTree tree).openers[scope]? = some node := by
  have member_iff : ∀ node scope, (node, scope) ∈ (Survey.ofTree tree).scopes.toList.zipIdx.map
      (fun entry => (entry.1.node, entry.2)) ↔ (Survey.ofTree tree).openers[scope]? = some node := by
    intro node scope
    rw [Survey.openers, List.getElem?_map, Option.map_eq_some_iff, List.mem_map]
    constructor
    · rintro ⟨⟨found, id⟩, member, same⟩
      obtain ⟨rfl, rfl⟩ := Prod.mk.inj same
      exact ⟨found, List.mem_zipIdx_iff_getElem?.mp member, rfl⟩
    · rintro ⟨found, member, rfl⟩
      exact ⟨(found, scope), List.mem_zipIdx_iff_getElem?.mpr member, rfl⟩
  rw [← member_iff]
  refine tabulate_eq_some_iff ?_ ?_
  · rintro ⟨other, id⟩ member
    exact lt_size_of_mem_openers formed (List.mem_of_getElem? ((member_iff other id).mp member))
  · intro left right leftMember rightMember
    have leftFound := (member_iff node left).mp leftMember
    have rightFound := (member_iff node right).mp rightMember
    exact (List.getElem?_inj (List.getElem?_eq_some_iff.mp leftFound).1 (nodup_openers formed)).mp
      (leftFound.trans rightFound.symm)

theorem openedBy?_root : (ofTree tree).openedBy? tree.root = some 0 := by
  rw [openedBy?_eq_some_iff formed, Survey.openers_ofTree]
  rfl

theorem openedBy?_eq_none {node : Nat} (closed : Survey.opens? tree node = none)
    (other : node ≠ tree.root) : (ofTree tree).openedBy? node = none := by
  cases found : (ofTree tree).openedBy? node with
  | none => rfl
  | some scope =>
      have member := List.mem_of_getElem? ((openedBy?_eq_some_iff formed).mp found)
      rw [Survey.openers_ofTree, List.mem_cons, List.mem_filter] at member
      rcases member with isRoot | ⟨-, opened⟩
      · exact absurd isRoot other
      · simp [Survey.opening, closed] at opened

theorem around_eq {node parent : Nat} (found : tree.parent? node = some parent) :
    around tree node = ((ofTree tree).openedBy? parent).or (around tree parent) := by
  rw [around, around, formed.ancestors_eq_cons found, List.findSome?_cons]
  cases (ofTree tree).openedBy? parent <;> rfl

end Declared

namespace Survey

variable {tree : Tree}

/-- The nearest function does not depend on scopes that are opened later. -/
theorem functionScope_of_prefix {scopes more : Array Scope} (grown : scopes.toList <+: more.toList)
    (scope : Nat) (inside : scope < scopes.size) : functionScope scopes scope = functionScope more scope := by
  have same : ∀ id < scopes.size, more[id]? = scopes[id]? := by
    intro id inside
    obtain ⟨tail, split⟩ := grown
    rw [← Array.getElem?_toList, ← Array.getElem?_toList, ← split,
      List.getElem?_append_left (by simpa using inside)]
  induction scope using Nat.strongRecOn with
  | ind scope ih =>
      rw [functionScope, functionScope, same scope inside]
      split
      · split
        case isTrue below => exact ih _ below (by omega)
        case isFalse => rfl
      · split
        case isTrue below => exact ih _ below (by omega)
        case isFalse => rfl
      · rfl

def scopeRecord (tree : Tree) (node : Nat) : Option Scope :=
  (opens? tree node).map fun kind => { kind, node, parent := Declared.around tree node }

/-- The bindings of what a node declares, around itself and in the scope that it opens. -/
def nodeRecords (tree : Tree) (node : Nat) : List Binding :=
  let enclosing := (Declared.around tree node).getD 0
  outerRecords tree enclosing (functionScope (ofTree tree).scopes enclosing) node ++
    match opens? tree node with
    | some _ =>
        records tree (((Declared.ofTree tree).openedBy? node).getD 0) node (boundInside tree node)
    | none => []

/-- A survey that has grown by what some nodes open and declare. -/
structure Adds (tree : Tree) (nodes : List Nat) (before after : Survey) : Prop where
  scopes : after.scopes.toList = before.scopes.toList ++ nodes.filterMap (scopeRecord tree)
  bindings : after.bindings.toList = before.bindings.toList ++ nodes.flatMap (nodeRecords tree)

theorem Adds.refl (survey : Survey) : Adds tree [] survey survey := ⟨by simp, by simp⟩

theorem Adds.trans {left right : List Nat} {first second third : Survey}
    (adds : Adds tree left first second) (addsOn : Adds tree right second third) :
    Adds tree (left ++ right) first third := by
  refine ⟨?_, ?_⟩
  · rw [addsOn.scopes, adds.scopes, List.filterMap_append, List.append_assoc]
  · rw [addsOn.bindings, adds.bindings, List.flatMap_append, List.append_assoc]

/-- What a visit of a node adds to a survey in which `scope` surrounds the node. -/
def Visits (tree : Tree) (node : Nat) : Prop :=
  ∀ scope survey, Declared.around tree node = some scope → scope < survey.scopes.size →
    (visit tree scope (tree.outline node) survey).scopes.toList <+: (ofTree tree).scopes.toList →
    Adds tree (tree.outline node).preorder survey (visit tree scope (tree.outline node) survey)

theorem adds_visitAll {nodes : List Nat} (visits : ∀ node ∈ nodes, Visits tree node) {scope : Nat}
    (surrounds : ∀ node ∈ nodes, Declared.around tree node = some scope) (survey : Survey)
    (inside : scope < survey.scopes.size)
    (grown : (visitAll tree scope (nodes.map tree.outline) survey).scopes.toList <+:
      (ofTree tree).scopes.toList) :
    Adds tree (nodes.flatMap fun node => (tree.outline node).preorder) survey
      (visitAll tree scope (nodes.map tree.outline) survey) := by
  induction nodes generalizing survey with
  | nil => exact .refl survey
  | cons node rest ih =>
      rw [List.map_cons, visitAll] at grown ⊢
      rw [List.flatMap_cons]
      have between : survey.scopes.toList <+: (visit tree scope (tree.outline node) survey).scopes.toList :=
        scopes_prefix_visit scope _ survey
      have first := visits node List.mem_cons_self scope survey (surrounds node List.mem_cons_self) inside
        ((scopes_prefix_visitAll scope (rest.map tree.outline) _).trans grown)
      have longer := between.length_le
      simp only [Array.length_toList] at longer
      exact first.trans (ih (fun other member => visits other (List.mem_cons_of_mem _ member))
        (fun other member => surrounds other (List.mem_cons_of_mem _ member)) _ (by omega) grown)

theorem nodeRecords_of_closed {node scope : Nat} (surrounds : Declared.around tree node = some scope)
    (closed : opens? tree node = none) :
    nodeRecords tree node = outerRecords tree scope (functionScope (ofTree tree).scopes scope) node := by
  rw [nodeRecords, surrounds, closed]
  exact List.append_nil _

theorem nodeRecords_of_opened {node scope inner : Nat} {kind : ScopeKind}
    (surrounds : Declared.around tree node = some scope) (opened : opens? tree node = some kind)
    (found : (Declared.ofTree tree).openedBy? node = some inner) :
    nodeRecords tree node = outerRecords tree scope (functionScope (ofTree tree).scopes scope) node ++
      records tree inner node (boundInside tree node) := by
  rw [nodeRecords, surrounds, opened, found]
  rfl

theorem adds_closed {node scope : Nat} {survey : Survey}
    (surrounds : Declared.around tree node = some scope) (closed : opens? tree node = none)
    (inside : scope < survey.scopes.size)
    (grown : survey.scopes.toList <+: (ofTree tree).scopes.toList) :
    Adds tree [node] survey (survey.declareOutside tree scope node) := by
  rw [declareOutside_eq, functionScope_of_prefix grown scope inside]
  refine ⟨?_, ?_⟩
  · simp [bind, scopeRecord, closed]
  · simp [bind, nodeRecords_of_closed surrounds closed]

theorem adds_opened {node scope : Nat} {kind : ScopeKind} {survey : Survey}
    (surrounds : Declared.around tree node = some scope) (opened : opens? tree node = some kind)
    (found : (Declared.ofTree tree).openedBy? node = some survey.scopes.size)
    (inside : scope < survey.scopes.size)
    (grown : survey.scopes.toList <+: (ofTree tree).scopes.toList) :
    Adds tree [node] survey
      (((survey.declareOutside tree scope node).push { kind, node, parent := some scope }).declare tree
        survey.scopes.size node (boundInside tree node)) := by
  rw [declareOutside_eq, functionScope_of_prefix grown scope inside]
  refine ⟨?_, ?_⟩
  · simp [bind, push, scopeRecord, opened, surrounds]
  · simp [bind, push, declare, nodeRecords_of_opened surrounds opened found, records]

theorem visits (formed : tree.WellFormed) (node : Nat) : Visits tree node := by
  induction node using formed.descend with
  | step node ih =>
      intro scope survey surrounds inside grown
      have aroundChild : ∀ child ∈ tree.children node, Declared.around tree child =
          ((Declared.ofTree tree).openedBy? node).or (some scope) := fun child listed => by
        rw [Declared.around_eq formed ((formed.parent_iff child node).mpr listed), surrounds]
      have notRoot : node ≠ tree.root := by
        rintro rfl
        rw [Declared.around, Tree.WellFormed.ancestors_eq_nil formed.root_orphan] at surrounds
        cases surrounds
      have before := (scopes_prefix_visit scope (tree.outline node) survey).trans grown
      rw [formed.preorder_outline]
      rw [formed.outline_eq node] at grown ⊢
      rw [visit] at grown ⊢
      dsimp only at grown ⊢
      cases opened : opens? tree node with
      | none =>
          rw [opened] at grown
          dsimp only at grown ⊢
          have closed := Declared.openedBy?_eq_none formed opened notRoot
          refine (adds_closed surrounds opened inside before).trans (adds_visitAll ih ?_ _ ?_ grown)
          · intro child listed
            rw [aroundChild child listed, closed, Option.none_or]
          · simpa using inside
      | some kind =>
          rw [opened] at grown
          dsimp only at grown ⊢
          rw [scopes_declareOutside] at grown ⊢
          have pushed := (scopes_prefix_visitAll _ _ _).trans grown
          have found : (Declared.ofTree tree).openedBy? node = some survey.scopes.size := by
            rw [Declared.openedBy?_eq_some_iff formed, openers, List.getElem?_map]
            obtain ⟨tail, split⟩ := pushed
            rw [← split]
            simp [push]
          refine (adds_opened surrounds opened found inside before).trans (adds_visitAll ih ?_ _ ?_ grown)
          · intro child listed
            rw [aroundChild child listed, found, Option.some_or]
          · simp [push]

theorem nodeRecords_root (formed : tree.WellFormed) : nodeRecords tree tree.root = [] := by
  obtain ⟨body, kindEq⟩ := formed.root_program
  rw [nodeRecords, Declared.opens?_root formed]
  simp [outerRecords, kindEq]

/-- The scopes and bindings of a tree are those of its nodes, in preorder. -/
theorem adds_ofTree (formed : tree.WellFormed) :
    Adds tree tree.preorder
      { scopes := #[{ kind := .program, node := tree.root, parent := none }], bindings := #[] }
      (ofTree tree) := by
  have closed := Declared.opens?_root formed
  have visited : ofTree tree = visitAll tree 0 ((tree.children tree.root).map tree.outline)
      { scopes := #[{ kind := .program, node := tree.root, parent := none }], bindings := #[] } := by
    obtain ⟨body, kindEq⟩ := formed.root_program
    rw [ofTree, formed.outline_eq, visit, closed]
    simp only [declareOutside_eq, outerRecords, kindEq, bind_nil]
  have rootOnly : Adds tree [tree.root]
      { scopes := #[{ kind := .program, node := tree.root, parent := none }], bindings := #[] }
      { scopes := #[{ kind := .program, node := tree.root, parent := none }], bindings := #[] } := by
    refine ⟨?_, ?_⟩
    · simp [scopeRecord, closed]
    · simp [nodeRecords_root formed]
  rw [Tree.preorder, formed.preorder_outline]
  refine rootOnly.trans ?_
  have grown : (visitAll tree 0 ((tree.children tree.root).map tree.outline)
      { scopes := #[{ kind := .program, node := tree.root, parent := none }],
        bindings := #[] }).scopes.toList <+: (ofTree tree).scopes.toList :=
    visited ▸ List.prefix_refl _
  rw [visited]
  refine adds_visitAll (fun child _ => visits formed child) (fun child listed => ?_) _ (by simp) grown
  rw [Declared.around_eq formed ((formed.parent_iff child tree.root).mpr listed),
    Declared.openedBy?_root formed, Option.some_or]

theorem scope_cases (formed : tree.WellFormed) {id : Nat} {scope : Scope}
    (found : (ofTree tree).scopes[id]? = some scope) :
    scope = { kind := .program, node := tree.root, parent := none } ∨
      opens? tree scope.node = some scope.kind ∧ scope.parent = Declared.around tree scope.node := by
  have member : scope ∈ (ofTree tree).scopes.toList :=
    Array.mem_toList_iff.mpr (Array.mem_of_getElem? found)
  rw [(adds_ofTree formed).scopes] at member
  rcases List.mem_append.mp member with first | later
  · exact .inl (List.mem_singleton.mp first)
  · obtain ⟨node, -, made⟩ := List.mem_filterMap.mp later
    obtain ⟨kind, opened, rfl⟩ := Option.map_eq_some_iff.mp made
    exact .inr ⟨opened, rfl⟩

end Survey

namespace Declared

def isFunctionScope (declared : Declared) (scope : Nat) : Bool :=
  (declared.scopes[scope]?).any fun scope => scope.kind = .program ∨ scope.kind = .function

/-- The function or program scope around a node: that of its nearest ancestor that opens one. -/
def functionAround (tree : Tree) (node : Nat) : Option Nat :=
  (tree.ancestors node).findSome? fun outer =>
    ((ofTree tree).openedBy? outer).filter (ofTree tree).isFunctionScope

variable {tree : Tree} (formed : tree.WellFormed)

include formed

theorem openedBy?_iff_exists_scope {node id : Nat} : (ofTree tree).openedBy? node = some id ↔
    ∃ scope, (Survey.ofTree tree).scopes[id]? = some scope ∧ scope.node = node := by
  rw [openedBy?_eq_some_iff formed, Survey.openers, List.getElem?_map, Option.map_eq_some_iff,
    Array.getElem?_toList]

theorem around_lt_size {node id : Nat} (surrounds : around tree node = some id) :
    id < (Survey.ofTree tree).scopes.size := by
  obtain ⟨outer, -, found⟩ := List.exists_of_findSome?_eq_some surrounds
  obtain ⟨scope, stored, -⟩ := (openedBy?_iff_exists_scope formed).mp found
  exact (Array.getElem?_eq_some_iff.mp stored).1

theorem exists_around_of_mem_preorder {node : Nat} (reached : node ∈ tree.preorder)
    (other : node ≠ tree.root) : ∃ outer, around tree node = some outer := by
  have inner := formed.mem_preorder_outline_iff.mp reached
  rw [Tree.WellFormed.isWithin_iff] at inner
  rcases inner with isRoot | above
  · exact absurd isRoot other
  · cases found : around tree node with
    | some outer => exact ⟨outer, rfl⟩
    | none =>
        have closed := List.findSome?_eq_none_iff.mp found tree.root above
        rw [openedBy?_root formed] at closed
        cases closed

/-- A node that opens a scope inside another one stands in it. -/
theorem exists_around {node id : Nat} {kind : ScopeKind} (found : (ofTree tree).openedBy? node = some id)
    (opened : Survey.opens? tree node = some kind) : ∃ outer, around tree node = some outer := by
  have notRoot : node ≠ tree.root := by
    rintro rfl
    rw [opens?_root formed] at opened
    cases opened
  have member := List.mem_of_getElem? ((openedBy?_eq_some_iff formed).mp found)
  rw [Survey.openers_ofTree, List.mem_cons, List.mem_filter] at member
  rcases member with isRoot | ⟨reached, -⟩
  · exact absurd isRoot notRoot
  · exact exists_around_of_mem_preorder formed reached notRoot

theorem functionAround_eq {node id : Nat} (surrounds : around tree node = some id) :
    functionAround tree node = some (Survey.functionScope (Survey.ofTree tree).scopes id) := by
  induction node using formed.climb generalizing id with
  | top node orphan =>
      rw [around, Tree.WellFormed.ancestors_eq_nil orphan] at surrounds
      cases surrounds
  | step node parent found ih =>
      rw [around_eq formed found] at surrounds
      rw [functionAround, formed.ancestors_eq_cons found, List.findSome?_cons]
      cases opened : (ofTree tree).openedBy? parent with
      | none =>
          rw [opened, Option.none_or] at surrounds
          exact ih surrounds
      | some own =>
          rw [opened, Option.some_or] at surrounds
          obtain rfl := Option.some.inj surrounds
          obtain ⟨⟨kind, node, outer⟩, stored, same⟩ := (openedBy?_iff_exists_scope formed).mp opened
          obtain rfl : node = parent := same
          have isFunction_eq : (ofTree tree).isFunctionScope own =
              decide (kind = .program ∨ kind = .function) := by
            rw [isFunctionScope]
            exact congrArg (Option.any _) stored
          by_cases isFunction : kind = .program ∨ kind = .function
          · rw [Option.filter_some, isFunction_eq, decide_eq_true isFunction]
            refine congrArg some ?_
            rw [Survey.functionScope, stored]
            rcases isFunction with rfl | rfl <;> rfl
          · rw [Option.filter_some, isFunction_eq, decide_eq_false isFunction]
            obtain ⟨inner, outer_eq⟩ : Survey.opens? tree node = some kind ∧ outer = around tree node := by
              rcases Survey.scope_cases formed stored with first | later
              · exact absurd (.inl (Scope.mk.inj first).1) isFunction
              · exact later
            obtain ⟨next, surroundsNode⟩ := exists_around formed opened inner
            have below := Survey.rising_ofTree tree own _ next stored (outer_eq.trans surroundsNode)
            rw [outer_eq, surroundsNode] at stored
            refine (ih surroundsNode).trans (congrArg some ?_)
            rw [Survey.functionScope.eq_def _ own, stored]
            cases kind with
            | program => exact absurd (.inl rfl) isFunction
            | function => exact absurd (.inr rfl) isFunction
            | block => exact (if_pos below).symm
            | loop => exact (if_pos below).symm

end Declared

end Heed
