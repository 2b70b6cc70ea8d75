import Heed.Proofs.Scope.Resolution

/-!
# Renaming a variable

Giving all identifiers that mean a variable a name that no identifier has changes nothing in the analysis of
a tree but the name of that variable. Every other use still finds its variable, because the lookup that the
old name stopped is the lookup of a renamed identifier; and the new name is found where the old one was,
because nothing else has it.
-/

set_option autoImplicit false

namespace Heed

def NodeKind.rename (name : String) : NodeKind → NodeKind
  | .identifier _ ascription => .identifier name ascription
  | kind => kind

namespace Tree

/-- The tree in which the identifiers among the marked nodes have another name. -/
def rename (tree : Tree) (marked : List Nat) (name : String) : Tree :=
  { tree with
    nodes := tree.nodes.mapIdx fun id node =>
      if id ∈ marked then { node with kind := node.kind.rename name } else node }

variable (tree : Tree) (marked : List Nat) (name : String)

@[simp] theorem size_rename : (tree.rename marked name).size = tree.size := by
  simp [rename, size]

@[simp] theorem root_rename : (tree.rename marked name).root = tree.root := rfl

@[simp] theorem parent?_rename : (tree.rename marked name).parent? = tree.parent? := rfl

theorem kind_rename (node : Nat) : (tree.rename marked name).kind node =
    if node ∈ marked then (tree.kind node).rename name else tree.kind node := by
  rw [kind, kind, rename, Array.getElem?_mapIdx]
  cases tree.nodes[node]? with
  | none => exact (ite_self _).symm
  | some entry => exact apply_ite Node.kind _ _ _

/-- Only identifiers change, and they keep their ascription. -/
theorem kind_rename_cases (node : Nat) : (tree.rename marked name).kind node = tree.kind node ∨
    ∃ old ascription, tree.kind node = .identifier old ascription ∧
      (tree.rename marked name).kind node = .identifier name ascription := by
  rw [kind_rename]
  split
  case isFalse => exact .inl rfl
  case isTrue =>
      cases tree.kind node with
      | identifier old ascription => exact .inr ⟨old, ascription, rfl, rfl⟩
      | _ => exact .inl rfl

theorem identifierName?_rename (node : Nat) : (tree.rename marked name).identifierName? node =
    (tree.identifierName? node).map fun old => if node ∈ marked then name else old := by
  rw [identifierName?, identifierName?, kind_rename]
  split <;> cases tree.kind node <;> rfl

@[simp] theorem isIdentifier_rename (node : Nat) :
    ((tree.rename marked name).kind node).isIdentifier = (tree.kind node).isIdentifier := by
  rcases tree.kind_rename_cases marked name node with same | ⟨old, ascription, was, is⟩
  · rw [same]
  · rw [was, is]
    rfl

@[simp] theorem children_rename : (tree.rename marked name).children = tree.children := by
  funext node
  unfold children
  rcases tree.kind_rename_cases marked name node with same | ⟨old, ascription, was, is⟩
  · rw [same]
  · rw [was, is]
    rfl

@[simp] theorem outline_rename : (tree.rename marked name).outline = tree.outline := by
  funext node
  induction node using Nat.strongRecOn with
  | ind node ih =>
      rw [outline, outline, children_rename]
      refine congrArg (Outline.node node) (List.map_congr_left fun child _ => ?_)
      split
      case isTrue below => exact ih child below
      case isFalse => rfl

@[simp] theorem boundBy_rename : (tree.rename marked name).boundBy = tree.boundBy := by
  funext node
  induction node using Nat.strongRecOn with
  | ind node ih =>
      have parts : ∀ part, (if part < node then (tree.rename marked name).boundBy part else []) =
          if part < node then tree.boundBy part else [] := by
        intro part
        split
        case isTrue below => exact ih part below
        case isFalse => rfl
      rw [boundBy, boundBy]
      rcases tree.kind_rename_cases marked name node with same | ⟨old, ascription, was, is⟩
      · rw [same]
        simp only [parts]
        cases tree.kind node with
        | objectPattern properties =>
            refine List.flatMap_congr fun property _ => ?_
            rcases tree.kind_rename_cases marked name property with same | ⟨old, ascription, was, is⟩
            · rw [same]
            · rw [was, is]
        | _ => rfl
      · rw [was, is]

end Tree

def Binding.rename (marked : List Nat) (name : String) (binding : Binding) : Binding :=
  { binding with name := if binding.identifier ∈ marked then name else binding.name }

namespace Survey

variable {tree : Tree} {marked : List Nat} {name : String}

def rename (marked : List Nat) (name : String) (survey : Survey) : Survey :=
  { survey with bindings := survey.bindings.map (Binding.rename marked name) }

theorem declare_rename (survey : Survey) (scope owner : Nat) (identifiers : List Nat) :
    (survey.rename marked name).declare (tree.rename marked name) scope owner identifiers =
      (survey.declare tree scope owner identifiers).rename marked name := by
  simp only [declare, rename, Array.map_append, List.map_toArray, List.map_filterMap, Option.map_map,
    tree.identifierName?_rename marked name]
  rfl

theorem declareOutside_rename (survey : Survey) (scope node : Nat) :
    (survey.rename marked name).declareOutside (tree.rename marked name) scope node =
      (survey.declareOutside tree scope node).rename marked name := by
  unfold declareOutside
  rcases tree.kind_rename_cases marked name node with same | ⟨old, ascription, was, is⟩
  · rw [same]
    cases tree.kind node with
    | variableDeclaration word declarators ambient =>
        dsimp only
        rw [show (survey.rename marked name).scopes = survey.scopes from rfl]
        generalize (if word = .var_ then functionScope survey.scopes scope else scope) = target
        induction declarators generalizing survey with
        | nil => rfl
        | cons declarator rest ih =>
            rw [List.foldl_cons, List.foldl_cons, ← ih]
            congr 1
            rcases tree.kind_rename_cases marked name declarator with same | ⟨old, ascription, was, is⟩
            · rw [same]
              cases tree.kind declarator with
              | declarator pattern init =>
                  dsimp only
                  rw [tree.boundBy_rename marked name, declare_rename]
              | _ => rfl
            · rw [was, is]
    | functionDeclaration | classDeclaration => exact declare_rename _ _ _ _
    | _ => rfl
  · rw [was, is]

theorem opens?_rename : opens? (tree.rename marked name) = opens? tree := by
  funext node
  unfold opens?
  have around : ((tree.rename marked name).parentKind? node).any NodeKind.isFunctionLike =
      (tree.parentKind? node).any NodeKind.isFunctionLike := by
    rw [Tree.parentKind?, Tree.parentKind?, tree.parent?_rename marked name, Option.any_map, Option.any_map]
    cases tree.parent? node with
    | none => rfl
    | some parent =>
        rcases tree.kind_rename_cases marked name parent with same | ⟨old, ascription, was, is⟩
        · exact congrArg NodeKind.isFunctionLike same
        · simp only [Option.any_some]
          rw [was, is]
          rfl
  rcases tree.kind_rename_cases marked name node with same | ⟨old, ascription, was, is⟩
  · rw [same, around]
  · rw [was, is]

theorem boundInside_rename : boundInside (tree.rename marked name) = boundInside tree := by
  funext node
  unfold boundInside
  rw [tree.boundBy_rename marked name]
  rcases tree.kind_rename_cases marked name node with same | ⟨old, ascription, was, is⟩
  · rw [same]
  · rw [was, is]
    rfl

mutual

theorem visit_rename (scope : Nat) : ∀ outline survey,
    visit (tree.rename marked name) scope outline (survey.rename marked name) =
      (visit tree scope outline survey).rename marked name
  | .node node children, survey => by
      rw [visit, visit, declareOutside_rename, opens?_rename]
      cases opens? tree node with
      | none => exact visitAll_rename scope children _
      | some kind =>
          dsimp only
          rw [boundInside_rename, ← visitAll_rename, ← declare_rename]
          rfl

theorem visitAll_rename (scope : Nat) : ∀ outlines survey,
    visitAll (tree.rename marked name) scope outlines (survey.rename marked name) =
      (visitAll tree scope outlines survey).rename marked name
  | [], survey => by rw [visitAll, visitAll]
  | outline :: rest, survey => by
      rw [visitAll, visitAll, visit_rename scope outline, visitAll_rename scope rest]

end

theorem ofTree_rename :
    ofTree (tree.rename marked name) = (ofTree tree).rename marked name := by
  rw [ofTree, ofTree, tree.root_rename marked name, tree.outline_rename marked name, ← visit_rename, rename,
    Array.map_empty]

end Survey

def Variable.occurrences (owner : Variable) : List Nat :=
  owner.identifiers ++ owner.references.map (·.identifier)

def renameKey (old : VariableKey) (name : String) (key : VariableKey) : VariableKey :=
  if key = old then (old.1, name) else key

theorem renameKey_inj {old left right : VariableKey} {name : String} (leftFresh : left.2 ≠ name)
    (rightFresh : right.2 ≠ name) (same : renameKey old name left = renameKey old name right) :
    left = right := by
  unfold renameKey at same
  split at same <;> split at same
  case isTrue.isTrue isLeft isRight => rw [isLeft, isRight]
  case isTrue.isFalse => exact absurd (congrArg Prod.snd same).symm rightFresh
  case isFalse.isTrue => exact absurd (congrArg Prod.snd same) leftFresh
  case isFalse.isFalse => exact same

theorem idxOf_map {α β : Type} [BEq α] [LawfulBEq α] [BEq β] [LawfulBEq β] (f : α → β) {items : List α} {item : α}
    (inj : ∀ other ∈ items, f other = f item → other = item) : (items.map f).idxOf (f item) = items.idxOf item := by
  induction items with
  | nil => rfl
  | cons first rest ih =>
      have same : (f first == f item) = (first == item) := by
        rw [Bool.eq_iff_iff, beq_iff_eq, beq_iff_eq]
        exact ⟨inj first (.head _), congrArg f⟩
      rw [List.map_cons, List.idxOf_cons, List.idxOf_cons, same, ih fun other member => inj other (.tail _ member)]

theorem idxOf_eq_iff {α : Type} [BEq α] [LawfulBEq α] {items : List α} {item other : α} {id : Nat}
    (nodup : items.Nodup) (stored : items[id]? = some item) : items.idxOf other = id ↔ other = item := by
  obtain ⟨inside, rfl⟩ := List.getElem?_eq_some_iff.mp stored
  constructor
  · rintro rfl
    exact (List.getElem_idxOf inside).symm
  · rintro rfl
    exact nodup.idxOf_getElem id inside

namespace Declared

/-- A lookup that ends with a target ends with it under another name in other declarations, if the two agree
on every scope from which the first ends with that target. -/
theorem lookup_of_agree {left right : Declared} {leftName rightName : String} {target : Option Nat}
    (scopes : right.scopes = left.scopes)
    (agree : ∀ scope, left.lookup scope leftName = target →
      right.keys.findIdx? (· == (scope, rightName)) = left.keys.findIdx? (· == (scope, leftName)))
    {scope : Nat} (found : left.lookup scope leftName = target) : right.lookup scope rightName = target := by
  induction scope using Nat.strongRecOn with
  | ind scope ih =>
      have here := agree scope found
      rw [lookup] at found ⊢
      rw [here, scopes]
      split at found
      case h_1 id position => exact found
      case h_2 =>
          split at found
          case h_1 kind node parent stored =>
              split at found
              case isTrue below =>
                  rw [if_pos below]
                  exact ih parent below found
              case isFalse outside =>
                  rw [if_neg outside]
                  exact found
          case h_2 => exact found

theorem key_of_findIdx? {keys : List VariableKey} {key : VariableKey} {id : Nat}
    (found : keys.findIdx? (· == key) = some id) : keys[id]? = some key := by
  obtain ⟨bounded, same, -⟩ := List.findIdx?_eq_some_iff_getElem.mp found
  rw [List.getElem?_eq_getElem bounded]
  exact congrArg some (beq_iff_eq.mp same)

theorem exists_key_of_lookup {declared : Declared} {scope id : Nat} {name : String}
    (found : declared.lookup scope name = some id) : ∃ home, declared.keys[id]? = some (home, name) := by
  induction scope using Nat.strongRecOn with
  | ind scope ih =>
      rw [lookup] at found
      split at found
      case h_1 position here =>
          obtain rfl := Option.some.inj found
          exact ⟨scope, key_of_findIdx? here⟩
      case h_2 =>
          split at found
          case h_1 kind node parent _ =>
              split at found
              case isTrue below => exact ih parent below found
              case isFalse => cases found
          case h_2 => cases found

theorem lookup_of_mem {declared : Declared} (nodup : declared.keys.Nodup) {scope : Nat} {name : String}
    (member : (scope, name) ∈ declared.keys) :
    declared.lookup scope name = some (declared.keys.idxOf (scope, name)) := by
  rw [lookup]
  cases found : declared.keys.findIdx? (· == (scope, name)) with
  | none =>
      have differs := List.findIdx?_eq_none_iff.mp found _ member
      simp at differs
  | some position => exact congrArg some ((idxOf_eq_iff nodup (key_of_findIdx? found)).mpr rfl).symm

theorem findIdx?_map_congr {f : VariableKey → VariableKey} {before after : VariableKey} {keys : List VariableKey}
    (same : ∀ key ∈ keys, f key = after ↔ key = before) :
    (keys.map f).findIdx? (· == after) = keys.findIdx? (· == before) := by
  induction keys with
  | nil => rfl
  | cons key rest ih =>
      have first : (f key == after) = (key == before) := by
        rw [Bool.eq_iff_iff, beq_iff_eq, beq_iff_eq]
        exact same key (.head _)
      have others := ih fun other listed => same other (.tail _ listed)
      rw [List.map_cons, List.findIdx?_cons, List.findIdx?_cons, first, others]

section

variable {declared : Declared} (nodup : declared.keys.Nodup) {id : Nat} {key : VariableKey}
  (stored : declared.keys[id]? = some key) {name : String}

def rename (declared : Declared) (key : VariableKey) (name : String) : Declared :=
  { declared with keys := declared.keys.map (renameKey key name) }

theorem scopes_rename (declared : Declared) (key : VariableKey) (name : String) :
    (declared.rename key name).scopes = declared.scopes := rfl

include nodup stored

/-- A name that found the renamed variable finds it under the new name. -/
theorem lookup_rename_self (fresh : ∀ other ∈ declared.keys, other.2 ≠ name) {scope : Nat} {old : String}
    (found : declared.lookup scope old = some id) : (declared.rename key name).lookup scope name = some id := by
  obtain ⟨home, keyed⟩ := exists_key_of_lookup found
  obtain rfl := Option.some.inj (keyed.symm.trans stored)
  refine lookup_of_agree (scopes_rename declared _ name) (fun inner reached => ?_) found
  refine findIdx?_map_congr fun other listed => ?_
  by_cases same : other = (home, old)
  · rw [renameKey, if_pos same, same, Prod.mk.injEq, Prod.mk.injEq]
    exact and_congr_right fun _ => iff_of_true rfl rfl
  · rw [renameKey, if_neg same]
    refine iff_of_false (fun equal => fresh other listed (congrArg Prod.snd equal)) ?_
    -- a nearer variable of the old name would have been found instead
    rintro rfl
    rw [lookup_of_mem nodup listed, Option.some.injEq] at reached
    exact same ((idxOf_eq_iff nodup stored).mp reached)

/-- A name that did not find the renamed variable finds what it found. -/
theorem lookup_rename_other {scope : Nat} {old : String} (distinct : old ≠ name)
    (missed : declared.lookup scope old ≠ some id) :
    (declared.rename key name).lookup scope old = declared.lookup scope old := by
  refine lookup_of_agree (scopes_rename declared _ name) (fun inner reached => ?_) rfl
  refine findIdx?_map_congr fun other listed => ?_
  by_cases same : other = key
  · rw [renameKey, if_pos same]
    refine iff_of_false (fun equal => distinct (congrArg Prod.snd equal).symm) ?_
    rintro rfl
    rw [lookup_of_mem nodup listed, (idxOf_eq_iff nodup stored).mpr same] at reached
    exact missed reached.symm
  · rw [renameKey, if_neg same]

end

end Declared

namespace ScopeAnalysis

variable {tree : Tree} (formed : tree.WellFormed) (fits : tree.Fits) {id : Nat} {owner : Variable}
  (stored : (ofTree tree).allVariables[id]? = some owner)

include formed fits stored

/-- The identifiers that occur for a variable are those that mean it. -/
theorem mem_occurrences_iff_means {identifier : Nat} :
    identifier ∈ owner.occurrences ↔ (ofTree tree).variableId? identifier = some id := by
  rw [variableId?_eq_some_iff formed fits, meanings, Variable.occurrences, List.mem_append, List.mem_append]
  have key := key_of_variable stored
  have nodup : (Declared.ofTree tree).keys.Nodup := nodup_eraseDups _
  rw [getElem?_allVariables, Option.map_eq_some_iff] at stored
  obtain ⟨found, -, rfl⟩ := stored
  refine or_congr ?_ ?_
  · simp only [describe, List.mem_map, List.mem_filter, beq_iff_eq, Prod.mk.injEq, and_assoc]
    refine exists_congr fun binding => and_congr_right fun _ => ?_
    rw [and_comm, idxOf_eq_iff nodup key]
    rfl
  · constructor
    · intro listed
      obtain ⟨reference, referred, rfl⟩ := List.mem_map.mp listed
      obtain ⟨use, member, rfl⟩ := List.mem_map.mp referred
      obtain ⟨member, targeted⟩ := List.mem_filter.mp member
      exact List.mem_filterMap.mpr ⟨use, member, by rw [beq_iff_eq.mp targeted]; rfl⟩
    · intro listed
      obtain ⟨use, member, same⟩ := List.mem_filterMap.mp listed
      obtain ⟨target, targeted, same⟩ := Option.map_eq_some_iff.mp same
      obtain ⟨rfl, rfl⟩ := Prod.mk.inj same
      refine List.mem_map.mpr ⟨use.reference, List.mem_map_of_mem (List.mem_filter.mpr ⟨member, ?_⟩), rfl⟩
      rw [targeted, beq_self_eq_true]

variable {name : String} (unused : ∀ node, tree.identifierName? node ≠ some name)

theorem mem_occurrences_iff_idxOf {binding : Binding} (member : binding ∈ (Survey.ofTree tree).bindings.toList) :
    binding.identifier ∈ owner.occurrences ↔ (Declared.ofTree tree).keys.idxOf binding.key = id := by
  rw [mem_occurrences_iff_means formed fits stored,
    (variableId?_eq_some_iff formed fits).mpr (mem_meanings_of_binding member), Option.some.injEq]

theorem key_rename_binding {binding : Binding} (member : binding ∈ (Survey.ofTree tree).bindings.toList) :
    (binding.rename owner.occurrences name).key = renameKey (owner.scope, owner.name) name binding.key := by
  have means := (mem_occurrences_iff_idxOf formed fits stored member).trans
    (idxOf_eq_iff (nodup_eraseDups _) (key_of_variable stored))
  by_cases same : binding.key = (owner.scope, owner.name)
  · rw [renameKey, if_pos same, Binding.rename, if_pos (means.mpr same)]
    exact congrArg (fun key : VariableKey => (key.1, name)) same
  · rw [renameKey, if_neg same, Binding.rename, if_neg (mt means.mp same)]

omit fits stored in
include unused in
theorem key_ne_unused {key : VariableKey} (member : key ∈ (Declared.ofTree tree).keys) : key.2 ≠ name := by
  obtain ⟨binding, listed, rfl⟩ := List.mem_map.mp (List.mem_eraseDups.mp member)
  rintro rfl
  exact unused _ (Declared.declares_of_binding formed listed).1

include unused in
theorem keys_rename : (Declared.ofTree (tree.rename owner.occurrences name)).keys =
    (Declared.ofTree tree).keys.map (renameKey (owner.scope, owner.name) name) := by
  have renamed : (Survey.ofTree (tree.rename owner.occurrences name)).bindings.toList.map Binding.key =
      ((Survey.ofTree tree).bindings.toList.map Binding.key).map (renameKey (owner.scope, owner.name) name) := by
    rw [Survey.ofTree_rename, Survey.rename, Array.toList_map, List.map_map, List.map_map]
    exact List.map_congr_left fun binding member => key_rename_binding formed fits stored member
  change List.eraseDups _ = List.map _ (List.eraseDups _)
  rw [renamed, eraseDups_map]
  intro left leftMember right rightMember
  exact renameKey_inj (key_ne_unused formed unused (List.mem_eraseDups.mpr leftMember))
    (key_ne_unused formed unused (List.mem_eraseDups.mpr rightMember))

include unused in
/-- A binding keeps the number of its variable. -/
theorem idxOf_rename {binding : Binding} (member : binding ∈ (Survey.ofTree tree).bindings.toList) :
    (Declared.ofTree (tree.rename owner.occurrences name)).keys.idxOf
        (binding.rename owner.occurrences name).key =
      (Declared.ofTree tree).keys.idxOf binding.key := by
  rw [keys_rename formed fits stored unused, key_rename_binding formed fits stored member]
  exact idxOf_map _ fun other listed => renameKey_inj (key_ne_unused formed unused listed)
    (key_ne_unused formed unused (Declared.key_mem member))

include unused in
theorem numbered_rename :
    (Survey.ofTree (tree.rename owner.occurrences name)).bindings.toList.map (fun binding =>
        (binding.identifier, (Declared.ofTree (tree.rename owner.occurrences name)).keys.idxOf binding.key)) =
      (Survey.ofTree tree).bindings.toList.map fun binding =>
        (binding.identifier, (Declared.ofTree tree).keys.idxOf binding.key) := by
  rw [Survey.ofTree_rename, Survey.rename, Array.toList_map, List.map_map]
  exact List.map_congr_left fun binding member =>
    Prod.ext rfl (idxOf_rename formed fits stored unused member)

include unused in
/-- Nothing that is declared changes but the name of the variable. -/
theorem declared_rename : Declared.ofTree (tree.rename owner.occurrences name) =
    (Declared.ofTree tree).rename (owner.scope, owner.name) name := by
  have scopes : (Survey.ofTree (tree.rename owner.occurrences name)).scopes = (Survey.ofTree tree).scopes := by
    rw [Survey.ofTree_rename, Survey.rename]
  have scopeOf : (Declared.ofTree (tree.rename owner.occurrences name)).scopeOf =
      (Declared.ofTree tree).scopeOf := by
    change tabulate _ _ = tabulate _ _
    rw [scopes, tree.size_rename]
  have binderOf : (Declared.ofTree (tree.rename owner.occurrences name)).binderOf =
      (Declared.ofTree tree).binderOf := by
    change tabulate _ (List.map _ _) = tabulate _ _
    rw [tree.size_rename]
    exact congrArg (tabulate tree.size) (numbered_rename formed fits stored unused)
  exact congr (congr (congr (congrArg Declared.mk scopes) (keys_rename formed fits stored unused)) scopeOf) binderOf

end ScopeAnalysis

namespace Use

section

variable (tree : Tree) (marked : List Nat) (name : String)

theorem isPattern_rename (node : Nat) :
    isPattern ((tree.rename marked name).kind node) = isPattern (tree.kind node) := by
  rcases tree.kind_rename_cases marked name node with same | ⟨old, ascription, was, is⟩
  · rw [same]
  · rw [was, is]
    rfl

theorem isLoopBinding_rename : isLoopBinding (tree.rename marked name) = isLoopBinding tree := by
  funext declarator
  unfold isLoopBinding
  rw [tree.parent?_rename marked name]
  cases tree.parent? declarator with
  | none => rfl
  | some declaration =>
      dsimp only
      rw [Tree.parentKind?, Tree.parentKind?, tree.parent?_rename marked name]
      cases tree.parent? declaration with
      | none => rfl
      | some outer =>
          rw [Option.map_some, Option.map_some]
          rcases tree.kind_rename_cases marked name outer with same | ⟨old, ascription, was, is⟩
          · rw [same]
          · rw [was, is]

theorem skips_rename : skips (tree.rename marked name) = skips tree := by
  funext node child
  unfold skips isNaming
  simp only [tree.isIdentifier_rename marked name, isPattern_rename tree marked name]
  rcases tree.kind_rename_cases marked name node with same | ⟨old, ascription, was, is⟩
  · rw [same]
  · rw [was, is]

end

variable {tree : Tree} (formed : tree.WellFormed) (fits : tree.Fits) {id : Nat} {owner : Variable}
  (stored : (ScopeAnalysis.ofTree tree).allVariables[id]? = some owner) {name : String}
  (unused : ∀ node, tree.identifierName? node ≠ some name)

include formed fits stored unused

/-- A use of a name that counts in the analysis has its target still. -/
theorem ofName_rename {scope identifier : Nat} {access : Access}
    (counted : ∀ use, ofName tree (Declared.ofTree tree) scope identifier access = some use →
      use ∈ ScopeAnalysis.usesOf tree) :
    ofName (tree.rename owner.occurrences name) (Declared.ofTree (tree.rename owner.occurrences name)) scope
        identifier access = ofName tree (Declared.ofTree tree) scope identifier access := by
  unfold ofName at counted ⊢
  rw [tree.identifierName?_rename, ScopeAnalysis.declared_rename formed fits stored unused, Option.map_map]
  cases named : tree.identifierName? identifier with
  | none => rfl
  | some old =>
      rw [named] at counted
      have member := counted _ rfl
      have means : identifier ∈ owner.occurrences ↔ (Declared.ofTree tree).lookup scope old = some id := by
        rw [ScopeAnalysis.mem_occurrences_iff_means formed fits stored]
        rcases cases_of_mem_usesOf formed fits member with ⟨init, -⟩ | names
        · cases init
        · rw [ScopeAnalysis.variableId?_of_names formed fits member names]
      have nodup : (Declared.ofTree tree).keys.Nodup := nodup_eraseDups _
      have key := ScopeAnalysis.key_of_variable stored
      have distinct : old ≠ name := by
        rintro rfl
        exact unused _ named
      simp only [Option.map_some, Function.comp_apply]
      by_cases found : (Declared.ofTree tree).lookup scope old = some id
      · rw [if_pos (means.mpr found), found, Declared.lookup_rename_self nodup key
          (fun other => ScopeAnalysis.key_ne_unused formed unused) found]
      · rw [if_neg (mt means.mp found), Declared.lookup_rename_other nodup key distinct found]

theorem own_rename {scope node : Nat}
    (counted : own tree (Declared.ofTree tree) scope node ⊆ ScopeAnalysis.usesOf tree) :
    own (tree.rename owner.occurrences name) (Declared.ofTree (tree.rename owner.occurrences name)) scope node =
      own tree (Declared.ofTree tree) scope node := by
  have binder : (Declared.ofTree (tree.rename owner.occurrences name)).binder? =
      (Declared.ofTree tree).binder? := by
    rw [ScopeAnalysis.declared_rename formed fits stored unused]
    rfl
  have named : ∀ {identifier : Nat} {access : Access},
      (ofName tree (Declared.ofTree tree) scope identifier access).toList ⊆ ScopeAnalysis.usesOf tree →
      (ofName (tree.rename owner.occurrences name) (Declared.ofTree (tree.rename owner.occurrences name)) scope
        identifier access).toList = (ofName tree (Declared.ofTree tree) scope identifier access).toList := by
    intro identifier access member
    rw [ofName_rename formed fits stored unused fun use found => member (Option.mem_toList.mpr found)]
  have bound : ofBinder (Declared.ofTree (tree.rename owner.occurrences name)) =
      ofBinder (Declared.ofTree tree) := by
    funext identifier
    rw [ofBinder, ofBinder, binder]
  unfold own at counted ⊢
  simp only [binder, bound, tree.boundBy_rename, isLoopBinding_rename, tree.isIdentifier_rename, isPattern_rename]
  rcases tree.kind_rename_cases owner.occurrences name node with same | ⟨old, ascription, was, is⟩
  · rw [same]
    cases kindEq : tree.kind node with
    | identifier old ascription =>
        rw [kindEq] at counted
        exact ite_congr rfl (fun _ => rfl) fun free => named (by simpa only [if_neg free] using counted)
    | update operand increment signFirst =>
        rw [kindEq] at counted
        exact ite_congr rfl (fun direct => named (by simpa only [if_pos direct] using counted)) fun _ => rfl
    | assignment operator left right =>
        rw [kindEq] at counted
        refine ite_congr rfl (fun direct => named (by simpa only [if_pos direct] using counted)) fun indirect => ?_
        simp only [if_neg indirect] at counted
        refine ite_congr rfl (fun pattern => List.filterMap_congr fun identifier listed => ?_) fun _ => rfl
        rw [if_pos pattern] at counted
        exact ofName_rename formed fits stored unused fun use found =>
          counted (List.mem_filterMap.mpr ⟨identifier, listed, found⟩)
    | _ => rfl
  · rw [was] at counted
    rw [was, is]
    exact ite_congr rfl (fun _ => rfl) fun free => named (by simpa only [if_neg free] using counted)

omit formed fits stored unused

mutual

/-- A walk all of whose uses count in the analysis makes the same uses. -/
theorem visit_rename (formed : tree.WellFormed) (fits : tree.Fits)
    (stored : (ScopeAnalysis.ofTree tree).allVariables[id]? = some owner)
    (unused : ∀ node, tree.identifierName? node ≠ some name) : ∀ (scope : Nat) (outline : Outline),
    visit tree (Declared.ofTree tree) scope outline ⊆ ScopeAnalysis.usesOf tree →
    visit (tree.rename owner.occurrences name) (Declared.ofTree (tree.rename owner.occurrences name)) scope outline =
      visit tree (Declared.ofTree tree) scope outline
  | scope, .node node children => by
      intro counted
      have opened : (Declared.ofTree (tree.rename owner.occurrences name)).openedBy? node =
          (Declared.ofTree tree).openedBy? node := by
        rw [ScopeAnalysis.declared_rename formed fits stored unused]
        rfl
      rw [visit] at counted
      have own_counted := List.Subset.trans (List.subset_append_left _ _) counted
      have rest_counted := List.Subset.trans (List.subset_append_right _ _) counted
      rw [visit, visit, opened, own_rename formed fits stored unused own_counted,
        visitAll_rename formed fits stored unused _ node children rest_counted]

theorem visitAll_rename (formed : tree.WellFormed) (fits : tree.Fits)
    (stored : (ScopeAnalysis.ofTree tree).allVariables[id]? = some owner)
    (unused : ∀ node, tree.identifierName? node ≠ some name) :
    ∀ (scope parent : Nat) (outlines : List Outline),
    visitAll tree (Declared.ofTree tree) scope parent outlines ⊆ ScopeAnalysis.usesOf tree →
    visitAll (tree.rename owner.occurrences name) (Declared.ofTree (tree.rename owner.occurrences name)) scope
        parent outlines = visitAll tree (Declared.ofTree tree) scope parent outlines
  | _, _, [] => fun _ => by rw [visitAll, visitAll]
  | scope, parent, outline :: rest => by
      intro counted
      rw [visitAll] at counted
      rw [visitAll, visitAll, skips_rename, visitAll_rename formed fits stored unused scope parent rest
        (List.Subset.trans (List.subset_append_right _ _) counted)]
      split
      case isTrue => rfl
      case isFalse entered =>
          rw [if_neg entered] at counted
          rw [visit_rename formed fits stored unused scope outline
            (List.Subset.trans (List.subset_append_left _ _) counted)]

end

end Use

namespace ScopeAnalysis

/-- An analysis in which one variable has another name and all else is the same. -/
def rename (analysis : ScopeAnalysis) (id : Nat) (name : String) : ScopeAnalysis :=
  { analysis with
    declared := { analysis.declared with keys := analysis.declared.keys.modify id fun key => (key.1, name) }
    bindings := analysis.bindings.map fun binding =>
      if analysis.declared.keys.idxOf binding.key = id then { binding with name } else binding
    allVariables := analysis.allVariables.modify id fun owner => { owner with name } }

section

variable {tree : Tree} (formed : tree.WellFormed) (fits : tree.Fits) {id : Nat} {owner : Variable}
  (stored : (ofTree tree).allVariables[id]? = some owner) {name : String}
  (unused : ∀ node, tree.identifierName? node ≠ some name)

include formed fits stored

omit formed fits in
theorem renameKey_of_getElem? {position : Nat} {key : VariableKey}
    (found : (Declared.ofTree tree).keys[position]? = some key) :
    renameKey (owner.scope, owner.name) name key = if id = position then (key.1, name) else key := by
  have nodup : (Declared.ofTree tree).keys.Nodup := nodup_eraseDups _
  have named := (idxOf_eq_iff nodup (key_of_variable stored)).mpr rfl
  have same : id = position ↔ key = (owner.scope, owner.name) := by
    rw [← named, idxOf_eq_iff nodup found]
    exact eq_comm
  unfold renameKey
  split
  case isTrue isOwner => rw [if_pos (same.mpr isOwner), isOwner]
  case isFalse other => rw [if_neg (mt same.mp other)]

omit formed fits in
theorem map_renameKey_keys : (Declared.ofTree tree).keys.map (renameKey (owner.scope, owner.name) name) =
    (Declared.ofTree tree).keys.modify id fun key => (key.1, name) := by
  refine List.ext_getElem? fun position => ?_
  rw [List.getElem?_map, List.getElem?_modify]
  cases found : (Declared.ofTree tree).keys[position]? with
  | none => rfl
  | some key => exact congrArg some (renameKey_of_getElem? stored found)

theorem bindings_rename : (ofTree (tree.rename owner.occurrences name)).bindings =
    ((ofTree tree).rename id name).bindings := by
  change (Survey.ofTree (tree.rename owner.occurrences name)).bindings.toList = List.map _ _
  rw [Survey.ofTree_rename, Survey.rename, Array.toList_map]
  refine List.map_congr_left fun binding member => ?_
  rw [Binding.rename]
  split
  case isTrue marked => exact (if_pos ((mem_occurrences_iff_idxOf formed fits stored member).mp marked)).symm
  case isFalse other => exact (if_neg (mt (mem_occurrences_iff_idxOf formed fits stored member).mpr other)).symm

include unused

theorem usesOf_rename : usesOf (tree.rename owner.occurrences name) = usesOf tree := by
  unfold usesOf
  rw [tree.outline_rename, tree.root_rename]
  exact Use.visit_rename formed fits stored unused 0 (tree.outline tree.root) (List.Subset.refl _)

theorem identifiers_rename {key : VariableKey} (listed : key ∈ (Declared.ofTree tree).keys) :
    ((ofTree (tree.rename owner.occurrences name)).bindings.filter
        (·.key == renameKey (owner.scope, owner.name) name key)).map (·.identifier) =
      ((ofTree tree).bindings.filter (·.key == key)).map (·.identifier) := by
  change (List.filter _ (Survey.ofTree (tree.rename owner.occurrences name)).bindings.toList).map _ = _
  rw [Survey.ofTree_rename, Survey.rename, Array.toList_map, List.filter_map, List.map_map]
  refine congrArg (List.map _) (List.filter_congr fun binding member => ?_)
  rw [Function.comp_apply, key_rename_binding formed fits stored member, Bool.eq_iff_iff, beq_iff_eq, beq_iff_eq]
  exact ⟨renameKey_inj (key_ne_unused formed unused (Declared.key_mem member))
    (key_ne_unused formed unused listed), congrArg _⟩

theorem allVariables_rename : (ofTree (tree.rename owner.occurrences name)).allVariables =
    (ofTree tree).allVariables.modify id fun owner => { owner with name } := by
  refine Array.ext_getElem? fun position => ?_
  rw [Array.getElem?_modify, getElem?_allVariables, getElem?_allVariables, usesOf_rename formed fits stored unused]
  change (Declared.ofTree (tree.rename owner.occurrences name)).keys[position]?.map _ =
    if id = position then ((Declared.ofTree tree).keys[position]?.map _).map _
    else (Declared.ofTree tree).keys[position]?.map _
  rw [keys_rename formed fits stored unused, List.getElem?_map]
  cases found : (Declared.ofTree tree).keys[position]? with
  | none => exact (ite_self _).symm
  | some key =>
      have same := identifiers_rename formed fits stored unused (List.mem_of_getElem? found)
      simp only [Option.map_some, describe, same]
      rw [renameKey_of_getElem? stored found]
      split <;> rfl

/-- The analysis of the renamed tree is the analysis of the tree with the variable renamed. -/
theorem ofTree_rename :
    ofTree (tree.rename owner.occurrences name) = (ofTree tree).rename id name := by
  have declared : (ofTree (tree.rename owner.occurrences name)).declared =
      ((ofTree tree).rename id name).declared := by
    change Declared.ofTree (tree.rename owner.occurrences name) = _
    rw [declared_rename formed fits stored unused, Declared.rename, map_renameKey_keys stored]
    rfl
  have meant : meanings (tree.rename owner.occurrences name) = meanings tree := by
    rw [meanings, meanings, numbered_rename formed fits stored unused, usesOf_rename formed fits stored unused]
  have resolved : (ofTree (tree.rename owner.occurrences name)).resolved = (ofTree tree).resolved := by
    change tabulate _ (meanings _) = tabulate _ (meanings _)
    rw [meant, tree.size_rename]
  have unresolved : (ofTree (tree.rename owner.occurrences name)).unresolved = (ofTree tree).unresolved := by
    change (List.filter _ (usesOf _)).map _ = (List.filter _ (usesOf _)).map _
    rw [usesOf_rename formed fits stored unused]
  exact congr (congr (congr (congr (congrArg ScopeAnalysis.mk declared)
    (bindings_rename formed fits stored)) (allVariables_rename formed fits stored unused)) resolved) unresolved

theorem declaredBy_rename (node : Nat) :
    (ofTree (tree.rename owner.occurrences name)).declaredBy node = (ofTree tree).declaredBy node := by
  change (List.filter _ (Survey.ofTree (tree.rename owner.occurrences name)).bindings.toList).map (fun binding =>
    (Declared.ofTree (tree.rename owner.occurrences name)).keys.idxOf binding.key) = _
  rw [Survey.ofTree_rename, Survey.rename, Array.toList_map, List.filter_map, List.map_map]
  exact List.map_congr_left fun binding member =>
    idxOf_rename formed fits stored unused (List.mem_filter.mp member).1

omit unused in
theorem exists_name_of_occurrence {identifier : Nat} (occurs : identifier ∈ owner.occurrences) :
    ∃ old, tree.identifierName? identifier = some old := by
  have meant := (variableId?_eq_some_iff formed fits).mp ((mem_occurrences_iff_means formed fits stored).mp occurs)
  rcases cases_of_mem_meanings formed fits meant with bound | ⟨use, -, ⟨-, -, _, old, -, named, -⟩, rfl, -⟩
  · obtain ⟨binding, member, rfl, -⟩ := Declared.exists_binding_of_binder? bound
    exact ⟨_, (Declared.declares_of_binding formed member).1⟩
  · exact ⟨old, named⟩

end

/-- Giving the identifiers that declare a variable or refer to it a name that no identifier has renames the
variable and changes nothing else: the scopes, all variables with their identifiers and references, and what
each node opens, declares and means stay the same. -/
theorem parse_renames_variable {source : String} {tree : Tree} (parsed : Tree.parse source = .ok tree)
    {id : Nat} {owner : Variable} (stored : (ofTree tree).allVariables[id]? = some owner) {name : String}
    (unused : ∀ node, tree.identifierName? node ≠ some name) :
    let renamed := tree.rename owner.occurrences name
    (∀ node, renamed.identifierName? node =
      if node ∈ owner.occurrences then some name else tree.identifierName? node) ∧
    ofTree renamed = (ofTree tree).rename id name ∧
    ∀ node, (ofTree renamed).declaredBy node = (ofTree tree).declaredBy node := by
  have formed := Tree.wellFormed_of_parse parsed
  have fits := Tree.fits_of_parse parsed
  refine ⟨fun node => ?_, ofTree_rename formed fits stored unused, declaredBy_rename formed fits stored unused⟩
  rw [tree.identifierName?_rename]
  split
  case isTrue occurs =>
      obtain ⟨old, named⟩ := exists_name_of_occurrence formed fits stored occurs
      rw [named]
      rfl
  case isFalse => exact Option.map_id_apply

/-- A hoisted variable is renamed, and a parameter that shadows it is not. -/
theorem parse_renames_variable_shadowed :
    ∃ tree owner, Tree.parse "a\nfunction f(a) { return a }\nvar a = 1" = .ok tree ∧
      (ofTree tree).allVariables[2]? = some owner ∧ owner.occurrences = [8, 0, 8] ∧
      (∀ node, tree.identifierName? node ≠ some "z") ∧
      (tree.rename owner.occurrences "z").identifierName? 0 = some "z" ∧
      (tree.rename owner.occurrences "z").identifierName? 4 = some "a" ∧
      ofTree (tree.rename owner.occurrences "z") = (ofTree tree).rename 2 "z" := by
  have checks : (Tree.parse "a\nfunction f(a) { return a }\nvar a = 1").toOption.any (fun tree =>
      decide ((ofTree tree).allVariables[2]? =
          some ⟨"a", 0, [8], [⟨0, .read, false⟩, ⟨8, .write, true⟩]⟩ ∧
        (∀ node ∈ tree.nodes.toList, node.kind.identifierName? ≠ some "z") ∧
        tree.identifierName? 4 = some "a")) = true := by
    decide +kernel
  obtain ⟨tree, parsed, checks⟩ := Tree.exists_of_checks checks
  obtain ⟨stored, other, inner⟩ := of_decide_eq_true checks
  have unused : ∀ node, tree.identifierName? node ≠ some "z" := by
    intro node
    rw [Tree.identifierName?, Tree.kind]
    cases found : tree.nodes[node]? with
    | none => exact fun named => by cases named
    | some entry => exact other entry (Array.mem_toList_iff.mpr (Array.mem_of_getElem? found))
  obtain ⟨names, renames, -⟩ := parse_renames_variable parsed stored unused
  refine ⟨tree, _, parsed, stored, rfl, unused, ?_, ?_, renames⟩
  · exact names 0
  · exact (names 4).trans inner

end ScopeAnalysis

end Heed
