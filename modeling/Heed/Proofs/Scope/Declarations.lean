import Heed.Proofs.Scope.Scopes

/-!
# What declares a name, and where

A declaration says of each identifier that it binds in which scope the variable lives: in the scope that the
declaring node opens, in the one around it, or in the nearest function. The bindings that a survey records
are just these, and no identifier is bound twice.
-/

set_option autoImplicit false

namespace Heed

namespace Tree

def patternParts (tree : Tree) (node : Nat) : List Nat :=
  match tree.kind node with
  | .objectPattern properties =>
      properties.flatMap fun property =>
        match tree.kind property with
        | .property _ value _ => [value]
        | .rest argument => [argument]
        | _ => []
  | .arrayPattern elements => elements
  | .rest argument => [argument]
  | _ => []

/-- The identifiers that a pattern binds. -/
inductive Binds (tree : Tree) (identifier : Nat) : Nat → Prop
  | name {name : String} {ascription : Option Nat} :
      tree.kind identifier = .identifier name ascription → Binds tree identifier identifier
  | part {node part : Nat} : part ∈ tree.patternParts node → Binds tree identifier part →
      Binds tree identifier node

/-- Nodes between a declaration and the identifiers that its patterns bind. -/
def isPatternPart (tree : Tree) (node : Nat) : Bool :=
  match tree.kind node with
  | .property .. | .rest _ | .objectPattern _ | .arrayPattern _ => true
  | _ => false

/-- The nearest node above an identifier that is no part of a pattern. -/
def declarer? (tree : Tree) (identifier : Nat) : Option Nat :=
  (tree.ancestors identifier).find? fun outer => !tree.isPatternPart outer

namespace WellFormed

variable {tree : Tree} (formed : tree.WellFormed)

include formed

theorem child_lt {node child : Nat} (listed : child ∈ tree.children node)
    (unnamed : (tree.kind node).isIdentifier = false) : child < node := by
  rcases formed.rising node child listed with below | ⟨⟨name, kindEq⟩, -⟩
  · exact below
  · simp [kindEq, NodeKind.isIdentifier] at unnamed

theorem lt_of_isPatternPart {node child : Nat} (listed : child ∈ tree.children node)
    (part : tree.isPatternPart node = true) : child < node := by
  refine formed.child_lt listed ?_
  rw [isPatternPart] at part
  cases kindEq : tree.kind node with
  | identifier => simp [kindEq] at part
  | _ => rfl

theorem declarer?_of_parent {node parent : Nat} (found : tree.parent? node = some parent)
    (outside : tree.isPatternPart parent = false) : tree.declarer? node = some parent := by
  rw [declarer?, formed.ancestors_eq_cons found, List.find?_cons_of_pos (by simp [outside])]

theorem declarer?_of_part {node parent : Nat} (found : tree.parent? node = some parent)
    (part : tree.isPatternPart parent = true) : tree.declarer? node = tree.declarer? parent := by
  rw [declarer?, declarer?, formed.ancestors_eq_cons found, List.find?_cons_of_neg (by simp [part])]

/-- Between a pattern and one directly inside it there are only parts of patterns. -/
theorem exists_parent_of_part {node part : Nat} (inner : part ∈ tree.patternParts node) :
    part < node ∧ tree.declarer? part = tree.declarer? node ∧
      ∃ parent, tree.parent? part = some parent ∧ tree.isPatternPart parent = true := by
  -- A part hangs below the pattern, or below a member of it that is a part as well.
  have direct : tree.isPatternPart node = true → ∀ child ∈ tree.children node,
      child < node ∧ tree.declarer? child = tree.declarer? node ∧
        ∃ parent, tree.parent? child = some parent ∧ tree.isPatternPart parent = true := by
    intro isPart child listed
    have found := (formed.parent_iff child node).mpr listed
    exact ⟨formed.lt_of_isPatternPart listed isPart, formed.declarer?_of_part found isPart, node, found,
      isPart⟩
  have indirect : tree.isPatternPart node = true → ∀ member ∈ tree.children node,
      tree.isPatternPart member = true → part ∈ tree.children member →
      part < node ∧ tree.declarer? part = tree.declarer? node ∧
        ∃ parent, tree.parent? part = some parent ∧ tree.isPatternPart parent = true := by
    intro isPart member listed memberIsPart inMember
    have found := (formed.parent_iff part member).mpr inMember
    obtain ⟨below, same, -⟩ := direct isPart member listed
    exact ⟨Nat.lt_trans (formed.lt_of_isPatternPart inMember memberIsPart) below,
      (formed.declarer?_of_part found memberIsPart).trans same, member, found, memberIsPart⟩
  rw [patternParts] at inner
  split at inner
  case h_1 properties kindEq =>
      obtain ⟨member, listed, inner⟩ := List.mem_flatMap.mp inner
      have isPart : tree.isPatternPart node = true := by rw [isPatternPart, kindEq]
      have listed : member ∈ tree.children node := by rw [children, kindEq]; exact listed
      split at inner
      case h_1 key value shorthand memberEq =>
          obtain rfl := List.mem_singleton.mp inner
          refine indirect isPart member listed (by rw [isPatternPart, memberEq]) ?_
          rw [children, memberEq]
          cases shorthand <;> simp [NodeKind.children]
      case h_2 argument memberEq =>
          obtain rfl := List.mem_singleton.mp inner
          refine indirect isPart member listed (by rw [isPatternPart, memberEq]) ?_
          rw [children, memberEq]
          exact List.mem_singleton.mpr rfl
      case h_3 => cases inner
  case h_2 elements kindEq =>
      exact direct (by rw [isPatternPart, kindEq]) part (by rw [children, kindEq]; exact inner)
  case h_3 argument kindEq =>
      exact direct (by rw [isPatternPart, kindEq]) part (by rw [children, kindEq]; exact inner)
  case h_4 => cases inner

theorem boundBy_eq (node : Nat) : tree.boundBy node =
    if (tree.kind node).isIdentifier then [node] else (tree.patternParts node).flatMap tree.boundBy := by
  have below : ∀ part ∈ tree.patternParts node, part < node := fun part inner =>
    (formed.exists_parent_of_part inner).1
  rw [patternParts] at below ⊢
  rw [boundBy]
  cases kindEq : tree.kind node with
  | identifier => rfl
  | objectPattern properties =>
      rw [kindEq] at below
      simp only [NodeKind.isIdentifier, Bool.false_eq_true, if_false, List.flatMap_assoc]
      refine List.flatMap_congr fun member listed => ?_
      have below : ∀ part ∈ _, part < node := fun part inner =>
        below part (List.mem_flatMap.mpr ⟨member, listed, inner⟩)
      cases memberEq : tree.kind member with
      | property key value shorthand =>
          rw [memberEq] at below
          simp [below value (List.mem_singleton.mpr rfl)]
      | rest argument =>
          rw [memberEq] at below
          simp [below argument (List.mem_singleton.mpr rfl)]
      | _ => rfl
  | arrayPattern elements =>
      rw [kindEq] at below
      exact List.flatMap_congr fun element listed => if_pos (below element listed)
  | rest argument =>
      rw [kindEq] at below
      simp [below argument (List.mem_singleton.mpr rfl), NodeKind.isIdentifier]
  | _ => rfl

theorem mem_boundBy_iff {identifier node : Nat} :
    identifier ∈ tree.boundBy node ↔ tree.Binds identifier node := by
  constructor
  · intro member
    induction node using Nat.strongRecOn with
    | ind node ih =>
        rw [formed.boundBy_eq] at member
        split at member
        case isTrue named =>
            obtain rfl := List.mem_singleton.mp member
            cases kindEq : tree.kind identifier with
            | identifier name ascription => exact .name kindEq
            | _ => simp [kindEq, NodeKind.isIdentifier] at named
        case isFalse =>
            obtain ⟨part, inner, member⟩ := List.mem_flatMap.mp member
            exact .part inner (ih part (formed.exists_parent_of_part inner).1 member)
  · intro binds
    induction binds with
    | name kindEq =>
        rw [formed.boundBy_eq, kindEq]
        exact List.mem_singleton.mpr rfl
    | @part node part inner _ ih =>
        have unnamed : (tree.kind node).isIdentifier = false := by
          rw [patternParts] at inner
          cases kindEq : tree.kind node with
          | identifier => simp [kindEq] at inner
          | _ => rfl
        rw [formed.boundBy_eq, unnamed]
        exact List.mem_flatMap.mpr ⟨part, inner, ih⟩

/-- An identifier and the pattern that binds it have the same declarer. -/
theorem declarer?_of_binds {identifier pattern : Nat} (binds : tree.Binds identifier pattern) :
    tree.declarer? identifier = tree.declarer? pattern := by
  induction binds with
  | name => rfl
  | part inner _ ih => rw [ih, (formed.exists_parent_of_part inner).2.1]

/-- An identifier that is not its whole pattern hangs below a part of the pattern. -/
theorem eq_or_part_of_binds {identifier pattern : Nat} (binds : tree.Binds identifier pattern) :
    identifier = pattern ∨
      ∃ part, tree.parent? identifier = some part ∧ tree.isPatternPart part = true := by
  induction binds with
  | name => exact .inl rfl
  | part inner _ ih =>
      rcases ih with rfl | above
      · exact .inr (formed.exists_parent_of_part inner).2.2
      · exact .inr above

end WellFormed

end Tree

/-- Where a declared variable lives, seen from the node that declares it. -/
inductive Home where
  /-- In the scope that the node opens. -/
  | own
  /-- In the scope around the node. -/
  | enclosing
  /-- In the nearest function or program scope around the node. -/
  | function
deriving DecidableEq, Repr

namespace Tree

/-- The identifiers that a node declares, and where their variables live. -/
inductive Declares (tree : Tree) : Nat → Home → Nat → Prop
  | var {node declarator pattern identifier : Nat} {declarators : List Nat} {init : Option Nat}
      {ambient : Bool} :
      tree.kind node = .variableDeclaration .var_ declarators ambient → declarator ∈ declarators →
      tree.kind declarator = .declarator pattern init → tree.Binds identifier pattern →
      Declares tree node .function identifier
  | lexical {node declarator pattern identifier : Nat} {declarators : List Nat} {init : Option Nat}
      {word : DeclarationWord} {ambient : Bool} :
      tree.kind node = .variableDeclaration word declarators ambient → word ≠ .var_ →
      declarator ∈ declarators → tree.kind declarator = .declarator pattern init →
      tree.Binds identifier pattern → Declares tree node .enclosing identifier
  | functionName {node name : Nat} {params : List Nat} {returnType body : Option Nat} {isAsync : Bool} :
      tree.kind node = .functionDeclaration name params returnType body isAsync →
      Declares tree node .enclosing name
  | className {node name : Nat} {typeParams : List String} {heritage : List TypeExpr}
      {body : List Nat} {ambient : Bool} :
      tree.kind node = .classDeclaration name typeParams heritage body ambient →
      Declares tree node .enclosing name
  | parameter {node param identifier : Nat} :
      param ∈ (tree.kind node).params → tree.Binds identifier param →
      Declares tree node .own identifier
  | ownName {node name body : Nat} {params : List Nat} {returnType : Option Nat} {isAsync : Bool} :
      tree.kind node = .functionExpression (some name) params returnType body isAsync →
      Declares tree node .own name
  | catchParameter {node param body identifier : Nat} :
      tree.kind node = .catchClause (some param) body → tree.Binds identifier param →
      Declares tree node .own identifier

def homeOf? (tree : Tree) (identifier declarer : Nat) : Option (Nat × Home) :=
  match tree.kind declarer with
  | .declarator .. =>
      (tree.parent? declarer).bind fun node =>
        match tree.kind node with
        | .variableDeclaration .var_ _ _ => some (node, .function)
        | .variableDeclaration .. => some (node, .enclosing)
        | _ => none
  | .functionDeclaration name _ _ _ _ => some (declarer, if name = identifier then .enclosing else .own)
  | .classDeclaration .. => some (declarer, .enclosing)
  | _ => some (declarer, .own)

namespace WellFormed

variable {tree : Tree} (formed : tree.WellFormed)

include formed

theorem declarer?_of_pattern {identifier pattern node : Nat} (binds : tree.Binds identifier pattern)
    (listed : pattern ∈ (tree.kind node).children) (outside : tree.isPatternPart node = false) :
    tree.declarer? identifier = some node := by
  rw [formed.declarer?_of_binds binds]
  exact formed.declarer?_of_parent ((formed.parent_iff pattern node).mpr listed) outside

theorem homeOf?_of_variable {node declarator pattern identifier : Nat} {declarators : List Nat}
    {init : Option Nat} {word : DeclarationWord} {ambient : Bool}
    (kindEq : tree.kind node = .variableDeclaration word declarators ambient)
    (listed : declarator ∈ declarators) (declaratorEq : tree.kind declarator = .declarator pattern init)
    (binds : tree.Binds identifier pattern) :
    (tree.declarer? identifier).bind (tree.homeOf? identifier) =
      some (node, if word = .var_ then .function else .enclosing) := by
  have found : tree.parent? declarator = some node := by
    rw [formed.parent_iff, children, kindEq]
    exact listed
  have target : pattern ∈ (tree.kind declarator).children := by
    rw [declaratorEq]
    exact List.mem_cons_self
  rw [formed.declarer?_of_pattern binds target (by rw [isPatternPart, declaratorEq]), Option.bind_some,
    homeOf?, declaratorEq]
  simp only [found, Option.bind_some, kindEq]
  cases word <;> rfl

theorem homeOf?_of_parameter {node param identifier : Nat} (member : param ∈ (tree.kind node).params)
    (binds : tree.Binds identifier param) :
    (tree.declarer? identifier).bind (tree.homeOf? identifier) = some (node, .own) := by
  have parameter : ∀ kind, tree.kind node = kind → param ∈ kind.children →
      tree.isPatternPart node = false → tree.declarer? identifier = some node :=
    fun kind kindEq listed outside => formed.declarer?_of_pattern binds (kindEq ▸ listed) outside
  cases kindEq : tree.kind node with
  | functionDeclaration name params returnType body isAsync =>
      rw [kindEq] at member
      have once := formed.children_nodup node
      rw [children, kindEq] at once
      have other : name ≠ identifier := by
        rintro rfl
        rcases formed.eq_or_part_of_binds binds with rfl | ⟨part, found, isPart⟩
        · exact (List.nodup_cons.mp once).1
            (List.mem_append_left _ (List.mem_append_left _ member))
        · have above : tree.parent? name = some node := by
            rw [formed.parent_iff, children, kindEq]
            exact List.mem_cons_self
          rw [above] at found
          obtain rfl := Option.some.inj found
          simp [isPatternPart, kindEq] at isPart
      rw [parameter _ kindEq (List.mem_cons_of_mem _ (List.mem_append_left _ (List.mem_append_left _ member)))
        (by rw [isPatternPart, kindEq]), Option.bind_some, homeOf?, kindEq]
      simp only [if_neg other]
  | functionExpression name params returnType body isAsync =>
      rw [kindEq] at member
      rw [parameter _ kindEq (List.mem_append_left _ (List.mem_append_left _ (List.mem_append_right _ member)))
        (by rw [isPatternPart, kindEq]), Option.bind_some, homeOf?, kindEq]
  | arrowFunction params returnType body isAsync =>
      rw [kindEq] at member
      rw [parameter _ kindEq (List.mem_append_left _ (List.mem_append_left _ member))
        (by rw [isPatternPart, kindEq]), Option.bind_some, homeOf?, kindEq]
  | methodDefinition key params returnType body isAsync isStatic =>
      rw [kindEq] at member
      rw [parameter _ kindEq (List.mem_cons_of_mem _ (List.mem_append_left _ (List.mem_append_left _ member)))
        (by rw [isPatternPart, kindEq]), Option.bind_some, homeOf?, kindEq]
  | _ => simp [kindEq, NodeKind.params] at member

theorem homeOf?_of_declares {node identifier : Nat} {home : Home}
    (declares : tree.Declares node home identifier) :
    (tree.declarer? identifier).bind (tree.homeOf? identifier) = some (node, home) := by
  have named : ∀ name, name ∈ tree.children node → tree.isPatternPart node = false →
      tree.declarer? name = some node := fun name listed outside =>
    formed.declarer?_of_parent ((formed.parent_iff name node).mpr listed) outside
  cases declares with
  | var kindEq listed declaratorEq binds =>
      exact formed.homeOf?_of_variable kindEq listed declaratorEq binds
  | lexical kindEq lexical listed declaratorEq binds =>
      rw [formed.homeOf?_of_variable kindEq listed declaratorEq binds, if_neg lexical]
  | functionName kindEq =>
      rw [named _ (by rw [children, kindEq]; exact List.mem_cons_self) (by rw [isPatternPart, kindEq]),
        Option.bind_some, homeOf?, kindEq]
      exact congrArg (fun home => some (node, home)) (if_pos rfl)
  | className kindEq =>
      rw [named _ (by rw [children, kindEq]; exact List.mem_cons_self) (by rw [isPatternPart, kindEq]),
        Option.bind_some, homeOf?, kindEq]
  | parameter member binds => exact formed.homeOf?_of_parameter member binds
  | ownName kindEq =>
      rw [named _ (by rw [children, kindEq]; exact List.mem_cons_self) (by rw [isPatternPart, kindEq]),
        Option.bind_some, homeOf?, kindEq]
  | catchParameter kindEq binds =>
      rw [formed.declarer?_of_pattern binds (by rw [kindEq]; exact List.mem_cons_self)
        (by rw [isPatternPart, kindEq]), Option.bind_some, homeOf?, kindEq]

/-- An identifier is declared once. -/
theorem declares_unique {left right identifier : Nat} {leftHome rightHome : Home}
    (leftDeclares : tree.Declares left leftHome identifier)
    (rightDeclares : tree.Declares right rightHome identifier) : left = right ∧ leftHome = rightHome := by
  have same := formed.homeOf?_of_declares leftDeclares
  rw [formed.homeOf?_of_declares rightDeclares] at same
  obtain ⟨nodes, homes⟩ := Prod.mk.inj (Option.some.inj same)
  exact ⟨nodes.symm, homes.symm⟩

end WellFormed

theorem exists_name_of_isIdentifier {tree : Tree} {node : Nat}
    (named : (tree.kind node).isIdentifier = true) : ∃ name, tree.identifierName? node = some name := by
  rw [identifierName?]
  cases kindEq : tree.kind node with
  | identifier name ascription => exact ⟨name, rfl⟩
  | _ => simp [kindEq, NodeKind.isIdentifier] at named

theorem exists_name_of_binds {tree : Tree} {identifier pattern : Nat}
    (binds : tree.Binds identifier pattern) : ∃ name, tree.identifierName? identifier = some name := by
  induction binds with
  | @name name _ kindEq => exact ⟨name, by rw [identifierName?, kindEq]; rfl⟩
  | part _ _ ih => exact ih

theorem exists_name_of_declares {tree : Tree} (fits : tree.Fits) {node identifier : Nat} {home : Home}
    (declares : tree.Declares node home identifier) :
    ∃ name, tree.identifierName? identifier = some name := by
  have named : ∀ name, Slot.mk name .name ∈ (tree.kind node).slots →
      ∃ text, tree.identifierName? name = some text := fun name place =>
    exists_name_of_isIdentifier (fits node _ place)
  cases declares with
  | var _ _ _ binds => exact exists_name_of_binds binds
  | lexical _ _ _ _ binds => exact exists_name_of_binds binds
  | functionName kindEq => exact named _ (by rw [kindEq]; exact List.mem_cons_self)
  | className kindEq => exact named _ (by rw [kindEq]; exact List.mem_cons_self)
  | parameter _ binds => exact exists_name_of_binds binds
  | ownName kindEq => exact named _ (by rw [kindEq]; exact List.mem_cons_self)
  | catchParameter _ binds => exact exists_name_of_binds binds

end Tree

namespace Declared

def home (tree : Tree) (node : Nat) : Home → Option Nat
  | .own => (ofTree tree).openedBy? node
  | .enclosing => around tree node
  | .function => functionAround tree node

variable {tree : Tree}

theorem mem_records_iff {scope owner : Nat} {identifiers : List Nat} {binding : Binding} :
    binding ∈ Survey.records tree scope owner identifiers ↔ binding.identifier ∈ identifiers ∧
      tree.identifierName? binding.identifier = some binding.name ∧ binding.scope = scope ∧
      binding.owner = owner := by
  rw [Survey.records, List.mem_filterMap]
  constructor
  · rintro ⟨identifier, member, made⟩
    obtain ⟨name, named, rfl⟩ := Option.map_eq_some_iff.mp made
    exact ⟨member, named, rfl, rfl⟩
  · rintro ⟨member, named, rfl, rfl⟩
    exact ⟨binding.identifier, member, by rw [named]; rfl⟩

variable (formed : tree.WellFormed)

include formed

theorem exists_openedBy? {node : Nat} {kind : ScopeKind} (reached : node ∈ tree.preorder)
    (opened : Survey.opens? tree node = some kind) : ∃ id, (ofTree tree).openedBy? node = some id := by
  have member : node ∈ (Survey.ofTree tree).openers := by
    rw [Survey.openers_ofTree]
    exact List.mem_cons_of_mem _ (List.mem_filter.mpr ⟨reached, by simp [Survey.opening, opened]⟩)
  obtain ⟨id, found⟩ := List.mem_iff_getElem?.mp member
  exact ⟨id, (openedBy?_eq_some_iff formed).mpr found⟩

/-- The bindings of a tree are those of its nodes but the root, in the scopes that the declarations name. -/
theorem mem_bindings_iff {binding : Binding} :
    binding ∈ (Survey.ofTree tree).bindings.toList ↔
      ∃ node ∈ tree.preorder, node ≠ tree.root ∧ ∃ enclosing function,
        around tree node = some enclosing ∧ functionAround tree node = some function ∧
        (binding ∈ Survey.outerRecords tree enclosing function node ∨
          ∃ inner, (ofTree tree).openedBy? node = some inner ∧
            binding ∈ Survey.records tree inner node (Survey.boundInside tree node)) := by
  rw [(Survey.adds_ofTree formed).bindings, List.nil_append, List.mem_flatMap]
  constructor
  · rintro ⟨node, reached, member⟩
    have notRoot : node ≠ tree.root := by
      rintro rfl
      rw [Survey.nodeRecords_root formed] at member
      cases member
    obtain ⟨enclosing, surrounds⟩ := exists_around_of_mem_preorder formed reached notRoot
    refine ⟨node, reached, notRoot, enclosing, _, surrounds, functionAround_eq formed surrounds, ?_⟩
    cases opened : Survey.opens? tree node with
    | none =>
        rw [Survey.nodeRecords_of_closed surrounds opened] at member
        exact .inl member
    | some kind =>
        obtain ⟨inner, found⟩ := exists_openedBy? formed reached opened
        rw [Survey.nodeRecords_of_opened surrounds opened found] at member
        exact (List.mem_append.mp member).imp_right fun member => ⟨inner, found, member⟩
  · rintro ⟨node, reached, notRoot, enclosing, function, surrounds, within, member⟩
    rw [functionAround_eq formed surrounds] at within
    obtain rfl := Option.some.inj within
    refine ⟨node, reached, ?_⟩
    cases opened : Survey.opens? tree node with
    | none =>
        rw [Survey.nodeRecords_of_closed surrounds opened]
        rcases member with outer | ⟨inner, found, -⟩
        · exact outer
        · rw [openedBy?_eq_none formed opened notRoot] at found
          cases found
    | some kind =>
        obtain ⟨own, openedAs⟩ := exists_openedBy? formed reached opened
        rw [Survey.nodeRecords_of_opened surrounds opened openedAs]
        refine List.mem_append.mpr (member.imp_right ?_)
        rintro ⟨inner, found, member⟩
        rw [openedAs] at found
        obtain rfl := Option.some.inj found
        exact member

/-- Every binding is declared, and lives at its home. -/
theorem declares_of_binding {binding : Binding}
    (member : binding ∈ (Survey.ofTree tree).bindings.toList) :
    tree.identifierName? binding.identifier = some binding.name ∧
      ∃ node place, tree.Declares node place binding.identifier ∧
        home tree node place = some binding.scope := by
  obtain ⟨node, -, -, enclosing, function, surrounds, within, member⟩ :=
    (mem_bindings_iff formed).mp member
  rcases member with outer | ⟨inner, opened, inside⟩
  · rw [Survey.outerRecords] at outer
    split at outer
    case h_1 word declarators ambient kindEq =>
        obtain ⟨declarator, listed, member⟩ := List.mem_flatMap.mp outer
        split at member
        case h_1 pattern init declaratorEq =>
            obtain ⟨bound, named, scopeEq, -⟩ := mem_records_iff.mp member
            have binds := formed.mem_boundBy_iff.mp bound
            refine ⟨named, node, ?_⟩
            rw [scopeEq]
            by_cases isVar : word = .var_
            · subst isVar
              exact ⟨.function, .var kindEq listed declaratorEq binds, within⟩
            · rw [if_neg isVar]
              exact ⟨.enclosing, .lexical kindEq isVar listed declaratorEq binds, surrounds⟩
        case h_2 => cases member
    case h_2 name _ _ _ _ kindEq =>
        obtain ⟨bound, named, scopeEq, -⟩ := mem_records_iff.mp outer
        rw [List.mem_singleton.mp bound] at named ⊢
        exact ⟨named, node, .enclosing, .functionName kindEq, by rw [scopeEq]; exact surrounds⟩
    case h_3 name _ _ _ _ kindEq =>
        obtain ⟨bound, named, scopeEq, -⟩ := mem_records_iff.mp outer
        rw [List.mem_singleton.mp bound] at named ⊢
        exact ⟨named, node, .enclosing, .className kindEq, by rw [scopeEq]; exact surrounds⟩
    case h_4 => cases outer
  · obtain ⟨bound, named, scopeEq, -⟩ := mem_records_iff.mp inside
    refine ⟨named, node, .own, ?_, by rw [scopeEq]; exact opened⟩
    rw [Survey.boundInside] at bound
    rcases List.mem_append.mp bound with own | parameter
    · split at own
      case h_1 name _ _ _ _ kindEq =>
          rw [List.mem_singleton.mp own]
          exact .ownName kindEq
      case h_2 param body kindEq => exact .catchParameter kindEq (formed.mem_boundBy_iff.mp own)
      case h_3 => cases own
    · obtain ⟨param, listed, bound⟩ := List.mem_flatMap.mp parameter
      exact .parameter listed (formed.mem_boundBy_iff.mp bound)

theorem reached_of_child {node child : Nat} (listed : child ∈ tree.children node)
    (notProgram : ∀ body, tree.kind node ≠ .program body) :
    node ∈ tree.preorder ∧ node ≠ tree.root := by
  have found := (formed.parent_iff child node).mpr listed
  refine ⟨formed.mem_preorder_outline_iff.mpr (formed.isWithin_root (formed.parent_lt_size found)
    (formed.not_isAscription_of_parent found)), ?_⟩
  rintro rfl
  obtain ⟨body, kindEq⟩ := formed.root_program
  exact notProgram body kindEq

theorem exists_binding_outside {node child : Nat} (listed : child ∈ tree.children node)
    (notProgram : ∀ body, tree.kind node ≠ .program body) :
    ∃ enclosing function, around tree node = some enclosing ∧ functionAround tree node = some function ∧
      ∀ binding ∈ Survey.outerRecords tree enclosing function node,
        binding ∈ (Survey.ofTree tree).bindings.toList := by
  obtain ⟨reached, notRoot⟩ := reached_of_child formed listed notProgram
  obtain ⟨enclosing, surrounds⟩ := exists_around_of_mem_preorder formed reached notRoot
  refine ⟨enclosing, _, surrounds, functionAround_eq formed surrounds, fun binding member => ?_⟩
  exact (mem_bindings_iff formed).mpr ⟨node, reached, notRoot, enclosing, _, surrounds,
    functionAround_eq formed surrounds, .inl member⟩

theorem exists_binding_inside {node child : Nat} {kind : ScopeKind} (listed : child ∈ tree.children node)
    (opened : Survey.opens? tree node = some kind) :
    ∃ inner, (ofTree tree).openedBy? node = some inner ∧
      ∀ binding ∈ Survey.records tree inner node (Survey.boundInside tree node),
        binding ∈ (Survey.ofTree tree).bindings.toList := by
  obtain ⟨reached, notRoot⟩ := reached_of_child formed listed fun body kindEq => by
    rw [Survey.opens?, kindEq] at opened
    cases opened
  obtain ⟨enclosing, surrounds⟩ := exists_around_of_mem_preorder formed reached notRoot
  obtain ⟨inner, found⟩ := exists_openedBy? formed reached opened
  refine ⟨inner, found, fun binding member => ?_⟩
  exact (mem_bindings_iff formed).mpr ⟨node, reached, notRoot, enclosing, _, surrounds,
    functionAround_eq formed surrounds, .inr ⟨inner, found, member⟩⟩

omit formed in
theorem opens?_of_parameter {node param : Nat} (member : param ∈ (tree.kind node).params) :
    param ∈ tree.children node ∧ Survey.opens? tree node = some .function := by
  rw [Tree.children, Survey.opens?]
  cases kindEq : tree.kind node <;> simp_all [NodeKind.params, NodeKind.children]

/-- Every declared identifier has a binding, which lives at its home. -/
theorem exists_binding_of_declares (fits : tree.Fits) {node identifier : Nat} {place : Home}
    (declares : tree.Declares node place identifier) :
    ∃ binding ∈ (Survey.ofTree tree).bindings.toList, binding.identifier = identifier ∧
      home tree node place = some binding.scope := by
  obtain ⟨name, named⟩ := Tree.exists_name_of_declares fits declares
  have recorded : ∀ scope owner identifiers, identifier ∈ identifiers →
      { scope, owner, identifier, name } ∈ Survey.records tree scope owner identifiers :=
    fun scope owner identifiers member => mem_records_iff.mpr ⟨member, named, rfl, rfl⟩
  have inside : ∀ kind child, child ∈ tree.children node → Survey.opens? tree node = some kind →
      identifier ∈ Survey.boundInside tree node →
      ∃ binding ∈ (Survey.ofTree tree).bindings.toList, binding.identifier = identifier ∧
        home tree node .own = some binding.scope := by
    intro kind child listed opened member
    obtain ⟨inner, found, included⟩ := exists_binding_inside formed listed opened
    exact ⟨_, included _ (recorded inner node _ member), rfl, found⟩
  have outside : ∀ (child : Nat) (scopeOf : Nat → Nat → Nat), child ∈ tree.children node →
      (∀ body, tree.kind node ≠ .program body) →
      (∀ enclosing function, around tree node = some enclosing →
        functionAround tree node = some function →
        home tree node place = some (scopeOf enclosing function)) →
      (∀ enclosing function, ∃ owner, { scope := scopeOf enclosing function, owner, identifier, name } ∈
        Survey.outerRecords tree enclosing function node) →
      ∃ binding ∈ (Survey.ofTree tree).bindings.toList, binding.identifier = identifier ∧
        home tree node place = some binding.scope := by
    intro child scopeOf listed notProgram lives member
    obtain ⟨enclosing, function, surrounds, within, included⟩ :=
      exists_binding_outside formed listed notProgram
    obtain ⟨owner, member⟩ := member enclosing function
    exact ⟨_, included _ member, rfl, lives enclosing function surrounds within⟩
  cases declares with
  | @var declarator pattern _ declarators init ambient kindEq listed declaratorEq binds =>
      refine outside declarator (fun _ function => function) (by rw [Tree.children, kindEq]; exact listed)
        (by simp [kindEq]) (fun _ _ _ within => within) fun enclosing function => ⟨declarator, ?_⟩
      rw [Survey.outerRecords, kindEq]
      refine List.mem_flatMap.mpr ⟨declarator, listed, ?_⟩
      rw [declaratorEq]
      exact recorded _ _ _ (formed.mem_boundBy_iff.mpr binds)
  | @lexical declarator pattern _ declarators init word ambient kindEq lexical listed declaratorEq
      binds =>
      refine outside declarator (fun enclosing _ => enclosing) (by rw [Tree.children, kindEq]; exact listed)
        (by simp [kindEq]) (fun _ _ surrounds _ => surrounds) fun enclosing function => ⟨declarator, ?_⟩
      rw [Survey.outerRecords, kindEq]
      refine List.mem_flatMap.mpr ⟨declarator, listed, ?_⟩
      rw [declaratorEq]
      simp only [if_neg lexical]
      exact recorded _ _ _ (formed.mem_boundBy_iff.mpr binds)
  | functionName kindEq =>
      refine outside identifier (fun enclosing _ => enclosing)
        (by rw [Tree.children, kindEq]; exact List.mem_cons_self) (by simp [kindEq])
        (fun _ _ surrounds _ => surrounds) fun enclosing function => ⟨node, ?_⟩
      rw [Survey.outerRecords, kindEq]
      exact recorded _ _ _ (List.mem_singleton.mpr rfl)
  | className kindEq =>
      refine outside identifier (fun enclosing _ => enclosing)
        (by rw [Tree.children, kindEq]; exact List.mem_cons_self) (by simp [kindEq])
        (fun _ _ surrounds _ => surrounds) fun enclosing function => ⟨node, ?_⟩
      rw [Survey.outerRecords, kindEq]
      exact recorded _ _ _ (List.mem_singleton.mpr rfl)
  | @parameter param _ member binds =>
      obtain ⟨listed, opened⟩ := opens?_of_parameter member
      refine inside .function param listed opened ?_
      exact List.mem_append_right _ (List.mem_flatMap.mpr ⟨param, member, formed.mem_boundBy_iff.mpr binds⟩)
  | ownName kindEq =>
      refine inside .function identifier (by rw [Tree.children, kindEq]; exact List.mem_cons_self)
        (by rw [Survey.opens?, kindEq]) ?_
      rw [Survey.boundInside, kindEq]
      exact List.mem_cons_self
  | @catchParameter param body _ kindEq binds =>
      refine inside .block param (by rw [Tree.children, kindEq]; exact List.mem_cons_self)
        (by rw [Survey.opens?, kindEq]) ?_
      rw [Survey.boundInside, kindEq]
      exact List.mem_append_left _ (formed.mem_boundBy_iff.mpr binds)

end Declared

end Heed
