import Heed.Proofs.Scope.Declarations

/-!
# What an identifier stands for

An identifier names a member, a property, an alias or an interface; or it is bound by a declaration; or it
stands where a value is expected and refers to a variable. The place of an identifier among the children of
its parent decides which of the three it is, for a pattern together with the places above it.
-/

set_option autoImplicit false

namespace Heed

theorem Slot.mem_row_iff {slot : Slot} {role : Role} {nodes : List Nat} :
    slot ∈ Slot.row role nodes ↔ slot.node ∈ nodes ∧ slot.role = role := by
  rw [Slot.row, List.mem_flatMap]
  constructor
  · rintro ⟨node, member, same⟩
    rw [List.mem_singleton.mp same]
    exact ⟨member, rfl⟩
  · rintro ⟨member, rfl⟩
    exact ⟨slot.node, member, List.mem_singleton.mpr rfl⟩

namespace NodeKind

/-- Kinds whose nodes hang below another node. A number outside a tree reads as an empty statement. -/
def isPlaced : NodeKind → Bool
  | .program _ | .emptyStatement | .typeAscription _ => false
  | _ => true

variable {slot : Slot}

theorem mem_slots_property {key value : Nat} {shorthand : Bool} :
    slot ∈ (NodeKind.property key value shorthand).slots ↔
      slot = ⟨value, .any⟩ ∨ shorthand = false ∧ slot = ⟨key, .name⟩ := by
  cases shorthand <;> simp [slots, or_comm]

theorem mem_slots_member {base key : Nat} {computed optional : Bool} :
    slot ∈ (NodeKind.member base key computed optional).slots ↔
      slot = ⟨base, .plain⟩ ∨ slot = ⟨key, .plain⟩ ∧ computed = true ∨
        slot = ⟨key, .name⟩ ∧ computed = false := by
  cases computed <;> simp [slots]

end NodeKind

namespace Tree

/-- Identifiers that name something other than a variable. -/
inductive Labels (tree : Tree) (identifier : Nat) : Prop
  | member (node : Nat) {base : Nat} {optional : Bool} :
      tree.kind node = .member base identifier false optional → Labels tree identifier
  | property (node : Nat) {value : Nat} :
      tree.kind node = .property identifier value false → Labels tree identifier
  | method (node : Nat) {params : List Nat} {returnType body : Option Nat} {isAsync isStatic : Bool} :
      tree.kind node = .methodDefinition identifier params returnType body isAsync isStatic →
      Labels tree identifier
  | field (node : Nat) {ascription value : Option Nat} {isStatic : Bool} :
      tree.kind node = .propertyDefinition identifier ascription value isStatic → Labels tree identifier
  | aliasName (node : Nat) {ascription : Nat} {typeParams : List String} :
      tree.kind node = .typeAlias identifier typeParams ascription → Labels tree identifier
  | interfaceName (node : Nat) {typeParams : List String} {bases : List TypeExpr}
      {members : List TypeMember} :
      tree.kind node = .interfaceDeclaration identifier typeParams bases members → Labels tree identifier

def Bound (tree : Tree) (identifier : Nat) : Prop := ∃ node home, tree.Declares node home identifier

def Fills (tree : Tree) (node : Nat) (role : Role) (parent : Nat) : Prop :=
  ⟨node, role⟩ ∈ (tree.kind parent).slots

/-- Nodes in the place of a statement or an expression. -/
inductive Evaluated (tree : Tree) (node : Nat) : Prop
  | plain {parent : Nat} : tree.Fills node .plain parent → Evaluated tree node
  | member {object : Nat} : tree.Fills node .member object → Evaluated tree node
  | value {key property object : Nat} {shorthand : Bool} :
      tree.kind property = .property key node shorthand → tree.Fills property .member object →
      Evaluated tree node

/-- Identifiers in the place of an expression. -/
def Refers (tree : Tree) (identifier : Nat) : Prop :=
  (tree.kind identifier).isIdentifier = true ∧ tree.Evaluated identifier

/-! ## Which nodes have which places -/

section Places

variable {tree : Tree} {node parent : Nat}

theorem property_of_fills (fills : tree.Fills node .any parent) :
    ∃ key shorthand, tree.kind parent = .property key node shorthand := by
  rw [Fills] at fills
  cases kindEq : tree.kind parent with
  | property | member => simp_all [NodeKind.mem_slots_property, NodeKind.mem_slots_member]
  | _ => simp [kindEq, NodeKind.slots, Slot.mem_row_iff] at fills

theorem declaration_of_fills (fills : tree.Fills node .declarator parent) :
    ∃ word declarators ambient, tree.kind parent = .variableDeclaration word declarators ambient ∧
      node ∈ declarators := by
  rw [Fills] at fills
  cases kindEq : tree.kind parent with
  | property | member => simp_all [NodeKind.mem_slots_property, NodeKind.mem_slots_member]
  | _ => simp_all [NodeKind.slots, Slot.mem_row_iff]

theorem binder_of_fills (fills : tree.Fills node .binding parent) :
    (∃ init, tree.kind parent = .declarator node init) ∨ tree.kind parent = .rest node ∨
      ∃ body, tree.kind parent = .catchClause (some node) body := by
  rw [Fills] at fills
  cases kindEq : tree.kind parent with
  | property | member => simp_all [NodeKind.mem_slots_property, NodeKind.mem_slots_member]
  | _ => simp_all [NodeKind.slots, Slot.mem_row_iff]

theorem params_of_fills (fills : tree.Fills node .parameter parent) :
    node ∈ (tree.kind parent).params ∨
      ∃ elements, tree.kind parent = .arrayPattern elements ∧ node ∈ elements := by
  rw [Fills] at fills
  cases kindEq : tree.kind parent with
  | property | member => simp_all [NodeKind.mem_slots_property, NodeKind.mem_slots_member]
  | _ => simp_all [NodeKind.slots, NodeKind.params, Slot.mem_row_iff]

theorem pattern_of_fills (fills : tree.Fills node .bindingProperty parent) :
    ∃ properties, tree.kind parent = .objectPattern properties ∧ node ∈ properties := by
  rw [Fills] at fills
  cases kindEq : tree.kind parent with
  | property | member => simp_all [NodeKind.mem_slots_property, NodeKind.mem_slots_member]
  | _ => simp_all [NodeKind.slots, Slot.mem_row_iff]

/-- A name labels something or is declared by the node that it names. -/
theorem labels_or_bound_of_fills (fills : tree.Fills node .name parent) :
    tree.Labels node ∨ tree.Bound node := by
  rw [Fills] at fills
  cases kindEq : tree.kind parent with
  | property key value shorthand =>
      rw [kindEq, NodeKind.mem_slots_property] at fills
      obtain ⟨rfl, rfl⟩ : shorthand = false ∧ node = key := by simpa using fills
      exact .inl (.property parent kindEq)
  | member base key computed optional =>
      rw [kindEq, NodeKind.mem_slots_member] at fills
      obtain ⟨rfl, rfl⟩ : node = key ∧ computed = false := by simpa using fills
      exact .inl (.member parent kindEq)
  | functionDeclaration name params returnType body isAsync =>
      obtain rfl : node = name := by simpa [kindEq, NodeKind.slots, Slot.mem_row_iff] using fills
      exact .inr ⟨parent, _, .functionName kindEq⟩
  | classDeclaration name typeParams heritage body ambient =>
      obtain rfl : node = name := by simpa [kindEq, NodeKind.slots, Slot.mem_row_iff] using fills
      exact .inr ⟨parent, _, .className kindEq⟩
  | functionExpression name params returnType body isAsync =>
      obtain rfl : name = some node := by simpa [kindEq, NodeKind.slots, Slot.mem_row_iff] using fills
      exact .inr ⟨parent, _, .ownName kindEq⟩
  | methodDefinition key params returnType body isAsync isStatic =>
      obtain rfl : node = key := by simpa [kindEq, NodeKind.slots, Slot.mem_row_iff] using fills
      exact .inl (.method parent kindEq)
  | propertyDefinition key ascription value isStatic =>
      obtain rfl : node = key := by simpa [kindEq, NodeKind.slots, Slot.mem_row_iff] using fills
      exact .inl (.field parent kindEq)
  | typeAlias name typeParams ascription =>
      obtain rfl : node = name := by simpa [kindEq, NodeKind.slots] using fills
      exact .inl (.aliasName parent kindEq)
  | interfaceDeclaration name typeParams bases members =>
      obtain rfl : node = name := by simpa [kindEq, NodeKind.slots] using fills
      exact .inl (.interfaceName parent kindEq)
  | _ => simp [kindEq, NodeKind.slots, Slot.mem_row_iff] at fills

theorem fills_value {key value : Nat} {shorthand : Bool}
    (kindEq : tree.kind parent = .property key value shorthand) : tree.Fills value .any parent := by
  rw [Fills, kindEq, NodeKind.mem_slots_property]
  exact .inl rfl

end Places

namespace WellFormed

variable {tree : Tree} (formed : tree.WellFormed)

include formed

theorem parent?_of_fills {node parent : Nat} {role : Role} (fills : tree.Fills node role parent) :
    tree.parent? node = some parent :=
  (formed.parent_iff node parent).mpr (NodeKind.node_mem_children fills)

theorem exists_fills {node parent : Nat} (found : tree.parent? node = some parent) :
    ∃ role, tree.Fills node role parent := by
  have listed := (formed.parent_iff node parent).mp found
  rw [children, ← NodeKind.map_node_slots] at listed
  obtain ⟨⟨_, role⟩, member, rfl⟩ := List.mem_map.mp listed
  exact ⟨role, member⟩

/-- A node stands in one place. -/
theorem fills_unique {node left right : Nat} {leftRole rightRole : Role}
    (leftFills : tree.Fills node leftRole left) (rightFills : tree.Fills node rightRole right) :
    left = right ∧ leftRole = rightRole := by
  have same := (formed.parent?_of_fills leftFills).symm.trans (formed.parent?_of_fills rightFills)
  obtain rfl := Option.some.inj same
  have once := formed.children_nodup left
  rw [children, ← NodeKind.map_node_slots] at once
  exact ⟨rfl, (Slot.mk.inj (List.inj_on_of_nodup_map once leftFills rightFills rfl)).2⟩

theorem exists_place (node : Nat) (placed : (tree.kind node).isPlaced = true) :
    ∃ role parent, tree.Fills node role parent := by
  cases found : tree.parent? node with
  | some parent =>
      obtain ⟨role, fills⟩ := formed.exists_fills found
      exact ⟨role, parent, fills⟩
  | none =>
      rcases Nat.lt_or_ge node tree.size with inside | outside
      · by_cases isRoot : node = tree.root
        · obtain ⟨body, kindEq⟩ := formed.root_program
          simp [isRoot, kindEq, NodeKind.isPlaced] at placed
        · have ascription := formed.orphan node inside isRoot found
          cases kindEq : tree.kind node <;> simp_all [NodeKind.isPlaced, NodeKind.isAscription]
      · have kindEq : tree.kind node = .emptyStatement := kindAt_of_size_le outside
        simp [kindEq, NodeKind.isPlaced] at placed

end WellFormed

/-! ## Patterns and what they bind -/

/-- Nodes in the place of a pattern, and the properties and rest elements of patterns. -/
inductive PatternPlace (tree : Tree) (node : Nat) : Prop
  | binding {parent : Nat} : tree.Fills node .binding parent → PatternPlace tree node
  | parameter {parent : Nat} : tree.Fills node .parameter parent → PatternPlace tree node
  | member {pattern : Nat} : tree.Fills node .bindingProperty pattern → PatternPlace tree node
  | value {key property pattern : Nat} {shorthand : Bool} :
      tree.kind property = .property key node shorthand → tree.Fills property .bindingProperty pattern →
      PatternPlace tree node

/-- The identifiers that a pattern, or a property of one, binds. -/
def Yields (tree : Tree) (identifier node : Nat) : Prop :=
  match tree.kind node with
  | .property _ value _ => tree.Binds identifier value
  | _ => tree.Binds identifier node

theorem yields_iff {tree : Tree} {identifier node : Nat}
    (other : ∀ key value shorthand, tree.kind node ≠ .property key value shorthand) :
    tree.Yields identifier node ↔ tree.Binds identifier node := by
  rw [Yields]
  split
  case h_1 key value shorthand kindEq => exact absurd kindEq (other key value shorthand)
  case h_2 => exact Iff.rfl

namespace WellFormed

variable {tree : Tree} (formed : tree.WellFormed) (fits : tree.Fits)

include formed fits

/-- A property belongs to an object, with a plain value, or to a pattern, with a binding as its value. -/
theorem fills_of_property {node key value : Nat} {shorthand : Bool}
    (kindEq : tree.kind node = .property key value shorthand) :
    (∃ object, tree.Fills node .member object ∧ (tree.kind value).isPlain = true) ∨
      ∃ pattern, tree.Fills node .bindingProperty pattern ∧ (tree.kind value).isBinding = true := by
  induction node using formed.climb generalizing key value shorthand with
  | top node orphan =>
      obtain ⟨role, parent, fills⟩ := formed.exists_place node (by rw [kindEq]; rfl)
      rw [formed.parent?_of_fills fills] at orphan
      cases orphan
  | step node parent found ih =>
      obtain ⟨role, fills⟩ := formed.exists_fills found
      have admitted : role.accepts tree.kind (tree.kind node) = true := fits parent _ fills
      rw [kindEq] at admitted
      cases role with
      | member => exact .inl ⟨parent, fills, admitted⟩
      | bindingProperty => exact .inr ⟨parent, fills, admitted⟩
      | any =>
          -- The value of a property is never a property itself.
          obtain ⟨outerKey, outerShorthand, parentEq⟩ := property_of_fills fills
          rcases ih parentEq with ⟨_, _, isPlain⟩ | ⟨_, _, isBinding⟩
          · simp [kindEq, NodeKind.isPlain] at isPlain
          · simp [kindEq, NodeKind.isBinding] at isBinding
      | plain | declarator | name | binding | parameter | ascription => cases admitted

/-- The value of a property is evaluated in an object and bound in a pattern. -/
theorem cases_of_value {node property : Nat} (fills : tree.Fills node .any property) :
    tree.Evaluated node ∧ (tree.kind node).isPlain = true ∨
      tree.PatternPlace node ∧ (tree.kind node).isBinding = true := by
  obtain ⟨key, shorthand, kindEq⟩ := property_of_fills fills
  rcases formed.fills_of_property fits kindEq with ⟨object, within, isPlain⟩ | ⟨pattern, within, isBinding⟩
  · exact .inl ⟨.value kindEq within, isPlain⟩
  · exact .inr ⟨.value kindEq within, isBinding⟩

/-- Patterns and rest elements stand in patterns and declarations only. -/
theorem patternPlace_of_part {node : Nat} (isPart : tree.isPatternPart node = true)
    (other : ∀ key value shorthand, tree.kind node ≠ .property key value shorthand) :
    tree.PatternPlace node := by
  have placed : (tree.kind node).isPlaced = true ∧ (tree.kind node).isPlain = false ∧
      (tree.kind node).isIdentifier = false ∧ (tree.kind node).isDeclarator = false ∧
      (tree.kind node).isAscription = false ∧
      Role.member.accepts tree.kind (tree.kind node) = false := by
    rw [isPatternPart] at isPart
    cases kindEq : tree.kind node with
    | property key value shorthand => exact absurd kindEq (other key value shorthand)
    | rest | objectPattern | arrayPattern => exact ⟨rfl, rfl, rfl, rfl, rfl, rfl⟩
    | _ => simp [kindEq] at isPart
  obtain ⟨isPlaced, unplain, unnamed, undeclared, unascribed, noMember⟩ := placed
  obtain ⟨role, parent, fills⟩ := formed.exists_place node isPlaced
  have admitted : role.accepts tree.kind (tree.kind node) = true := fits parent _ fills
  cases role with
  | binding => exact .binding fills
  | parameter => exact .parameter fills
  | bindingProperty => exact .member fills
  | any =>
      rcases formed.cases_of_value fits fills with ⟨-, isPlain⟩ | ⟨place, -⟩
      · rw [unplain] at isPlain
        cases isPlain
      · exact place
  | member =>
      rw [noMember] at admitted
      cases admitted
  | plain => exact absurd admitted (by simp [Role.accepts, unplain])
  | declarator => exact absurd admitted (by simp [Role.accepts, undeclared])
  | name => exact absurd admitted (by simp [Role.accepts, unnamed])
  | ascription => exact absurd admitted (by simp [Role.accepts, unascribed])

theorem declaration_of_declarator {node target : Nat} {init : Option Nat}
    (kindEq : tree.kind node = .declarator target init) :
    ∃ parent, tree.Fills node .declarator parent := by
  obtain ⟨role, parent, fills⟩ := formed.exists_place node (by rw [kindEq]; rfl)
  have admitted : role.accepts tree.kind (tree.kind node) = true := fits parent _ fills
  rw [kindEq] at admitted
  cases role with
  | declarator => exact ⟨parent, fills⟩
  | any =>
      rcases formed.cases_of_value fits fills with ⟨-, isPlain⟩ | ⟨-, isBinding⟩
      · simp [kindEq, NodeKind.isPlain] at isPlain
      · simp [kindEq, NodeKind.isBinding] at isBinding
  | plain | member | name | binding | parameter | bindingProperty | ascription => cases admitted

theorem bound_of_declarator {node target identifier : Nat} {init : Option Nat}
    (kindEq : tree.kind node = .declarator target init) (binds : tree.Binds identifier target) :
    tree.Bound identifier := by
  obtain ⟨parent, fills⟩ := formed.declaration_of_declarator fits kindEq
  obtain ⟨word, declarators, ambient, parentEq, listed⟩ := declaration_of_fills fills
  by_cases isVar : word = .var_
  · subst isVar
    exact ⟨parent, _, .var parentEq listed kindEq binds⟩
  · exact ⟨parent, _, .lexical parentEq isVar listed kindEq binds⟩

/-- What a pattern binds, the pattern around it binds as well. -/
theorem outwards_of_part {node parent identifier : Nat} (found : tree.parent? node = some parent)
    (isPart : tree.isPatternPart parent = true)
    (other : ∀ key value shorthand, tree.kind parent ≠ .property key value shorthand)
    {inner : Nat} (part : inner ∈ tree.patternParts parent) (binds : tree.Binds identifier inner) :
    ∃ parent, tree.parent? node = some parent ∧ tree.PatternPlace parent ∧ tree.Yields identifier parent :=
  ⟨parent, found, formed.patternPlace_of_part fits isPart other, (yields_iff other).mpr (.part part binds)⟩

theorem bound_or_outwards_of_binding {node parent identifier : Nat} (fills : tree.Fills node .binding parent)
    (yields : tree.Yields identifier node) :
    tree.Bound identifier ∨
      ∃ parent, tree.parent? node = some parent ∧ tree.PatternPlace parent ∧ tree.Yields identifier parent := by
  have admitted : (tree.kind node).isBinding = true := fits parent _ fills
  have binds : tree.Binds identifier node := by
    refine (yields_iff ?_).mp yields
    intro key value shorthand kindEq
    simp [kindEq, NodeKind.isBinding] at admitted
  rcases binder_of_fills fills with ⟨init, kindEq⟩ | kindEq | ⟨body, kindEq⟩
  · exact .inl (formed.bound_of_declarator fits kindEq binds)
  · have part : node ∈ tree.patternParts parent := by simp [patternParts, kindEq]
    exact .inr (formed.outwards_of_part fits (formed.parent?_of_fills fills) (by rw [isPatternPart, kindEq])
      (by simp [kindEq]) part binds)
  · exact .inl ⟨_, _, .catchParameter kindEq binds⟩

theorem bound_or_outwards_of_parameter {node parent identifier : Nat}
    (fills : tree.Fills node .parameter parent) (yields : tree.Yields identifier node) :
    tree.Bound identifier ∨
      ∃ parent, tree.parent? node = some parent ∧ tree.PatternPlace parent ∧ tree.Yields identifier parent := by
  have admitted : ((tree.kind node).isBinding || (tree.kind node).isRest) = true := fits parent _ fills
  have binds : tree.Binds identifier node := by
    refine (yields_iff ?_).mp yields
    intro key value shorthand kindEq
    simp [kindEq, NodeKind.isBinding, NodeKind.isRest] at admitted
  rcases params_of_fills fills with listed | ⟨elements, kindEq, listed⟩
  · exact .inl ⟨_, _, .parameter listed binds⟩
  · have part : node ∈ tree.patternParts parent := by simpa [patternParts, kindEq] using listed
    exact .inr (formed.outwards_of_part fits (formed.parent?_of_fills fills) (by rw [isPatternPart, kindEq])
      (by simp [kindEq]) part binds)

theorem outwards_of_member {node pattern identifier : Nat}
    (fills : tree.Fills node .bindingProperty pattern) (yields : tree.Yields identifier node) :
    ∃ parent, tree.parent? node = some parent ∧ tree.PatternPlace parent ∧ tree.Yields identifier parent := by
  obtain ⟨properties, kindEq, listed⟩ := pattern_of_fills fills
  have admitted : Role.bindingProperty.accepts tree.kind (tree.kind node) = true := fits pattern _ fills
  -- A property hands on what its value binds, and a rest element what its argument does.
  obtain ⟨inner, part, binds⟩ : ∃ inner ∈ tree.patternParts pattern, tree.Binds identifier inner := by
    simp only [patternParts, kindEq, List.mem_flatMap]
    rw [Yields] at yields
    cases nodeEq : tree.kind node with
    | property key value shorthand =>
        rw [nodeEq] at yields
        exact ⟨value, ⟨node, listed, by simp [nodeEq]⟩, yields⟩
    | rest argument =>
        rw [nodeEq] at yields
        cases yields with
        | name identifierEq => simp [nodeEq] at identifierEq
        | @part _ inner isInner binds =>
            obtain rfl : inner = argument := by simpa [patternParts, nodeEq] using isInner
            exact ⟨inner, ⟨node, listed, by simp [nodeEq]⟩, binds⟩
    | _ => simp [nodeEq, Role.accepts, NodeKind.isRest] at admitted
  exact formed.outwards_of_part fits (formed.parent?_of_fills fills) (by rw [isPatternPart, kindEq])
    (by simp [kindEq]) part binds

/-- One step up from a pattern leads to the declaration or stays in the pattern around it. -/
theorem bound_or_outwards {node identifier : Nat} (place : tree.PatternPlace node)
    (yields : tree.Yields identifier node) :
    tree.Bound identifier ∨
      ∃ parent, tree.parent? node = some parent ∧ tree.PatternPlace parent ∧ tree.Yields identifier parent := by
  cases place with
  | binding fills => exact formed.bound_or_outwards_of_binding fits fills yields
  | parameter fills => exact formed.bound_or_outwards_of_parameter fits fills yields
  | member fills => exact .inr (formed.outwards_of_member fits fills yields)
  | @value key property pattern shorthand kindEq within =>
      have fills := fills_value kindEq
      refine .inr ⟨property, formed.parent?_of_fills fills, .member within, ?_⟩
      rw [Yields, kindEq]
      refine (yields_iff ?_).mp yields
      intro key value shorthand nodeEq
      rcases formed.cases_of_value fits fills with ⟨-, isPlain⟩ | ⟨-, isBinding⟩
      · simp [nodeEq, NodeKind.isPlain] at isPlain
      · simp [nodeEq, NodeKind.isBinding] at isBinding

/-- What a pattern binds is declared, however deep the pattern stands. -/
theorem bound_of_patternPlace {node identifier : Nat} (place : tree.PatternPlace node)
    (yields : tree.Yields identifier node) : tree.Bound identifier := by
  induction node using formed.climb with
  | top node orphan =>
      rcases formed.bound_or_outwards fits place yields with bound | ⟨parent, found, -⟩
      · exact bound
      · rw [orphan] at found
        cases found
  | step node parent found ih =>
      rcases formed.bound_or_outwards fits place yields with bound | ⟨other, above, place, yields⟩
      · exact bound
      · rw [found] at above
        obtain rfl := Option.some.inj above
        exact ih place yields

/-! ## Three sorts of identifiers -/

theorem sort_of_identifier {identifier : Nat} (named : (tree.kind identifier).isIdentifier = true) :
    tree.Labels identifier ∨ tree.Bound identifier ∨ tree.Refers identifier := by
  obtain ⟨name, ascription, kindEq⟩ : ∃ name ascription, tree.kind identifier = .identifier name ascription := by
    cases kindEq : tree.kind identifier <;> simp_all [NodeKind.isIdentifier]
  have bound : tree.PatternPlace identifier → tree.Bound identifier := by
    intro place
    refine formed.bound_of_patternPlace fits place ?_
    rw [Yields, kindEq]
    exact .name kindEq
  obtain ⟨role, parent, fills⟩ := formed.exists_place identifier (by rw [kindEq]; rfl)
  have admitted : role.accepts tree.kind (tree.kind identifier) = true := fits parent _ fills
  rw [kindEq] at admitted
  cases role with
  | plain => exact .inr (.inr ⟨named, .plain fills⟩)
  | member => exact .inr (.inr ⟨named, .member fills⟩)
  | name => exact (labels_or_bound_of_fills fills).imp_right .inl
  | binding => exact .inr (.inl (bound (.binding fills)))
  | parameter => exact .inr (.inl (bound (.parameter fills)))
  | any =>
      rcases formed.cases_of_value fits fills with ⟨evaluated, -⟩ | ⟨place, -⟩
      · exact .inr (.inr ⟨named, evaluated⟩)
      · exact .inr (.inl (bound place))
  | declarator | bindingProperty | ascription => cases admitted

end WellFormed

def namesItself (tree : Tree) (node : Nat) : Bool :=
  match tree.kind node with
  | .functionDeclaration .. | .classDeclaration .. | .functionExpression .. => true
  | _ => false

section Sorts

variable {tree : Tree} {identifier : Nat}

theorem fills_of_labels (labels : tree.Labels identifier) :
    ∃ node, tree.Fills identifier .name node ∧ tree.namesItself node = false := by
  cases labels with
  | member node kindEq | property node kindEq | method node kindEq | field node kindEq
  | aliasName node kindEq | interfaceName node kindEq =>
      exact ⟨node, by simp [Fills, kindEq, NodeKind.slots], by rw [namesItself, kindEq]⟩

theorem patternPlace_of_patternPart {node part : Nat} (inner : part ∈ tree.patternParts node) :
    tree.PatternPlace part := by
  rw [patternParts] at inner
  split at inner
  case h_1 properties kindEq =>
      obtain ⟨property, listed, inner⟩ := List.mem_flatMap.mp inner
      have within : tree.Fills property .bindingProperty node := by
        simp [Fills, kindEq, NodeKind.slots, Slot.mem_row_iff, listed]
      split at inner
      case h_1 key value shorthand propertyEq =>
          rw [List.mem_singleton.mp inner]
          exact .value propertyEq within
      case h_2 argument propertyEq =>
          have fills : tree.Fills argument .binding property := by simp [Fills, propertyEq, NodeKind.slots]
          rw [List.mem_singleton.mp inner]
          exact .binding fills
      case h_3 => cases inner
  case h_2 elements kindEq =>
      have fills : tree.Fills part .parameter node := by
        simp [Fills, kindEq, NodeKind.slots, Slot.mem_row_iff, inner]
      exact .parameter fills
  case h_3 argument kindEq =>
      have fills : tree.Fills argument .binding node := by simp [Fills, kindEq, NodeKind.slots]
      rw [List.mem_singleton.mp inner]
      exact .binding fills
  case h_4 => cases inner

theorem patternPlace_of_binds {pattern : Nat} (binds : tree.Binds identifier pattern)
    (place : tree.PatternPlace pattern) : tree.PatternPlace identifier := by
  induction binds with
  | name => exact place
  | part inner _ ih => exact ih (patternPlace_of_patternPart inner)

theorem fills_of_param {node param : Nat} (listed : param ∈ (tree.kind node).params) :
    tree.Fills param .parameter node := by
  rw [Fills]
  cases kindEq : tree.kind node <;> simp_all [NodeKind.params, NodeKind.slots, Slot.mem_row_iff]

theorem place_of_bound (bound : tree.Bound identifier) :
    tree.PatternPlace identifier ∨
      ∃ node, tree.Fills identifier .name node ∧ tree.namesItself node = true := by
  obtain ⟨node, home, declares⟩ := bound
  have target : ∀ {declarator pattern init}, tree.kind declarator = .declarator pattern init →
      tree.Fills pattern .binding declarator := by
    intro declarator pattern init kindEq
    simp [Fills, kindEq, NodeKind.slots]
  cases declares with
  | var _ _ declaratorEq binds => exact .inl (patternPlace_of_binds binds (.binding (target declaratorEq)))
  | lexical _ _ _ declaratorEq binds =>
      exact .inl (patternPlace_of_binds binds (.binding (target declaratorEq)))
  | functionName kindEq | className kindEq | ownName kindEq =>
      exact .inr ⟨node, by simp [Fills, kindEq, NodeKind.slots], by rw [namesItself, kindEq]⟩
  | parameter listed binds =>
      exact .inl (patternPlace_of_binds binds (.parameter (fills_of_param listed)))
  | @catchParameter param body _ kindEq binds =>
      have fills : tree.Fills param .binding node := by simp [Fills, kindEq, NodeKind.slots]
      exact .inl (patternPlace_of_binds binds (.binding fills))

end Sorts

namespace WellFormed

variable {tree : Tree} (formed : tree.WellFormed) {identifier : Nat}

include formed

theorem not_evaluated_of_name {node : Nat} (fills : tree.Fills identifier .name node) :
    ¬ tree.Evaluated identifier := by
  intro evaluated
  cases evaluated with
  | plain other | member other => cases (formed.fills_unique fills other).2
  | value kindEq _ => cases (formed.fills_unique fills (fills_value kindEq)).2

theorem not_patternPlace_of_name {node : Nat} (fills : tree.Fills identifier .name node) :
    ¬ tree.PatternPlace identifier := by
  intro place
  cases place with
  | binding other | parameter other | member other => cases (formed.fills_unique fills other).2
  | value kindEq _ => cases (formed.fills_unique fills (fills_value kindEq)).2

theorem not_patternPlace_of_evaluated (evaluated : tree.Evaluated identifier) :
    ¬ tree.PatternPlace identifier := by
  intro place
  cases evaluated with
  | plain fills | member fills =>
      cases place with
      | binding other | parameter other | member other => cases (formed.fills_unique fills other).2
      | value kindEq _ => cases (formed.fills_unique fills (fills_value kindEq)).2
  | value kindEq within =>
      cases place with
      | binding other | parameter other | member other =>
          cases (formed.fills_unique (fills_value kindEq) other).2
      | value otherEq otherWithin =>
          obtain ⟨rfl, -⟩ := formed.fills_unique (fills_value kindEq) (fills_value otherEq)
          cases (formed.fills_unique within otherWithin).2

theorem not_refers_of_labels (labels : tree.Labels identifier) : ¬ tree.Refers identifier := by
  obtain ⟨node, fills, -⟩ := fills_of_labels labels
  exact fun refers => formed.not_evaluated_of_name fills refers.2

theorem not_bound_of_labels (labels : tree.Labels identifier) : ¬ tree.Bound identifier := by
  obtain ⟨node, fills, other⟩ := fills_of_labels labels
  intro bound
  rcases place_of_bound bound with place | ⟨owner, otherFills, names⟩
  · exact formed.not_patternPlace_of_name fills place
  · obtain ⟨rfl, -⟩ := formed.fills_unique fills otherFills
    rw [other] at names
    cases names

theorem not_bound_of_refers (refers : tree.Refers identifier) : ¬ tree.Bound identifier := by
  intro bound
  rcases place_of_bound bound with place | ⟨owner, fills, -⟩
  · exact formed.not_patternPlace_of_evaluated refers.2 place
  · exact formed.not_evaluated_of_name fills refers.2

end WellFormed

end Tree

end Heed
