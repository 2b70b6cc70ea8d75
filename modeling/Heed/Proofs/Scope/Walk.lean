import Heed.Proofs.Scope.Positions
import Heed.Proofs.Scope.Resolution

/-!
# What the walk over uses meets

The walk from the root passes through every statement, expression and declarator. It stops before names and
patterns, and before an operand that is an identifier, which the node above has used already. So the
identifiers that it counts are those that refer to a variable and those that are bound with a value.
-/

set_option autoImplicit false

namespace Heed

def Role.isLive : Role → Bool
  | .any | .plain | .member | .declarator => true
  | _ => false

namespace Tree

def HeadsLoop (tree : Tree) (declarator : Nat) : Prop :=
  ∃ declaration loop right body, declarator ∈ tree.children declaration ∧
    (tree.kind loop = .forOfStatement declaration right body ∨
      tree.kind loop = .forInStatement declaration right body)

/-- Identifiers that are bound with a value: their declarator has an initial value or heads a loop over
values or keys. -/
def Initialised (tree : Tree) (identifier : Nat) : Prop :=
  ∃ declarator target init, tree.kind declarator = .declarator target init ∧
    tree.Binds identifier target ∧ (init.isSome = true ∨ tree.HeadsLoop declarator)

/-- Nodes in places through which the walk may pass, and the root. -/
inductive Live (tree : Tree) (node : Nat) : Prop
  | root : node = tree.root → Live tree node
  | evaluated : tree.Evaluated node → Live tree node
  | declarator {parent : Nat} : tree.Fills node .declarator parent → Live tree node

section Places

variable {tree : Tree} {node parent : Nat}

theorem Evaluated.exists_fills (evaluated : tree.Evaluated node) :
    ∃ role parent, tree.Fills node role parent ∧ role.isLive = true := by
  cases evaluated with
  | plain fills | member fills => exact ⟨_, _, fills, rfl⟩
  | value kindEq _ => exact ⟨_, _, fills_value kindEq, rfl⟩

theorem Live.root_or_fills (live : tree.Live node) :
    node = tree.root ∨ ∃ role parent, tree.Fills node role parent ∧ role.isLive = true := by
  cases live with
  | root isRoot => exact .inl isRoot
  | evaluated evaluated => exact .inr evaluated.exists_fills
  | declarator fills => exact .inr ⟨_, _, fills, rfl⟩

theorem kind_of_fills {role : Role} (fills : tree.Fills node role parent) (isLive : role.isLive = true)
    (other : role ≠ .any) :
    (tree.kind parent).isIdentifier = false ∧
      ((tree.kind parent).isPlain = true ∨ (tree.kind parent).isDeclarator = true) := by
  rw [Fills] at fills
  cases kindEq : tree.kind parent with
  | declarator => exact ⟨rfl, .inr rfl⟩
  | property key value shorthand =>
      rw [kindEq, NodeKind.mem_slots_property] at fills
      simp only [Slot.mk.injEq] at fills
      rcases fills with ⟨-, rfl⟩ | ⟨-, -, rfl⟩
      · exact absurd rfl other
      · cases isLive
  | identifier | rest | objectPattern | arrayPattern =>
      rw [kindEq] at fills
      simp only [NodeKind.slots, Slot.mem_row_iff, List.mem_singleton, Slot.mk.injEq] at fills
      obtain ⟨-, rfl⟩ := fills
      cases isLive
  | typeAscription =>
      rw [kindEq] at fills
      cases fills
  | _ => exact ⟨rfl, .inl rfl⟩

theorem skips_of_name (fills : tree.Fills node .name parent) : Use.skips tree parent node = true := by
  rw [Fills] at fills
  rw [Use.skips]
  cases kindEq : tree.kind parent with
  | property | member => simp_all [NodeKind.mem_slots_property, NodeKind.mem_slots_member, Use.isNaming]
  | _ => simp_all [NodeKind.slots, Slot.mem_row_iff, Use.isNaming]

/-- What a node passes over as a name is a name, a parameter or a binding. -/
theorem fills_of_isNaming (naming : Use.isNaming tree parent node = true) :
    tree.Fills node .name parent ∨ tree.Fills node .parameter parent ∨ tree.Fills node .binding parent := by
  rw [Use.isNaming] at naming
  simp only [Fills]
  cases kindEq : tree.kind parent with
  | property | member => simp_all [NodeKind.mem_slots_property, NodeKind.mem_slots_member]
  | _ => simp_all [NodeKind.slots, Slot.mem_row_iff, @eq_comm _ node]

end Places

namespace WellFormed

variable {tree : Tree} (formed : tree.WellFormed)

include formed

theorem isLoopBinding_iff {declarator : Nat} :
    Use.isLoopBinding tree declarator = true ↔ tree.HeadsLoop declarator := by
  rw [Use.isLoopBinding, HeadsLoop]
  constructor
  · intro isLoop
    split at isLoop
    case h_2 => cases isLoop
    case h_1 declaration found =>
        have listed := (formed.parent_iff declarator declaration).mp found
        split at isLoop
        case h_3 => cases isLoop
        all_goals
          rename_i left right body loopKind
          obtain ⟨loop, -, kindEq⟩ := Option.map_eq_some_iff.mp loopKind
          obtain rfl : left = declaration := beq_iff_eq.mp isLoop
        · exact ⟨left, loop, right, body, listed, .inl kindEq⟩
        · exact ⟨left, loop, right, body, listed, .inr kindEq⟩
  · rintro ⟨declaration, loop, right, body, listed, heads⟩
    rw [(formed.parent_iff declarator declaration).mpr listed]
    have found : tree.parent? declaration = some loop := by
      rw [formed.parent_iff, children]
      rcases heads with kindEq | kindEq <;> rw [kindEq] <;> exact List.mem_cons_self
    simp only [parentKind?, found, Option.map_some]
    rcases heads with kindEq | kindEq <;> simp [kindEq]

theorem isLive_of_live {node parent : Nat} {role : Role} (live : tree.Live node)
    (fills : tree.Fills node role parent) : role.isLive = true := by
  rcases live.root_or_fills with rfl | ⟨otherRole, other, otherFills, isLive⟩
  · have found := formed.parent?_of_fills fills
    rw [formed.root_orphan] at found
    cases found
  · rw [(formed.fills_unique fills otherFills).2]
    exact isLive

variable (fits : tree.Fits)

include fits

theorem live_of_isPlain {node : Nat} (inside : node < tree.size)
    (unnamed : (tree.kind node).isIdentifier = false) (isPlain : (tree.kind node).isPlain = true) :
    tree.Live node := by
  have unbound : (tree.kind node).isBinding = false ∧ (tree.kind node).isRest = false ∧
      (tree.kind node).isAscription = false ∧
      Role.bindingProperty.accepts tree.kind (tree.kind node) = false := by
    cases kindEq : tree.kind node <;>
      simp_all [NodeKind.isBinding, NodeKind.isRest, NodeKind.isAscription, Role.accepts, NodeKind.isPlain,
        NodeKind.isIdentifier]
  obtain ⟨noBinding, noRest, noAscription, noProperty⟩ := unbound
  cases found : tree.parent? node with
  | none =>
      by_cases isRoot : node = tree.root
      · exact .root isRoot
      · rw [formed.orphan node inside isRoot found] at noAscription
        cases noAscription
  | some parent =>
      obtain ⟨role, fills⟩ := formed.exists_fills found
      have admitted : role.accepts tree.kind (tree.kind node) = true := fits parent _ fills
      cases role with
      | plain => exact .evaluated (.plain fills)
      | member => exact .evaluated (.member fills)
      | declarator => exact .declarator fills
      | any =>
          rcases formed.cases_of_value fits fills with ⟨evaluated, -⟩ | ⟨-, isBinding⟩
          · exact .evaluated evaluated
          · rw [noBinding] at isBinding
            cases isBinding
      | bindingProperty => rw [noProperty] at admitted; cases admitted
      | name | binding | parameter | ascription => simp_all [Role.accepts]

/-- The way up from a node through which the walk may pass leads through such nodes only. -/
theorem live_parent {node parent : Nat} (live : tree.Live node) (found : tree.parent? node = some parent) :
    tree.Live parent ∧ (tree.kind parent).isIdentifier = false := by
  obtain ⟨role, fills⟩ := formed.exists_fills found
  by_cases isValue : role = .any
  · subst isValue
    obtain ⟨key, shorthand, kindEq⟩ := property_of_fills fills
    refine ⟨?_, by rw [kindEq]; rfl⟩
    cases live with
    | root isRoot => rw [isRoot, formed.root_orphan] at found; cases found
    | declarator other => cases (formed.fills_unique fills other).2
    | evaluated evaluated =>
        cases evaluated with
        | plain other | member other => cases (formed.fills_unique fills other).2
        | value otherEq within =>
            obtain ⟨rfl, -⟩ := formed.fills_unique fills (fills_value otherEq)
            exact .evaluated (.member within)
  · obtain ⟨unnamed, isPlain | isDeclarator⟩ := kind_of_fills fills (formed.isLive_of_live live fills) isValue
    · exact ⟨formed.live_of_isPlain fits (formed.parent_lt_size found) unnamed isPlain, unnamed⟩
    · cases kindEq : tree.kind parent with
      | declarator target init =>
          obtain ⟨declaration, fills⟩ := formed.declaration_of_declarator fits kindEq
          exact ⟨.declarator fills, rfl⟩
      | _ => simp [kindEq, NodeKind.isDeclarator] at isDeclarator

/-- The walk passes over a node only if it is an identifier that the node above it updates or assigns to. -/
theorem operates_of_skips {node parent : Nat} (live : tree.Live node)
    (found : tree.parent? node = some parent) (skipped : Use.skips tree parent node = true) :
    ∃ access, Use.Operates tree parent node access ∧ (tree.kind node).isIdentifier = true := by
  obtain ⟨role, fills⟩ := formed.exists_fills found
  have isLive := formed.isLive_of_live live fills
  have listed := (formed.parent_iff node parent).mp found
  rw [children] at listed
  rw [Use.skips] at skipped
  split at skipped
  case h_1 name ascription kindEq =>
      have unnamed := (formed.live_parent fits live found).2
      rw [kindEq] at unnamed
      cases unnamed
  case h_2 target init kindEq =>
      rw [Fills, kindEq] at fills
      simp only [NodeKind.slots, List.mem_cons, Slot.mk.injEq, Slot.mem_row_iff, Option.mem_toList] at fills
      rcases fills with ⟨-, rfl⟩ | ⟨initial, -⟩
      · cases isLive
      · simp [Option.mem_def.mp initial] at skipped
  case h_3 argument increment signFirst kindEq =>
      rw [kindEq] at listed
      obtain rfl := List.mem_singleton.mp listed
      exact ⟨_, .update kindEq, skipped⟩
  case h_4 operator left right kindEq =>
      obtain ⟨rfl, named⟩ : left = node ∧ _ := by simpa only [Bool.and_eq_true, beq_iff_eq] using skipped
      have isPlain : (tree.kind left).isPlain = true :=
        fits parent _ (Use.plain_of_operates (.assignment kindEq))
      refine ⟨_, .assignment kindEq, ?_⟩
      cases leftEq : tree.kind left <;> simp_all [Use.isPattern, NodeKind.isPlain]
  case h_5 =>
      rcases fills_of_isNaming skipped with other | other | other
      all_goals
        rw [(formed.fills_unique fills other).2] at isLive
        cases isLive

/-- The walk from the root reaches every node through which it may pass. -/
theorem reaches_of_live {node : Nat} (live : tree.Live node)
    (unnamed : (tree.kind node).isIdentifier = false) : Use.Reaches tree tree.root node := by
  induction node using formed.climb with
  | top node orphan =>
      rcases live.root_or_fills with rfl | ⟨role, parent, fills, -⟩
      · exact .refl
      · rw [formed.parent?_of_fills fills] at orphan
        cases orphan
  | step node parent found ih =>
      obtain ⟨liveParent, unnamedParent⟩ := formed.live_parent fits live found
      refine (ih liveParent unnamedParent).tail ⟨(formed.parent_iff node parent).mp found, ?_⟩
      cases skipped : Use.skips tree parent node with
      | false => rfl
      | true =>
          obtain ⟨_, _, named⟩ := formed.operates_of_skips fits live found skipped
          rw [unnamed] at named
          cases named

end WellFormed

end Tree

namespace Use

variable {tree : Tree} (formed : tree.WellFormed) (fits : tree.Fits)

include formed

theorem exists_inside_of_reaches {node : Nat} (reaches : Reaches tree tree.root node) :
    ∃ scope, Declared.inside tree node = some scope := by
  induction reaches with
  | refl => exact ⟨0, by rw [Declared.inside, Declared.openedBy?_root formed]; rfl⟩
  | tail _ enters ih =>
      obtain ⟨scope, within⟩ := ih
      rw [Declared.inside, Declared.around_eq_inside formed ((formed.parent_iff _ _).mpr enters.1), within]
      cases (Declared.ofTree tree).openedBy? _ with
      | none => exact ⟨scope, rfl⟩
      | some inner => exact ⟨inner, rfl⟩

include fits

theorem binder?_eq_none_iff {identifier : Nat} :
    (Declared.ofTree tree).binder? identifier = none ↔ ¬ tree.Bound identifier := by
  constructor
  · rintro unbound ⟨node, home, declares⟩
    obtain ⟨binding, member, rfl, -⟩ := Declared.exists_binding_of_declares formed fits declares
    rw [Declared.binder?_of_binding formed member] at unbound
    cases unbound
  · intro unbound
    cases binds : (Declared.ofTree tree).binder? identifier with
    | none => rfl
    | some id =>
        obtain ⟨binding, member, rfl, -⟩ := Declared.exists_binding_of_binder? binds
        obtain ⟨-, node, home, declares, -⟩ := Declared.declares_of_binding formed member
        exact absurd ⟨node, home, declares⟩ unbound

theorem exists_use_of_refers {identifier : Nat} (refers : tree.Refers identifier) :
    ∃ use ∈ ScopeAnalysis.usesOf tree, use.reference.identifier = identifier := by
  obtain ⟨named, evaluated⟩ := refers
  obtain ⟨name, nameEq⟩ := Tree.exists_name_of_isIdentifier named
  have made : ∀ scope access, ofName tree (Declared.ofTree tree) scope identifier access =
      some ⟨⟨identifier, access, false⟩, (Declared.ofTree tree).lookup scope name⟩ := by
    simp [ofName, nameEq]
  obtain ⟨role, parent, fills, -⟩ := evaluated.exists_fills
  have found := formed.parent?_of_fills fills
  have live : tree.Live identifier := .evaluated evaluated
  obtain ⟨liveParent, unnamedParent⟩ := formed.live_parent fits live found
  have reaches := formed.reaches_of_live fits liveParent unnamedParent
  cases skipped : skips tree parent identifier with
  | false =>
      have reaches := reaches.tail ⟨(formed.parent_iff identifier parent).mp found, skipped⟩
      obtain ⟨scope, within⟩ := exists_inside_of_reaches formed reaches
      have unbound := (binder?_eq_none_iff formed fits).mpr (formed.not_bound_of_refers ⟨named, evaluated⟩)
      exact ⟨_, (mem_usesOf_iff formed).mpr ⟨identifier, scope, reaches, within,
        (mem_own_iff fits).mpr (.read unbound (made scope .read))⟩, rfl⟩
  | true =>
      obtain ⟨access, operates, -⟩ := formed.operates_of_skips fits live found skipped
      obtain ⟨scope, within⟩ := exists_inside_of_reaches formed reaches
      exact ⟨_, (mem_usesOf_iff formed).mpr ⟨parent, scope, reaches, within,
        (mem_own_iff fits).mpr (.operand operates (made scope access))⟩, rfl⟩

theorem exists_use_of_initialised {identifier : Nat} (initialised : tree.Initialised identifier) :
    ∃ id, ⟨⟨identifier, .write, true⟩, some id⟩ ∈ ScopeAnalysis.usesOf tree := by
  obtain ⟨declarator, target, init, kindEq, binds, valued⟩ := initialised
  have bound := formed.bound_of_declarator fits kindEq binds
  obtain ⟨declaration, fills⟩ := formed.declaration_of_declarator fits kindEq
  have reaches := formed.reaches_of_live fits (.declarator fills) (by rw [kindEq]; rfl)
  obtain ⟨scope, within⟩ := exists_inside_of_reaches formed reaches
  cases binder : (Declared.ofTree tree).binder? identifier with
  | none => exact absurd bound ((binder?_eq_none_iff formed fits).mp binder)
  | some id =>
      refine ⟨id, (mem_usesOf_iff formed).mpr ⟨declarator, scope, reaches, within, (mem_own_iff fits).mpr ?_⟩⟩
      refine .initial kindEq ?_ (formed.mem_boundBy_iff.mpr binds) (by rw [ofBinder, binder]; rfl)
      rwa [Bool.or_eq_true, formed.isLoopBinding_iff]

/-- The walk counts no other identifiers. -/
theorem refers_or_initialised {use : Use} (member : use ∈ ScopeAnalysis.usesOf tree) :
    tree.Refers use.reference.identifier ∨ tree.Initialised use.reference.identifier := by
  obtain ⟨owner, scope, reaches, within, member⟩ := (mem_usesOf_iff formed).mp member
  cases (mem_own_iff fits).mp member with
  | read unbound found =>
      obtain ⟨same, named⟩ := isIdentifier_of_ofName found
      rw [same]
      rcases formed.sort_of_identifier fits named with labels | bound | refers
      · rcases reaches.cases_tail with isRoot | ⟨parent, -, listed, entered⟩
        · obtain ⟨body, kindEq⟩ := formed.root_program
          rw [isRoot, kindEq] at named
          cases named
        · obtain ⟨node, fills, -⟩ := Tree.fills_of_labels labels
          have same := (formed.parent?_of_fills fills).symm.trans ((formed.parent_iff owner parent).mpr listed)
          rw [← Option.some.inj same, Tree.skips_of_name fills] at entered
          cases entered
      · exact absurd bound ((binder?_eq_none_iff formed fits).mp unbound)
      · exact .inl refers
  | initial kindEq valued bound found =>
      obtain ⟨id, -, rfl⟩ := Option.map_eq_some_iff.mp found
      rw [Bool.or_eq_true, formed.isLoopBinding_iff] at valued
      exact .inr ⟨owner, _, _, kindEq, formed.mem_boundBy_iff.mp bound, valued⟩
  | operand operates found =>
      obtain ⟨same, named⟩ := isIdentifier_of_ofName found
      rw [same]
      exact .inl ⟨named, .plain (plain_of_operates operates)⟩

end Use

end Heed
