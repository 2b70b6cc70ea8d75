import Heed.Proofs.Rule.Awaiting

/-!
# Chains of member accesses

A value is handled if a chain of member accesses leads from it to the call of a handler. A link of the chain
looks through the awaits around a value to the member that is accessed there, and goes on from the call of
that member, or from the member itself where it is only read.

The climb from a value to the end of its chain is a search along the nodes above it. It finds a handler just
where there is such a chain. Every link leads to a node above, so that no chain is endless, and a climb that
gives up at the end of an expression statement misses none.
-/

set_option autoImplicit false

namespace Heed

namespace Tree

/-- The outermost await around a node: all nodes up to it are awaits, and none stands around it. A node that
is not awaited stands for itself. -/
inductive OutermostAwait (tree : Tree) : Nat → Nat → Prop where
  | here {node : Nat}
      (bare : ∀ parent operand, tree.parent? node = some parent → tree.kind parent ≠ .await operand) :
      OutermostAwait tree node node
  | up {node parent operand outer : Nat} (found : tree.parent? node = some parent)
      (awaits : tree.kind parent = .await operand) (outermost : OutermostAwait tree parent outer) :
      OutermostAwait tree node outer

/-- The value of a node is the base of a member access, awaited or not. -/
def Accesses (tree : Tree) (value member : Nat) : Prop :=
  ∃ outer key computed optional, tree.OutermostAwait value outer ∧ tree.parent? outer = some member ∧
    tree.kind member = .member outer key computed optional

def Calls (tree : Tree) (call member : Nat) : Prop := ∃ arguments, tree.kind call = .call member arguments

/-- One link of a chain: from a value over the member accessed on it to the call of that member, if there is
one, and else to the member itself. -/
structure Link (tree : Tree) (value member next : Nat) : Prop where
  accesses : tree.Accesses value member
  leads : tree.Calls next member ∨ next = member ∧ ∀ call, ¬ tree.Calls call member

/-- A chain of one link or more whose last one is the call of a handler by its name. -/
inductive EndsInHandler (tree : Tree) (isHandler : String → Bool) : Nat → Prop where
  | last {value member call base key : Nat} {optional : Bool} {name : String}
      (link : tree.Link value member call) (called : tree.Calls call member)
      (kindEq : tree.kind member = .member base key false optional)
      (named : tree.identifierName? key = some name) (handles : isHandler name = true) :
      EndsInHandler tree isHandler value
  | more {value member next : Nat} (link : tree.Link value member next)
      (rest : EndsInHandler tree isHandler next) : EndsInHandler tree isHandler value

/-- A computed key gives a member no name. -/
theorem hasMemberName_iff {tree : Tree} {member : Nat} {accepts : String → Bool} :
    tree.hasMemberName member accepts = true ↔
      ∃ base key optional name, tree.kind member = .member base key false optional ∧
        tree.identifierName? key = some name ∧ accepts name = true := by
  rw [hasMemberName, Option.any_eq_true, memberName?]
  constructor
  · rintro ⟨name, named, accepted⟩
    split at named
    case h_1 base key optional kindEq => exact ⟨base, key, optional, name, kindEq, named, accepted⟩
    case h_2 => cases named
  · rintro ⟨base, key, optional, name, kindEq, named, accepted⟩
    exact ⟨name, by rw [kindEq]; exact named, accepted⟩

section Links

variable {tree : Tree} (formed : tree.WellFormed)

include formed

theorem WellFormed.parent?_of_calls {call member : Nat} (called : tree.Calls call member) :
    tree.parent? member = some call := by
  obtain ⟨arguments, kindEq⟩ := called
  rw [formed.parent_iff, children, kindEq]
  exact List.mem_cons_self

theorem WellFormed.parent?_of_base {base key member : Nat} {computed optional : Bool}
    (kindEq : tree.kind member = .member base key computed optional) : tree.parent? base = some member := by
  rw [formed.parent_iff, children, kindEq]
  exact List.mem_cons_self

theorem WellFormed.mem_ancestors_of_parent? {node parent : Nat} (found : tree.parent? node = some parent) :
    parent ∈ tree.ancestors node := by
  rw [formed.ancestors_eq_cons found]
  exact List.mem_cons_self

theorem WellFormed.mem_ancestors_trans {low middle high : Nat} (lower : middle ∈ tree.ancestors low)
    (upper : high ∈ tree.ancestors middle) : high ∈ tree.ancestors low :=
  (formed.suffix_of_mem_ancestors lower).subset (List.mem_cons_of_mem _ upper)

theorem OutermostAwait.eq_or_mem_ancestors {node outer : Nat} (outermost : tree.OutermostAwait node outer) :
    outer = node ∨ outer ∈ tree.ancestors node := by
  induction outermost with
  | here => exact .inl rfl
  | up found awaits _ ih =>
      have parent_above := formed.mem_ancestors_of_parent? found
      rcases ih with rfl | above
      · exact .inr parent_above
      · exact .inr (formed.mem_ancestors_trans parent_above above)

theorem Accesses.mem_ancestors {value member : Nat} (accesses : tree.Accesses value member) :
    member ∈ tree.ancestors value := by
  obtain ⟨outer, key, computed, optional, outermost, found, -⟩ := accesses
  have above := formed.mem_ancestors_of_parent? found
  rcases outermost.eq_or_mem_ancestors formed with rfl | outer_above
  · exact above
  · exact formed.mem_ancestors_trans outer_above above

/-- Every link leads to a node above the value. -/
theorem Link.mem_ancestors {value member next : Nat} (link : tree.Link value member next) :
    next ∈ tree.ancestors value := by
  have member_above := link.accesses.mem_ancestors formed
  rcases link.leads with called | ⟨rfl, -⟩
  · exact formed.mem_ancestors_trans member_above
      (formed.mem_ancestors_of_parent? (formed.parent?_of_calls called))
  · exact member_above

/-- No climb along links is endless: the way up from a node gets shorter with each of them. -/
theorem WellFormed.wellFounded_link :
    WellFounded fun next value => ∃ member, tree.Link value member next := by
  apply Subrelation.wf (r := InvImage (· < ·) fun node => (tree.ancestors node).length)
  · rintro next value ⟨member, link⟩
    exact formed.length_lt_of_mem_ancestors (link.mem_ancestors formed)
  · exact InvImage.wf _ Nat.lt_wfRel.wf

end Links

end Tree

namespace Inspection

variable {m : Type → Type} {τ : Type} {inspection : Inspection m τ}

/-- Whether a chain that has come to a member access goes on to the call of a handler. -/
def isHandledFrom (inspection : Inspection m τ) (member : Nat) : Bool :=
  inspection.tree.isHandledBelow inspection.options.isHandler member true (inspection.tree.ancestors member)

theorem isHandled_orphan {node : Nat} (orphan : inspection.tree.parent? node = none) :
    inspection.isHandled node = false := by
  rw [isHandled, Tree.WellFormed.ancestors_eq_nil orphan]
  rfl

section Climb

variable (formed : inspection.tree.WellFormed) {node parent : Nat}
  (found : inspection.tree.parent? node = some parent)

include formed found

theorem isHandled_of_await {operand : Nat} (awaits : inspection.tree.kind parent = .await operand) :
    inspection.isHandled node = inspection.isHandled parent := by
  have listed := (formed.parent_iff node parent).mp found
  rw [Tree.children, awaits] at listed
  obtain rfl := List.mem_singleton.mp listed
  exact isHandled_awaited formed awaits

/-- Only what is accessed on the value itself goes on with its chain. -/
theorem isHandled_of_member {base key : Nat} {computed optional : Bool}
    (kindEq : inspection.tree.kind parent = .member base key computed optional) :
    inspection.isHandled node = (base == node && inspection.isHandledFrom parent) := by
  rw [isHandled, formed.ancestors_eq_cons found, Tree.isHandledBelow, kindEq]
  rfl

theorem isHandled_of_call {callee : Nat} {arguments : List Nat}
    (kindEq : inspection.tree.kind parent = .call callee arguments) : inspection.isHandled node = false := by
  rw [isHandled, formed.ancestors_eq_cons found, Tree.isHandledBelow, kindEq]
  rfl

/-- The call of a member ends the chain or goes on with its own value. -/
theorem isHandledFrom_of_calls (called : inspection.tree.Calls parent node) :
    inspection.isHandledFrom node =
      (inspection.tree.hasMemberName node inspection.options.isHandler || inspection.isHandled parent) := by
  obtain ⟨arguments, kindEq⟩ := called
  rw [isHandledFrom, formed.ancestors_eq_cons found, Tree.isHandledBelow, kindEq]
  simp [isHandled]

/-- A member that is only read goes on like any other value. -/
theorem isHandledFrom_of_not_calls (read : ¬ inspection.tree.Calls parent node) :
    inspection.isHandledFrom node = inspection.isHandled node := by
  rw [isHandledFrom, isHandled, formed.ancestors_eq_cons found, Tree.isHandledBelow, Tree.isHandledBelow]
  cases kindEq : inspection.tree.kind parent with
  | call callee arguments =>
      have other : callee ≠ node := by
        rintro rfl
        exact read ⟨arguments, kindEq⟩
      simp [other]
  | _ => rfl

end Climb

section Steps

variable (formed : inspection.tree.WellFormed) {value member next : Nat}

include formed

theorem isHandled_outermostAwait {outer : Nat} (outermost : inspection.tree.OutermostAwait value outer) :
    inspection.isHandled value = inspection.isHandled outer := by
  induction outermost with
  | here => rfl
  | up found awaits _ ih => rw [isHandled_of_await formed found awaits, ih]

theorem isHandled_of_accesses (accesses : inspection.tree.Accesses value member) :
    inspection.isHandled value = inspection.isHandledFrom member := by
  obtain ⟨outer, key, computed, optional, outermost, found, kindEq⟩ := accesses
  rw [isHandled_outermostAwait formed outermost, isHandled_of_member formed found kindEq]
  simp

theorem isHandledFrom_of_uncalled (uncalled : ∀ call, ¬ inspection.tree.Calls call member) :
    inspection.isHandledFrom member = inspection.isHandled member := by
  cases found : inspection.tree.parent? member with
  | none =>
      rw [isHandled_orphan found, isHandledFrom, Tree.WellFormed.ancestors_eq_nil found]
      rfl
  | some parent => exact isHandledFrom_of_not_calls formed found (uncalled parent)

/-- The step of the climb: a link ends at a handler, or what it leads to is handled. -/
theorem isHandled_of_link (link : inspection.tree.Link value member next) :
    inspection.isHandled value = true ↔
      inspection.tree.Calls next member ∧
          inspection.tree.hasMemberName member inspection.options.isHandler = true ∨
        inspection.isHandled next = true := by
  rw [isHandled_of_accesses formed link.accesses]
  rcases link.leads with called | ⟨rfl, uncalled⟩
  · rw [isHandledFrom_of_calls formed (formed.parent?_of_calls called) called, Bool.or_eq_true]
    simp [called]
  · rw [isHandledFrom_of_uncalled formed uncalled]
    simp [uncalled]

omit formed in
theorem exists_link_of_accesses (accesses : inspection.tree.Accesses value member) :
    ∃ next, inspection.tree.Link value member next := by
  by_cases called : ∃ call, inspection.tree.Calls call member
  · obtain ⟨call, called⟩ := called
    exact ⟨call, accesses, .inl called⟩
  · exact ⟨member, accesses, .inr ⟨rfl, fun call calls => called ⟨call, calls⟩⟩⟩

/-- A value that is handled is accessed. -/
theorem accesses_of_isHandled (handled : inspection.isHandled value = true) :
    ∃ member, inspection.tree.Accesses value member := by
  induction value using formed.climb with
  | top node orphan => simp [isHandled_orphan orphan] at handled
  | step node parent found ih =>
      cases kindEq : inspection.tree.kind parent with
      | await operand =>
          rw [isHandled_of_await formed found kindEq] at handled
          obtain ⟨member, outer, key, computed, optional, outermost, access⟩ := ih handled
          exact ⟨member, outer, key, computed, optional, .up found kindEq outermost, access⟩
      | member base key computed optional =>
          rw [isHandled_of_member formed found kindEq, Bool.and_eq_true, beq_iff_eq] at handled
          obtain ⟨rfl, -⟩ := handled
          refine ⟨parent, base, key, computed, optional, .here ?_, found, kindEq⟩
          intro other operand isParent awaits
          rw [found] at isParent
          rw [← Option.some.inj isParent, kindEq] at awaits
          cases awaits
      | _ =>
          rw [isHandled, formed.ancestors_eq_cons found, Tree.isHandledBelow, kindEq] at handled
          simp at handled

theorem endsInHandler_of_isHandled (handled : inspection.isHandled value = true) :
    inspection.tree.EndsInHandler inspection.options.isHandler value := by
  induction value using formed.wellFounded_link.induction with
  | h value ih =>
      obtain ⟨member, accesses⟩ := accesses_of_isHandled formed handled
      obtain ⟨next, link⟩ := exists_link_of_accesses accesses
      rcases (isHandled_of_link formed link).mp handled with ⟨called, named⟩ | handled
      · obtain ⟨base, key, optional, name, kindEq, named, handles⟩ := Tree.hasMemberName_iff.mp named
        exact .last link called kindEq named handles
      · exact .more link (ih next ⟨member, link⟩ handled)

theorem isHandled_of_endsInHandler
    (chain : inspection.tree.EndsInHandler inspection.options.isHandler value) :
    inspection.isHandled value = true := by
  induction chain with
  | last link called kindEq named handles =>
      rw [isHandled_of_link formed link]
      exact .inl ⟨called, Tree.hasMemberName_iff.mpr ⟨_, _, _, _, kindEq, named, handles⟩⟩
  | more link _ ih =>
      rw [isHandled_of_link formed link]
      exact .inr ih

/-- Nothing is accessed on the expression of a statement. -/
theorem isHandled_of_expressionStatement {expression : Nat}
    (ends : inspection.tree.parentKind? value = some (.expressionStatement expression)) :
    inspection.isHandled value = false := by
  obtain ⟨parent, found, kindEq⟩ := Option.map_eq_some_iff.mp ends
  rw [isHandled, formed.ancestors_eq_cons found, Tree.isHandledBelow, kindEq]

/-- The climb as a recursion that gives up at expression statements. -/
theorem isHandled_iff_link : inspection.isHandled value = true ↔
    ∃ member next, inspection.tree.Link value member next ∧
      (inspection.tree.Calls next member ∧
          inspection.tree.hasMemberName member inspection.options.isHandler = true ∨
        (∃ kind, inspection.tree.parentKind? next = some kind ∧ ∀ expression, kind ≠ .expressionStatement expression) ∧
          inspection.isHandled next = true) := by
  constructor
  · intro handled
    obtain ⟨member, accesses⟩ := accesses_of_isHandled formed handled
    obtain ⟨next, link⟩ := exists_link_of_accesses accesses
    refine ⟨member, next, link, ?_⟩
    rcases (isHandled_of_link formed link).mp handled with ends | onward
    · exact .inl ends
    · cases found : inspection.tree.parentKind? next with
      | none => simp [isHandled_orphan (Option.map_eq_none_iff.mp found)] at onward
      | some kind =>
          refine .inr ⟨⟨kind, rfl, ?_⟩, onward⟩
          rintro expression rfl
          simp [isHandled_of_expressionStatement formed found] at onward
  · rintro ⟨member, next, link, ends | ⟨-, onward⟩⟩
    · exact (isHandled_of_link formed link).mpr (.inl ends)
    · exact (isHandled_of_link formed link).mpr (.inr onward)

end Steps

/-- In the tree of a source, a value is handled just if a chain from it ends in the call of a handler, and no
chain is endless. So a value is handled if one of its members or the call of one is. The climb may give up at
expression statements: it finds the same chains. -/
theorem isHandled_iff_endsInHandler (source : String) (inspection : Inspection m τ)
    (parsed : Tree.parse source = .ok inspection.tree) :
    (∀ node, inspection.isHandled node = true ↔
      inspection.tree.EndsInHandler inspection.options.isHandler node) ∧
    (WellFounded fun next value => ∃ member, inspection.tree.Link value member next) ∧
    (∀ value member key computed optional,
      inspection.tree.kind member = .member value key computed optional →
        (inspection.isHandled member = true → inspection.isHandled value = true) ∧
        ∀ call, inspection.tree.Calls call member → inspection.isHandled call = true →
          inspection.isHandled value = true) ∧
    ∀ node, inspection.isHandled node = true ↔
      ∃ member next, inspection.tree.Link node member next ∧
        (inspection.tree.Calls next member ∧
            inspection.tree.hasMemberName member inspection.options.isHandler = true ∨
          (∃ kind, inspection.tree.parentKind? next = some kind ∧
            ∀ expression, kind ≠ .expressionStatement expression) ∧
            inspection.isHandled next = true) := by
  have formed := Tree.wellFormed_of_parse parsed
  refine ⟨?_, formed.wellFounded_link, ?_, fun node => isHandled_iff_link formed⟩
  · intro node
    exact ⟨endsInHandler_of_isHandled formed, isHandled_of_endsInHandler formed⟩
  · intro value member key computed optional kindEq
    have accesses : inspection.isHandled value = inspection.isHandledFrom member := by
      rw [isHandled_of_member formed (formed.parent?_of_base kindEq) kindEq]
      simp
    rw [accesses]
    constructor
    · intro handled
      by_cases called : ∃ call, inspection.tree.Calls call member
      · obtain ⟨call, arguments, isCall⟩ := called
        have found := formed.parent?_of_calls ⟨arguments, isCall⟩
        simp [isHandled_of_call formed found isCall] at handled
      · rw [isHandledFrom_of_uncalled formed fun call calls => called ⟨call, calls⟩]
        exact handled
    · intro call called handled
      rw [isHandledFrom_of_calls formed (formed.parent?_of_calls called) called, handled, Bool.or_true]

/-- The chain from the first call goes over a read, an await, a call and a computed access to the handler. The
chain of the second line ends in a statement, and in the third line the name of a handler is only computed. -/
theorem isHandled_iff_endsInHandler_climbs :
    ∃ tree, Tree.parse "(await f().inner).map(g)[0].unwrapOr(1)\nh().map(k)\np()[unwrapOr]()" = .ok tree ∧
      tree.EndsInHandler RuleOptions.standard.isHandler 1 ∧
      ¬ tree.EndsInHandler RuleOptions.standard.isHandler 17 ∧
      tree.isMemberOf 26 24 = true ∧ tree.children 26 = [24, 25] ∧
      tree.identifierName? 25 = some "unwrapOr" ∧ RuleOptions.standard.isHandler "unwrapOr" = true ∧
      tree.isCallOf 27 26 = true ∧ ¬ tree.EndsInHandler RuleOptions.standard.isHandler 24 := by
  have checks : (Tree.parse "(await f().inner).map(g)[0].unwrapOr(1)\nh().map(k)\np()[unwrapOr]()").toOption.any
      (fun tree =>
        let inspection : Inspection Id Unit :=
          { tree, scopes := .ofTree tree, oracle := credulous, options := .standard }
        decide (inspection.isHandled 1 = true ∧ inspection.isHandled 17 = false ∧
          tree.isMemberOf 26 24 = true ∧ tree.children 26 = [24, 25] ∧
          tree.identifierName? 25 = some "unwrapOr" ∧ tree.isCallOf 27 26 = true ∧
          inspection.isHandled 24 = false)) = true := by
    decide +kernel
  obtain ⟨tree, parsed, checks⟩ := Tree.exists_of_checks checks
  obtain ⟨handled, lost, access, key, named, call, computed⟩ := of_decide_eq_true checks
  have chains := (isHandled_iff_endsInHandler _
    { tree, scopes := .ofTree tree, oracle := credulous, options := .standard } parsed).1
  refine ⟨tree, parsed, (chains 1).mp handled, fun chain => ?_, access, key, named, by decide +kernel, call,
    fun chain => ?_⟩
  · rw [(chains 17).mpr chain] at lost
    cases lost
  · rw [(chains 24).mpr chain] at computed
    cases computed

end Inspection

end Heed
