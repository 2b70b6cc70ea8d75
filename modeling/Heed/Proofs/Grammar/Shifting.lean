import Heed.Proofs.Grammar.Building
import Heed.Proofs.Tree.Unfolding

/-!
# Building behind other nodes

The numbers of nodes are all that a builder learns of the nodes built before it. `Shifts` compares a run with
a run on the same tokens that has further nodes in front: both fail alike, or both finish, and the second one
has made the same nodes with shifted numbers. The rules follow the shape of the builders; `change` says how
the value that a builder returns is shifted.
-/

set_option autoImplicit false

namespace Heed

def Draft.behind (front : Array Node) (draft : Draft) : Draft :=
  { draft with nodes := placedBehind front draft.nodes }

def Failure.behind (front : Array Node) (failure : Failure) : Failure :=
  { failure with nodes := placedBehind front failure.nodes }

def Turn.map {α β : Type} (change : α → β) : Turn α → Turn β
  | .stop => .stop
  | .last item => .last (change item)
  | .more item => .more (item.map change)

namespace Builder

variable {α β : Type}

def endBehind (front : Array Node) (change : α → α) : Except Failure (α × Draft) → Except Failure (α × Draft)
  | .ok (value, draft) => .ok (change value, draft.behind front)
  | .error failure => .error (failure.behind front)

/-- Two builds do the same, the second one behind further nodes. -/
def Shifts (front : Array Node) (change : α → α) (build build' : Builder α) : Prop :=
  ∀ draft, build' (draft.behind front) = endBehind front change (build draft)

namespace Shifts

variable {front : Array Node} {change : α → α} {change' : β → β} {build build' : Builder α}
  {next next' : α → Builder β}

theorem done {value value' : α} (same : change value = value') : Shifts front change (pure value) (pure value') := by
  subst same
  exact fun _ => rfl

theorem bind (first : Shifts front change build build')
    (rest : ∀ value, Shifts front change' (next value) (next' (change value))) :
    Shifts front change' (build >>= next) (build' >>= next') := by
  intro draft
  change (build' (draft.behind front)).bind (fun pair => next' pair.1 pair.2) =
    endBehind front change' ((build draft).bind fun pair => next pair.1 pair.2)
  rw [first draft]
  cases build draft with
  | error failure => rfl
  | ok pair => exact rest pair.1 pair.2

theorem ite {condition : Prop} [Decidable condition] {other other' : Builder α}
    (onTrue : Shifts front change build build') (onFalse : Shifts front change other other') :
    Shifts front change (if condition then build else other) (if condition then build' else other') := by
  split
  · exact onTrue
  · exact onFalse

/-- A choice whose first side goes on with the second one. -/
theorem joined {condition : Prop} [Decidable condition] {other other' : Builder α}
    (before : Shifts front change other other' → Shifts front change build build')
    (shifts : Shifts front change other other') :
    Shifts front change (if condition then build else other) (if condition then build' else other') :=
  ite (before shifts) shifts

/-- Readers do not see nodes. -/
theorem lift_eq (read : Reader α) (draft : Draft) :
    (liftM read : Builder α) (draft.behind front) = endBehind front id ((liftM read : Builder α) draft) := by
  have sameCursor : (draft.behind front).cursor = draft.cursor := rfl
  change ofReader read (draft.behind front) = endBehind front id (ofReader read draft)
  rw [ofReader, ofReader, sameCursor]
  cases read draft.cursor with
  | ok pair => rfl
  | error error => rfl

theorem ofRead (read : Reader α) : Shifts front id (liftM read : Builder α) (liftM read) := lift_eq read

theorem read {read : Reader α} (rest : ∀ value, Shifts front change' (next value) (next' value)) :
    Shifts front change' (liftM read >>= next) (liftM read >>= next') :=
  bind (ofRead read) rest

/-- A reader that always fails. -/
theorem refused {read : Reader α} (fails : ∀ cursor, ∃ error, read cursor = .error error) :
    Shifts front change (liftM read : Builder α) (liftM read) := by
  intro draft
  obtain ⟨error, failed⟩ := fails draft.cursor
  rw [lift_eq, lift_error failed]
  rfl

theorem unexpected (what : Expectation) :
    Shifts front change (liftM (Reader.unexpected what : Reader α) : Builder α)
      (liftM (Reader.unexpected what : Reader α)) := by
  refine refused fun cursor => ?_
  obtain ⟨error, failed, -⟩ := @Reader.unexpected_error α what cursor
  exact ⟨error, failed⟩

theorem exhausted :
    Shifts front change (liftM (Reader.exhausted : Reader α) : Builder α) (liftM (Reader.exhausted : Reader α)) :=
  refused fun _ => ⟨_, rfl⟩

/-- Of a draft, only the cursor is looked at. -/
theorem inspect {next next' : Draft → Builder β}
    (rest : ∀ draft, Shifts front change' (next draft) (next' (draft.behind front))) :
    Shifts front change' (get >>= next) (get >>= next') :=
  fun draft => rest draft draft

/-- A node is found under its shifted number. -/
theorem nodeOf (target : Nat) : Shifts front (Node.renumber (shifted front)) (nodeOf target)
    (Builder.nodeOf (shifted front target)) := by
  refine inspect fun draft => ?_
  have found : (draft.behind front).nodes[shifted front target]? =
      draft.nodes[target]?.map (Node.renumber (shifted front)) := getElem?_placedBehind front draft.nodes target
  rw [found]
  cases draft.nodes[target]? with
  | none => exact refused fun _ => ⟨_, rfl⟩
  | some node => exact done rfl

theorem look {target : Nat} {next next' : Span → Builder β}
    (rest : ∀ span, Shifts front change' (next span) (next' span)) :
    Shifts front change' (spanOf target >>= next) (spanOf (shifted front target) >>= next') := by
  rw [spanOf, spanOf, bind_assoc, bind_assoc]
  exact bind (nodeOf target) fun node => rest node.span

theorem node {kind kind' : NodeKind} {span : Span} (same : kind' = kind.renumber (shifted front)) :
    Shifts front (shifted front) (alloc kind span) (alloc kind' span) := by
  subst same
  intro draft
  have pushed := placedBehind_push front draft.nodes ⟨kind, span⟩
  have size := size_placedBehind front draft.nodes
  refine congrArg Except.ok (Prod.ext size ?_)
  exact congrArg (Draft.mk draft.cursor) pushed.symm

theorem nodeFrom {kind kind' : NodeKind} {start : Nat} (same : kind' = kind.renumber (shifted front)) :
    Shifts front (shifted front) (allocFrom kind start) (allocFrom kind' start) :=
  read fun _ => node same

theorem ascribe (target ascription : Nat) :
    Shifts front id (ascribe target ascription)
      (Builder.ascribe (shifted front target) (shifted front ascription)) := by
  refine bind (nodeOf target) fun _ draft => ?_
  refine congrArg Except.ok (Prod.ext rfl ?_)
  exact congrArg (Draft.mk draft.cursor) (placedBehind_ascribed front draft.nodes target ascription)

theorem discarding (shifts : Shifts front change build build') :
    Shifts front id (discarding build) (Builder.discarding build') := by
  intro draft
  have size := size_placedBehind front draft.nodes
  change (build' (draft.behind front)).bind _ = endBehind front id ((build draft).bind _)
  rw [shifts draft]
  cases build draft with
  | error failure => rfl
  | ok pair =>
      refine congrArg Except.ok (Prod.ext rfl (congrArg (Draft.mk pair.2.cursor) ?_))
      exact (congrArg (placedBehind front pair.2.nodes).take size).trans (take_placedBehind front _ _)

theorem attempt (shifts : Shifts front change build build') :
    Shifts front (Option.map change) (attempt build) (Builder.attempt build') := by
  intro draft
  have size := size_placedBehind front draft.nodes
  rw [Builder.attempt, Builder.attempt, shifts draft]
  cases build draft with
  | ok pair => rfl
  | error failure =>
      have taken : (placedBehind front failure.nodes).take (placedBehind front draft.nodes).size =
          placedBehind front (failure.nodes.take draft.nodes.size) := by
        rw [size, take_placedBehind]
      change (if failure.cause.isFault then _ else _) = endBehind front _ (if failure.cause.isFault then _ else _)
      split
      · rfl
      · exact congrArg (fun nodes => Except.ok (none, Draft.mk draft.cursor nodes)) taken

/-! ## Loops -/

theorem collectWithin {turn turn' : Builder (Turn α)} (shifts : Shifts front (Turn.map change) turn turn') :
    ∀ budget, Shifts front (List.map change) (collectWithin turn budget) (Heed.collectWithin turn' budget)
  | 0 => exhausted
  | budget + 1 => by
      refine shifts.bind fun outcome => ?_
      cases outcome with
      | stop => exact done rfl
      | last item => exact done rfl
      | more item =>
          refine (collectWithin shifts budget).bind fun rest => done ?_
          cases item <;> rfl

theorem collect {turn turn' : Builder (Turn α)} (shifts : Shifts front (Turn.map change) turn turn') :
    Shifts front (List.map change) (collect turn) (Heed.collect turn') :=
  read fun _ => shifts.collectWithin _

theorem commaBehind (item : α) :
    Shifts front (Turn.map change) (do
      if ← (Reader.eat .comma : Reader Bool) then return Turn.more (some item) else return .last item)
      (do
      if ← (Reader.eat .comma : Reader Bool) then
        return Turn.more (some (change item)) else return .last (change item)) :=
  read fun _ => ite (done rfl) (done rfl)

theorem commaSeparated (shifts : Shifts front change build build') :
    Shifts front (List.map change) (commaSeparated build) (Heed.commaSeparated build') :=
  collect (shifts.bind commaBehind)

theorem commaList {close : Symbol} (shifts : Shifts front change build build') :
    Shifts front (List.map change) (commaList close build) (Heed.commaList close build') :=
  collect (read fun _ => ite (done rfl) (shifts.bind commaBehind))

theorem holedList {close : Symbol} (shifts : Shifts front change build build') :
    Shifts front (List.map change) (holedList close build) (Heed.holedList close build') :=
  collect (read fun _ => ite (done rfl) (read fun _ => ite (done rfl) (shifts.bind commaBehind)))

theorem bracedItems {item item' : Builder (Option α)} (shifts : Shifts front (Option.map change) item item') :
    Shifts front (List.map change) (bracedItems item) (Heed.bracedItems item') := by
  refine collect (read fun _ => ite (done rfl) (read fun _ => ite (unexpected _) ?_))
  exact shifts.bind fun _ => done rfl

theorem some_ (shifts : Shifts front change build build') :
    Shifts front (Option.map change) (some <$> build) (some <$> build') := by
  rw [map_eq_pure_bind, map_eq_pure_bind]
  exact shifts.bind fun _ => done rfl

theorem growWithin {step step' : α → Builder (Option α)}
    (shifts : ∀ value, Shifts front (Option.map change) (step value) (step' (change value))) :
    ∀ budget value, Shifts front change (growWithin step budget value)
      (Heed.growWithin step' budget (change value))
  | 0, _ => exhausted
  | budget + 1, value => by
      refine (shifts value).bind fun found => ?_
      cases found with
      | none => exact done rfl
      | some next => exact growWithin shifts budget next

theorem grow {step step' : α → Builder (Option α)}
    (shifts : ∀ value, Shifts front (Option.map change) (step value) (step' (change value))) (value : α) :
    Shifts front change (grow step value) (Heed.grow step' (change value)) :=
  read fun count => growWithin shifts (count + 1) value

/-- A loop that only reads. -/
theorem repeated {step : α → Builder (Option α)}
    (shifts : ∀ value, Shifts front (Option.map id) (step value) (step value)) (value : α) :
    Shifts front id (Heed.grow step value) (Heed.grow step value) :=
  @grow α front id step step shifts value

end Shifts

end Builder

end Heed
