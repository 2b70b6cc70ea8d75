import Heed.Grammar.Draft
import Heed.Proofs.Grammar.Reading
import Heed.Proofs.Tree.Forest

/-!
# What builders do to the forest

A builder takes some roots of the forest and leaves others in their place: a node is built above roots that
exist already. Whatever other roots there are stay as they are, so that the rules below follow the shape of
the builders: a sequence of builders turns roots into roots step by step.

A builder that is given the roots which it asks for finds every node that it looks for, whether it succeeds or
not, and never goes back to tokens that were taken before: what it refuses is still ahead. A failure too has
only added nodes, so that those which were there before are found again by their number.

`TurnsWhen` is for builders that ask more of the table. An ascription is given to the node that was built last,
so that one which hangs nowhere comes right behind its pattern.
-/

set_option autoImplicit false

namespace Heed

/-- Nodes are added at the end. Of the nodes that were there, only roots in binding positions change. -/
structure Grows (ins outs : List Slot) (before after : Array Node) : Prop where
  size_le : before.size ≤ after.size
  kept : ∀ id < before.size, Slot.mk id .binding ∉ ins → after[id]? = before[id]?
  fresh : ∀ id, Slot.mk id .binding ∈ outs → Slot.mk id .binding ∈ ins ∨ before.size ≤ id

namespace Grows

variable {ins mid outs below : List Slot} {first second third : Array Node}

theorem refl (ins : List Slot) (nodes : Array Node) : Grows ins ins nodes nodes :=
  ⟨Nat.le_refl _, fun _ _ _ => rfl, fun _ member => .inl member⟩

theorem trans (left : Grows ins mid first second) (right : Grows mid outs second third) :
    Grows ins outs first third := by
  refine ⟨Nat.le_trans left.size_le right.size_le, ?_, ?_⟩
  · intro id inside unbound
    have unbound_mid : Slot.mk id .binding ∉ mid := by
      intro member
      rcases left.fresh id member with member | fresh
      · exact unbound member
      · omega
    rw [right.kept id (Nat.lt_of_lt_of_le inside left.size_le) unbound_mid, left.kept id inside unbound]
  · intro id member
    rcases right.fresh id member with member | fresh
    · exact left.fresh id member
    · exact .inr (Nat.le_trans left.size_le fresh)

theorem frame (grows : Grows ins outs first second) (below : List Slot) :
    Grows (below ++ ins) (below ++ outs) first second := by
  refine ⟨grows.size_le, ?_, ?_⟩
  · intro id inside unbound
    exact grows.kept id inside fun member => unbound (List.mem_append_right _ member)
  · intro id member
    rcases List.mem_append.mp member with member | member
    · exact .inl (List.mem_append_left _ member)
    · exact (grows.fresh id member).imp_left fun member => List.mem_append_right _ member

theorem push (ins : List Slot) (nodes : Array Node) (node : Node) (role : Role) :
    Grows ins [⟨nodes.size, role⟩] nodes (nodes.push node) := by
  refine ⟨by simp, ?_, ?_⟩
  · intro id inside _
    rw [Array.getElem?_push_lt inside, Array.getElem?_eq_getElem inside]
  · intro id member
    obtain ⟨rfl, -⟩ := Slot.mk.inj (List.mem_singleton.mp member)
    exact .inr (Nat.le_refl _)

/-- The roots are given up. -/
theorem leave (ins : List Slot) (nodes : Array Node) : Grows ins [] nodes nodes :=
  ⟨Nat.le_refl _, fun _ _ _ => rfl, fun _ member => absurd member List.not_mem_nil⟩

/-- A node more, which is no root that is looked at. -/
theorem addNode (nodes : Array Node) (node : Node) : Grows [] [] nodes (nodes.push node) :=
  (push [] nodes node .plain).trans (leave _ _)

theorem kindAt_eq (grows : Grows [] outs first second) {id : Nat} (inside : id < first.size) :
    kindAt second id = kindAt first id := by
  rw [kindAt, kindAt, grows.kept id inside List.not_mem_nil]

/-- Without the nodes that were added there are those from before. -/
theorem take_size (grows : Grows [] outs first second) : second.take first.size = first := by
  apply Array.ext_getElem?
  intro id
  rw [Array.take_eq_extract, Array.getElem?_extract]
  by_cases inside : id < first.size
  · rw [if_pos (by have := grows.size_le; omega), Nat.zero_add, grows.kept id inside List.not_mem_nil]
  · rw [if_neg (by omega), Array.getElem?_eq_none (Nat.le_of_not_lt inside)]

end Grows

namespace Builder

variable {α β : Type}

/-- Reading moves the cursor only. -/
theorem read_ok {read : Reader α} {draft after : Draft} {value : α}
    (success : (liftM read : Builder α) draft = .ok (value, after)) :
    ∃ cursor, read draft.cursor = .ok (value, cursor) ∧ after = { draft with cursor } := by
  change ofReader read draft = .ok (value, after) at success
  rw [ofReader] at success
  cases outcome : read draft.cursor with
  | error error => simp [outcome] at success
  | ok pair =>
      rw [outcome] at success
      obtain ⟨rfl, rfl⟩ := Prod.mk.inj (Except.ok.inj success)
      exact ⟨pair.2, rfl, rfl⟩

theorem lift_error {read : Reader α} {draft : Draft} {error : SyntaxError}
    (failed : read draft.cursor = .error error) :
    (liftM read : Builder α) draft = .error { error with nodes := draft.nodes } := by
  change ofReader read draft = _
  rw [ofReader, failed]

/-- Lifting a reader keeps the error that it fails with, and the nodes. -/
theorem read_error {read : Reader α} {draft : Draft} {failure : Failure}
    (failed : (liftM read : Builder α) draft = .error failure) :
    read draft.cursor = .error failure.toSyntaxError ∧ failure.nodes = draft.nodes := by
  change ofReader read draft = .error failure at failed
  rw [ofReader] at failed
  cases outcome : read draft.cursor with
  | error error =>
      rw [outcome] at failed
      obtain rfl := Except.error.inj failed
      exact ⟨rfl, rfl⟩
  | ok pair => simp [outcome] at failed

theorem nodeOf_eq {id : Nat} {draft : Draft} (inside : id < draft.nodes.size) :
    nodeOf id draft = .ok (draft.nodes[id], draft) := by
  rw [nodeOf, get_bind, Array.getElem?_eq_getElem inside]
  rfl

theorem nodeOf_error {id : Nat} {draft : Draft} (outside : ¬ id < draft.nodes.size) :
    nodeOf id draft = .error ⟨⟨.outOfRange, .point draft.cursor.sourceEnd⟩, draft.nodes⟩ := by
  rw [nodeOf, get_bind, Array.getElem?_eq_none (Nat.le_of_not_lt outside)]
  rfl

/-- A node that was found is there, and nothing has changed. -/
theorem nodeOf_ok {id : Nat} {draft after : Draft} {node : Node} (success : nodeOf id draft = .ok (node, after)) :
    draft.nodes[id]? = some node ∧ after = draft := by
  by_cases inside : id < draft.nodes.size
  · rw [nodeOf_eq inside] at success
    obtain ⟨rfl, rfl⟩ := Prod.mk.inj (Except.ok.inj success)
    exact ⟨Array.getElem?_eq_getElem inside, rfl⟩
  · rw [nodeOf_error inside] at success
    cases success

/-- Looking for a node changes nothing, found or not. -/
theorem nodes_of_nodeOf_error {id : Nat} {draft : Draft} {failure : Failure}
    (failed : nodeOf id draft = .error failure) : failure.nodes = draft.nodes := by
  by_cases inside : id < draft.nodes.size
  · rw [nodeOf_eq inside] at failed
    cases failed
  · rw [nodeOf_error inside] at failed
    rw [← Except.error.inj failed]

theorem spanOf_eq {id : Nat} {draft : Draft} (inside : id < draft.nodes.size) :
    spanOf id draft = .ok (draft.nodes[id].span, draft) := by
  change (nodeOf id draft).bind _ = _
  rw [nodeOf_eq inside]
  rfl

theorem spanOf_ok {id : Nat} {draft after : Draft} {span : Span} (success : spanOf id draft = .ok (span, after)) :
    (∃ node, draft.nodes[id]? = some node ∧ node.span = span) ∧ after = draft := by
  obtain ⟨node, middle, found, returned⟩ := bind_ok success
  obtain ⟨node_eq, rfl⟩ := nodeOf_ok found
  obtain ⟨rfl, rfl⟩ := pure_ok returned
  exact ⟨⟨node, node_eq, rfl⟩, rfl⟩

theorem nodes_of_spanOf_error {id : Nat} {draft : Draft} {failure : Failure}
    (failed : spanOf id draft = .error failure) : failure.nodes = draft.nodes := by
  rcases bind_error failed with missing | ⟨_, _, -, returned⟩
  · exact nodes_of_nodeOf_error missing
  · cases returned

def Built (nodes : Array Node) (slots : List Slot) : Prop := ∀ slot ∈ slots, slot.node < nodes.size

/-- A run reads on and leaves nodes that were built, or it fails for what stands there. -/
def Stays (outs : α → List Slot) (draft : Draft) : Except Failure (α × Draft) → Prop
  | .ok (value, after) => draft.cursor.Onward after.cursor ∧ Built after.nodes (outs value)
  | .error failure => failure.cause ≠ .outOfRange ∧ draft.cursor.InSight failure.span

/-- From a table of which `held` is true, a build turns the roots `ins` into the roots `outs`, whatever roots lie
below them. -/
structure TurnsWhen (held : Array Node → Prop) (ins : List Slot) (build : Builder α) (outs : α → List Slot) :
    Prop where
  grows : ∀ draft value after, build draft = .ok (value, after) → Grows ins (outs value) draft.nodes after.nodes
  turned : ∀ draft value after, build draft = .ok (value, after) → held draft.nodes →
    ∀ below, Forest draft.nodes (below ++ ins) → Forest after.nodes (below ++ outs value)
  failed : ∀ draft failure, build draft = .error failure → Grows ins [] draft.nodes failure.nodes
  safe : ∀ draft, Built draft.nodes ins → Stays outs draft (build draft)

abbrev Turns (ins : List Slot) (build : Builder α) (outs : α → List Slot) : Prop :=
  TurnsWhen (fun _ => True) ins build outs

theorem Turns.made {ins : List Slot} {build : Builder α} {outs : α → List Slot} (turns : Turns ins build outs)
    (draft : Draft) (value : α) (after : Draft) (success : build draft = .ok (value, after)) :
    Grows ins (outs value) draft.nodes after.nodes ∧
      ∀ below, Forest draft.nodes (below ++ ins) → Forest after.nodes (below ++ outs value) :=
  ⟨turns.grows draft value after success, turns.turned draft value after success trivial⟩

theorem Stays.of_ok {outs : α → List Slot} {draft : Draft} {outcome : Except Failure (α × Draft)} {value : α}
    {after : Draft} (stays : Stays outs draft outcome) (success : outcome = .ok (value, after)) :
    draft.cursor.Onward after.cursor ∧ Built after.nodes (outs value) := by
  rw [success] at stays
  exact stays

/-- The node that a builder makes is there when it ends. -/
theorem Turns.lt_size {build : Builder Nat} {role : Role} (turns : Turns [] build fun id => [⟨id, role⟩])
    {draft after : Draft} {value : Nat} (success : build draft = .ok (value, after)) : value < after.nodes.size :=
  ((turns.safe draft fun _ listed => absurd listed List.not_mem_nil).of_ok success).2 ⟨value, role⟩ List.mem_cons_self

theorem Stays.of_error {outs : α → List Slot} {draft : Draft} {outcome : Except Failure (α × Draft)}
    {failure : Failure} (stays : Stays outs draft outcome) (failed : outcome = .error failure) :
    failure.cause ≠ .outOfRange ∧ draft.cursor.InSight failure.span := by
  rw [failed] at stays
  exact stays

/-- A build that leaves the nodes as they are. -/
theorem turns_of_nodes_eq {build : Builder α} {ins : List Slot}
    (same : ∀ draft value after, build draft = .ok (value, after) → after.nodes = draft.nodes)
    (failed : ∀ draft failure, build draft = .error failure → failure.nodes = draft.nodes)
    (safe : ∀ draft, Built draft.nodes ins → Stays (fun _ => ins) draft (build draft)) :
    Turns ins build fun _ => ins := by
  refine ⟨fun draft value after success => ?_, fun draft value after success _ _ forest => ?_,
    fun draft failure fails => ?_, safe⟩
  · rw [same draft value after success]
    exact .refl _ _
  · rwa [same draft value after success]
  · rw [failed draft failure fails]
    exact .leave _ _

namespace TurnsWhen

variable {held : Array Node → Prop} {ins : List Slot} {build : Builder α} {next : α → Builder β}
  {mid : α → List Slot} {outs : β → List Slot}

theorem any {outs : α → List Slot} (turns : Turns ins build outs) : TurnsWhen held ins build outs :=
  { turns with turned := fun draft value after success _ => turns.turned draft value after success trivial }

/-- What comes first tells of the table that it leaves. -/
theorem bind {held' : α → Array Node → Prop} (first : TurnsWhen held ins build mid)
    (tells : ∀ draft value after, build draft = .ok (value, after) → held draft.nodes → held' value after.nodes)
    (rest : ∀ value, TurnsWhen (held' value) (mid value) (next value) outs) :
    TurnsWhen held ins (build >>= next) outs := by
  refine ⟨fun draft result after success => ?_, fun draft result after success holds below forest => ?_,
    fun draft failure fails => ?_, fun draft built => ?_⟩
  · obtain ⟨value, middle, built, continued⟩ := bind_ok success
    exact (first.grows draft value middle built).trans ((rest value).grows middle result after continued)
  · obtain ⟨value, middle, built, continued⟩ := bind_ok success
    have turned := first.turned draft value middle built holds below forest
    exact (rest value).turned middle result after continued (tells draft value middle built holds) below turned
  · rcases bind_error fails with fails | ⟨value, middle, built, fails⟩
    · exact first.failed draft failure fails
    · exact (first.grows draft value middle built).trans ((rest value).failed middle failure fails)
  · have stays := first.safe draft built
    change Stays outs draft ((build draft).bind fun pair => next pair.1 pair.2)
    cases outcome : build draft with
    | error error => exact stays.of_error outcome
    | ok pair =>
        obtain ⟨onward, built⟩ := stays.of_ok outcome
        have staysOn := (rest pair.1).safe pair.2 built
        change Stays outs draft (next pair.1 pair.2)
        cases continued : next pair.1 pair.2 with
        | error error =>
            obtain ⟨cause, inSight⟩ := staysOn.of_error continued
            exact ⟨cause, inSight.back onward⟩
        | ok last =>
            obtain ⟨onward', built⟩ := staysOn.of_ok continued
            exact ⟨onward.trans onward', built⟩

theorem ite {condition : Prop} [Decidable condition] {left right : Builder β}
    (onTrue : TurnsWhen held ins left outs) (onFalse : TurnsWhen held ins right outs) :
    TurnsWhen held ins (if condition then left else right) outs := by
  split
  · exact onTrue
  · exact onFalse

end TurnsWhen

namespace Turns

variable {ins : List Slot} {build : Builder α} {next : α → Builder β} {mid : α → List Slot}
  {outs : β → List Slot}

theorem done {value : α} {outs : α → List Slot} (same : outs value = ins) :
    Turns ins (pure value) outs := by
  refine ⟨fun draft result after success => ?_, fun draft result after success _ _ forest => ?_,
    (fun _ _ failed => by cases failed), fun draft built => ⟨.refl _, same ▸ built⟩⟩
  · obtain ⟨rfl, rfl⟩ := pure_ok success
    rw [same]
    exact .refl _ _
  · obtain ⟨rfl, rfl⟩ := pure_ok success
    rwa [same]

theorem bind (first : Turns ins build mid) (rest : ∀ value, Turns (mid value) (next value) outs) :
    Turns ins (build >>= next) outs :=
  TurnsWhen.bind first (fun _ _ _ _ _ => trivial) rest

theorem frame {outs : α → List Slot} (turns : Turns ins build outs) (below : List Slot) :
    Turns (below ++ ins) build fun value => below ++ outs value := by
  refine ⟨fun draft value after success => ?_, fun draft value after success _ others forest => ?_,
    fun draft failure fails => ?_, fun draft built => ?_⟩
  · exact (turns.grows draft value after success).frame below
  · rw [← List.append_assoc] at forest ⊢
    exact (turns.made draft value after success).2 _ forest
  · exact ((turns.failed draft failure fails).frame below).trans (.leave _ _)
  · have stays := turns.safe draft fun slot member => built slot (List.mem_append_right _ member)
    cases outcome : build draft with
    | error error => exact stays.of_error outcome
    | ok pair =>
        obtain ⟨onward, built'⟩ := stays.of_ok outcome
        refine ⟨onward, fun slot member => ?_⟩
        rcases List.mem_append.mp member with member | member
        · have grows := turns.grows draft pair.1 pair.2 outcome
          exact Nat.lt_of_lt_of_le (built slot (List.mem_append_left _ member)) grows.size_le
        · exact built' slot member

/-- The next build adds its roots to those that there are. -/
theorem add (first : Turns [] build mid) (rest : ∀ value, Turns (ins ++ mid value) (next value) outs) :
    Turns ins (build >>= next) outs := by
  have framed := first.frame ins
  rw [List.append_nil] at framed
  exact framed.bind rest

/-- The next build leaves no roots. -/
theorem skip (first : Turns [] build fun _ => []) (rest : ∀ value, Turns ins (next value) outs) :
    Turns ins (build >>= next) outs :=
  first.add fun value => by
    rw [List.append_nil]
    exact rest value

theorem ofRead (read : Reader α) [steady : read.Steady] : Turns ins (liftM read : Builder α) fun _ => ins := by
  refine turns_of_nodes_eq (fun draft value after success => ?_)
    (fun draft failure fails => (read_error fails).2) fun draft built => ?_
  · obtain ⟨cursor, -, rfl⟩ := read_ok success
    rfl
  · cases outcome : (liftM read : Builder α) draft with
    | error failure => exact steady.takes.sound (read_error outcome).1
    | ok pair =>
        obtain ⟨cursor, ran, same⟩ := read_ok outcome
        rw [Stays, same]
        exact ⟨(steady.takes.moves ran).onward, built⟩

theorem read {read : Reader α} [read.Steady] (rest : ∀ value, Turns ins (next value) outs) :
    Turns ins (liftM read >>= next) outs :=
  bind (ofRead read) rest

theorem look {target : Nat} {next : Span → Builder β} (listed : target ∈ ins.map Slot.node)
    (rest : ∀ span, Turns ins (next span) outs) : Turns ins (spanOf target >>= next) outs := by
  refine bind (turns_of_nodes_eq (fun draft span after success => ?_) (fun draft failure fails => ?_)
    fun draft built => ?_) rest
  · rw [(spanOf_ok success).2]
  · exact nodes_of_spanOf_error fails
  · obtain ⟨slot, member, rfl⟩ := List.mem_map.mp listed
    rw [spanOf_eq (built slot member)]
    exact ⟨.refl _, built⟩

theorem inspect {next : Draft → Builder β} (rest : ∀ draft, Turns ins (next draft) outs) :
    Turns ins (get >>= next) outs := by
  refine bind (turns_of_nodes_eq (fun draft found after success => ?_) (fun _ _ failed => by cases failed)
    fun draft built => ?_) rest
  · obtain ⟨rfl, rfl⟩ := Prod.mk.inj (Except.ok.inj success)
    rfl
  · exact ⟨.refl _, built⟩

theorem given {value : α} (rest : Turns ins (next value) outs) : Turns ins (pure value >>= next) outs :=
  rest

/-- The case of no root where there may be one. -/
theorem absent {role : Role} {next : Option Nat → Builder β}
    (rest : ∀ found, Turns (ins ++ Slot.row role found.toList) (next found) outs) :
    Turns ins (next none) outs := by
  have rest := rest none
  rw [Option.toList_none, Slot.row_nil, List.append_nil] at rest
  exact rest

theorem ite {condition : Prop} [Decidable condition] {left right : Builder β}
    (onTrue : Turns ins left outs) (onFalse : Turns ins right outs) :
    Turns ins (if condition then left else right) outs :=
  TurnsWhen.ite onTrue onFalse

/-- A node above the roots that it lists. -/
theorem alloc {kind : NodeKind} {span : Span} {role : Role}
    (lists : ins.map Slot.node = kind.children)
    (places : ∀ nodes, (∀ slot ∈ ins, slot.Admitted nodes) → ∀ slot ∈ kind.slots, slot.Admitted nodes)
    (accepted : ∀ nodes, (∀ slot ∈ ins, slot.Admitted nodes) → role.accepts (kindAt nodes) kind = true) :
    Turns ins (Builder.alloc kind span) fun id => [⟨id, role⟩] := by
  refine ⟨fun draft id after success => ?_, fun draft id after success _ below forest => ?_,
    (fun _ _ failed => by cases failed), fun draft _ => ⟨.refl _, fun slot member => ?_⟩⟩
  · obtain ⟨rfl, rfl⟩ := Prod.mk.inj (Except.ok.inj success)
    exact .push ins draft.nodes ⟨kind, span⟩ role
  · obtain ⟨rfl, rfl⟩ := Prod.mk.inj (Except.ok.inj success)
    have stands : ∀ slot ∈ ins, slot.Admitted draft.nodes := fun slot member =>
      forest.stands slot (List.mem_append_right _ member)
    exact forest.push lists.symm (places _ stands) (accepted _ stands)
  · rw [List.mem_singleton.mp member]
    exact size_lt_push _ _

/-- A node whose places are just the roots that there are. -/
theorem node {kind : NodeKind} {span : Span} {role : Role} (same : ins = kind.slots)
    (accepted : ∀ kindOf, role.accepts kindOf kind = true) :
    Turns ins (Builder.alloc kind span) fun id => [⟨id, role⟩] := by
  subst same
  exact alloc kind.map_node_slots (fun _ stands => stands) fun _ _ => accepted _

theorem nodeFrom {kind : NodeKind} {start : Nat} {role : Role} (same : ins = kind.slots)
    (accepted : ∀ kindOf, role.accepts kindOf kind = true) :
    Turns ins (allocFrom kind start) fun id => [⟨id, role⟩] :=
  read fun _ => node same accepted

/-- The nodes are those from before, and the tokens stay taken. -/
theorem discarding_ok {outs : α → List Slot} (turns : Turns [] build outs) {draft after : Draft}
    (success : Builder.discarding build draft = .ok ((), after)) :
    after.nodes = draft.nodes ∧ ∃ value middle, build draft = .ok (value, middle) ∧ after.cursor = middle.cursor := by
  obtain ⟨_, _, got, success⟩ := bind_ok success
  obtain ⟨rfl, rfl⟩ := Prod.mk.inj (Except.ok.inj got)
  obtain ⟨value, middle, built, success⟩ := bind_ok success
  obtain ⟨-, rfl⟩ := Prod.mk.inj (Except.ok.inj success)
  exact ⟨(turns.made _ value middle built).1.take_size, value, middle, built, rfl⟩

theorem discarding_error {draft : Draft} {failure : Failure}
    (failed : Builder.discarding build draft = .error failure) : build draft = .error failure := by
  rcases bind_error failed with got | ⟨_, _, got, failed⟩
  · cases got
  · obtain ⟨rfl, rfl⟩ := Prod.mk.inj (Except.ok.inj got)
    rcases bind_error failed with failed | ⟨_, _, -, changed⟩
    · exact failed
    · cases changed

theorem discarding {outs : α → List Slot} (turns : Turns [] build outs) :
    Turns ins (Builder.discarding build) fun _ => ins := by
  refine ⟨fun draft value after success => ?_, fun draft value after success _ _ forest => ?_,
    fun draft failure fails => ?_, fun draft built => ?_⟩
  · rw [(turns.discarding_ok success).1]
    exact .refl _ _
  · rwa [(turns.discarding_ok success).1]
  · have framed := (turns.frame ins).failed draft failure (discarding_error fails)
    rwa [List.append_nil] at framed
  · have stays := turns.safe draft (by simp [Built])
    cases outcome : Builder.discarding build draft with
    | ok pair =>
        obtain ⟨same, value, middle, made, sameCursor⟩ := turns.discarding_ok outcome
        rw [Stays, same, sameCursor]
        exact ⟨(stays.of_ok made).1, built⟩
    | error failure => exact stays.of_error (discarding_error outcome)

/-- Weakening the role of a node that is handed on. -/
theorem doneAs {value : Nat} {strong weak : Role} (unbound : weak ≠ .binding)
    (weaker : ∀ kindOf kind, strong.accepts kindOf kind = true → weak.accepts kindOf kind = true) :
    Turns [⟨value, strong⟩] (pure value) fun value => [⟨value, weak⟩] := by
  refine ⟨fun draft result after success => ?_, fun draft result after success _ below forest => ?_,
    (fun _ _ failed => by cases failed), fun draft built => ⟨.refl _, fun slot member => ?_⟩⟩
  · obtain ⟨rfl, rfl⟩ := pure_ok success
    refine ⟨Nat.le_refl _, fun _ _ _ => rfl, ?_⟩
    intro id member
    obtain ⟨-, same⟩ := Slot.mk.inj (List.mem_singleton.mp member)
    exact absurd same.symm unbound
  · obtain ⟨rfl, rfl⟩ := pure_ok success
    refine forest.relax (by simp) ?_
    intro slot member
    rcases List.mem_append.mp member with member | member
    · exact forest.stands slot (List.mem_append_left _ member)
    · rw [List.mem_singleton.mp member]
      exact weaker _ _ (forest.stands ⟨value, strong⟩ (by simp))
  · rw [List.mem_singleton.mp member]
    exact built ⟨value, strong⟩ (by simp)

theorem weaken {build : Builder Nat} {strong weak : Role} (turns : Turns ins build fun id => [⟨id, strong⟩])
    (unbound : weak ≠ .binding)
    (weaker : ∀ kindOf kind, strong.accepts kindOf kind = true → weak.accepts kindOf kind = true) :
    Turns ins build fun id => [⟨id, weak⟩] := by
  rw [← bind_pure build]
  exact turns.bind fun _ => doneAs unbound weaker

/-- A reader that always fails may leave whatever roots it likes. -/
theorem of_error {read : Reader α} [steady : read.Steady] {outs : α → List Slot}
    (fails : ∀ cursor, ∃ error, read cursor = .error error) : Turns ins (liftM read : Builder α) outs := by
  refine ⟨fun draft value after success => ?_, fun draft value after success => ?_,
    fun draft failure failed => ?_, fun draft _ => ?_⟩
  · obtain ⟨error, failed⟩ := fails draft.cursor
    rw [lift_error failed] at success
    cases success
  · obtain ⟨error, failed⟩ := fails draft.cursor
    rw [lift_error failed] at success
    cases success
  · rw [(read_error failed).2]
    exact .leave _ _
  · obtain ⟨error, failed⟩ := fails draft.cursor
    rw [lift_error failed]
    exact steady.takes.sound failed

theorem unexpected (what : Expectation) {outs : α → List Slot} :
    Turns ins (liftM (Reader.unexpected what : Reader α) : Builder α) outs := by
  refine of_error fun cursor => ?_
  obtain ⟨error, failed, -⟩ := @Reader.unexpected_error α what cursor
  exact ⟨error, failed⟩

theorem exhausted {outs : α → List Slot} :
    Turns ins (liftM (Reader.exhausted : Reader α) : Builder α) outs :=
  of_error fun _ => ⟨_, rfl⟩

/-- An attempt that fails leaves no trace. -/
theorem attempt_ok {outs : α → List Slot} (turns : Turns [] build outs) {draft after : Draft} {found : Option α}
    (success : Builder.attempt build draft = .ok (found, after)) :
    (∃ value, found = some value ∧ build draft = .ok (value, after)) ∨
      found = none ∧ after = draft ∧
        ∃ failure, build draft = .error failure ∧ failure.cause.isFault = false := by
  rw [Builder.attempt] at success
  cases outcome : build draft with
  | ok pair =>
      rw [outcome] at success
      obtain ⟨rfl, rfl⟩ := Prod.mk.inj (Except.ok.inj success)
      exact .inl ⟨pair.1, rfl, rfl⟩
  | error failure =>
      simp only [outcome] at success
      split at success
      case isTrue => cases success
      case isFalse blameless =>
          obtain ⟨rfl, rfl⟩ := Prod.mk.inj (Except.ok.inj success)
          rw [(turns.failed draft failure outcome).take_size]
          exact .inr ⟨rfl, rfl, failure, rfl, Bool.eq_false_iff.mpr blameless⟩

theorem attempt {build : Builder Nat} {role : Role} (turns : Turns [] build fun id => [⟨id, role⟩]) :
    Turns [] (Builder.attempt build) fun found => Slot.row role found.toList := by
  refine ⟨fun draft found after success => ?_, fun draft found after success _ => ?_,
    fun draft failure fails => ?_, fun draft built => ?_⟩
  · rcases turns.attempt_ok success with ⟨value, rfl, made⟩ | ⟨rfl, rfl, -⟩
    · exact turns.grows draft value after made
    · exact .refl _ _
  · rcases turns.attempt_ok success with ⟨value, rfl, made⟩ | ⟨rfl, rfl, -⟩
    · exact (turns.made draft value after made).2
    · exact fun _ forest => forest
  · rw [Builder.attempt] at fails
    cases outcome : build draft with
    | ok pair => simp [outcome] at fails
    | error other =>
        simp only [outcome] at fails
        split at fails
        · obtain rfl := Except.error.inj fails
          exact turns.failed draft other outcome
        · cases fails
  · have stays := turns.safe draft built
    rw [Builder.attempt]
    cases outcome : build draft with
    | error failure =>
        simp only
        split
        · exact stays.of_error outcome
        · exact ⟨.refl _, by simp [Built, Slot.row]⟩
    | ok pair => exact stays.of_ok outcome

end Turns

/-! ## Ascriptions -/

namespace TurnsWhen

variable {held : Array Node → Prop} {ins : List Slot} {build : Builder α} {next : α → Builder β}
  {mid : α → List Slot} {outs : β → List Slot}

theorem read {read : Reader α} [read.Steady] (rest : ∀ value, TurnsWhen held ins (next value) outs) :
    TurnsWhen held ins (liftM read >>= next) outs := by
  refine bind (any (Turns.ofRead read)) (fun draft value after success holds => ?_) rest
  obtain ⟨cursor, -, rfl⟩ := read_ok success
  exact holds

/-- What comes first is all that asks for it. -/
theorem first (first : TurnsWhen held ins build mid) (rest : ∀ value, Turns (mid value) (next value) outs) :
    TurnsWhen held ins (build >>= next) outs :=
  bind first (fun _ _ _ _ _ => trivial) rest

theorem add {held' : α → Array Node → Prop} (first : Turns [] build mid)
    (tells : ∀ draft value after, build draft = .ok (value, after) → held draft.nodes → held' value after.nodes)
    (rest : ∀ value, TurnsWhen (held' value) (ins ++ mid value) (next value) outs) :
    TurnsWhen held ins (build >>= next) outs := by
  have framed := first.frame ins
  rw [List.append_nil] at framed
  exact bind (any framed) tells rest

/-- An ascription that was built right behind its target. -/
theorem ascribe (target ascription : Nat) :
    TurnsWhen (fun nodes => target + 1 = ascription ∧
        ∀ name old, kindAt nodes target = .identifier name old → old = none)
      [⟨target, .binding⟩, ⟨ascription, .ascription⟩] (Builder.ascribe target ascription)
      fun _ => [⟨target, .binding⟩] := by
  refine ⟨fun draft value after success => ?_, fun draft value after success holds below forest => ?_,
    fun draft failure fails => ?_, fun draft built => ?_⟩
  · obtain ⟨node, middle, found, changed⟩ := bind_ok success
    obtain ⟨-, rfl⟩ := nodeOf_ok found
    obtain ⟨-, rfl⟩ := Prod.mk.inj (Except.ok.inj changed)
    refine ⟨?_, ?_, ?_⟩
    · exact Nat.le_of_eq Array.size_modify.symm
    · intro id _ unbound
      have other : target ≠ id := by
        rintro rfl
        exact unbound (by simp)
      exact (Array.getElem?_modify).trans (if_neg other)
    · intro id member
      rw [List.mem_singleton.mp member]
      exact .inl (by simp)
  · obtain ⟨node, middle, found, changed⟩ := bind_ok success
    obtain ⟨-, rfl⟩ := nodeOf_ok found
    obtain ⟨-, rfl⟩ := Prod.mk.inj (Except.ok.inj changed)
    exact forest.ascribe holds.1 holds.2
  · rcases bind_error fails with missing | ⟨_, _, -, changed⟩
    · rw [nodes_of_nodeOf_error missing]
      exact .leave _ _
    · cases changed
  · have inside : target < draft.nodes.size := built ⟨target, .binding⟩ (by simp)
    change Stays _ draft ((nodeOf target draft).bind _)
    rw [nodeOf_eq inside]
    refine ⟨.refl _, fun slot member => ?_⟩
    rw [List.mem_singleton.mp member]
    exact Nat.lt_of_lt_of_eq inside Array.size_modify.symm

end TurnsWhen

/-- A node that was built last, and is no identifier with an ascription. -/
structure IsNew (target : Nat) (nodes : Array Node) : Prop where
  last : target + 1 = nodes.size
  unascribed : ∀ name old, kindAt nodes target = .identifier name old → old = none

def EndsNew (build : Builder Nat) : Prop := ∀ draft id after, build draft = .ok (id, after) → IsNew id after.nodes

namespace EndsNew

theorem bind {build : Builder α} {next : α → Builder Nat} (rest : ∀ value, EndsNew (next value)) :
    EndsNew (build >>= next) := by
  intro draft id after success
  obtain ⟨value, middle, -, continued⟩ := bind_ok success
  exact rest value middle id after continued

theorem alloc {kind : NodeKind} {span : Span} (unascribed : ∀ name old, kind = .identifier name old → old = none) :
    EndsNew (Builder.alloc kind span) := by
  intro draft id after success
  obtain ⟨rfl, rfl⟩ := Prod.mk.inj (Except.ok.inj success)
  refine ⟨(Array.size_push _).symm, ?_⟩
  rw [kindAt_push_size]
  exact unascribed

theorem unexpected (what : Expectation) : EndsNew (liftM (Reader.unexpected what : Reader Nat)) := by
  intro draft id after success
  obtain ⟨error, failed, -⟩ := @Reader.unexpected_error Nat what draft.cursor
  rw [lift_error failed] at success
  cases success

/-- The next build may rely on it. -/
theorem turns {build : Builder Nat} {next : Nat → Builder β} {ins : List Slot} {mid : Nat → List Slot}
    {outs : β → List Slot} (ends : EndsNew build) (first : Turns ins build mid)
    (rest : ∀ id, TurnsWhen (IsNew id) (mid id) (next id) outs) : Turns ins (build >>= next) outs :=
  TurnsWhen.bind first (fun draft id after success _ => ends draft id after success) rest

end EndsNew

section Loops

variable {role : Role}

def turnRoots (held : α → List Slot) : Turn α → List Slot
  | .stop => []
  | .last item => held item
  | .more item => item.toList.flatMap held

theorem Turns.collectWithin {turn : Builder (Turn α)} {held : α → List Slot}
    (turns : Turns [] turn (turnRoots held)) :
    ∀ budget, Turns [] (collectWithin turn budget) fun items => items.flatMap held
  | 0 => exhausted
  | budget + 1 => by
      refine turns.bind fun outcome => ?_
      cases outcome with
      | stop => exact done rfl
      | last item => exact done (List.append_nil _)
      | more item =>
          refine add (Turns.collectWithin turns budget) fun rest => done ?_
          exact List.flatMap_append

theorem Turns.collect (held : α → List Slot) {turn : Builder (Turn α)}
    (turns : Turns [] turn (turnRoots held)) :
    Turns [] (collect turn) fun items => items.flatMap held :=
  read fun _ => turns.collectWithin _

/-- A comma behind an item tells whether the loop goes on. -/
theorem Turns.commaBehind {held : α → List Slot} (item : α) :
    Turns (held item) (do
      if ← (Reader.eat .comma : Reader Bool) then return Turn.more (some item) else return .last item)
      (turnRoots held) :=
  read fun _ => ite (done (List.append_nil _)) (done rfl)

theorem Turns.commaSeparated {item : Builder α} {held : α → List Slot} (turns : Turns [] item held) :
    Turns [] (commaSeparated item) fun items => items.flatMap held :=
  Turns.collect held (turns.bind commaBehind)

theorem Turns.commaSeparatedReads (read : Reader α) [read.Steady] :
    Turns [] (Heed.commaSeparated (liftM read : Builder α)) fun _ => [] := by
  have reads : Turns [] (liftM read : Builder α) fun _ => [] := ofRead read
  have nothing : ∀ items : List α, items.flatMap (fun _ => ([] : List Slot)) = [] := by simp
  simpa only [nothing] using reads.commaSeparated

theorem Turns.commaList (role : Role) {close : Symbol} {item : Builder Nat}
    (turns : Turns [] item fun id => [⟨id, role⟩]) :
    Turns [] (commaList close item) (Slot.row role) := by
  refine Turns.collect (fun id => [⟨id, role⟩]) (read fun atClose => ite (done rfl) ?_)
  exact turns.bind commaBehind

theorem Turns.holedList (role : Role) {close : Symbol} {item : Builder Nat}
    (turns : Turns [] item fun id => [⟨id, role⟩]) :
    Turns [] (holedList close item) (Slot.row role) := by
  refine Turns.collect (fun id => [⟨id, role⟩]) (read fun atClose => ite (done rfl) ?_)
  refine read fun isHole => ite (done rfl) ?_
  exact turns.bind commaBehind

theorem Turns.bracedItems {item : Builder (Option Nat)}
    (turns : Turns [] item fun found => Slot.row role found.toList) :
    Turns [] (bracedItems item) (Slot.row role) := by
  refine Turns.collect (fun id => [⟨id, role⟩]) (read fun atClose => ite (done rfl) ?_)
  refine read fun atEnd => ite (unexpected _) ?_
  exact turns.bind fun found => done rfl

theorem Turns.map_some {build : Builder Nat} (turns : Turns [] build fun id => [⟨id, role⟩]) :
    Turns [] (some <$> build) fun found => Slot.row role found.toList :=
  turns.bind fun _ => done rfl

theorem Turns.growWithin {step : α → Builder (Option α)} {held : α → List Slot}
    (turns : ∀ value, Turns (held value) (step value) fun found => held (found.getD value)) :
    ∀ budget value, Turns (held value) (growWithin step budget value) held
  | 0, _ => exhausted
  | budget + 1, value => by
      refine (turns value).bind fun found => ?_
      cases found with
      | none => exact done rfl
      | some next => exact Turns.growWithin turns budget next

theorem Turns.grow {step : α → Builder (Option α)} {held : α → List Slot} (value : α)
    (turns : ∀ value, Turns (held value) (step value) fun found => held (found.getD value)) :
    Turns (held value) (grow step value) held :=
  read fun _ => Turns.growWithin turns _ value

/-- A loop that builds on one root. -/
theorem Turns.growRoot (role : Role) {step : Nat → Builder (Option Nat)} (value : Nat)
    (turns : ∀ value, Turns [⟨value, role⟩] (step value) fun found => [⟨found.getD value, role⟩]) :
    Turns [⟨value, role⟩] (Heed.grow step value) fun id => [⟨id, role⟩] :=
  @Turns.grow Nat step (fun id => [⟨id, role⟩]) value turns

/-- A loop that only reads. -/
theorem Turns.repeat {step : α → Builder (Option α)} (value : α)
    (turns : ∀ value, Turns [] (step value) fun _ => []) : Turns [] (Heed.grow step value) fun _ => [] :=
  @Turns.grow α step (fun _ => []) value turns

end Loops

end Builder

end Heed
