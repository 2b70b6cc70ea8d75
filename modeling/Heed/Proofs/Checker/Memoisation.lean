import Heed.Proofs.Checker.Sessions
import Heed.Proofs.Tree.Shape

/-!
# What memory does not change

Inference without memory asks again for every type, and marks nothing as being in flight; it ends only
where no type depends on itself. Such a type is the one that a session gives, on whatever the session was
asked before, even though what was asked before may depend on itself and be remembered as unknown in part.

The reason is an order: a node whose type is found in `budget` steps only asks for types that are found in
fewer, so that none of the nodes it waits for can be among the nodes that wait for it.
-/

set_option autoImplicit false

namespace Heed.Checker

open Inquiry (question)

variable (checker : Checker)

/-- Inference without memory, if it ends within a number of nested steps. -/
def plain : Nat → Nat → Option Ty
  | 0, _ => none
  | budget + 1, node => checker.infer (plain budget) node

variable {checker}

theorem put_mono {α : Type} {less more : Nat → Option Ty}
    (extends_ : ∀ node type, less node = some type → more node = some type) {inquiry : Inquiry α}
    {value : α} (ends : inquiry.put less = some value) : inquiry.put more = some value := by
  induction inquiry with
  | done => exact ends
  | ask node next ih =>
      obtain ⟨type, told, rest⟩ := Option.bind_eq_some_iff.mp ends
      exact Option.bind_eq_some_iff.mpr ⟨type, extends_ node type told, ih type rest⟩

theorem plain_succ {budget node : Nat} {type : Ty} (ends : checker.plain budget node = some type) :
    checker.plain (budget + 1) node = some type := by
  induction budget generalizing node type with
  | zero => simp [plain] at ends
  | succ budget ih =>
      rw [plain, ← put_inquiry] at ends ⊢
      exact put_mono (fun _ _ => ih) ends

theorem plain_mono {budget more node : Nat} {type : Ty} (enough : budget ≤ more)
    (ends : checker.plain budget node = some type) : checker.plain more node = some type := by
  induction more, enough using Nat.le_induction with
  | base => exact ends
  | succ more _ ih => exact plain_succ ih

variable (checker) in
/-- The type of a node that needs neither memory nor an end to cycles. -/
def HasPlainType (node : Nat) (type : Ty) : Prop := ∃ budget, checker.plain budget node = some type

theorem HasPlainType.unique {node : Nat} {type other : Ty} (first : checker.HasPlainType node type)
    (second : checker.HasPlainType node other) : other = type := by
  obtain ⟨budget, ends⟩ := first
  obtain ⟨more, ends'⟩ := second
  have both := plain_mono (Nat.le_max_left budget more) ends
  have both' := plain_mono (Nat.le_max_right budget more) ends'
  exact Option.some.inj (both'.symm.trans both)

/-! ## A run without cycles is plain -/

variable (checker) in
/-- Everything that is remembered is plain. -/
def Plainly (memo : Memo) : Prop :=
  ∀ node type, Memo.recall? memo node = some type → checker.HasPlainType node type

theorem recall?_fresh (node : Nat) : Memo.recall? checker.fresh node = none := by
  rw [Memo.recall?, Checker.fresh, Array.getElem?_replicate]
  split <;> rfl

theorem Plainly.set {memo : Memo} (plainly : checker.Plainly memo) {node : Nat} {type : Ty}
    (plain : checker.HasPlainType node type) :
    checker.Plainly (memo.setIfInBounds node (some type)) := by
  intro other found known
  rw [Memo.recall?_set] at known
  split at known
  case isTrue same =>
    cases Option.some.inj known
    exact same.1 ▸ plain
  case isFalse => exact plainly other found known

/-- A plain type and a plain rest, found within different budgets, are found within the larger one. -/
theorem put_plain_ask {α : Type} {node : Nat} {type : Ty} {next : Ty → Inquiry α} {value : α}
    (told : checker.HasPlainType node type)
    (rest : ∃ budget, (next type).put (checker.plain budget) = some value) :
    ∃ budget, (Inquiry.ask node next).put (checker.plain budget) = some value := by
  obtain ⟨first, told⟩ := told
  obtain ⟨second, ends⟩ := rest
  refine ⟨max first second, Option.bind_eq_some_iff.mpr ⟨type, ?_, ?_⟩⟩
  · exact plain_mono (Nat.le_max_left first second) told
  · exact put_mono (fun _ _ => plain_mono (Nat.le_max_right first second)) ends

theorem plain_of_settles {α : Type} {state after : Standing} {inquiry : Inquiry α} {value : α}
    (run : checker.Settles false state inquiry value after) (plainly : checker.Plainly state.memo) :
    (∃ budget, inquiry.put (checker.plain budget) = some value) ∧ checker.Plainly after.memo := by
  induction run with
  | done => exact ⟨⟨0, rfl⟩, plainly⟩
  | remembered known _ ih =>
      obtain ⟨ends, after⟩ := ih plainly
      exact ⟨put_plain_ask (plainly _ _ known) ends, after⟩
  | met permitted => cases permitted
  | @inferred _ _ _ _ node type _ _ _ _ _ _ ihInference ihRest =>
      obtain ⟨⟨budget, told⟩, inner⟩ := ihInference plainly
      rw [put_inquiry] at told
      have plain : checker.HasPlainType node type := ⟨budget + 1, told⟩
      obtain ⟨ends, after⟩ := ihRest (inner.set plain)
      exact ⟨put_plain_ask plain ends, after⟩

/-! ## Memory that is right -/

variable (checker) in
/-- Where there is a plain type, nothing else is remembered. -/
def Right (memo : Memo) : Prop :=
  ∀ node type, Memo.recall? memo node = some type →
    ∀ plain, checker.HasPlainType node plain → type = plain

theorem Right.fresh : checker.Right checker.fresh := by
  intro node type known
  simp [recall?_fresh] at known

theorem Right.set {memo : Memo} (right : checker.Right memo) {node : Nat} {type : Ty}
    (agrees : ∀ plain, checker.HasPlainType node plain → type = plain) :
    checker.Right (memo.setIfInBounds node (some type)) := by
  intro other found known
  rw [Memo.recall?_set] at known
  split at known
  case isTrue same =>
    cases Option.some.inj known
    exact same.1 ▸ agrees
  case isFalse => exact right other found known

/-- If the types that are found within a budget are answered, then so is every inquiry that they
answer. -/
theorem settles_of_put {budget : Nat} {inFlight : Finset Nat}
    (answers : ∀ node type, checker.plain budget node = some type → ∀ memo, checker.Right memo →
      ∃ after, checker.Settles false ⟨memo, inFlight⟩ (question node) type ⟨after, inFlight⟩ ∧
        checker.Right after)
    {α : Type} {inquiry : Inquiry α} {value : α}
    (ends : inquiry.put (checker.plain budget) = some value) {memo : Memo}
    (right : checker.Right memo) :
    ∃ after, checker.Settles false ⟨memo, inFlight⟩ inquiry value ⟨after, inFlight⟩ ∧
      checker.Right after := by
  induction inquiry generalizing memo with
  | done other =>
      cases Option.some.inj ends
      exact ⟨memo, .done, right⟩
  | ask node next ih =>
      obtain ⟨type, told, rest⟩ := Option.bind_eq_some_iff.mp ends
      obtain ⟨middle, first, right⟩ := answers node type told memo right
      obtain ⟨after, second, right⟩ := ih type rest right
      exact ⟨after, first.next second, right⟩

/-- A type that is found within a budget is answered without meeting a node in flight, as long as no node
in flight is found within that budget itself. -/
theorem settles_of_plain (budget : Nat) :
    ∀ inFlight : Finset Nat, (∀ waiting ∈ inFlight, checker.plain budget waiting = none) →
      ∀ node type, checker.plain budget node = some type → ∀ memo, checker.Right memo →
        ∃ after, checker.Settles false ⟨memo, inFlight⟩ (question node) type ⟨after, inFlight⟩ ∧
          checker.Right after := by
  induction budget with
  | zero =>
      intro inFlight _ node type ends
      simp [plain] at ends
  | succ budget ih =>
      intro inFlight waits node type ends memo right
      have waitsBelow : ∀ waiting ∈ inFlight, checker.plain budget waiting = none := by
        intro waiting marked
        cases found : checker.plain budget waiting with
        | none => rfl
        | some other => simpa [plain_succ found] using waits waiting marked
      -- A node that is found with less is no concern of this budget; otherwise nothing in flight, the
      -- node included, is found with less, and that is what the types it asks for are found with.
      cases below : checker.plain budget node with
      | some other =>
          have same : type = other := HasPlainType.unique ⟨budget, below⟩ ⟨budget + 1, ends⟩
          subst same
          exact ih inFlight waitsBelow node type below memo right
      | none =>
          have plain : checker.HasPlainType node type := ⟨budget + 1, ends⟩
          cases known : Memo.recall? memo node with
          | some found =>
              cases right node found known type plain
              exact ⟨memo, .remembered known .done, right⟩
          | none =>
              have unmarked : node ∉ inFlight := by
                intro marked
                simp [waits node marked] at ends
              have waitsInside : ∀ waiting ∈ insert node inFlight,
                  checker.plain budget waiting = none := by
                intro waiting marked
                rcases Finset.mem_insert.mp marked with rfl | marked
                · exact below
                · exact waitsBelow waiting marked
              rw [Checker.plain, ← put_inquiry] at ends
              obtain ⟨inner, inference, right⟩ := settles_of_put (ih _ waitsInside) ends right
              refine ⟨_, .infer known unmarked inference, right.set ?_⟩
              intro other plain'
              exact plain'.unique plain

/-- Runs keep memory right, cyclic ones too, while only nodes without a plain type are in flight. -/
theorem Right.kept {cyclic : Bool} {α : Type} {state after : Standing} {inquiry : Inquiry α} {value : α}
    (run : checker.Settles cyclic state inquiry value after) (right : checker.Right state.memo)
    (waits : ∀ waiting ∈ state.inFlight, ∀ type, ¬ checker.HasPlainType waiting type) :
    checker.Right after.memo := by
  induction run with
  | done => exact right
  | remembered _ _ ih => exact ih right waits
  | met _ _ _ _ ih => exact ih right waits
  | @inferred _ state inner _ node type _ _ unknown unmarked inference rest ihInference ihRest =>
      have question_ : checker.Settles cyclic state (question node) type
          ⟨inner.memo.setIfInBounds node (some type), inner.inFlight.erase node⟩ :=
        .inferred unknown unmarked inference .done
      have waitsAfter := question_.inFlight_eq ▸ waits
      refine ihRest ?_ waitsAfter
      by_cases plain : ∃ type, checker.HasPlainType node type
      · -- The node has another run, which keeps memory right, and there is only one run.
        obtain ⟨type', budget, ends⟩ := plain
        have waitsBudget : ∀ waiting ∈ state.inFlight, checker.plain budget waiting = none := by
          intro waiting marked
          by_contra found
          obtain ⟨other, found⟩ := Option.ne_none_iff_exists'.mp found
          exact waits waiting marked other ⟨budget, found⟩
        obtain ⟨memo, straight, right⟩ :=
          settles_of_plain budget state.inFlight waitsBudget node type' ends state.memo right
        obtain ⟨_, same⟩ := question_.unique straight
        rw [← same]
        exact right
      · refine Right.set (ihInference right ?_) ?_
        · intro waiting marked
          rcases Finset.mem_insert.mp marked with rfl | marked
          · exact fun other found => plain ⟨other, found⟩
          · exact waits waiting marked
        · intro other found
          exact absurd ⟨other, found⟩ plain

theorem Right.afterwards (earlier : List Query) :
    checker.Right (checker.afterwards earlier checker.fresh) := by
  apply checker.afterwards_induction Right.fresh
  intro memo query right
  exact Right.kept (checker.settles_answer query memo) right (by simp)

/-- With the right memory a session gives the plain type. -/
theorem typeOf_of_plain {node : Nat} {type : Ty} (plain : checker.HasPlainType node type) {memo : Memo}
    (right : checker.Right memo) : ((checker.typeOf node).run memo).1 = type := by
  obtain ⟨budget, ends⟩ := plain
  obtain ⟨after, run, -⟩ := settles_of_plain budget ∅ (by simp) node type ends memo right
  exact (run.unique (checker.settles_typeOf node memo)).1

/-- Memory changes nothing for a node whose inference in a fresh session meets no node in flight: whatever
was asked before, the session gives the type that a fresh one gives, which is the type that inference
without memory gives. -/
theorem typeOf_unaffected_by_memory (tree : Tree) (node : Nat) (earlier : List Query)
    (acyclic : ∃ type after, (Checker.ofTree tree).Settles false ⟨(Checker.ofTree tree).fresh, ∅⟩
      (question node) type after) :
    let checker := Checker.ofTree tree
    let type := ((checker.typeOf node).run checker.fresh).1
    ((checker.typeOf node).run (checker.afterwards earlier checker.fresh)).1 = type ∧
      ∃ budget, ∀ more, budget ≤ more → checker.plain more node = some type := by
  intro checker type
  obtain ⟨type', after, run⟩ := acyclic
  have nothing : checker.Plainly checker.fresh := by
    intro node type known
    simp [recall?_fresh] at known
  obtain ⟨⟨budget, ends⟩, -⟩ := plain_of_settles run nothing
  rw [Inquiry.put_question] at ends
  have fresh : type = type' := typeOf_of_plain ⟨budget, ends⟩ Right.fresh
  refine ⟨?_, budget, ?_⟩
  · rw [fresh]
    exact typeOf_of_plain ⟨budget, ends⟩ (Right.afterwards earlier)
  · intro more enough
    rw [fresh]
    exact plain_mono enough ends

/-- Two variables that mean each other are asked for first, and what is remembered of them is unknown in
part. One of them needs a third variable, on which the type in question depends as well. -/
theorem typeOf_unaffected_by_cycle :
    ∃ tree, Tree.parse "const a = [b, c], b = a, c = 1, d = [c, c + \"\"]" = .ok tree ∧
      (((Checker.ofTree tree).typeOf 3).run (Checker.ofTree tree).fresh).1 =
        .array (.union [.unknown, .primitive .number]) ∧
      (∃ type after, (Checker.ofTree tree).Settles false ⟨(Checker.ofTree tree).fresh, ∅⟩
        (question 16) type after) ∧
      (((Checker.ofTree tree).typeOf 16).run
        ((Checker.ofTree tree).afterwards [.typeOf 3] (Checker.ofTree tree).fresh)).1 =
          .array (.union [.primitive .number, .primitive .string]) := by
  have checks : (Tree.parse "const a = [b, c], b = a, c = 1, d = [c, c + \"\"]").toOption.any
      (fun tree => decide (
        (((Checker.ofTree tree).typeOf 3).run (Checker.ofTree tree).fresh).1 =
          .array (.union [.unknown, .primitive .number]) ∧
        (Checker.ofTree tree).plain 4 16 =
          some (.array (.union [.primitive .number, .primitive .string])))) = true := by
    decide +kernel
  obtain ⟨tree, parsed, checks⟩ := Tree.exists_of_checks checks
  obtain ⟨inPart, ends⟩ := of_decide_eq_true checks
  obtain ⟨after, run, -⟩ := settles_of_plain 4 ∅ (by simp) 16 _ ends _ Right.fresh
  obtain ⟨same, budget, plain⟩ := typeOf_unaffected_by_memory tree 16 [.typeOf 3] ⟨_, _, run⟩
  refine ⟨tree, parsed, inPart, ⟨_, _, run⟩, same.trans ?_⟩
  exact HasPlainType.unique ⟨4, ends⟩ ⟨budget, plain budget le_rfl⟩

end Heed.Checker
