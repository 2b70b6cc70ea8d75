import Heed.Proofs.Budget
import Heed.Proofs.Checker.Inquiry

/-!
# Runs of a session

A session answers queries one after the other and keeps what it remembers in between. `Settles` states how
an inquiry runs without a budget: a type that is asked for is remembered, or unknown because its node is in
flight, or inferred while the node is in flight, and then remembered.

A session under a budget has exactly these runs. Every query therefore ends, with nothing in flight, and
since a run only ever adds to the memory, a type that was answered once is answered again.
-/

set_option autoImplicit false

namespace Heed

inductive Query where
  | typeOf (node : Nat)
  | returnType (node : Nat)
  | memberType (type : Ty) (name : String)
  | hasMember (type : Ty) (name : String)
  | expand (type : Ty)
  | awaited (type : Ty)
  | parts (type : Ty)

abbrev Query.Answer : Query → Type
  | .typeOf _ | .returnType _ | .expand _ | .awaited _ => Ty
  | .memberType _ _ => Option Ty
  | .hasMember _ _ => Bool
  | .parts _ => List Ty

def Memo.recall? (memo : Memo) (node : Nat) : Option Ty := (memo[node]?).join

theorem Memo.recall?_set (memo : Memo) (node other : Nat) (type : Ty) :
    Memo.recall? (memo.setIfInBounds node (some type)) other =
      if node = other ∧ node < memo.size then some type else Memo.recall? memo other := by
  unfold Memo.recall?
  rw [Array.getElem?_setIfInBounds]
  by_cases same : node = other
  · subst same
    by_cases inside : node < memo.size
    · simp [inside]
    · simp [inside]
  · simp [same]

theorem Memo.recall?_set_ne {memo : Memo} {node other : Nat} (differ : other ≠ node) (type : Ty) :
    Memo.recall? (memo.setIfInBounds node (some type)) other = Memo.recall? memo other := by
  rw [Memo.recall?_set, if_neg fun both => differ both.1.symm]

namespace Checker

open Inquiry (question)

variable (checker : Checker)

def answer : (query : Query) → Session query.Answer
  | .typeOf node => checker.typeOf node
  | .returnType node => checker.returnType node
  | .memberType type name => checker.memberType type name
  | .hasMember type name => checker.hasMember type name
  | .expand type => return checker.declarations.expand type
  | .awaited type => return checker.declarations.awaited type
  | .parts type => return checker.declarations.parts type

def afterwards (queries : List Query) (memo : Memo) : Memo :=
  queries.foldl (fun memo query => ((checker.answer query).run memo).2) memo

def inquiryOf : (query : Query) → Inquiry query.Answer
  | .typeOf node => question node
  | .returnType node => checker.functionResult question node
  | .memberType type name => checker.member question type name
  | .hasMember type name =>
      match checker.declarations.expand type with
      | .any | .unknown => return false
      | _ => return (← checker.member question type name).isSome
  | .expand type => return checker.declarations.expand type
  | .awaited type => return checker.declarations.awaited type
  | .parts type => return checker.declarations.parts type

theorem put_inquiryOf (query : Query) :
    (checker.inquiryOf query).put checker.typeOf = checker.answer query := by
  cases query with
  | typeOf node => exact Inquiry.put_question _ node
  | returnType node => exact checker.put_functionResult _ node
  | memberType type name => exact checker.put_member _ type name
  | hasMember type name =>
      cases expanded : checker.declarations.expand type <;>
        simp [inquiryOf, answer, hasMember, memberType, expanded]
  | expand type => rfl
  | awaited type => rfl
  | parts type => rfl

/-! ## Runs without a budget -/

/-- What a session remembers, and the nodes that are being inferred. -/
structure Standing where
  memo : Memo
  inFlight : Finset Nat

/-- How an inquiry runs. Only a run that may be `cyclic` goes on when it meets a node in flight. -/
inductive Settles (cyclic : Bool) : {α : Type} → Standing → Inquiry α → α → Standing → Prop where
  | done {α : Type} {state : Standing} {value : α} : Settles cyclic state (.done value) value state
  | remembered {α : Type} {state after : Standing} {node : Nat} {type : Ty} {next : Ty → Inquiry α}
      {value : α} (known : Memo.recall? state.memo node = some type)
      (rest : Settles cyclic state (next type) value after) :
      Settles cyclic state (.ask node next) value after
  | met {α : Type} {state after : Standing} {node : Nat} {next : Ty → Inquiry α} {value : α}
      (permitted : cyclic = true) (unknown : Memo.recall? state.memo node = none)
      (marked : node ∈ state.inFlight) (rest : Settles cyclic state (next .unknown) value after) :
      Settles cyclic state (.ask node next) value after
  | inferred {α : Type} {state inner after : Standing} {node : Nat} {type : Ty}
      {next : Ty → Inquiry α} {value : α} (unknown : Memo.recall? state.memo node = none)
      (unmarked : node ∉ state.inFlight)
      (inference : Settles cyclic ⟨state.memo, insert node state.inFlight⟩ (checker.inquiry node) type
        inner)
      (rest : Settles cyclic
        ⟨inner.memo.setIfInBounds node (some type), inner.inFlight.erase node⟩ (next type) value after) :
      Settles cyclic state (.ask node next) value after

namespace Settles

variable {checker} {cyclic : Bool} {α : Type} {state after : Standing} {inquiry : Inquiry α} {value : α}

/-- A run is the only one, also if others may be cyclic. -/
theorem unique (run : checker.Settles cyclic state inquiry value after) :
    ∀ {other : Bool} {value' : α} {after' : Standing},
      checker.Settles other state inquiry value' after' → value' = value ∧ after' = after := by
  induction run with
  | done =>
      intro other value' after' run
      cases run
      exact ⟨rfl, rfl⟩
  | remembered known rest ih =>
      intro other value' after' run
      cases run with
      | remembered known' rest' =>
          cases Option.some.inj (known'.symm.trans known)
          exact ih rest'
      | met _ unknown => simp [known] at unknown
      | inferred unknown => simp [known] at unknown
  | met permitted unknown marked rest ih =>
      intro other value' after' run
      cases run with
      | remembered known => simp [unknown] at known
      | met _ _ _ rest' => exact ih rest'
      | inferred _ unmarked => exact absurd marked unmarked
  | inferred unknown unmarked inference rest ihInference ihRest =>
      intro other value' after' run
      cases run with
      | remembered known => simp [unknown] at known
      | met _ _ marked => exact absurd marked unmarked
      | inferred _ _ inference' rest' =>
          obtain ⟨rfl, rfl⟩ := ihInference inference'
          exact ihRest rest'

/-- A run changes back what is in flight. -/
theorem inFlight_eq (run : checker.Settles cyclic state inquiry value after) :
    after.inFlight = state.inFlight := by
  induction run with
  | done => rfl
  | remembered _ _ ih => exact ih
  | met _ _ _ _ ih => exact ih
  | inferred _ unmarked _ _ ihInference ihRest =>
      rw [ihRest, ihInference, Finset.erase_insert unmarked]

theorem size_eq (run : checker.Settles cyclic state inquiry value after) :
    after.memo.size = state.memo.size := by
  induction run with
  | done => rfl
  | remembered _ _ ih => exact ih
  | met _ _ _ _ ih => exact ih
  | inferred _ _ _ _ ihInference ihRest =>
      rw [ihRest, Array.size_setIfInBounds, ihInference]

/-- What is remembered stays remembered: only a node of which nothing is known is inferred. -/
theorem recall?_kept (run : checker.Settles cyclic state inquiry value after) {node : Nat} {type : Ty}
    (known : Memo.recall? state.memo node = some type) :
    Memo.recall? after.memo node = some type := by
  induction run with
  | done => exact known
  | remembered _ _ ih => exact ih known
  | met _ _ _ _ ih => exact ih known
  | @inferred _ state inner _ asked _ _ _ unknown _ _ _ ihInference ihRest =>
      have differ : node ≠ asked := by
        rintro rfl
        simp [known] at unknown
      apply ihRest
      rw [Memo.recall?_set_ne differ]
      exact ihInference known

/-- The run of a question and the run of what comes after it are one run. -/
theorem next {node : Nat} {type : Ty} {middle : Standing} {rest : Ty → Inquiry α}
    (first : checker.Settles cyclic state (question node) type middle)
    (second : checker.Settles cyclic middle (rest type) value after) :
    checker.Settles cyclic state (.ask node rest) value after := by
  cases first with
  | remembered known rest =>
      cases rest
      exact .remembered known second
  | met permitted unknown marked rest =>
      cases rest
      exact .met permitted unknown marked second
  | inferred unknown unmarked inference rest =>
      cases rest
      exact .inferred unknown unmarked inference second

/-- A question that is inferred: the node is remembered afterwards and no longer in flight. -/
theorem infer {memo inner : Memo} {inFlight : Finset Nat} {node : Nat} {type : Ty}
    (unknown : Memo.recall? memo node = none) (unmarked : node ∉ inFlight)
    (inference : checker.Settles cyclic ⟨memo, insert node inFlight⟩ (checker.inquiry node) type
      ⟨inner, insert node inFlight⟩) :
    checker.Settles cyclic ⟨memo, inFlight⟩ (question node) type
      ⟨inner.setIfInBounds node (some type), inFlight⟩ := by
  have rest : checker.Settles cyclic
      ⟨inner.setIfInBounds node (some type), (insert node inFlight).erase node⟩ (Inquiry.done type) type
      ⟨inner.setIfInBounds node (some type), inFlight⟩ := by
    rw [Finset.erase_insert unmarked]
    exact .done
  exact .inferred unknown unmarked inference rest

/-- A question that is answered is remembered. -/
theorem remembered_of_question {node : Nat} {type : Ty}
    (run : checker.Settles cyclic state (question node) type after) (unmarked : node ∉ state.inFlight)
    (inside : node < state.memo.size) : Memo.recall? after.memo node = some type := by
  cases run with
  | remembered known rest =>
      cases rest
      exact known
  | met _ _ marked _ => exact absurd marked unmarked
  | inferred _ _ inference rest =>
      have inside := inference.size_eq ▸ inside
      cases rest
      rw [Memo.recall?_set, if_pos ⟨rfl, inside⟩]

end Settles

/-! ## The runs of a session -/

/-- One inference under a budget. -/
theorem run_typeWithin_succ (budget : Nat) (path : List Nat) (node : Nat) (memo : Memo) :
    (checker.typeWithin (budget + 1) path node).run memo =
      match Memo.recall? memo node with
      | some type => (type, memo)
      | none =>
          if path.contains node then (.unknown, memo)
          else
            let inferred := ((checker.inquiry node).put
              (checker.typeWithin budget (node :: path))).run memo
            (inferred.1, inferred.2.setIfInBounds node (some inferred.1)) := by
  rw [put_inquiry, typeWithin, StateT.run_bind, Memo.recall?]
  change (match (memo[node]?).join with | some type => _ | none => _ : Session Ty).run memo = _
  cases (memo[node]?).join with
  | some type => rfl
  | none =>
      dsimp only
      split <;> rfl

/-- Answers that are runs make a run of every inquiry that is put to them. -/
theorem settles_put {inFlight : Finset Nat} {respond : Nat → Session Ty}
    (responds : ∀ node memo, checker.Settles true ⟨memo, inFlight⟩ (question node)
      ((respond node).run memo).1 ⟨((respond node).run memo).2, inFlight⟩)
    {α : Type} (inquiry : Inquiry α) (memo : Memo) :
    checker.Settles true ⟨memo, inFlight⟩ inquiry ((inquiry.put respond).run memo).1
      ⟨((inquiry.put respond).run memo).2, inFlight⟩ := by
  induction inquiry generalizing memo with
  | done value => exact .done
  | ask node next ih => exact (responds node memo).next (ih _ _)

theorem settles_typeWithin (budget : Nat) :
    ∀ (path : List Nat) (inFlight : Finset Nat), Tracks path inFlight →
      Room checker.tree.size budget path → ∀ node memo,
      checker.Settles true ⟨memo, inFlight⟩ (question node)
        ((checker.typeWithin budget path node).run memo).1
        ⟨((checker.typeWithin budget path node).run memo).2, inFlight⟩ := by
  induction budget with
  | zero =>
      intro path inFlight _ room
      obtain ⟨rest, impossible⟩ := room.positive
      omega
  | succ budget ih =>
      intro path inFlight tracks room node memo
      rw [run_typeWithin_succ]
      cases known : Memo.recall? memo node with
      | some type => exact .remembered known .done
      | none =>
          by_cases member : node ∈ path
          · simp only [List.contains_iff_mem.mpr member, if_true]
            exact .met rfl known ((tracks node).mp member) .done
          · have unmarked : node ∉ inFlight := fun marked => member ((tracks node).mpr marked)
            simp only [List.contains_iff_mem, member, if_false]
            refine Settles.infer known unmarked ?_
            by_cases inside : node < checker.tree.size
            · exact checker.settles_put (ih (node :: path) (insert node inFlight) (tracks.extend node)
                (room.extend member inside)) _ memo
            · -- Outside of the tree the budget may be short, but there is nothing to ask either.
              rw [checker.inquiry_of_size_le (Nat.le_of_not_lt inside)]
              exact .done

theorem settles_typeOf (node : Nat) (memo : Memo) :
    checker.Settles true ⟨memo, ∅⟩ (question node) ((checker.typeOf node).run memo).1
      ⟨((checker.typeOf node).run memo).2, ∅⟩ :=
  checker.settles_typeWithin (checker.tree.size + 1) [] ∅ (by intro node; simp) (Room.start _) node memo

theorem settles_answer (query : Query) (memo : Memo) :
    checker.Settles true ⟨memo, ∅⟩ (checker.inquiryOf query) ((checker.answer query).run memo).1
      ⟨((checker.answer query).run memo).2, ∅⟩ := by
  rw [← put_inquiryOf]
  exact checker.settles_put checker.settles_typeOf _ memo

/-- What every query keeps, a sequence of queries keeps. -/
theorem afterwards_induction {motive : Memo → Prop} {memo : Memo} (start : motive memo)
    (step : ∀ memo query, motive memo → motive ((checker.answer query).run memo).2)
    (queries : List Query) : motive (checker.afterwards queries memo) := by
  induction queries generalizing memo with
  | nil => exact start
  | cons query rest ih => exact ih (step memo query start)

theorem recall?_afterwards {memo : Memo} {node : Nat} {type : Ty}
    (known : Memo.recall? memo node = some type) (queries : List Query) :
    Memo.recall? (checker.afterwards queries memo) node = some type := by
  apply checker.afterwards_induction (motive := fun memo => Memo.recall? memo node = some type) known
  intro memo query known
  exact (checker.settles_answer query memo).recall?_kept known

theorem size_afterwards (queries : List Query) (memo : Memo) :
    (checker.afterwards queries memo).size = memo.size := by
  apply checker.afterwards_induction (motive := fun other => other.size = memo.size) rfl
  intro other query size
  exact (checker.settles_answer query other).size_eq.trans size

theorem typeOf_of_recall? {memo : Memo} {node : Nat} {type : Ty}
    (known : Memo.recall? memo node = some type) :
    (checker.typeOf node).run memo = (type, memo) := by
  rw [typeOf, run_typeWithin_succ, known]

/-- A node outside of what a session can remember is outside of the tree, and its type unknown. -/
theorem typeOf_outside {memo : Memo} {node : Nat} (size : memo.size = checker.tree.size)
    (outside : checker.tree.size ≤ node) : ((checker.typeOf node).run memo).1 = .unknown := by
  have unknown : Memo.recall? memo node = none := by
    rw [Memo.recall?, Array.getElem?_eq_none (size ▸ outside)]
    rfl
  rw [typeOf, run_typeWithin_succ, unknown, checker.inquiry_of_size_le outside]
  rfl

/-- A type that was answered is answered again. -/
theorem typeOf_afterwards {memo : Memo} (size : memo.size = checker.tree.size) (node : Nat)
    (later : List Query) :
    ((checker.typeOf node).run (checker.afterwards later ((checker.typeOf node).run memo).2)).1 =
      ((checker.typeOf node).run memo).1 := by
  have first := checker.settles_typeOf node memo
  by_cases inside : node < checker.tree.size
  · have remembered := first.remembered_of_question (Finset.notMem_empty node) (size ▸ inside)
    have kept := checker.recall?_afterwards remembered later
    rw [checker.typeOf_of_recall? kept]
  · have outside := Nat.le_of_not_lt inside
    rw [checker.typeOf_outside size outside]
    exact checker.typeOf_outside
      ((checker.size_afterwards later _).trans (first.size_eq.trans size)) outside

/-- Every query ends, whatever was asked before: it has one run, in which no budget occurs, and that run
ends with nothing in flight and gives the answer of the session. What the session remembers it remembers
from then on, and a node that is asked for again later has the type it had. -/
theorem session_settles_every_query (tree : Tree) (earlier : List Query) :
    let checker := Checker.ofTree tree
    let memo := checker.afterwards earlier checker.fresh
    (∀ query value after, checker.Settles true ⟨memo, ∅⟩ (checker.inquiryOf query) value after ↔
      value = ((checker.answer query).run memo).1 ∧
        after = ⟨((checker.answer query).run memo).2, ∅⟩) ∧
    (∀ node type later, Memo.recall? memo node = some type →
      Memo.recall? (checker.afterwards later memo) node = some type) ∧
    (∀ node later, let first := (checker.typeOf node).run memo
      ((checker.typeOf node).run (checker.afterwards later first.2)).1 = first.1) := by
  intro checker memo
  have size : memo.size = checker.tree.size :=
    (checker.size_afterwards earlier _).trans (by simp [fresh])
  refine ⟨?_, ?_, ?_⟩
  · intro query value after
    constructor
    · intro run
      exact (checker.settles_answer query memo).unique run
    · rintro ⟨rfl, rfl⟩
      exact checker.settles_answer query memo
  · intro node type later known
    exact checker.recall?_afterwards known later
  · intro node later
    exact checker.typeOf_afterwards size node later

end Checker

end Heed
