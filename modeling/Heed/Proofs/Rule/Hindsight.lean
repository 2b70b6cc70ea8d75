import Heed.Proofs.Checker.Sessions
import Heed.Proofs.Rule.Moments

/-!
# A session in hindsight

An answer lasts if it is given again at every later moment of the session. If all answers do, the end of a
session knows all that was answered in it: what an action gave is what it gives with an oracle that has no
memory and answers as the session does at its end.
-/

set_option autoImplicit false

namespace Heed

namespace Inspection

variable {σ τ α β : Type} {inspection : Inspection (StateM σ) τ} {start : σ}

theorem Moment.trans {state later : σ} (first : inspection.Moment start state)
    (second : inspection.Moment state later) : inspection.Moment start later := by
  induction second with
  | start => exact first
  | ask node _ ih => exact .ask node ih

variable (inspection start)

/-- What is answered at a moment is answered at all later ones. -/
def Lasting : Prop :=
  ∀ state, inspection.Moment start state → ∀ node later,
    inspection.Moment ((inspection.isResult node).run state).2 later →
      ((inspection.isResult node).run later).1 = ((inspection.isResult node).run state).1

/-- What an action gives is seen in the same way at every moment after it. -/
def Foresees (action : StateM σ α) (seen : σ → Id α) : Prop :=
  ∀ state, inspection.Moment start state →
    inspection.Moment state (action.run state).2 ∧
      ∀ later, inspection.Moment (action.run state).2 later → (seen later).run = (action.run state).1

variable {inspection start}

namespace Foresees

theorem pure (value : α) : inspection.Foresees start (Pure.pure value) fun _ => Pure.pure value :=
  fun _ _ => ⟨.start, fun _ _ => rfl⟩

theorem bind {action : StateM σ α} {next : α → StateM σ β} {seen : σ → Id α} {seenNext : α → σ → Id β}
    (first : inspection.Foresees start action seen)
    (then_ : ∀ value, inspection.Foresees start (next value) (seenNext value)) :
    inspection.Foresees start (action >>= next) fun later => seen later >>= (seenNext · later) := by
  intro state moment
  obtain ⟨reached, seenFirst⟩ := first state moment
  obtain ⟨reachedNext, seenLater⟩ := then_ (action.run state).1 _ (moment.trans reached)
  refine ⟨reached.trans reachedNext, fun later after => ?_⟩
  have after : inspection.Moment ((next (action.run state).1).run (action.run state).2).2 later := after
  rw [Id.run_bind, seenFirst later (reachedNext.trans after)]
  exact seenLater later after

theorem ite {condition : Prop} [Decidable condition] {yes no : StateM σ α} {seenYes seenNo : σ → Id α}
    (first : inspection.Foresees start yes seenYes) (second : inspection.Foresees start no seenNo) :
    inspection.Foresees start (if condition then yes else no) fun later =>
      if condition then seenYes later else seenNo later := by
  split
  · exact first
  · exact second

theorem anyM {items : List α} {test : α → StateM σ Bool} {seen : α → σ → Id Bool}
    (each : ∀ item, inspection.Foresees start (test item) (seen item)) :
    inspection.Foresees start (items.anyM test) fun later => items.anyM (seen · later) := by
  induction items with
  | nil => exact .pure false
  | cons item rest ih =>
      simp only [List.anyM_cons]
      refine .bind (each item) fun passed => ?_
      cases passed with
      | true => exact .pure true
      | false => exact ih

theorem mapM {items : List α} {action : α → StateM σ β} {seen : α → σ → Id β}
    (each : ∀ item, inspection.Foresees start (action item) (seen item)) :
    inspection.Foresees start (items.mapM action) fun later => items.mapM (seen · later) := by
  induction items with
  | nil => exact .pure []
  | cons item rest ih =>
      simp only [List.mapM_cons]
      exact .bind (each item) fun result => .bind ih fun results => .pure (result :: results)

end Foresees

namespace Lasting

variable (lasting : inspection.Lasting start)

include lasting

theorem isResult (node : Nat) :
    inspection.Foresees start (inspection.isResult node) fun later =>
      (inspection.stilled later).isResult node := by
  intro state moment
  refine ⟨.ask node .start, fun later after => ?_⟩
  rw [isResult_stilled]
  exact lasting state moment node later after

theorem localVerdict? (node : Nat) (isUse : Bool) :
    inspection.Foresees start (inspection.localVerdict? node isUse) fun later =>
      (inspection.stilled later).localVerdict? node isUse := by
  unfold Inspection.localVerdict?
  refine .ite (.pure _) (.bind (lasting.isResult node) fun answer => ?_)
  exact .ite (.pure _) (.ite (.pure _) (.ite (.pure _) (.ite (.pure _) (.pure _))))

theorem deferralBelow (child : Nat) (above : List Nat) :
    inspection.Foresees start (inspection.deferralBelow child above) fun later =>
      (inspection.stilled later).deferralBelow child above := by
  induction above generalizing child with
  | nil => exact .pure none
  | cons parent above ih =>
      simp only [Inspection.deferralBelow, stilled]
      cases inspection.tree.storedBy? parent child with
      | some deferral => exact .bind (lasting.isResult child) fun answer => .ite (.pure _) (ih parent)
      | none => exact .ite (.pure _) (ih parent)

theorem transfer (node : Nat) :
    inspection.Foresees start (inspection.transfer node) fun later =>
      (inspection.stilled later).transfer node :=
  .bind (lasting.deferralBelow node _) fun _ => .pure _

theorem judgeWithin (budget : Nat) (path : List Nat) (node : Nat) (isUse : Bool) :
    inspection.Foresees start (inspection.judgeWithin budget path node isUse) fun later =>
      (inspection.stilled later).judgeWithin budget path node isUse := by
  induction budget generalizing path node isUse with
  | zero => exact .pure _
  | succ budget ih =>
      simp only [Inspection.judgeWithin]
      refine .bind (lasting.localVerdict? node isUse) fun verdict? => ?_
      cases verdict? with
      | some verdict => exact .pure _
      | none =>
          refine .bind (lasting.transfer node) fun transfer? => ?_
          cases transfer? with
          | none => exact .pure _
          | some transfer =>
              refine .bind (.anyM fun use => ?_) fun discharged => .pure _
              exact .ite (.pure _) (.bind (ih (use :: path) use true) fun _ => .pure _)

theorem blame? (producer : Nat) :
    inspection.Foresees start (inspection.blame? producer) fun later =>
      (inspection.stilled later).blame? producer :=
  .bind (lasting.judgeWithin _ [] producer false) fun _ => .pure _

/-- The findings of a session are those of an oracle without a memory that answers as the session does at its
end. -/
theorem findings_eq_stilled :
    (inspection.stilled (inspection.findings.run start).2).findings.run =
      (inspection.findings.run start).1 := by
  have foresees : inspection.Foresees start inspection.findings fun later =>
      (inspection.stilled later).findings := by
    unfold Inspection.findings
    exact .ite (.bind (.mapM lasting.blame?) fun _ => .pure _) (.pure _)
  exact (foresees start .start).2 _ .start

end Lasting

end Inspection

/-! ## The session of a checker -/

namespace Inquiry

section

variable {m : Type → Type} [Monad m] [LawfulMonad m] {α : Type} (answer : Nat → m Ty) (test : α → Inquiry Bool)
  (items : List α)

theorem put_anyM : (items.anyM test).put answer = items.anyM fun item => (test item).put answer := by
  induction items with
  | nil => rfl
  | cons item rest ih =>
      rw [List.anyM_cons, List.anyM_cons, put_bind]
      refine bind_congr fun passed => ?_
      cases passed with
      | true => rfl
      | false => exact ih

theorem put_allM : (items.allM test).put answer = items.allM fun item => (test item).put answer := by
  induction items with
  | nil => rfl
  | cons item rest ih =>
      rw [List.allM_cons, List.allM_cons, put_bind]
      refine bind_congr fun passed => ?_
      cases passed with
      | true => exact ih
      | false => rfl

end

theorem run_put_ask {σ α : Type} (answer : Nat → StateM σ Ty) (node : Nat) (next : Ty → Inquiry α) (state : σ) :
    ((Inquiry.ask node next).put answer).run state =
      ((next ((answer node).run state).1).put answer).run ((answer node).run state).2 := rfl

end Inquiry

namespace Checker

open Inquiry (question)

variable (checker : Checker)

/-- The checker as an oracle that leaves its questions open. -/
def inquirer : Oracle Inquiry Ty :=
  { typeOf := question
    awaited := fun type => return checker.declarations.awaited type
    parts := fun type => return checker.declarations.parts type
    hasMember := fun type name => checker.inquiryOf (.hasMember type name) }

/-- An inquiry that is put again gets the same answers, if nothing of what it left behind is forgotten. -/
theorem put_again {α : Type} (inquiry : Inquiry α) {memo later : Memo} (size : memo.size = checker.tree.size)
    (laterSize : later.size = checker.tree.size)
    (kept : ∀ node type, Memo.recall? ((inquiry.put checker.typeOf).run memo).2 node = some type →
      Memo.recall? later node = some type) :
    ((inquiry.put checker.typeOf).run later).1 = ((inquiry.put checker.typeOf).run memo).1 := by
  induction inquiry generalizing memo later with
  | done value => rfl
  | ask node next ih =>
      have first := checker.settles_typeOf node memo
      have again := checker.settles_typeOf node later
      have rest := checker.settles_put checker.settles_typeOf (next ((checker.typeOf node).run memo).1)
        ((checker.typeOf node).run memo).2
      -- The first answer is remembered since, also by what the rest of the inquiry leaves behind.
      have same : ((checker.typeOf node).run later).1 = ((checker.typeOf node).run memo).1 := by
        by_cases inside : node < checker.tree.size
        · have remembered := first.remembered_of_question (Finset.notMem_empty node) (size ▸ inside)
          rw [checker.typeOf_of_recall? (kept node _ (rest.recall?_kept remembered))]
        · have outside := Nat.le_of_not_lt inside
          rw [checker.typeOf_outside size outside, checker.typeOf_outside laterSize outside]
      rw [Inquiry.run_put_ask, Inquiry.run_put_ask, same]
      exact ih _ (first.size_eq.trans size) (again.size_eq.trans laterSize) fun other type known =>
        again.recall?_kept (kept other type known)

end Checker

namespace Inspection

/-- Whether a node is a result, as an inquiry. -/
theorem exists_put_isResult (checker : Checker) (options : RuleOptions) (node : Nat) :
    ∃ inquiry : Inquiry Bool, inquiry.put checker.typeOf = isResult
      { tree := checker.tree, scopes := checker.scopes, oracle := .ofChecker checker, options } node := by
  let open_ : Inspection Inquiry Ty :=
    { tree := checker.tree, scopes := checker.scopes, oracle := checker.inquirer, options }
  refine ⟨open_.isResult node, ?_⟩
  have member : ∀ type name, (checker.inquirer.hasMember type name).put checker.typeOf =
      checker.hasMember type name := fun type name => checker.put_inquiryOf (.hasMember type name)
  have asked : ∀ other, (checker.inquirer.typeOf other).put checker.typeOf = checker.typeOf other :=
    Inquiry.put_question checker.typeOf
  simp only [isResult, open_]
  cases checker.tree.kind node with
  | await argument =>
      simp only [Inquiry.put_bind, Inquiry.put_anyM, Inquiry.put_allM, member, asked]
      rfl
  | _ =>
      simp only [Inquiry.put_bind, Inquiry.put_anyM, Inquiry.put_allM, member, asked]
      rfl

/-- What a checker has answered once it answers again. -/
theorem lasting_ofChecker (checker : Checker) (options : RuleOptions) :
    Lasting { tree := checker.tree, scopes := checker.scopes, oracle := .ofChecker checker, options }
      checker.fresh := by
  let inspection : Inspection Session Ty :=
    { tree := checker.tree, scopes := checker.scopes, oracle := .ofChecker checker, options }
  have kept : ∀ {state later : Memo}, inspection.Moment state later → later.size = state.size ∧
      ∀ node type, Memo.recall? state node = some type → Memo.recall? later node = some type := by
    intro state later moment
    induction moment with
    | start => exact ⟨rfl, fun _ _ known => known⟩
    | @ask state node _ ih =>
        obtain ⟨inquiry, put⟩ := exists_put_isResult checker options node
        have run := checker.settles_put checker.settles_typeOf inquiry state
        rw [put] at run
        exact ⟨run.size_eq.trans ih.1, fun other type known => run.recall?_kept (ih.2 other type known)⟩
  intro state moment node later after
  obtain ⟨inquiry, put⟩ := exists_put_isResult checker options node
  have size : state.size = checker.tree.size := (kept moment).1.trans (by simp [Checker.fresh])
  have asked := kept (Moment.ask node .start : inspection.Moment state _)
  have later := kept after
  rw [← put] at *
  exact checker.put_again inquiry size (later.1.trans (asked.1.trans size)) later.2

end Inspection

end Heed
