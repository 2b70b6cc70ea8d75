import Heed.Proofs.Rule.Deferral
import Heed.Proofs.Tree.Shape

/-!
# Moments of a session

An oracle may remember what it was asked, so whether it takes a node for a result may change in the course
of a session. The rule is followed through all moments of a session at once: what an action gives is
stated for each of them. In a session where no node is answered both ways the verdicts are those of an
oracle without a memory.
-/

set_option autoImplicit false

namespace Heed

namespace Inspection

variable {σ τ α β : Type} (inspection : Inspection (StateM σ) τ) (start : σ)

/-- The states to which the questions of the rule can lead. -/
inductive Moment : σ → Prop where
  | start : Moment start
  | ask {state : σ} (node : Nat) (moment : Moment state) :
      Moment ((inspection.isResult node).run state).2

/-- At some moment, this is the answer to the question whether a node is a result. -/
def Answers (node : Nat) (answer : Bool) : Prop :=
  ∃ state, inspection.Moment start state ∧ ((inspection.isResult node).run state).1 = answer

/-- No node is answered both ways. -/
def Steady : Prop :=
  ∀ node, ¬ (inspection.Answers start node true ∧ inspection.Answers start node false)

/-- What an action gives at every moment, with a moment of the session behind it. -/
def Yields (action : StateM σ α) (post : α → Prop) : Prop :=
  ∀ state, inspection.Moment start state →
    post (action.run state).1 ∧ inspection.Moment start (action.run state).2

variable {inspection start}

namespace Yields

theorem pure {post : α → Prop} {value : α} (holds : post value) :
    inspection.Yields start (Pure.pure value) post :=
  fun _ moment => ⟨holds, moment⟩

theorem bind {action : StateM σ α} {next : α → StateM σ β} {middle : α → Prop} {post : β → Prop}
    (first : inspection.Yields start action middle)
    (then_ : ∀ value, middle value → inspection.Yields start (next value) post) :
    inspection.Yields start (action >>= next) post := by
  intro state moment
  obtain ⟨holds, moment⟩ := first state moment
  exact then_ _ holds _ moment

theorem mono {action : StateM σ α} {weak strong : α → Prop}
    (yields : inspection.Yields start action strong) (weaken : ∀ value, strong value → weak value) :
    inspection.Yields start action weak := by
  intro state moment
  obtain ⟨holds, moment⟩ := yields state moment
  exact ⟨weaken _ holds, moment⟩

theorem isResult (node : Nat) :
    inspection.Yields start (inspection.isResult node) (inspection.Answers start node) :=
  fun state moment => ⟨⟨state, moment, rfl⟩, .ask node moment⟩

/-- A search finds an item that passes, or has tested them all. -/
theorem anyM {items : List α} {test : α → StateM σ Bool} {tested : α → Bool → Prop}
    (each : ∀ item ∈ items, inspection.Yields start (test item) (tested item)) :
    inspection.Yields start (items.anyM test) fun found =>
      (found = true → ∃ item ∈ items, tested item true) ∧
        (found = false → ∀ item ∈ items, tested item false) := by
  induction items with
  | nil => exact .pure ⟨by simp, by simp⟩
  | cons item rest ih =>
      rw [List.anyM_cons]
      refine .bind (each item List.mem_cons_self) fun passed holds => ?_
      cases passed with
      | true => exact .pure ⟨fun _ => ⟨item, List.mem_cons_self, holds⟩, by simp⟩
      | false =>
          refine (ih fun other listed => each other (List.mem_cons_of_mem _ listed)).mono ?_
          rintro found ⟨finds, passesNone⟩
          constructor
          · intro isFound
            obtain ⟨other, listed, passes⟩ := finds isFound
            exact ⟨other, List.mem_cons_of_mem _ listed, passes⟩
          · intro isFound other listed
            rcases List.mem_cons.mp listed with rfl | later
            · exact holds
            · exact passesNone isFound other later

theorem mapM {items : List α} {action : α → StateM σ β} {post : β → Prop}
    (each : ∀ item ∈ items, inspection.Yields start (action item) post) :
    inspection.Yields start (items.mapM action) fun results => ∀ result ∈ results, post result := by
  induction items with
  | nil => exact .pure (by simp)
  | cons item rest ih =>
      rw [List.mapM_cons]
      refine .bind (each item List.mem_cons_self) fun result holds => ?_
      refine .bind (ih fun other listed => each other (List.mem_cons_of_mem _ listed)) ?_
      intro results others
      exact .pure (List.forall_mem_cons.mpr ⟨holds, others⟩)

end Yields

/-! ## The verdict on a node by itself -/

def verdictBy {m : Type → Type} (inspection : Inspection m τ) (node : Nat) (isUse isResult : Bool) :
    Option Verdict :=
  if inspection.isDeclarative node || !isResult then some .notApplicable
  else if inspection.isHandled node then some .handled
  else if isUse && inspection.isChecked node then some .checked
  else if inspection.isReturned node then some .returned
  else none

theorem verdictBy_ne_deferred {m : Type → Type} {inspection : Inspection m τ} {node : Nat}
    {isUse isResult : Bool} : inspection.verdictBy node isUse isResult ≠ some .deferred := by
  unfold verdictBy
  split_ifs <;> simp

theorem exists_verdictBy_iff {m : Type → Type} {inspection : Inspection m τ} {node : Nat}
    {isUse isResult : Bool} :
    (∃ verdict, inspection.verdictBy node isUse isResult = some verdict) ↔
      inspection.isDeclarative node = true ∨ isResult = false ∨ inspection.isHandled node = true ∨
        (isUse = true ∧ inspection.isChecked node = true) ∨ inspection.isReturned node = true := by
  unfold verdictBy
  split_ifs with stands
  · rw [Bool.or_eq_true, Bool.not_eq_true'] at stands
    exact ⟨fun _ => stands.imp id .inl, fun _ => ⟨_, rfl⟩⟩
  all_goals simp_all

theorem Yields.localVerdict? (node : Nat) (isUse : Bool) :
    inspection.Yields start (inspection.localVerdict? node isUse) fun verdict? =>
      ∃ answer, inspection.Answers start node answer ∧
        verdict? = inspection.verdictBy node isUse answer := by
  unfold Inspection.localVerdict? verdictBy
  cases inspection.isDeclarative node with
  | true => exact .pure ⟨_, ⟨start, .start, rfl⟩, rfl⟩
  | false =>
      refine .bind (.isResult node) fun answer answers => ?_
      cases answer with
      | false => exact .pure ⟨false, answers, rfl⟩
      | true =>
          simp only [Bool.not_true, Bool.false_eq_true, if_false]
          split_ifs <;> exact .pure ⟨true, answers, by simp [*]⟩

/-! ## Where a value is stored -/

variable (inspection start) in
/-- The value of a node, or of an expression around it, is a result that is stored. Stores of what is no
result are passed over, and the value does not leave a block. -/
inductive Stores : Nat → Deferral → Prop where
  | here {node parent : Nat} {deferral : Deferral} (found : inspection.tree.parent? node = some parent)
      (stored : inspection.tree.storedBy? parent node = some deferral)
      (answers : inspection.Answers start node true) : Stores node deferral
  | past {node parent : Nat} {passed deferral : Deferral}
      (found : inspection.tree.parent? node = some parent)
      (stored : inspection.tree.storedBy? parent node = some passed)
      (answers : inspection.Answers start node false) (above : Stores parent deferral) :
      Stores node deferral
  | around {node parent : Nat} {deferral : Deferral} (found : inspection.tree.parent? node = some parent)
      (unstored : inspection.tree.storedBy? parent node = none)
      (inside : (inspection.tree.kind parent).isBlockBoundary = false) (above : Stores parent deferral) :
      Stores node deferral

theorem Yields.deferral (formed : inspection.tree.WellFormed) (node : Nat) :
    inspection.Yields start (inspection.deferral node) fun deferral? =>
      ∀ deferral, deferral? = some deferral → inspection.Stores start node deferral := by
  unfold Inspection.deferral
  induction node using formed.climb with
  | top node orphan =>
      rw [Tree.WellFormed.ancestors_eq_nil orphan]
      exact .pure (by simp)
  | step node parent found ih =>
      rw [formed.ancestors_eq_cons found, deferralBelow]
      cases stored : inspection.tree.storedBy? parent node with
      | some deferral =>
          refine .bind (.isResult node) fun answer answers => ?_
          cases answer with
          | true =>
              refine .pure fun other same => ?_
              cases Option.some.inj same
              exact .here found stored answers
          | false => exact ih.mono fun _ above other same => .past found stored answers (above other same)
      | none =>
          cases inside : (inspection.tree.kind parent).isBlockBoundary with
          | true => exact .pure (by simp)
          | false => exact ih.mono fun _ above other same => .around found stored inside (above other same)

/-- The search among references finds one that discharges, or has judged all that are not on the path. -/
theorem Yields.search {budget : Nat} {path uses : List Nat} (judged : Nat → Verdict → Prop)
    (each : ∀ use ∈ uses, use ∉ path →
      inspection.Yields start (inspection.judgeWithin budget (use :: path) use true) fun judgement =>
        judged use judgement.verdict) :
    inspection.Yields start
      (uses.anyM fun use =>
        if path.contains use then return false
        else return (← inspection.judgeWithin budget (use :: path) use true).verdict.discharges)
      fun found =>
        (found = true → ∃ use ∈ uses, use ∉ path ∧
          ∃ verdict, judged use verdict ∧ verdict.discharges = true) ∧
        (found = false → ∀ use ∈ uses, use ∉ path →
          ∃ verdict, judged use verdict ∧ verdict.discharges = false) := by
  have test : ∀ use ∈ uses, inspection.Yields start
      (if path.contains use then return false
        else return (← inspection.judgeWithin budget (use :: path) use true).verdict.discharges)
      fun passed => if use ∈ path then passed = false
        else ∃ verdict, judged use verdict ∧ verdict.discharges = passed := by
    intro use listed
    by_cases onPath : use ∈ path
    · rw [if_pos (by simpa using onPath)]
      exact .pure (by rw [if_pos onPath])
    · rw [if_neg (by simpa using onPath)]
      refine .bind (each use listed onPath) fun judgement holds => .pure ?_
      rw [if_neg onPath]
      exact ⟨_, holds, rfl⟩
  refine (Yields.anyM test).mono ?_
  rintro found ⟨finds, passesNone⟩
  constructor
  · intro isFound
    obtain ⟨use, listed, passed⟩ := finds isFound
    split_ifs at passed with onPath
    exact ⟨use, listed, onPath, passed⟩
  · intro isFound use listed fresh
    have passed := passesNone isFound use listed
    rwa [if_neg fresh] at passed

/-! ## Sessions in which nothing changes -/

def isResultAt (inspection : Inspection (StateM σ) τ) (state : σ) (node : Nat) (isAwaited : Bool) : Bool :=
  let answer : StateM σ Bool := do
    let type ← if isAwaited then inspection.oracle.typeOf node >>= inspection.oracle.awaited
      else inspection.oracle.typeOf node
    (← inspection.oracle.parts type).anyM fun part =>
      inspection.options.requiredMembers.allM (inspection.oracle.hasMember part)
  (answer.run state).1

/-- The inspection that remembers nothing and always answers as at one state. Its types are nodes, with a
mark if their values are awaited. -/
def stilled (inspection : Inspection (StateM σ) τ) (state : σ) : Inspection Id (Nat × Bool) :=
  { tree := inspection.tree
    scopes := inspection.scopes
    options := inspection.options
    oracle :=
      { typeOf := fun node => pure (node, false)
        awaited := fun type => pure (type.1, true)
        parts := fun type => pure (if inspection.isResultAt state type.1 type.2 then [type] else [])
        hasMember := fun _ _ => pure true } }

theorem isResult_stilled (state : σ) (node : Nat) :
    ((inspection.stilled state).isResult node).run = ((inspection.isResult node).run state).1 := by
  have parts : ∀ type : Nat × Bool,
      (List.anyM (fun _ => inspection.options.requiredMembers.allM fun _ => (pure true : Id Bool))
        (if inspection.isResultAt state type.1 type.2 then [type] else [])).run =
        inspection.isResultAt state type.1 type.2 := by
    intro type
    rw [anyM_eq_any]
    cases inspection.isResultAt state type.1 type.2 with
    | true => simp
    | false => rfl
  cases kindEq : inspection.tree.kind node with
  | await argument =>
      have shown := parts (argument, true)
      rw [isResult, isResult]
      simp only [stilled, kindEq]
      exact shown
  | _ =>
      have shown := parts (node, false)
      rw [isResult, isResult]
      simp only [stilled, kindEq]
      exact shown

/-- What an oracle that goes by names answers does not depend on what it was asked before. -/
theorem steady_byName (tree : Tree) (scopes : ScopeAnalysis) (options : RuleOptions) (beginning : String)
    (start : List String) :
    Steady { tree, scopes, oracle := .byName tree beginning, options } start := by
  have members : ∀ (names : List String) (type : Bool) (asked : List String),
      ((names.allM ((Oracle.byName tree beginning).hasMember type)).run asked).1 =
        (names.isEmpty || type) := by
    intro names type
    induction names with
    | nil => exact fun _ => rfl
    | cons name rest ih =>
        intro asked
        cases type with
        | true => exact (ih _).trans (Bool.or_true _)
        | false => rfl
  have parts : ∀ (type : Bool) (asked : List String),
      ((List.anyM (fun part => options.requiredMembers.allM ((Oracle.byName tree beginning).hasMember part))
        [type]).run asked).1 = (options.requiredMembers.isEmpty || type) := by
    intro type asked
    rw [← members options.requiredMembers type asked, List.anyM_cons, StateT.run_bind]
    cases found : (options.requiredMembers.allM
        ((Oracle.byName tree beginning).hasMember type)).run asked with
    | mk passed later => cases passed <;> rfl
  rintro node ⟨⟨before, -, isOne⟩, ⟨after, -, isNone⟩⟩
  obtain ⟨type, answer⟩ : ∃ type, ∀ asked,
      ((isResult { tree, scopes, oracle := .byName tree beginning, options } node).run asked).1 =
        (options.requiredMembers.isEmpty || type) := by
    unfold isResult
    cases tree.kind node <;> exact ⟨_, parts _⟩
  rw [answer] at isOne isNone
  rw [isOne] at isNone
  cases isNone

theorem settled?_eq_verdictBy (inspection : Inspection Id τ) (node : Nat) (isUse : Bool) :
    inspection.settled? node isUse = inspection.verdictBy node isUse (inspection.isResult node).run := by
  rw [settled?_eq, verdictBy]
  cases inspection.isDeclarative node with
  | true => rfl
  | false => cases (inspection.isResult node).run <;> rfl

namespace Steady

variable (steady : inspection.Steady start)

include steady

theorem answer_eq {node : Nat} {answer : Bool} (answers : inspection.Answers start node answer) :
    answer = ((inspection.stilled start).isResult node).run := by
  rw [isResult_stilled]
  by_contra differs
  have first : inspection.Answers start node ((inspection.isResult node).run start).1 :=
    ⟨start, .start, rfl⟩
  cases answer with
  | true =>
      rw [Bool.eq_false_of_not_eq_true (Ne.symm differs)] at first
      exact steady node ⟨answers, first⟩
  | false =>
      rw [Bool.eq_true_of_not_eq_false (Ne.symm differs)] at first
      exact steady node ⟨first, answers⟩

theorem localVerdict? (node : Nat) (isUse : Bool) :
    inspection.Yields start (inspection.localVerdict? node isUse)
      (· = (inspection.stilled start).settled? node isUse) := by
  refine (Yields.localVerdict? node isUse).mono ?_
  rintro _ ⟨answer, answers, rfl⟩
  rw [settled?_eq_verdictBy, ← steady.answer_eq answers]
  rfl

theorem deferralBelow (child : Nat) (above : List Nat) :
    inspection.Yields start (inspection.deferralBelow child above)
      (· = ((inspection.stilled start).deferralBelow child above).run) := by
  induction above generalizing child with
  | nil => exact .pure rfl
  | cons parent above ih =>
      rw [Inspection.deferralBelow, Inspection.deferralBelow,
        show (inspection.stilled start).tree = inspection.tree from rfl]
      cases inspection.tree.storedBy? parent child with
      | some deferral =>
          refine .bind (.isResult child) fun answer answers => ?_
          simp only [Id.run_bind, ← steady.answer_eq answers]
          cases answer with
          | true => exact .pure rfl
          | false => exact ih parent
      | none =>
          cases (inspection.tree.kind parent).isBlockBoundary with
          | true => exact .pure rfl
          | false => exact ih parent

theorem transfer (node : Nat) :
    inspection.Yields start (inspection.transfer node)
      (· = (inspection.stilled start).takenBy? node) := by
  refine .bind (steady.deferralBelow node _) fun deferral? same => .pure ?_
  rw [same]
  rfl

/-- The verdict is the same at every moment. -/
theorem judgeWithin (budget : Nat) (path : List Nat) (node : Nat) (isUse : Bool) :
    inspection.Yields start (inspection.judgeWithin budget path node isUse) fun judgement =>
      judgement.verdict = (inspection.stilled start).verdictWithin budget path node isUse := by
  induction budget generalizing path node isUse with
  | zero => exact .pure rfl
  | succ budget ih =>
      rw [verdictWithin_succ, Inspection.judgeWithin]
      refine .bind (steady.localVerdict? node isUse) fun verdict? same => ?_
      rw [← same]
      cases verdict? with
      | some verdict => exact .pure rfl
      | none =>
          refine .bind (steady.transfer node) fun transfer? same => ?_
          rw [← same]
          cases transfer? with
          | none => exact .pure rfl
          | some transfer =>
              refine .bind (.search
                (fun use verdict =>
                  verdict = (inspection.stilled start).verdictWithin budget (use :: path) use true)
                fun use _ _ => ih (use :: path) use true) fun found searched => ?_
              -- A search that stops early finds the same as one that judges every reference.
              have same : found = (inspection.stilled start).anyWithin budget path transfer.uses := by
                rw [Bool.eq_iff_iff, anyWithin_eq_true_iff]
                constructor
                · intro isFound
                  obtain ⟨use, listed, fresh, verdict, rfl, discharges⟩ := searched.1 isFound
                  exact ⟨use, listed, fresh, discharges⟩
                · rintro ⟨use, listed, fresh, discharges⟩
                  by_contra notFound
                  obtain ⟨verdict, rfl, fails⟩ :=
                    searched.2 (Bool.eq_false_of_not_eq_true notFound) use listed fresh
                  rw [discharges] at fails
                  cases fails
              exact .pure (by rw [same])

end Steady

end Inspection

end Heed
