import Heed.Proofs.Rule.Deferral
import Heed.Proofs.Scope.Resolution

/-!
# What a run of the rule reports

A run walks the tree and processes each producer that it meets. Processing a producer may process references
on the way, and it changes what the run has at hand: the references in progress and the nodes that have been
reported. `Walks` states the run with these changes, step by step.

No change made for one producer matters for another. References in progress are forgotten, references that
are processed on the way report nothing, and what has been reported only keeps a node from being reported
twice. So a run reports the nodes that answer for lost results, each at its first occurrence, and processing
the producers in any other order reports the same nodes.
-/

set_option autoImplicit false

namespace Heed

/-! ## Producers -/

namespace Tree

variable {tree : Tree}

theorem kind_eq_of_isAwaited {operand outer : Nat} (found : tree.parent? operand = some outer)
    (awaited : tree.isAwaited operand = true) : tree.kind outer = .await operand := by
  rw [isAwaited, parentKind?, found, Option.map_some] at awaited
  cases kind : tree.kind outer with
  | await argument =>
      simp only [kind, beq_iff_eq] at awaited
      rw [awaited]
  | _ => simp [kind] at awaited

variable (formed : tree.WellFormed)

include formed

theorem WellFormed.parent?_awaited {operand outer : Nat} (awaits : tree.kind outer = .await operand) :
    tree.parent? operand = some outer := by
  rw [formed.parent_iff, children, awaits]
  exact List.mem_singleton_self operand

theorem WellFormed.isAwaited_iff {node : Nat} :
    tree.isAwaited node = true ↔ ∃ outer, tree.kind outer = .await node := by
  constructor
  · intro awaited
    cases found : tree.parent? node with
    | none => simp [isAwaited, parentKind?, found] at awaited
    | some outer => exact ⟨outer, kind_eq_of_isAwaited found awaited⟩
  · rintro ⟨outer, awaits⟩
    rw [isAwaited, parentKind?, formed.parent?_awaited awaits, Option.map_some, awaits]
    exact beq_self_eq_true node

/-- Instantiations, awaits and calls that are not awaited make values. -/
theorem WellFormed.isProducer_iff {node : Nat} : tree.isProducer node = true ↔
    (∃ callee arguments, tree.kind node = .new callee arguments) ∨
      (∃ operand, tree.kind node = .await operand) ∨
      (∃ callee arguments, tree.kind node = .call callee arguments) ∧
        ∀ outer, tree.kind outer ≠ .await node := by
  unfold isProducer
  cases tree.kind node with
  | call callee arguments => simp [← Bool.not_eq_true, formed.isAwaited_iff]
  | _ => simp

end Tree

/-! ## Reporting a node once -/

structure Reporter where
  seen : Finset Nat
  sent : List Nat

namespace Reporter

def empty : Reporter := { seen := ∅, sent := [] }

def report (reporter : Reporter) (node : Nat) : Reporter :=
  if node ∈ reporter.seen then reporter
  else { seen := insert node reporter.seen, sent := reporter.sent ++ [node] }

def count (reporter : Reporter) : Nat := reporter.seen.card

theorem foldl_report (nodes : List Nat) (reporter : Reporter) :
    nodes.foldl report reporter =
      { seen := reporter.seen ∪ nodes.toFinset
        sent := reporter.sent ++ (nodes.filter (· ∉ reporter.seen)).eraseDups } := by
  induction nodes generalizing reporter with
  | nil => simp
  | cons node rest ih =>
      rw [List.foldl_cons, ih, report]
      split
      case isTrue seen => simp [seen]
      case isFalse fresh =>
          have others : rest.filter (· ∉ insert node reporter.seen) =
              (rest.filter (· ∉ reporter.seen)).filter (· != node) := by
            rw [List.filter_filter]
            refine List.filter_congr fun other _ => ?_
            by_cases same : other = node <;> simp [same]
          simp only [List.filter_cons, fresh, not_false_eq_true, decide_true, if_true, List.eraseDups_cons,
            others, List.toFinset_cons, Finset.insert_union, Finset.union_insert, List.append_assoc,
            List.singleton_append]
          rfl

/-- Reporting nodes one after the other keeps each at its first occurrence. -/
theorem foldl_report_empty (nodes : List Nat) :
    nodes.foldl report empty = { seen := nodes.toFinset, sent := nodes.eraseDups } := by
  simp [foldl_report, empty]

theorem card_toFinset_eq_length_eraseDups (nodes : List Nat) :
    nodes.toFinset.card = nodes.eraseDups.length := by
  rw [← List.toFinset_card_of_nodup (nodup_eraseDups nodes)]
  congr 1
  ext node
  simp

end Reporter

structure Progress where
  /-- The references in progress. -/
  busy : Finset Nat
  reporter : Reporter

def Progress.start : Progress := { busy := ∅, reporter := .empty }

namespace Inspection

variable {τ : Type} (inspection : Inspection Id τ)

/-- The node that answers for the value of a node: the one named by the variable that takes the value, or the
node itself. -/
def answering (node : Nat) : Nat := ((inspection.takenBy? node).map (·.blamed)).getD node

/-- Reports what answers for a value that is lost. Values of references are not reported. -/
def reportLost (node : Nat) (isUse : Bool) (reporter : Reporter) : Reporter :=
  if isUse then reporter else reporter.report (inspection.answering node)

/-! ## Runs -/

mutual

/-- Processing a node, with what is at hand before and after. -/
inductive Processes : Progress → Nat → Bool → Verdict → Progress → Prop where
  | settled {before : Progress} {node : Nat} {isUse : Bool} {verdict : Verdict}
      (settles : inspection.settled? node isUse = some verdict) :
      Processes before node isUse verdict before
  | kept {before : Progress} {node : Nat} {isUse : Bool}
      (open_ : inspection.settled? node isUse = none) (untaken : inspection.takenBy? node = none) :
      Processes before node isUse .unhandled
        { before with reporter := inspection.reportLost node isUse before.reporter }
  | deferred {before after : Progress} {node : Nat} {isUse : Bool} {transfer : Transfer}
      (open_ : inspection.settled? node isUse = none) (takes : inspection.takenBy? node = some transfer)
      (search : Searches before transfer.uses true after) :
      Processes before node isUse .deferred after
  | lost {before after : Progress} {node : Nat} {isUse : Bool} {transfer : Transfer}
      (open_ : inspection.settled? node isUse = none) (takes : inspection.takenBy? node = some transfer)
      (search : Searches before transfer.uses false after) :
      Processes before node isUse .unhandled
        { after with reporter := inspection.reportLost node isUse after.reporter }

/-- Processing references one after the other up to the first that discharges. -/
inductive Searches : Progress → List Nat → Bool → Progress → Prop where
  | exhausted {before : Progress} : Searches before [] false before
  | busy {before after : Progress} {use : Nat} {rest : List Nat} {found : Bool}
      (marked : use ∈ before.busy) (search : Searches before rest found after) :
      Searches before (use :: rest) found after
  | found {before inner : Progress} {use : Nat} {rest : List Nat} {verdict : Verdict}
      (unmarked : use ∉ before.busy)
      (processed : Processes { before with busy := insert use before.busy } use true verdict inner)
      (discharges : verdict.discharges = true) :
      Searches before (use :: rest) true { inner with busy := inner.busy.erase use }
  | next {before inner after : Progress} {use : Nat} {rest : List Nat} {verdict : Verdict} {found : Bool}
      (unmarked : use ∉ before.busy)
      (processed : Processes { before with busy := insert use before.busy } use true verdict inner)
      (fails : verdict.discharges = false)
      (search : Searches { inner with busy := inner.busy.erase use } rest found after) :
      Searches before (use :: rest) found after

end

inductive ProcessesAll : Progress → List Nat → Progress → Prop where
  | done {before : Progress} : ProcessesAll before [] before
  | next {before middle after : Progress} {producer : Nat} {rest : List Nat} {verdict : Verdict}
      (processed : inspection.Processes before producer false verdict middle)
      (others : ProcessesAll middle rest after) : ProcessesAll before (producer :: rest) after

mutual

/-- Walking over a node: it is processed if it is a producer, and then its children are walked over. -/
inductive Walks : Progress → Nat → Progress → Prop where
  | producer {before middle after : Progress} {node : Nat} {verdict : Verdict}
      (produces : inspection.tree.isProducer node = true)
      (processed : inspection.Processes before node false verdict middle)
      (children : WalksAll middle (inspection.tree.children node) after) : Walks before node after
  | other {before after : Progress} {node : Nat} (idle : inspection.tree.isProducer node = false)
      (children : WalksAll before (inspection.tree.children node) after) : Walks before node after

inductive WalksAll : Progress → List Nat → Progress → Prop where
  | done {before : Progress} : WalksAll before [] before
  | next {before middle after : Progress} {node : Nat} {rest : List Nat}
      (first : Walks before node middle) (others : WalksAll middle rest after) :
      WalksAll before (node :: rest) after

end

variable {inspection}

/-! ## Processing does what judging does -/

/-- What processing leaves reported: a lost value of a producer adds what answers for it. -/
def reporterAfter (inspection : Inspection Id τ) (node : Nat) (isUse : Bool) (verdict : Verdict)
    (reporter : Reporter) : Reporter :=
  if verdict.discharges then reporter else inspection.reportLost node isUse reporter

mutual

theorem Processes.evaluates {before after : Progress} {node : Nat} {isUse : Bool} {verdict : Verdict} :
    inspection.Processes before node isUse verdict after →
      inspection.Evaluates before.busy node isUse verdict after.busy ∧
        after.reporter = inspection.reporterAfter node isUse verdict before.reporter
  | .settled settles => by
      refine ⟨.settled settles, ?_⟩
      rw [reporterAfter, discharges_of_settled settles, if_pos rfl]
  | .kept open_ untaken => ⟨.kept open_ untaken, rfl⟩
  | .deferred open_ takes search => by
      obtain ⟨searched, same⟩ := search.anyDischarges
      exact ⟨.taken open_ takes searched, same⟩
  | .lost open_ takes search => by
      obtain ⟨searched, same⟩ := search.anyDischarges
      refine ⟨.taken open_ takes searched, ?_⟩
      rw [same]
      rfl

/-- References that are processed on the way report nothing. -/
theorem Searches.anyDischarges {before after : Progress} {uses : List Nat} {found : Bool} :
    inspection.Searches before uses found after →
      inspection.AnyDischarges before.busy uses found after.busy ∧ after.reporter = before.reporter
  | .exhausted => ⟨.exhausted, rfl⟩
  | .busy marked search => by
      obtain ⟨rest, same⟩ := search.anyDischarges
      exact ⟨.busy marked rest, same⟩
  | .found unmarked processed discharges => by
      obtain ⟨evaluated, same⟩ := processed.evaluates
      refine ⟨.found unmarked evaluated discharges, ?_⟩
      rwa [reporterAfter, discharges] at same
  | .next unmarked processed fails search => by
      obtain ⟨evaluated, same⟩ := processed.evaluates
      obtain ⟨rest, sameRest⟩ := search.anyDischarges
      refine ⟨.next unmarked evaluated fails rest, ?_⟩
      rw [reporterAfter, fails] at same
      exact sameRest.trans same

end

mutual

theorem Evaluates.processes {busy after : Finset Nat} {node : Nat} {isUse : Bool} {verdict : Verdict}
    (reporter : Reporter) :
    inspection.Evaluates busy node isUse verdict after →
      inspection.Processes ⟨busy, reporter⟩ node isUse verdict
        ⟨after, inspection.reporterAfter node isUse verdict reporter⟩
  | .settled settles => by
      rw [reporterAfter, discharges_of_settled settles, if_pos rfl]
      exact .settled settles
  | .kept open_ untaken => .kept open_ untaken
  | @Evaluates.taken _ _ _ _ _ _ found _ open_ takes search => by
      have search := search.searches reporter
      cases found with
      | true => exact .deferred open_ takes search
      | false => exact .lost open_ takes search

theorem AnyDischarges.searches {busy after : Finset Nat} {uses : List Nat} {found : Bool}
    (reporter : Reporter) :
    inspection.AnyDischarges busy uses found after →
      inspection.Searches ⟨busy, reporter⟩ uses found ⟨after, reporter⟩
  | .exhausted => .exhausted
  | .busy marked search => .busy marked (search.searches reporter)
  | .found unmarked judged discharges => by
      have processed := judged.processes reporter
      rw [reporterAfter, discharges] at processed
      exact @Searches.found _ _ _ ⟨_, reporter⟩ _ _ _ unmarked processed discharges
  | .next unmarked judged fails search => by
      have processed := judged.processes reporter
      rw [reporterAfter, fails] at processed
      exact @Searches.next _ _ _ ⟨_, reporter⟩ _ _ _ _ _ unmarked processed fails (search.searches reporter)

end

/-- Processing a producer with nothing in progress leaves nothing in progress, and reports what answers for the
producer's value if that is lost. -/
theorem processes_iff (bounded : ∀ node use, inspection.HandsTo node use → use < inspection.tree.size)
    {producer : Nat} {verdict : Verdict} {reporter : Reporter} {after : Progress} :
    inspection.Processes ⟨∅, reporter⟩ producer false verdict after ↔
      verdict = (inspection.judge producer).run.verdict ∧
        after = ⟨∅, inspection.reporterAfter producer false verdict reporter⟩ := by
  have evaluates := fun verdict after => evaluates_iff bounded (inspection.tree.size + 1) [] ∅ producer false
    (fun use => by simp) (Room.start _) verdict after
  constructor
  · intro processed
    obtain ⟨evaluated, same⟩ := processed.evaluates
    obtain ⟨judged, restored⟩ := (evaluates _ _).mp evaluated
    obtain ⟨busy, reporter⟩ := after
    cases restored
    cases same
    exact ⟨judged, rfl⟩
  · rintro ⟨judged, rfl⟩
    exact ((evaluates _ _).mpr ⟨judged, rfl⟩).processes reporter

/-! ## What is reported -/

variable (inspection) in
def lost (producers : List Nat) : List Nat :=
  (producers.filter fun producer => (inspection.judge producer).run.verdict = .unhandled).map
    inspection.answering

theorem lost_cons (producer : Nat) (rest : List Nat) : inspection.lost (producer :: rest) =
    (if (inspection.judge producer).run.verdict.discharges then [] else [inspection.answering producer]) ++
      inspection.lost rest := by
  rw [lost, List.filter_cons]
  cases discharges : (inspection.judge producer).run.verdict.discharges with
  | true => simp [unhandled_iff_not_discharges, discharges, lost]
  | false => simp [unhandled_iff_not_discharges, discharges, lost]

/-- Processing producers one after the other: each adds what it would report by itself. -/
theorem processesAll_iff (bounded : ∀ node use, inspection.HandsTo node use → use < inspection.tree.size)
    {producers : List Nat} {reporter : Reporter} {after : Progress} :
    inspection.ProcessesAll ⟨∅, reporter⟩ producers after ↔
      after = ⟨∅, (inspection.lost producers).foldl Reporter.report reporter⟩ := by
  induction producers generalizing reporter with
  | nil =>
      constructor
      · intro run
        cases run
        rfl
      · rintro rfl
        exact .done
  | cons producer rest ih =>
      have one : inspection.reporterAfter producer false (inspection.judge producer).run.verdict reporter =
          (if (inspection.judge producer).run.verdict.discharges then []
            else [inspection.answering producer]).foldl Reporter.report reporter := by
        rw [reporterAfter]
        split <;> rfl
      rw [lost_cons, List.foldl_append, ← one]
      constructor
      · intro run
        cases run with
        | next processed others =>
            obtain ⟨rfl, rfl⟩ := (processes_iff bounded).mp processed
            exact ih.mp others
      · intro same
        exact .next ((processes_iff bounded).mpr ⟨rfl, rfl⟩) (ih.mpr same)

theorem ProcessesAll.append {before middle after : Progress} {first second : List Nat}
    (left : inspection.ProcessesAll before first middle) (right : inspection.ProcessesAll middle second after) :
    inspection.ProcessesAll before (first ++ second) after := by
  induction left with
  | done => exact right
  | next processed _ ih => exact .next processed (ih right)

theorem ProcessesAll.split {before after : Progress} {first second : List Nat}
    (run : inspection.ProcessesAll before (first ++ second) after) :
    ∃ middle, inspection.ProcessesAll before first middle ∧ inspection.ProcessesAll middle second after := by
  induction first generalizing before with
  | nil => exact ⟨before, .done, run⟩
  | cons producer rest ih =>
      cases run with
      | next processed others =>
          obtain ⟨middle, left, right⟩ := ih others
          exact ⟨middle, .next processed left, right⟩

/-- A walk over several nodes processes the producers below them in turn, if this is so for each. -/
theorem walksAll_iff_processesAll {nodes : List Nat}
    (each : ∀ node ∈ nodes, ∀ {before after : Progress}, inspection.Walks before node after ↔
      inspection.ProcessesAll before
        ((inspection.tree.outline node).preorder.filter inspection.tree.isProducer) after)
    {before after : Progress} :
    inspection.WalksAll before nodes after ↔ inspection.ProcessesAll before
      ((nodes.flatMap fun node => (inspection.tree.outline node).preorder).filter
        inspection.tree.isProducer) after := by
  induction nodes generalizing before after with
  | nil =>
      constructor
      · intro run
        cases run
        exact .done
      · intro run
        cases run
        exact .done
  | cons node rest ih =>
      have first := @each node List.mem_cons_self
      have others := @ih fun other member => each other (List.mem_cons_of_mem _ member)
      rw [List.flatMap_cons, List.filter_append]
      constructor
      · intro run
        cases run with
        | next walked walkedRest => exact (first.mp walked).append (others.mp walkedRest)
      · intro run
        obtain ⟨middle, left, right⟩ := run.split
        exact .next (first.mpr left) (others.mpr right)

/-- A walk over a node processes the producers below it in the order of the walk. -/
theorem walks_iff_processesAll (formed : inspection.tree.WellFormed) {node : Nat} {before after : Progress} :
    inspection.Walks before node after ↔ inspection.ProcessesAll before
      ((inspection.tree.outline node).preorder.filter inspection.tree.isProducer) after := by
  induction node using formed.descend generalizing before after with
  | step node ih =>
      have all := @walksAll_iff_processesAll _ inspection _ fun child listed => ih child listed
      rw [formed.preorder_outline, List.filter_cons]
      cases produces : inspection.tree.isProducer node with
      | true =>
          constructor
          · intro run
            cases run with
            | producer _ processed children => exact .next processed (all.mp children)
            | other idle _ => simp [produces] at idle
          · intro run
            cases run with
            | next processed others => exact .producer produces processed (all.mpr others)
      | false =>
          constructor
          · intro run
            cases run with
            | producer isOne _ _ => simp [produces] at isOne
            | other _ children => exact all.mp children
          · intro run
            exact .other produces (all.mpr run)

/-! ## The findings of the rule -/

/-- A local verdict is never against a producer. -/
theorem settled?_eq_none_of_fails {producer : Nat}
    (fails : (inspection.judge producer).run.verdict.discharges = false) :
    inspection.settled? producer false = none := by
  by_contra settles
  obtain ⟨verdict, settles⟩ := Option.ne_none_iff_exists'.mp settles
  have judged : (inspection.judge producer).run.verdict = verdict := by
    rw [judge, ← verdictWithin, verdictWithin_succ, settles]
  rw [judged, discharges_of_settled settles] at fails
  cases fails

/-- The producer itself or the variable that takes its value answers for a value that is lost. -/
theorem blamed_judge {producer : Nat} (fails : (inspection.judge producer).run.verdict.discharges = false) :
    (inspection.judge producer).run.blamed = inspection.answering producer := by
  have open_ := settled?_eq_none_of_fails fails
  rw [judge, judgeWithin, Id.run_bind, ← settled?, open_, answering, takenBy?]
  simp only [Id.run_bind]
  cases (inspection.transfer producer).run with
  | none => rfl
  | some transfer => rfl

theorem blame?_eq (producer : Nat) : (inspection.blame? producer).run =
    if (inspection.judge producer).run.verdict.discharges then none else some (inspection.answering producer) := by
  rw [blame?, Id.run_bind]
  cases discharges : (inspection.judge producer).run.verdict.discharges with
  | true => simp
  | false => simp [blamed_judge discharges]

theorem findings_eq (enabled : inspection.options.enabled = true) :
    inspection.findings.run = (inspection.lost inspection.tree.producers).eraseDups := by
  have blamed : ∀ producers : List Nat,
      (producers.mapM inspection.blame?).run.filterMap id = inspection.lost producers := by
    intro producers
    induction producers with
    | nil => rfl
    | cons producer rest ih =>
        rw [List.mapM_cons, lost_cons, ← ih]
        simp only [Id.run_bind, Id.run_pure, blame?_eq]
        split <;> rfl
  rw [findings, if_pos enabled, ← blamed]
  rfl

/-- The producers are instantiations, awaits and calls that are not awaited. A run reports the nodes that answer
for their lost results, in the order of the walk and each at its first occurrence; these are the findings. It
ends with nothing in progress and has counted them. If the producers are processed in another order, the same
nodes are reported. -/
theorem run_reports_lost {source : String} {tree : Tree} (parsed : Tree.parse source = .ok tree)
    (oracle : Oracle Id τ) {options : RuleOptions} (enabled : options.enabled = true) :
    let inspection : Inspection Id τ := { tree, scopes := .ofTree tree, oracle, options }
    let producers := tree.preorder.filter tree.isProducer
    let lost := (producers.filter fun producer => (inspection.judge producer).run.verdict = .unhandled).map
      inspection.answering
    (∀ node, tree.isProducer node = true ↔
      (∃ callee arguments, tree.kind node = .new callee arguments) ∨
        (∃ operand, tree.kind node = .await operand) ∨
        (∃ callee arguments, tree.kind node = .call callee arguments) ∧
          ∀ outer, tree.kind outer ≠ .await node) ∧
    inspection.findings.run = lost.eraseDups ∧
    (∃ final, inspection.Walks .start tree.root final) ∧
    (∀ final, inspection.Walks .start tree.root final →
      final.busy = ∅ ∧ final.reporter.sent = lost.eraseDups ∧
        final.reporter.count = lost.eraseDups.length) ∧
    ∀ order, order.Perm producers →
      (∃ final, inspection.ProcessesAll .start order final) ∧
      ∀ final, inspection.ProcessesAll .start order final →
        final.reporter.seen = lost.toFinset ∧ final.reporter.sent.toFinset = lost.toFinset := by
  intro inspection producers lost
  have formed : inspection.tree.WellFormed := Tree.wellFormed_of_parse parsed
  have bounded : ∀ node use, inspection.HandsTo node use → use < inspection.tree.size :=
    fun node use hands => handsTo_lt_size hands
  have processes : ∀ order final, inspection.ProcessesAll .start order final ↔
      final = ⟨∅, ⟨(inspection.lost order).toFinset, (inspection.lost order).eraseDups⟩⟩ := by
    intro order final
    rw [← Reporter.foldl_report_empty]
    exact processesAll_iff bounded
  have walks : ∀ final, inspection.Walks .start tree.root final ↔
      final = ⟨∅, ⟨lost.toFinset, lost.eraseDups⟩⟩ := fun final =>
    (walks_iff_processesAll formed).trans (processes producers final)
  refine ⟨fun node => formed.isProducer_iff, findings_eq enabled, ⟨_, (walks _).mpr rfl⟩, ?_, ?_⟩
  · intro final walked
    rw [(walks final).mp walked]
    exact ⟨rfl, rfl, Reporter.card_toFinset_eq_length_eraseDups lost⟩
  · intro order perm
    have same : (inspection.lost order).toFinset = lost.toFinset :=
      List.toFinset_eq_of_perm _ _ ((perm.filter _).map _)
    refine ⟨⟨_, (processes order _).mpr rfl⟩, ?_⟩
    intro final processed
    rw [(processes order final).mp processed]
    refine ⟨same, ?_⟩
    rw [← same]
    ext node
    simp

def credulous : Oracle Id Unit :=
  { typeOf := fun _ => pure ()
    awaited := pure
    parts := fun type => pure [type]
    hasMember := fun _ _ => pure true }

/-- The awaited call and its argument are stored in one variable, which answers for both of them. -/
theorem run_reports_lost_once :
    ∃ tree, Tree.parse "const r = await f(g())\nh()" = .ok tree ∧
      let inspection : Inspection Id Unit :=
        { tree, scopes := .ofTree tree, oracle := credulous, options := .standard }
      (inspection.lost tree.producers).length = 3 ∧ inspection.findings.run.length = 2 ∧
        ∃ final, inspection.Walks .start tree.root final ∧ final.reporter.count = 2 := by
  have checks : (Tree.parse "const r = await f(g())\nh()").toOption.any (fun tree =>
      let inspection : Inspection Id Unit :=
        { tree, scopes := .ofTree tree, oracle := credulous, options := .standard }
      decide ((inspection.lost tree.producers).length = 3 ∧ inspection.findings.run.length = 2)) = true := by
    decide +kernel
  obtain ⟨tree, parsed, checks⟩ := Tree.exists_of_checks checks
  obtain ⟨three, two⟩ := of_decide_eq_true checks
  have enabled : RuleOptions.standard.enabled = true := rfl
  obtain ⟨-, found, ⟨final, walked⟩, reports, -⟩ := run_reports_lost parsed credulous enabled
  refine ⟨tree, parsed, three, two, final, walked, ?_⟩
  rw [(reports final walked).2.2, ← found]
  exact two

end Inspection

end Heed
