import Heed.Proofs.Rule.Findings
import Heed.Proofs.Rule.Hindsight
import Heed.Proofs.Rule.Reporting

/-!
# Values that are awaited

An await and its operand are handled, returned and stored together. A call that is awaited is not judged for
itself, so only its await is ever reported. Other operands that make values are judged for themselves: if the
await is reported, so is the operand, unless its own value is no result.
-/

set_option autoImplicit false

namespace Heed

/-- Expressions that make a value and are judged for themselves, also where the value is awaited. -/
def NodeKind.isJudgedAlone : NodeKind → Bool
  | .new _ _ | .await _ => true
  | _ => false

theorem Tree.WellFormed.isProducer_awaited {tree : Tree} (formed : tree.WellFormed) {outer operand : Nat}
    (awaits : tree.kind outer = .await operand) :
    tree.isProducer operand = (tree.kind operand).isJudgedAlone := by
  have awaited := formed.isAwaited_iff.mpr ⟨outer, awaits⟩
  unfold isProducer
  cases tree.kind operand with
  | call callee arguments =>
      rw [awaited]
      rfl
  | _ => rfl

namespace Inspection

section Together

variable {m : Type → Type} {τ : Type} {inspection : Inspection m τ} (formed : inspection.tree.WellFormed)
  {outer operand : Nat} (awaits : inspection.tree.kind outer = .await operand)

include formed awaits

theorem isHandled_awaited : inspection.isHandled operand = inspection.isHandled outer := by
  rw [isHandled, isHandled, formed.ancestors_eq_cons (formed.parent?_awaited awaits), Tree.isHandledBelow,
    awaits]

theorem isReturned_awaited : inspection.isReturned operand = inspection.isReturned outer := by
  rw [isReturned, isReturned, formed.ancestors_eq_cons (formed.parent?_awaited awaits),
    Tree.isReturnedBelow, awaits]
  rfl

theorem isDeclarative_awaited : inspection.isDeclarative operand = false := by
  rw [isDeclarative, Tree.parentKind?, formed.parent?_awaited awaits, Option.map_some, awaits]
  rfl

theorem transfer_awaited [Monad m] : inspection.transfer operand = inspection.transfer outer := by
  have unstored : inspection.tree.storedBy? outer operand = none := by rw [Tree.storedBy?, awaits]
  have deferral : inspection.deferral operand = inspection.deferral outer := by
    rw [deferral, deferral, formed.ancestors_eq_cons (formed.parent?_awaited awaits), deferralBelow, unstored,
      awaits]
    rfl
  rw [transfer, transfer, deferral]

end Together

variable {τ : Type} {inspection : Inspection Id τ}

/-- What a deferral says is what one of the nodes above stores. -/
theorem exists_storedBy?_of_deferralBelow {child : Nat} {above : List Nat} {deferral : Deferral}
    (found : (inspection.deferralBelow child above).run = some deferral) :
    ∃ parent value, inspection.tree.storedBy? parent value = some deferral := by
  induction above generalizing child with
  | nil => cases found
  | cons parent above ih =>
      rw [deferralBelow] at found
      cases stored : inspection.tree.storedBy? parent child with
      | some passed =>
          simp only [stored, Id.run_bind] at found
          split at found
          · cases Option.some.inj found
            exact ⟨parent, child, stored⟩
          · exact ih found
      | none =>
          simp only [stored] at found
          split at found
          · cases found
          · exact ih found

theorem isIdentifier_target_of_deferralBelow {child : Nat} {above : List Nat} {deferral : Deferral}
    (found : (inspection.deferralBelow child above).run = some deferral) :
    (inspection.tree.kind deferral.target).isIdentifier = true := by
  obtain ⟨parent, value, stored⟩ := exists_storedBy?_of_deferralBelow found
  exact Tree.isIdentifier_of_storedBy? stored

/-- A variable has taken a value that is lost, and answers for it at a node. -/
def NamesLost (inspection : Inspection Id τ) (node : Nat) : Prop :=
  ∃ producer ∈ inspection.tree.producers, (inspection.judge producer).run.verdict = .unhandled ∧
    ∃ transfer, inspection.takenBy? producer = some transfer ∧ transfer.blamed = node

/-- A producer whose value no variable takes is lost if no local verdict is found. -/
theorem unhandled_iff_of_untaken {producer : Nat} (untaken : inspection.takenBy? producer = none) :
    (inspection.judge producer).run.verdict = .unhandled ↔ inspection.settled? producer false = none := by
  constructor
  · intro lost
    refine settled?_eq_none_of_fails ?_
    rw [lost]
    rfl
  · intro open_
    rw [judge, ← verdictWithin, verdictWithin_succ, open_, untaken]

/-- What is reported: producers for themselves, and names of variables. -/
theorem mem_findings_iff {node : Nat} :
    node ∈ inspection.findings.run ↔ inspection.options.enabled = true ∧
      (node ∈ inspection.tree.producers ∧ inspection.settled? node false = none ∧
        inspection.takenBy? node = none ∨ inspection.NamesLost node) := by
  cases enabled : inspection.options.enabled with
  | false =>
      rw [findings, enabled]
      simp
  | true =>
      rw [findings_eq enabled, List.mem_eraseDups, lost, List.mem_map]
      simp only [List.mem_filter, decide_eq_true_eq, true_and]
      constructor
      · rintro ⟨producer, ⟨produces, lost⟩, answers⟩
        cases takes : inspection.takenBy? producer with
        | some transfer =>
            refine .inr ⟨producer, produces, lost, transfer, takes, ?_⟩
            rw [answering, takes] at answers
            exact answers
        | none =>
            rw [answering, takes] at answers
            cases answers
            exact .inl ⟨produces, (unhandled_iff_of_untaken takes).mp lost, takes⟩
      · rintro (⟨produces, open_, untaken⟩ | ⟨producer, produces, lost, transfer, takes, rfl⟩)
        · refine ⟨node, ⟨produces, (unhandled_iff_of_untaken untaken).mpr open_⟩, ?_⟩
          rw [answering, untaken]
          rfl
        · refine ⟨producer, ⟨produces, lost⟩, ?_⟩
          rw [answering, takes]
          rfl

section Reported

variable (formed : inspection.tree.WellFormed) (fits : inspection.tree.Fits)
  (analysed : inspection.scopes = .ofTree inspection.tree) {outer operand : Nat}

include formed

/-- Next to an await that is lost, all depends on whether the value of the operand is a result. -/
theorem settled?_awaited_iff (awaits : inspection.tree.kind outer = .await operand)
    (open_ : inspection.settled? outer false = none) :
    inspection.settled? operand false = none ↔ (inspection.isResult operand).run = true := by
  rw [settled?_eq] at open_ ⊢
  rw [isDeclarative_awaited formed awaits, isHandled_awaited formed awaits, isReturned_awaited formed awaits]
  split_ifs at open_
  all_goals simp_all

include fits analysed

theorem NamesLost.isIdentifier {node : Nat} (names : inspection.NamesLost node) :
    (inspection.tree.kind node).isIdentifier = true := by
  obtain ⟨producer, -, -, transfer, takes, rfl⟩ := names
  obtain ⟨deferral, stores, found⟩ := Option.bind_eq_some_iff.mp takes
  exact isIdentifier_of_transferOf? formed fits analysed (isIdentifier_target_of_deferralBelow stores) found

/-- A call that is awaited is not reported. -/
theorem call_awaited_not_reported (awaits : inspection.tree.kind outer = .await operand)
    {callee : Nat} {arguments : List Nat} (call : inspection.tree.kind operand = .call callee arguments) :
    operand ∉ inspection.findings.run := by
  intro reported
  rcases (mem_findings_iff.mp reported).2 with ⟨produces, -⟩ | names
  · have produces := (List.mem_filter.mp produces).2
    rw [formed.isProducer_awaited awaits, call] at produces
    cases produces
  · have named := names.isIdentifier formed fits analysed
    rw [call] at named
    cases named

theorem reported_awaited_iff (awaits : inspection.tree.kind outer = .await operand)
    (reported : outer ∈ inspection.findings.run) :
    operand ∈ inspection.findings.run ↔
      ((inspection.tree.kind operand).isJudgedAlone = true ∧ (inspection.isResult operand).run = true) ∨
        inspection.NamesLost operand := by
  obtain ⟨enabled, ⟨-, open_, untaken⟩ | names⟩ := mem_findings_iff.mp reported
  · have untaken : inspection.takenBy? operand = none := by
      rw [takenBy?, transfer_awaited formed awaits]
      exact untaken
    rw [mem_findings_iff, settled?_awaited_iff formed awaits open_, ← formed.isProducer_awaited awaits]
    -- What is left to tell the two apart is whether the operand is judged, and as a result.
    constructor
    · rintro ⟨-, ⟨produces, isResult, -⟩ | names⟩
      · exact .inl ⟨(List.mem_filter.mp produces).2, isResult⟩
      · exact .inr names
    · rintro (⟨produces, isResult⟩ | names)
      · have reached := formed.mem_preorder_of_isAnswerable (Tree.isAnswerable_of_isProducer produces)
        exact ⟨enabled, .inl ⟨List.mem_filter.mpr ⟨reached, produces⟩, isResult, untaken⟩⟩
      · exact ⟨enabled, .inr names⟩
  · -- an await is no name
    have named := names.isIdentifier formed fits analysed
    rw [awaits] at named
    cases named

end Reported

end Inspection

/-- The findings of a source are those of an oracle without a memory that answers as the session does at its
end. A call that is awaited is never reported. If an await is reported, its operand is reported as well exactly
if it is a `new` expression or an await and its own value is a result, or if it is an identifier that answers
for a lost value. -/
theorem lint_reports_awaited {options : RuleOptions} {source : String} {findings : List Finding}
    (linted : lint options source = .ok findings) :
    ∃ tree, Tree.parse source = .ok tree ∧
      let inspection : Inspection Session Ty :=
        { tree, scopes := .ofTree tree, oracle := .ofChecker (.ofTree tree), options }
      let final := (inspection.findings.run (Checker.ofTree tree).fresh).2
      let reported := findings.map (·.node)
      reported.Perm (inspection.stilled final).findings.run ∧
      ∀ outer operand, tree.parent? operand = some outer → tree.isAwaited operand = true →
        (∀ callee arguments, tree.kind operand = .call callee arguments → operand ∉ reported) ∧
        (outer ∈ reported → (operand ∈ reported ↔
          ((tree.kind operand).isJudgedAlone = true ∧ ((inspection.isResult operand).run final).1 = true) ∨
            (inspection.stilled final).NamesLost operand)) := by
  cases parsed : Tree.parse source with
  | error error =>
      rw [lint, parsed] at linted
      cases linted
  | ok tree =>
      obtain ⟨reports, linted', sorted⟩ := lint_of_parse parsed options
      cases Except.ok.inj (linted.symm.trans linted')
      have formed := Tree.wellFormed_of_parse parsed
      have fits := Tree.fits_of_parse parsed
      refine ⟨tree, rfl, ?_⟩
      intro inspection final reported
      have lasting : inspection.Lasting (Checker.ofTree tree).fresh :=
        Inspection.lasting_ofChecker (.ofTree tree) options
      have perm : reported.Perm (inspection.stilled final).findings.run := by
        rw [lasting.findings_eq_stilled]
        refine sorted.trans (.of_eq ?_)
        rw [Checker.findings, List.map_map]
        exact List.map_id _
      refine ⟨perm, fun outer operand found awaited => ?_⟩
      have awaits := Tree.kind_eq_of_isAwaited found awaited
      simp only [perm.mem_iff]
      constructor
      · intro callee arguments call
        exact Inspection.call_awaited_not_reported formed fits rfl awaits call
      · intro both
        rw [← Inspection.isResult_stilled]
        exact Inspection.reported_awaited_iff formed fits rfl awaits both

def awaitedTwice : String :=
  "declare class R \x7b map(): R; mapErr(): R; andThen(): R; orElse(): R; match(): number; " ++
    "unwrapOr(): number \x7d\ndeclare function make(): Promise<R>\nawait await make()"

/-- Both awaits are reported, the call is not. -/
theorem lint_reports_awaited_twice :
    ∃ findings tree, lint .standard awaitedTwice = .ok findings ∧ Tree.parse awaitedTwice = .ok tree ∧
      let reported := findings.map (·.node)
      (tree.parent? 24 = some 25 ∧ tree.isAwaited 24 = true ∧ 24 ∉ reported) ∧
        tree.parent? 25 = some 26 ∧ tree.isAwaited 25 = true ∧ 26 ∈ reported ∧ 25 ∈ reported := by
  have checks : (Tree.parse awaitedTwice).toOption.any (fun tree =>
      let inspection : Inspection Session Ty :=
        { tree, scopes := .ofTree tree, oracle := .ofChecker (.ofTree tree), options := .standard }
      let final := (inspection.findings.run (Checker.ofTree tree).fresh).2
      decide ((tree.parent? 24 = some 25 ∧ tree.isAwaited 24 = true ∧ tree.isCallOf 24 23 = true) ∧
        tree.parent? 25 = some 26 ∧ tree.isAwaited 25 = true ∧
        26 ∈ ((Checker.ofTree tree).findings .standard).map (·.node) ∧
        (tree.kind 25).isJudgedAlone = true ∧ ((inspection.isResult 25).run final).1 = true)) = true := by
    decide +kernel
  obtain ⟨tree, parsed, checks⟩ := Tree.exists_of_checks checks
  obtain ⟨⟨inner, innerAwaited, call⟩, outer, outerAwaited, reported, alone, isResult⟩ :=
    of_decide_eq_true checks
  obtain ⟨findings, linted, sorted⟩ := lint_of_parse parsed .standard
  have reported := sorted.mem_iff.mpr reported
  obtain ⟨other, parsed', -, awaited⟩ := lint_reports_awaited linted
  cases Except.ok.inj (parsed'.symm.trans parsed)
  have notCall := (awaited 25 24 inner innerAwaited).1
  have both := (awaited 26 25 outer outerAwaited).2 reported
  refine ⟨findings, tree, linted, parsed, ⟨inner, innerAwaited, ?_⟩, outer, outerAwaited, reported,
    both.mpr (.inl ⟨alone, isResult⟩)⟩
  unfold Tree.isCallOf at call
  split at call
  · exact notCall _ _ ‹_›
  · cases call

def awaitedInstance : String :=
  "declare class R \x7b map(): R; mapErr(): R; andThen(): R; orElse(): R; match(): number; " ++
    "unwrapOr(): number \x7d\nawait new R()"

/-- The await is reported, and its operand too. -/
theorem lint_awaitedInstance_twice :
    ∃ findings tree, lint .standard awaitedInstance = .ok findings ∧
      Tree.parse awaitedInstance = .ok tree ∧ tree.parent? 21 = some 22 ∧ tree.isAwaited 21 = true ∧
      22 ∈ findings.map (·.node) ∧ 21 ∈ findings.map (·.node) := by
  have checks : (Tree.parse awaitedInstance).toOption.any (fun tree => decide (
      (tree.parent? 21 = some 22 ∧ tree.isAwaited 21 = true) ∧
        ((Checker.ofTree tree).findings .standard).map (·.node) = [22, 21])) = true := by
    decide +kernel
  obtain ⟨tree, parsed, checks⟩ := Tree.exists_of_checks checks
  obtain ⟨⟨found, awaited⟩, nodes⟩ := of_decide_eq_true checks
  obtain ⟨findings, linted, sorted⟩ := lint_of_parse parsed .standard
  have sorted : (findings.map Finding.node).Perm [22, 21] := sorted.trans (.of_eq nodes)
  refine ⟨findings, tree, linted, parsed, found, awaited, ?_, ?_⟩
  · exact sorted.mem_iff.mpr (by simp)
  · exact sorted.mem_iff.mpr (by simp)

end Heed
