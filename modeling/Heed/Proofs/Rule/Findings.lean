import Heed.Proofs.Rule.Aliases
import Heed.Proofs.Scope.Bookkeeping

/-!
# What is found in a source

A finding stands at a producer or at an identifier that took its value. So it stands at a node of the tree,
whatever the oracle has answered in the course of the session, and no node is found twice. The findings of a
source are those of the rule in the order of their spans.
-/

set_option autoImplicit false

namespace Heed

namespace NodeKind

/-- Nodes at which a lost result is reported: producers, and identifiers that take a value. -/
def isAnswerable : NodeKind → Bool
  | .call .. | .new .. | .await _ | .identifier .. => true
  | _ => false

theorem isAnswerable_of_isIdentifier {kind : NodeKind} (named : kind.isIdentifier = true) :
    kind.isAnswerable = true := by
  cases kind with
  | identifier name ascription => rfl
  | _ => cases named

end NodeKind

namespace Tree

theorem isAnswerable_of_isProducer {tree : Tree} {node : Nat} (produces : tree.isProducer node = true) :
    (tree.kind node).isAnswerable = true := by
  unfold isProducer at produces
  cases kindEq : tree.kind node with
  | call callee arguments => rfl
  | new callee arguments => rfl
  | await argument => rfl
  | _ => simp [kindEq] at produces

/-- Only ascriptions are left out of a walk over the tree. -/
theorem WellFormed.mem_preorder_of_isAnswerable {tree : Tree} (formed : tree.WellFormed) {node : Nat}
    (answers : (tree.kind node).isAnswerable = true) : node ∈ tree.preorder := by
  have inside : node < tree.size := by
    by_contra outside
    rw [kind_eq_kindAt, kindAt_of_size_le (Nat.le_of_not_lt outside)] at answers
    cases answers
  refine formed.mem_preorder_outline_iff.mpr (formed.isWithin_root inside ?_)
  cases kindEq : tree.kind node with
  | typeAscription type =>
      rw [kindEq] at answers
      cases answers
  | _ => rfl

end Tree

def Deferral.target : Deferral → Nat
  | .declaration _ identifier => identifier
  | .assignment target => target

theorem Tree.isIdentifier_of_storedBy? {tree : Tree} {node child : Nat} {deferral : Deferral}
    (stored : tree.storedBy? node child = some deferral) :
    (tree.kind deferral.target).isIdentifier = true := by
  unfold storedBy? at stored
  split at stored
  case h_1 =>
      split at stored
      case isTrue stores =>
          cases Option.some.inj stored
          exact (Bool.and_eq_true _ _ ▸ stores).2
      case isFalse => cases stored
  case h_2 =>
      split at stored
      case isTrue stores =>
          cases Option.some.inj stored
          exact (Bool.and_eq_true _ _ ▸ stores).2
      case isFalse => cases stored
  case h_3 => cases stored

namespace ScopeAnalysis

/-- References are identifiers. -/
theorem isIdentifier_of_reference {tree : Tree} (formed : tree.WellFormed) (fits : tree.Fits) {id : Nat}
    {owner : Variable} {reference : Reference} (stored : (ofTree tree).allVariables[id]? = some owner)
    (listed : reference ∈ owner.references) : (tree.kind reference.identifier).isIdentifier = true := by
  rcases Use.refers_or_initialised formed fits (mem_usesOf_of_reference stored listed) with
    refers | ⟨_, _, _, _, binds, _⟩
  · exact refers.1
  · exact Tree.isIdentifier_of_binds binds

end ScopeAnalysis

namespace Inspection

/-- What answers for a value that is stored is an identifier. -/
theorem isIdentifier_of_transferOf? {m : Type → Type} {τ : Type} {inspection : Inspection m τ}
    (formed : inspection.tree.WellFormed) (fits : inspection.tree.Fits)
    (analysed : inspection.scopes = .ofTree inspection.tree) {deferral : Deferral} {transfer : Transfer}
    (named : (inspection.tree.kind deferral.target).isIdentifier = true)
    (found : inspection.transferOf? deferral = some transfer) :
    (inspection.tree.kind transfer.blamed).isIdentifier = true := by
  cases deferral with
  | assignment target =>
      obtain ⟨owner, -, rfl⟩ := Option.map_eq_some_iff.mp found
      exact named
  | declaration declarator identifier =>
      obtain ⟨id, stored⟩ := transferOf?_variable found
      obtain ⟨owner, -, rfl⟩ := Option.map_eq_some_iff.mp found
      rw [analysed] at stored
      change (inspection.tree.kind
        ((owner.references.head?.map (·.identifier)).getD identifier)).isIdentifier = true
      cases first : owner.references.head? with
      | none => exact named
      | some reference =>
          exact ScopeAnalysis.isIdentifier_of_reference formed fits stored (List.mem_of_head? first)

variable {σ τ : Type} {inspection : Inspection (StateM σ) τ} {start : σ}

theorem Stores.isIdentifier_target {node : Nat} {deferral : Deferral}
    (stores : inspection.Stores start node deferral) :
    (inspection.tree.kind deferral.target).isIdentifier = true := by
  induction stores with
  | here _ stored _ => exact Tree.isIdentifier_of_storedBy? stored
  | past _ _ _ _ ih => exact ih
  | around _ _ _ _ ih => exact ih

section Blame

variable (formed : inspection.tree.WellFormed) (fits : inspection.tree.Fits)
  (analysed : inspection.scopes = .ofTree inspection.tree)

include formed fits analysed

theorem Yields.isIdentifier_transfer (node : Nat) :
    inspection.Yields start (inspection.transfer node) fun transfer? =>
      ∀ transfer, transfer? = some transfer →
        (inspection.tree.kind transfer.blamed).isIdentifier = true := by
  refine .bind (.deferral formed node) fun deferral? stores => .pure ?_
  intro transfer found
  obtain ⟨deferral, rfl, takes⟩ := Option.bind_eq_some_iff.mp found
  exact isIdentifier_of_transferOf? formed fits analysed (stores deferral rfl).isIdentifier_target takes

/-- A node answers for its value itself, or an identifier does. -/
theorem Yields.isAnswerable_judgeWithin (budget : Nat) (path : List Nat) {node : Nat} (isUse : Bool)
    (itself : (inspection.tree.kind node).isAnswerable = true) :
    inspection.Yields start (inspection.judgeWithin budget path node isUse) fun judgement =>
      (inspection.tree.kind judgement.blamed).isAnswerable = true := by
  cases budget with
  | zero => exact .pure itself
  | succ budget =>
      rw [Inspection.judgeWithin]
      refine .bind (.localVerdict? node isUse) fun verdict? _ => ?_
      cases verdict? with
      | some verdict => exact .pure itself
      | none =>
          refine .bind (.isIdentifier_transfer formed fits analysed node) fun transfer? named => ?_
          cases transfer? with
          | none => exact .pure itself
          | some transfer =>
              refine .bind (.search (fun use => inspection.Accounts start use true)
                fun use _ _ => .judgeWithin formed _ _ use true) fun found _ => .pure ?_
              exact NodeKind.isAnswerable_of_isIdentifier (named transfer rfl)

theorem Yields.blame? {producer : Nat} (produces : inspection.tree.isProducer producer = true) :
    inspection.Yields start (inspection.blame? producer) fun blamed? =>
      ∀ blamed, blamed? = some blamed → (inspection.tree.kind blamed).isAnswerable = true := by
  have itself := Tree.isAnswerable_of_isProducer produces
  refine .bind (.isAnswerable_judgeWithin formed fits analysed _ [] false itself) fun _ answers => .pure ?_
  intro blamed found
  split at found
  · cases found
  · cases Option.some.inj found
    exact answers

/-- Every finding stands at a producer or at an identifier. -/
theorem Yields.findings :
    inspection.Yields start inspection.findings fun nodes =>
      nodes.Nodup ∧ ∀ node ∈ nodes, (inspection.tree.kind node).isAnswerable = true := by
  unfold Inspection.findings
  split
  · refine .bind (.mapM fun producer listed => .blame? formed fits analysed (List.mem_filter.mp listed).2) ?_
    intro results answers
    refine .pure ⟨nodup_eraseDups _, fun node member => ?_⟩
    obtain ⟨blamed?, listed, same⟩ := List.mem_filterMap.mp (List.mem_eraseDups.mp member)
    exact answers blamed? listed node same
  · exact .pure ⟨List.nodup_nil, by simp⟩

end Blame

end Inspection

namespace Finding

theorem precedes_iff {first second : Finding} :
    first.precedes second = true ↔ first.span.start < second.span.start ∨
      first.span.start = second.span.start ∧ first.span.stop ≤ second.span.stop := by
  simp [precedes]

/-- Sorting by spans puts every finding before those that it precedes. -/
theorem pairwise_mergeSort (findings : List Finding) :
    (findings.mergeSort precedes).Pairwise fun first second => first.precedes second = true := by
  refine List.pairwise_mergeSort ?_ ?_ findings
  · intro first second third
    simp only [precedes_iff]
    omega
  · intro first second
    rw [Bool.or_eq_true, precedes_iff, precedes_iff]
    omega

end Finding

theorem lint_of_parse {source : String} {tree : Tree} (parsed : Tree.parse source = .ok tree)
    (options : RuleOptions) : ∃ reports, lint options source = .ok reports ∧
      (reports.map Finding.node).Perm (((Checker.ofTree tree).findings options).map Finding.node) := by
  refine ⟨((Checker.ofTree tree).findings options).mergeSort Finding.precedes, ?_, ?_⟩
  · rw [lint, parsed]
    rfl
  · exact (List.mergeSort_perm _ _).map Finding.node

/-- Where a finding stands: at a call, a `new` expression, an await or an identifier that a walk over the tree
meets, with the span of that node, a part of the source that is not empty and lies between whole characters. -/
structure Finding.Placed (source : String) (tree : Tree) (finding : Finding) : Prop where
  reached : finding.node ∈ tree.preorder
  answerable : (tree.kind finding.node).isAnswerable = true
  span_eq : finding.span = tree.span finding.node
  nonempty : finding.span.start < finding.span.stop
  stop_le_size : finding.span.stop ≤ source.utf8ByteSize
  start_boundary : IsBoundary source finding.span.start
  stop_boundary : IsBoundary source finding.span.stop

/-- The findings of a source are those of the rule, none lost and none added, in the order of their spans. No
node is found twice, and each finding stands at a node that can answer for a result. -/
theorem lint_findings_placed {options : RuleOptions} {source : String} {findings : List Finding}
    (linted : lint options source = .ok findings) :
    ∃ tree, Tree.parse source = .ok tree ∧
      findings.Perm ((Checker.ofTree tree).findings options) ∧
      (findings.Pairwise fun first second => first.span.start < second.span.start ∨
        first.span.start = second.span.start ∧ first.span.stop ≤ second.span.stop) ∧
      (findings.map (·.node)).Nodup ∧ ∀ finding ∈ findings, finding.Placed source tree := by
  rw [lint] at linted
  cases parsed : Tree.parse source with
  | error error =>
      rw [parsed] at linted
      cases linted
  | ok tree =>
      rw [parsed] at linted
      cases Except.ok.inj linted
      have formed := Tree.wellFormed_of_parse parsed
      let inspection : Inspection Session Ty :=
        { tree, scopes := .ofTree tree, oracle := .ofChecker (.ofTree tree), options }
      obtain ⟨⟨nodup, answers⟩, -⟩ := @Inspection.Yields.findings _ _ inspection _ formed
        (Tree.fits_of_parse parsed) rfl (Checker.ofTree tree).fresh .start
      have perm := List.mergeSort_perm ((Checker.ofTree tree).findings options) Finding.precedes
      refine ⟨tree, rfl, perm, ?_, ?_, ?_⟩
      · exact (Finding.pairwise_mergeSort _).imp Finding.precedes_iff.mp
      · refine (perm.map _).nodup_iff.mpr ?_
        rw [Checker.findings, List.map_map]
        exact (List.map_id _).symm ▸ nodup
      · intro finding member
        obtain ⟨node, listed, rfl⟩ := List.mem_map.mp (perm.mem_iff.mp member)
        have answers : (tree.kind node).isAnswerable = true := answers node listed
        have reached := formed.mem_preorder_of_isAnswerable answers
        have sits := Tree.sits_of_parse parsed (formed.lt_size_of_mem_preorder reached)
        refine ⟨reached, answers, rfl, sits.nonempty ?_, sits.edge_stop.le_size, sits.edge_start,
          sits.edge_stop⟩
        intro body kindEq
        have kindEq : tree.kind node = .program body := kindEq
        simp [kindEq, NodeKind.isAnswerable] at answers

/-- Loses two results. The second one is reported where its variable is first named, before the first one. -/
def hoistedAway : String :=
  "declare class R \x7b map(): R; mapErr(): R; andThen(): R; orElse(): R; match(): number; " ++
    "unwrapOr(): number \x7d\ndeclare function make(): R\n'é'; r\nmake()\nvar r = make()"

theorem lint_findings_placed_of_hoisted :
    ∃ findings tree, lint .standard hoistedAway = .ok findings ∧ Tree.parse hoistedAway = .ok tree ∧
      findings.length = 2 ∧ findings.Perm ((Checker.ofTree tree).findings .standard) ∧
      ¬ ((Checker.ofTree tree).findings .standard).Pairwise (fun first second =>
        first.precedes second = true) ∧
      ∀ finding ∈ findings, finding.Placed hoistedAway tree := by
  have checks : (Tree.parse hoistedAway).toOption.any (fun tree =>
      decide (((Checker.ofTree tree).findings .standard).length = 2 ∧
        ¬ ((Checker.ofTree tree).findings .standard).Pairwise fun first second =>
          first.precedes second = true)) = true := by decide +kernel
  obtain ⟨tree, parsed, checks⟩ := Tree.exists_of_checks checks
  obtain ⟨two, unsorted⟩ := of_decide_eq_true checks
  have linted : lint .standard hoistedAway =
      .ok (((Checker.ofTree tree).findings .standard).mergeSort Finding.precedes) := by
    rw [lint, parsed]
    rfl
  obtain ⟨other, parsed', perm, -, -, placed⟩ := lint_findings_placed linted
  cases Except.ok.inj (parsed'.symm.trans parsed)
  exact ⟨_, tree, linted, parsed, perm.length_eq.trans two, perm, unsorted, placed⟩

end Heed
