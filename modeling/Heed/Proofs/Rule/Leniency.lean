import Heed.Proofs.Rule.Moments
import Heed.Proofs.Rule.Reporting

/-!
# More lenient options

Options may be made more lenient: more handlers, more guards, or guards accepted anywhere. Guards that a result
must have as members are kept, since a change there changes what counts as a result. More lenient options settle
more nodes and hand values on as before, so that every way to a settled reference remains one. A result that is
lost under the lenient options was lost before, and the same node answers for it.
-/

set_option autoImplicit false

namespace Heed

/-- Options that differ only by accepting more ways to discharge. -/
structure RuleOptions.Eases (strict lenient : RuleOptions) : Prop where
  enabled : lenient.enabled = strict.enabled
  resultMembers : lenient.resultMembers = strict.resultMembers
  requireGuardMembers : lenient.requireGuardMembers = strict.requireGuardMembers
  handlers : strict.handlerMethods ⊆ lenient.handlerMethods
  guards : strict.guardMethods ⊆ lenient.guardMethods
  requiredGuards : strict.requireGuardMembers = true → lenient.guardMethods ⊆ strict.guardMethods
  policy : lenient.guardPolicy = strict.guardPolicy ∨ lenient.guardPolicy = .anywhere

namespace RuleOptions.Eases

variable {strict lenient : RuleOptions} (eases : strict.Eases lenient)

include eases

theorem isHandler {name : String} (accepted : strict.isHandler name = true) :
    lenient.isHandler name = true :=
  List.contains_iff_mem.mpr (eases.handlers (List.contains_iff_mem.mp accepted))

theorem isGuard {name : String} (accepted : strict.isGuard name = true) : lenient.isGuard name = true :=
  List.contains_iff_mem.mpr (eases.guards (List.contains_iff_mem.mp accepted))

/-- What makes a type a result stays the same. -/
theorem mem_requiredMembers_iff {name : String} :
    name ∈ lenient.requiredMembers ↔ name ∈ strict.requiredMembers := by
  rw [requiredMembers, requiredMembers, List.mem_append, List.mem_append, eases.resultMembers,
    eases.requireGuardMembers]
  cases required : strict.requireGuardMembers with
  | false => rfl
  | true =>
      have same : name ∈ lenient.guardMethods ↔ name ∈ strict.guardMethods :=
        ⟨fun listed => eases.requiredGuards required listed, fun listed => eases.guards listed⟩
      rw [if_pos rfl, if_pos rfl, same]

end RuleOptions.Eases

/-! ## Handlers and guards -/

theorem Tree.hasMemberName_mono {tree : Tree} {member : Nat} {accepts acceptsMore : String → Bool}
    (more : ∀ name, accepts name = true → acceptsMore name = true)
    (has : tree.hasMemberName member accepts = true) : tree.hasMemberName member acceptsMore = true := by
  rw [hasMemberName, Option.any_eq_true] at has ⊢
  obtain ⟨name, named, accepted⟩ := has
  exact ⟨name, named, more name accepted⟩

/-- Where a handler is met earlier, the chain that was followed further on is handled all the same. -/
theorem Tree.isHandledBelow_mono {tree : Tree} {isHandler isHandler' : String → Bool}
    (more : ∀ name, isHandler name = true → isHandler' name = true) {value : Nat} {accessed : Bool}
    {above : List Nat} (handled : tree.isHandledBelow isHandler value accessed above = true) :
    tree.isHandledBelow isHandler' value accessed above = true := by
  induction above generalizing value accessed with
  | nil => exact handled
  | cons parent above ih =>
      rw [isHandledBelow] at handled ⊢
      split at handled
      case h_1 => exact ih handled
      case h_2 =>
          rw [Bool.and_eq_true] at handled ⊢
          exact handled.imp_right ih
      case h_3 =>
          rw [Bool.and_eq_true, Bool.or_eq_true] at handled ⊢
          exact handled.imp_right (Or.imp (hasMemberName_mono more) ih)
      case h_4 => cases handled

namespace Inspection

section Local

variable {m : Type → Type} {τ : Type} {tree : Tree} {scopes : ScopeAnalysis} {oracle : Oracle m τ}
  {strict lenient : RuleOptions} (eases : strict.Eases lenient) {node : Nat}

include eases

theorem isHandled_of_eases (handled : isHandled { tree, scopes, oracle, options := strict } node = true) :
    isHandled { tree, scopes, oracle, options := lenient } node = true :=
  Tree.isHandledBelow_mono (fun _ => eases.isHandler) handled

theorem isChecked_of_eases (checked : isChecked { tree, scopes, oracle, options := strict } node = true) :
    isChecked { tree, scopes, oracle, options := lenient } node = true := by
  rw [isChecked, Bool.and_eq_true] at checked ⊢
  refine checked.imp_right fun guarded => ?_
  dsimp only at guarded ⊢
  split at guarded
  case h_1 member call above _ =>
      rw [Bool.and_eq_true, Bool.and_eq_true] at guarded ⊢
      obtain ⟨⟨called, named⟩, placed⟩ := guarded
      refine ⟨⟨called, Tree.hasMemberName_mono (fun _ => eases.isGuard) named⟩, ?_⟩
      rcases eases.policy with same | anywhere
      · rw [same]
        exact placed
      · rw [anywhere]
  case h_2 => cases guarded

end Local

/-! ## Verdicts -/

section Verdicts

variable {τ : Type} {tree : Tree} {scopes : ScopeAnalysis} {oracle : Oracle Id τ}
  {strict lenient : RuleOptions} (eases : strict.Eases lenient) {node use : Nat}

theorem allM_eq_all {α : Type} (test : α → Id Bool) (items : List α) :
    (items.allM test).run = items.all fun item => (test item).run := by
  induction items with
  | nil => rfl
  | cons item rest ih =>
      rw [List.allM_cons, List.all_cons, Id.run_bind]
      cases (test item).run with
      | true => simpa using ih
      | false => rfl

include eases

theorem isResult_of_eases (node : Nat) :
    isResult { tree, scopes, oracle, options := lenient } node =
      isResult { tree, scopes, oracle, options := strict } node := by
  have members : (fun part => lenient.requiredMembers.allM (oracle.hasMember part)) =
      fun part => strict.requiredMembers.allM (oracle.hasMember part) := by
    funext part
    change (lenient.requiredMembers.allM (oracle.hasMember part)).run =
      (strict.requiredMembers.allM (oracle.hasMember part)).run
    rw [allM_eq_all, allM_eq_all, Bool.eq_iff_iff, List.all_eq_true, List.all_eq_true]
    exact forall_congr' fun name => imp_congr_left eases.mem_requiredMembers_iff
  unfold isResult
  dsimp only
  rw [members]

theorem takenBy?_of_eases (node : Nat) :
    takenBy? { tree, scopes, oracle, options := lenient } node =
      takenBy? { tree, scopes, oracle, options := strict } node := by
  have stored : ∀ above child,
      deferralBelow { tree, scopes, oracle, options := lenient } child above =
        deferralBelow { tree, scopes, oracle, options := strict } child above := by
    intro above
    induction above with
    | nil => exact fun _ => rfl
    | cons parent above ih =>
        intro child
        rw [deferralBelow, deferralBelow, isResult_of_eases eases, ih]
  unfold takenBy? transfer deferral
  rw [stored]
  rfl

/-- What is settled stays settled. -/
theorem isSome_settled?_of_eases {isUse : Bool}
    (settles : (settled? { tree, scopes, oracle, options := strict } node isUse).isSome) :
    (settled? { tree, scopes, oracle, options := lenient } node isUse).isSome := by
  obtain ⟨verdict, settles⟩ := Option.isSome_iff_exists.mp settles
  rw [settled?_eq_verdictBy] at settles
  rw [settled?_eq_verdictBy, isResult_of_eases eases, Option.isSome_iff_exists, exists_verdictBy_iff]
  refine (exists_verdictBy_iff.mp ⟨verdict, settles⟩).imp id (Or.imp id (Or.imp ?_ (Or.imp ?_ id)))
  · exact isHandled_of_eases eases
  · exact And.imp_right (isChecked_of_eases eases)

theorem handsTo_of_eases (hands : HandsTo { tree, scopes, oracle, options := strict } node use) :
    HandsTo { tree, scopes, oracle, options := lenient } node use := by
  rwa [HandsTo, takenBy?_of_eases eases]

/-- Ways to a settled reference remain. -/
theorem Leads.of_eases {avoid : List Nat}
    (leads : Leads { tree, scopes, oracle, options := strict } avoid node) :
    Leads { tree, scopes, oracle, options := lenient } avoid node := by
  induction leads with
  | settled hands fresh settles =>
      exact .settled (handsTo_of_eases eases hands) fresh (isSome_settled?_of_eases eases settles)
  | through hands fresh _ ih => exact .through (handsTo_of_eases eases hands) fresh ih

end Verdicts

/-! ## Findings -/

section Findings

variable {τ : Type} {tree : Tree} {oracle : Oracle Id τ} {strict lenient : RuleOptions}
  (eases : strict.Eases lenient)

include eases

/-- A value that is lost under lenient options is lost under strict ones. -/
theorem unhandled_of_eases {producer : Nat}
    (lost : (judge { tree, scopes := .ofTree tree, oracle, options := lenient } producer).run.verdict =
      .unhandled) :
    (judge { tree, scopes := .ofTree tree, oracle, options := strict } producer).run.verdict = .unhandled := by
  have discharges_iff : ∀ options : RuleOptions,
      (judge { tree, scopes := .ofTree tree, oracle, options } producer).run.verdict.discharges = true ↔
        (settled? { tree, scopes := .ofTree tree, oracle, options } producer false).isSome ∨
          Leads { tree, scopes := .ofTree tree, oracle, options } [] producer := fun options =>
    discharges_verdictWithin_iff (fun _ _ => handsTo_lt_size) _ [] producer false (.start _)
  rw [unhandled_iff_not_discharges, discharges_iff] at lost ⊢
  exact fun discharged => lost (discharged.imp (isSome_settled?_of_eases eases) (Leads.of_eases eases))

/-- Lost values are answered for by the same nodes. -/
theorem lost_subset_of_eases (producers : List Nat) :
    lost { tree, scopes := .ofTree tree, oracle, options := lenient } producers ⊆
      lost { tree, scopes := .ofTree tree, oracle, options := strict } producers := by
  intro node listed
  obtain ⟨producer, member, rfl⟩ := List.mem_map.mp listed
  obtain ⟨produces, unhandled⟩ := List.mem_filter.mp member
  refine List.mem_map.mpr ⟨producer, List.mem_filter.mpr ⟨produces, ?_⟩, ?_⟩
  · exact decide_eq_true (unhandled_of_eases eases (of_decide_eq_true unhandled))
  · rw [answering, answering, takenBy?_of_eases eases]

end Findings

/-- Accepting more ways to discharge never creates a finding. -/
theorem findings_subset_of_eases {τ : Type} (tree : Tree) (oracle : Oracle Id τ) {strict lenient : RuleOptions}
    (eases : strict.Eases lenient) :
    (findings { tree, scopes := .ofTree tree, oracle, options := lenient }).run ⊆
      (findings { tree, scopes := .ofTree tree, oracle, options := strict }).run := by
  cases enabled : strict.enabled with
  | false =>
      have disabled : (findings { tree, scopes := .ofTree tree, oracle, options := lenient }).run = [] := by
        simp [findings, eases.enabled, enabled]
      rw [disabled]
      exact List.nil_subset _
  | true =>
      rw [findings_eq (eases.enabled.trans enabled), findings_eq enabled]
      intro node found
      exact List.mem_eraseDups.mpr (lost_subset_of_eases eases _ (List.mem_eraseDups.mp found))

/-- The alias is checked by a guard that decides no branch, and one of the calls gets a handler. -/
theorem findings_subset_of_eases_aliased :
    let lenient : RuleOptions :=
      { RuleOptions.standard with
        handlerMethods := ["map", "match", "unwrapOr", "_unsafeUnwrap"]
        guardMethods := ["isOk", "isErr", "check"]
        guardPolicy := .anywhere }
    RuleOptions.standard.Eases lenient ∧
      ∃ tree, Tree.parse "const r = f(), s = r\ns.check()\nh().map(k)" = .ok tree ∧
        let strictly := (findings { tree, scopes := .ofTree tree, oracle := credulous, options := .standard }).run
        let leniently := (findings { tree, scopes := .ofTree tree, oracle := credulous, options := lenient }).run
        strictly.length = 4 ∧ leniently.length = 2 ∧ leniently ⊆ strictly := by
  intro lenient
  have eases : RuleOptions.standard.Eases lenient :=
    { enabled := rfl
      resultMembers := rfl
      requireGuardMembers := rfl
      handlers := by decide
      guards := by decide
      requiredGuards := fun required => by cases required
      policy := .inr rfl }
  have checks : (Tree.parse "const r = f(), s = r\ns.check()\nh().map(k)").toOption.any (fun tree =>
      decide ((findings { tree, scopes := .ofTree tree, oracle := credulous, options := .standard }).run.length = 4 ∧
        (findings { tree, scopes := .ofTree tree, oracle := credulous, options := lenient }).run.length = 2)) =
          true := by
    decide +kernel
  obtain ⟨tree, parsed, checks⟩ := Tree.exists_of_checks checks
  obtain ⟨four, two⟩ := of_decide_eq_true checks
  exact ⟨eases, tree, parsed, four, two, findings_subset_of_eases tree credulous eases⟩

end Inspection

end Heed
