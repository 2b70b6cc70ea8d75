import Heed.Rule.Judge
import Heed.Proofs.Budget
import Heed.Proofs.Scope.References

/-!
# Judging by reachability

With an oracle that answers from the node and the type alone, judging a value is a search through the
deferral graph: a node that no local verdict settles leads to the other references of the variable that
takes its value. The search passes over the references on its own path only, and forgets them when it
returns, so that it may judge a reference many times.

`Evaluates` states the search without a budget, with the references in progress as a set that is changed
and changed back. `judge` is that search, and it answers `unhandled` exactly when neither the node nor any
reference that it reaches is settled.
-/

set_option autoImplicit false

namespace Heed

namespace Inspection

section Transfers

variable {m : Type → Type} {τ : Type} {inspection : Inspection m τ}

/-- A transfer hands over to a variable of the analysis. -/
theorem transferOf?_variable {deferral : Deferral} {transfer : Transfer}
    (found : inspection.transferOf? deferral = some transfer) :
    ∃ id : Nat, inspection.scopes.allVariables[id]? = some transfer.variable_ := by
  cases deferral with
  | declaration declarator identifier =>
      obtain ⟨owner, owns, made⟩ := Option.map_eq_some_iff.mp found
      have declares : owner ∈ inspection.scopes.variablesBy declarator :=
        List.mem_of_find?_eq_some owns
      obtain ⟨id, _, stored⟩ := List.mem_filterMap.mp declares
      exact ⟨id, by rw [stored, ← made]⟩
  | assignment target =>
      obtain ⟨owner, means, made⟩ := Option.map_eq_some_iff.mp found
      obtain ⟨id, _, stored⟩ := Option.bind_eq_some_iff.mp means
      exact ⟨id, by rw [stored, ← made]⟩

theorem mem_uses_iff {transfer : Transfer} {use : Nat} :
    use ∈ transfer.uses ↔
      (∃ reference ∈ transfer.variable_.references, reference.identifier = use) ∧
        use ≠ transfer.binding := by
  simp [Transfer.uses]

end Transfers

variable {τ : Type} (inspection : Inspection Id τ)

/-- The verdict on a node that needs no other node. -/
def settled? (node : Nat) (isUse : Bool) : Option Verdict :=
  (inspection.localVerdict? node isUse).run

def takenBy? (node : Nat) : Option Transfer := (inspection.transfer node).run

/-- The value of `node` is handed to a variable, and `use` is another reference of that variable. -/
def HandsTo (node use : Nat) : Prop :=
  ∃ transfer, inspection.takenBy? node = some transfer ∧
    (∃ reference ∈ transfer.variable_.references, reference.identifier = use) ∧
    use ≠ transfer.binding

/-- The references that a producer reaches in the deferral graph. Only nodes that are not settled lead
on. -/
inductive Reaches (producer : Nat) : Nat → Prop where
  | start {use : Nat} (open_ : inspection.settled? producer false = none)
      (hands : inspection.HandsTo producer use) : Reaches producer use
  | next {use other : Nat} (reached : Reaches producer use)
      (open_ : inspection.settled? use true = none) (hands : inspection.HandsTo use other) :
      Reaches producer other

mutual

/-- Judging a node, with the references in progress before and after. -/
inductive Evaluates : Finset Nat → Nat → Bool → Verdict → Finset Nat → Prop where
  | settled {busy : Finset Nat} {node : Nat} {isUse : Bool} {verdict : Verdict}
      (settles : inspection.settled? node isUse = some verdict) :
      Evaluates busy node isUse verdict busy
  | kept {busy : Finset Nat} {node : Nat} {isUse : Bool}
      (open_ : inspection.settled? node isUse = none)
      (untaken : inspection.takenBy? node = none) :
      Evaluates busy node isUse .unhandled busy
  | taken {busy after : Finset Nat} {node : Nat} {isUse found : Bool} {transfer : Transfer}
      (open_ : inspection.settled? node isUse = none)
      (takes : inspection.takenBy? node = some transfer)
      (search : AnyDischarges busy transfer.uses found after) :
      Evaluates busy node isUse (if found then .deferred else .unhandled) after

/-- Judging references one after the other up to the first that discharges. Each is in progress while it
is judged; those that are in progress already are passed over. -/
inductive AnyDischarges : Finset Nat → List Nat → Bool → Finset Nat → Prop where
  | exhausted {busy : Finset Nat} : AnyDischarges busy [] false busy
  | busy {busy after : Finset Nat} {use : Nat} {rest : List Nat} {found : Bool}
      (marked : use ∈ busy) (search : AnyDischarges busy rest found after) :
      AnyDischarges busy (use :: rest) found after
  | found {busy inner : Finset Nat} {use : Nat} {rest : List Nat} {verdict : Verdict}
      (unmarked : use ∉ busy) (judged : Evaluates (insert use busy) use true verdict inner)
      (discharges : verdict.discharges = true) :
      AnyDischarges busy (use :: rest) true (inner.erase use)
  | next {busy inner after : Finset Nat} {use : Nat} {rest : List Nat} {verdict : Verdict}
      {found : Bool} (unmarked : use ∉ busy)
      (judged : Evaluates (insert use busy) use true verdict inner)
      (fails : verdict.discharges = false)
      (search : AnyDischarges (inner.erase use) rest found after) :
      AnyDischarges busy (use :: rest) found after

end

def verdictWithin (budget : Nat) (path : List Nat) (node : Nat) (isUse : Bool) : Verdict :=
  (inspection.judgeWithin budget path node isUse).run.verdict

/-- Whether one of some references discharges, those on the path passed over. -/
def anyWithin (budget : Nat) (path uses : List Nat) : Bool :=
  uses.any fun use => !path.contains use &&
    (inspection.verdictWithin budget (use :: path) use true).discharges

variable {inspection}

theorem anyWithin_cons (budget use : Nat) (path rest : List Nat) :
    inspection.anyWithin budget path (use :: rest) =
      ((!path.contains use && (inspection.verdictWithin budget (use :: path) use true).discharges) ||
        inspection.anyWithin budget path rest) := by
  rw [anyWithin, List.any_cons]
  rfl

theorem anyWithin_eq_true_iff {budget : Nat} {path uses : List Nat} :
    inspection.anyWithin budget path uses = true ↔
      ∃ use ∈ uses, use ∉ path ∧
        (inspection.verdictWithin budget (use :: path) use true).discharges = true := by
  simp [anyWithin]

theorem discharges_deferred_or_unhandled (found : Bool) :
    (if found then Verdict.deferred else .unhandled).discharges = found := by
  cases found <;> rfl

theorem anyM_eq_any {α : Type} (test : α → Id Bool) (items : List α) :
    (items.anyM test).run = items.any fun item => (test item).run := by
  induction items with
  | nil => rfl
  | cons item rest ih =>
      rw [List.anyM_cons, List.any_cons, Id.run_bind]
      cases (test item).run with
      | true => rfl
      | false => simpa using ih

/-- One step of the search. -/
theorem verdictWithin_succ (budget : Nat) (path : List Nat) (node : Nat) (isUse : Bool) :
    inspection.verdictWithin (budget + 1) path node isUse =
      match inspection.settled? node isUse with
      | some verdict => verdict
      | none =>
          match inspection.takenBy? node with
          | none => .unhandled
          | some transfer =>
              if inspection.anyWithin budget path transfer.uses then .deferred else .unhandled := by
  rw [verdictWithin, judgeWithin, Id.run_bind, settled?, takenBy?]
  cases (inspection.localVerdict? node isUse).run with
  | some verdict => rfl
  | none =>
      simp only [Id.run_bind]
      cases (inspection.transfer node).run with
      | none => rfl
      | some transfer =>
          have one : ∀ use, Id.run (if path.contains use then pure false
              else return (← inspection.judgeWithin budget (use :: path) use true).verdict.discharges) =
                (!path.contains use &&
                  (inspection.verdictWithin budget (use :: path) use true).discharges) := by
            intro use
            by_cases member : use ∈ path
            · simp [member]
            · simp [member, verdictWithin]
          simp only [Id.run_bind, Id.run_pure, anyM_eq_any, one]
          rfl

/-- The local verdict as a table of questions. -/
theorem settled?_eq (node : Nat) (isUse : Bool) :
    inspection.settled? node isUse =
      if inspection.isDeclarative node then some .notApplicable
      else if (inspection.isResult node).run = false then some .notApplicable
      else if inspection.isHandled node then some .handled
      else if isUse && inspection.isChecked node then some .checked
      else if inspection.isReturned node then some .returned
      else none := by
  unfold settled? localVerdict?
  cases inspection.isDeclarative node with
  | true => rfl
  | false =>
      cases result : (inspection.isResult node).run with
      | false => simp [result]
      | true =>
          simp only [Bool.false_eq_true, if_false, Id.run_bind, result, Bool.not_true,
            Bool.true_eq_false]
          rfl

/-- A local verdict always discharges. -/
theorem discharges_of_settled {node : Nat} {isUse : Bool} {verdict : Verdict}
    (settles : inspection.settled? node isUse = some verdict) : verdict.discharges = true := by
  rw [settled?_eq] at settles
  split_ifs at settles <;> cases Option.some.inj settles <;> rfl

/-! ## Ways to a settled reference -/

variable (inspection) in
/-- A way from a node to a settled reference through references outside of `avoid`. -/
inductive Leads (avoid : List Nat) : Nat → Prop where
  | settled {node use : Nat} (hands : inspection.HandsTo node use) (fresh : use ∉ avoid)
      (settles : (inspection.settled? use true).isSome) : Leads avoid node
  | through {node use : Nat} (hands : inspection.HandsTo node use) (fresh : use ∉ avoid)
      (onward : Leads avoid use) : Leads avoid node

/-- A way can be cut at the last time it passes a reference: what is behind that avoids the reference,
so nothing is lost when the search does not come back to it. -/
theorem Leads.cut {avoid : List Nat} {node : Nat} (leads : inspection.Leads avoid node) (use : Nat) :
    inspection.Leads (use :: avoid) node ∨ inspection.Leads (use :: avoid) use ∨
      (inspection.settled? use true).isSome := by
  induction leads with
  | @settled node other hands fresh settles =>
      by_cases same : other = use
      · exact .inr (.inr (same ▸ settles))
      · exact .inl (.settled hands (by simp [same, fresh]) settles)
  | @through node other hands fresh _ ih =>
      rcases ih with leads | rest
      · by_cases same : other = use
        · exact .inr (.inl (same ▸ leads))
        · exact .inl (.through hands (by simp [same, fresh]) leads)
      · exact .inr rest

theorem Leads.mono {avoid less : List Nat} (subset : less ⊆ avoid) {node : Nat}
    (leads : inspection.Leads avoid node) : inspection.Leads less node := by
  induction leads with
  | settled hands fresh settles => exact .settled hands (fun member => fresh (subset member)) settles
  | through hands fresh _ ih => exact .through hands (fun member => fresh (subset member)) ih

theorem mem_uses_of_taken {node use : Nat} {transfer : Transfer}
    (takes : inspection.takenBy? node = some transfer) :
    use ∈ transfer.uses ↔ inspection.HandsTo node use := by
  rw [mem_uses_iff]
  constructor
  · intro other
    exact ⟨transfer, takes, other⟩
  · rintro ⟨taker, takes', other⟩
    cases Option.some.inj (takes.symm.trans takes')
    exact other

/-- What the search answers: a node discharges if it is settled or a way leads from it to a settled
reference outside of the path. -/
theorem discharges_verdictWithin_iff
    (bounded : ∀ node use, inspection.HandsTo node use → use < inspection.tree.size) :
    ∀ (budget : Nat) (path : List Nat) (node : Nat) (isUse : Bool),
      Room inspection.tree.size budget path →
      ((inspection.verdictWithin budget path node isUse).discharges = true ↔
        (inspection.settled? node isUse).isSome ∨ inspection.Leads path node) := by
  intro budget
  induction budget with
  | zero =>
      intro path node isUse room
      obtain ⟨rest, impossible⟩ := room.positive
      omega
  | succ budget ih =>
      intro path node isUse room
      rw [verdictWithin_succ]
      cases settles : inspection.settled? node isUse with
      | some verdict => simp [discharges_of_settled settles]
      | none =>
          cases takes : inspection.takenBy? node with
          | none =>
              have nowhere : ¬ inspection.Leads path node := by
                intro leads
                cases leads with
                | settled hands _ _ => obtain ⟨_, taken, _⟩ := hands; simp [takes] at taken
                | through hands _ _ => obtain ⟨_, taken, _⟩ := hands; simp [takes] at taken
              simp [nowhere, Verdict.discharges]
          | some transfer =>
              have deeper : ∀ use, inspection.HandsTo node use → use ∉ path →
                  ((inspection.verdictWithin budget (use :: path) use true).discharges = true ↔
                    (inspection.settled? use true).isSome ∨ inspection.Leads (use :: path) use) :=
                fun use hands fresh => ih (use :: path) use true
                  (room.extend fresh (bounded node use hands))
              rw [discharges_deferred_or_unhandled, anyWithin_eq_true_iff]
              simp only [Option.isSome_none, Bool.false_eq_true, false_or]
              constructor
              · rintro ⟨use, member, fresh, discharges⟩
                have hands := (mem_uses_of_taken takes).mp member
                rcases (deeper use hands fresh).mp discharges with settled | leads
                · exact .settled hands fresh settled
                · exact .through hands fresh (leads.mono (List.subset_cons_self use path))
              · intro leads
                cases leads with
                | @settled _ use hands fresh settles =>
                    exact ⟨use, (mem_uses_of_taken takes).mpr hands, fresh,
                      (deeper use hands fresh).mpr (.inl settles)⟩
                | @through _ use hands fresh onward =>
                    refine ⟨use, (mem_uses_of_taken takes).mpr hands, fresh,
                      (deeper use hands fresh).mpr ?_⟩
                    rcases onward.cut use with leads | leads | settles
                    · exact .inr leads
                    · exact .inr leads
                    · exact .inl settles

/-! ## The search without a budget -/

/-- One reference of a search, once the search from each reference is known. -/
theorem anyDischarges_iff {budget : Nat} {path : List Nat} {busy : Finset Nat}
    (tracks : Tracks path busy)
    (judges : ∀ use, use ∉ path → use < inspection.tree.size → ∀ verdict after,
      inspection.Evaluates (insert use busy) use true verdict after ↔
        verdict = inspection.verdictWithin budget (use :: path) use true ∧ after = insert use busy) :
    ∀ uses : List Nat, (∀ use ∈ uses, use < inspection.tree.size) → ∀ found after,
      inspection.AnyDischarges busy uses found after ↔
        found = inspection.anyWithin budget path uses ∧ after = busy := by
  intro uses
  induction uses with
  | nil =>
      intro _ found after
      constructor
      · intro run
        cases run
        exact ⟨rfl, rfl⟩
      · rintro ⟨rfl, rfl⟩
        exact .exhausted
  | cons use rest ih =>
      intro inside found after
      have ih := ih fun other member => inside other (List.mem_cons_of_mem _ member)
      have useInside := inside use List.mem_cons_self
      rw [anyWithin_cons]
      by_cases member : use ∈ path
      · have marked : use ∈ busy := (tracks use).mp member
        have passed : path.contains use = true := List.contains_iff_mem.mpr member
        rw [passed, Bool.not_true, Bool.false_and, Bool.false_or]
        constructor
        · intro run
          cases run with
          | busy _ search => exact (ih found after).mp search
          | found unmarked _ _ => exact absurd marked unmarked
          | next unmarked _ _ _ => exact absurd marked unmarked
        · intro answer
          exact .busy marked ((ih found after).mpr answer)
      · have unmarked : use ∉ busy := fun marked => member ((tracks use).mpr marked)
        have passed : path.contains use = false := by simp [member]
        have judge := judges use member useInside
        rw [passed, Bool.not_false, Bool.true_and]
        constructor
        · intro run
          cases run with
          | busy marked _ => exact absurd marked unmarked
          | found _ judged discharges =>
              obtain ⟨rfl, rfl⟩ := (judge _ _).mp judged
              rw [discharges, Finset.erase_insert unmarked]
              exact ⟨rfl, rfl⟩
          | next _ judged fails search =>
              obtain ⟨rfl, rfl⟩ := (judge _ _).mp judged
              rw [Finset.erase_insert unmarked] at search
              rw [fails, Bool.false_or]
              exact (ih found after).mp search
        · rintro ⟨rfl, rfl⟩
          have judged := (judge _ _).mpr ⟨rfl, rfl⟩
          have restored := Finset.erase_insert unmarked
          cases discharges : (inspection.verdictWithin budget (use :: path) use true).discharges with
          | true =>
              have run : inspection.AnyDischarges after (use :: rest) true
                  ((insert use after).erase use) := .found unmarked judged discharges
              rwa [restored] at run
          | false =>
              have search := (ih _ _).mpr ⟨rfl, rfl⟩
              exact .next unmarked judged discharges (restored.symm ▸ search)

/-- The runs of the search: each of them gives the verdict that the search under a budget gives, ends with
the references in progress with which it started, and there is one. -/
theorem evaluates_iff
    (bounded : ∀ node use, inspection.HandsTo node use → use < inspection.tree.size) :
    ∀ (budget : Nat) (path : List Nat) (busy : Finset Nat) (node : Nat) (isUse : Bool),
      Tracks path busy → Room inspection.tree.size budget path → ∀ verdict after,
      (inspection.Evaluates busy node isUse verdict after ↔
        verdict = inspection.verdictWithin budget path node isUse ∧ after = busy) := by
  intro budget
  induction budget with
  | zero =>
      intro path busy node isUse _ room
      obtain ⟨rest, impossible⟩ := room.positive
      omega
  | succ budget ih =>
      intro path busy node isUse tracks room verdict after
      have search := @anyDischarges_iff τ inspection budget path busy tracks fun use fresh inside =>
        ih (use :: path) (insert use busy) use true (tracks.extend use) (room.extend fresh inside)
      rw [verdictWithin_succ]
      constructor
      · intro run
        cases run with
        | settled settles => rw [settles]; exact ⟨rfl, rfl⟩
        | kept open_ untaken => rw [open_, untaken]; exact ⟨rfl, rfl⟩
        | @taken _ _ _ _ found transfer open_ takes any =>
            have inside : ∀ use ∈ transfer.uses, use < inspection.tree.size := fun use member =>
              bounded node use ((mem_uses_of_taken takes).mp member)
            obtain ⟨rfl, rfl⟩ := (search transfer.uses inside found after).mp any
            rw [open_, takes]
            exact ⟨rfl, rfl⟩
      · rintro ⟨rfl, rfl⟩
        cases settles : inspection.settled? node isUse with
        | some verdict => exact .settled settles
        | none =>
            cases takes : inspection.takenBy? node with
            | none => exact .kept settles takes
            | some transfer =>
                have inside : ∀ use ∈ transfer.uses, use < inspection.tree.size := fun use member =>
                  bounded node use ((mem_uses_of_taken takes).mp member)
                exact .taken settles takes ((search transfer.uses inside _ _).mpr ⟨rfl, rfl⟩)

/-! ## Reachability -/

theorem leads_iff_reaches {producer : Nat} (open_ : inspection.settled? producer false = none) :
    inspection.Leads [] producer ↔
      ∃ use, inspection.Reaches producer use ∧ (inspection.settled? use true).isSome := by
  constructor
  · intro leads
    -- Along the way, each node is the producer or reached from it; it ends at the first settled one.
    have onward : ∀ node, inspection.Leads [] node →
        (∀ use, inspection.HandsTo node use → inspection.Reaches producer use) →
        ∃ use, inspection.Reaches producer use ∧ (inspection.settled? use true).isSome := by
      intro node leads
      induction leads with
      | @settled node use hands _ settles =>
          intro reached
          exact ⟨use, reached use hands, settles⟩
      | @through node use hands _ _ ih =>
          intro reached
          cases settles : inspection.settled? use true with
          | some verdict => exact ⟨use, reached use hands, by rw [settles]; rfl⟩
          | none => exact ih fun other handsOn => .next (reached use hands) settles handsOn
    exact onward producer leads fun use hands => .start open_ hands
  · rintro ⟨use, reached, settles⟩
    have back : ∀ node, inspection.Reaches producer node →
        ((inspection.settled? node true).isSome ∨ inspection.Leads [] node) →
        inspection.Leads [] producer := by
      intro node reached
      induction reached with
      | start _ hands =>
          rintro (settles | leads)
          · exact .settled hands List.not_mem_nil settles
          · exact .through hands List.not_mem_nil leads
      | next _ _ hands ih =>
          rintro (settles | leads)
          · exact ih (.inr (.settled hands List.not_mem_nil settles))
          · exact ih (.inr (.through hands List.not_mem_nil leads))
    exact back use reached (.inl settles)

/-- What a producer's value is handed to is a node of the tree. -/
theorem handsTo_lt_size {tree : Tree} {oracle : Oracle Id τ} {options : RuleOptions} {node use : Nat}
    (hands : HandsTo { tree, scopes := .ofTree tree, oracle, options } node use) :
    use < tree.size := by
  obtain ⟨transfer, takes, ⟨reference, listed, rfl⟩, _⟩ := hands
  obtain ⟨deferral, _, found⟩ := Option.bind_eq_some_iff.mp takes
  obtain ⟨id, stored⟩ := transferOf?_variable found
  exact ScopeAnalysis.reference_lt_size stored listed

theorem unhandled_iff_not_discharges (verdict : Verdict) :
    verdict = .unhandled ↔ ¬ verdict.discharges = true := by
  cases verdict <;> simp [Verdict.discharges]

/-- Judging ends, leaves no reference in progress, and answers `unhandled` exactly when the node is not
settled and reaches no settled reference. So passing over the references on the path never changes the
verdict. -/
theorem judge_unhandled_iff_reaches_none (tree : Tree) (oracle : Oracle Id τ) (options : RuleOptions)
    (producer : Nat) :
    let inspection : Inspection Id τ := { tree, scopes := .ofTree tree, oracle, options }
    let judged := (inspection.judge producer).run.verdict
    (∀ verdict after, inspection.Evaluates ∅ producer false verdict after ↔
      verdict = judged ∧ after = ∅) ∧
    (judged = .unhandled ↔
      inspection.settled? producer false = none ∧
        ∀ use, inspection.Reaches producer use → inspection.settled? use true = none) := by
  intro inspection judged
  have bounded : ∀ node use, inspection.HandsTo node use → use < inspection.tree.size :=
    fun node use hands => handsTo_lt_size hands
  have room := Room.start inspection.tree.size
  refine ⟨evaluates_iff bounded _ [] ∅ producer false (fun use => by simp) room, ?_⟩
  rw [unhandled_iff_not_discharges, show judged = inspection.verdictWithin _ [] producer false from rfl,
    discharges_verdictWithin_iff bounded _ [] producer false room]
  constructor
  · intro neither
    have open_ : inspection.settled? producer false = none := by
      simpa using fun settles => neither (.inl settles)
    refine ⟨open_, fun use reached => ?_⟩
    by_contra settles
    have settles : (inspection.settled? use true).isSome := Option.isSome_iff_ne_none.mpr settles
    exact neither (.inr ((leads_iff_reaches open_).mpr ⟨use, reached, settles⟩))
  · rintro ⟨open_, none_⟩ (settles | leads)
    · simp [open_] at settles
    · obtain ⟨use, reached, settles⟩ := (leads_iff_reaches open_).mp leads
      simp [none_ use reached] at settles

end Inspection

end Heed
