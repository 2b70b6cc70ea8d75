import Heed.Lint
import Heed.Proofs.Rule.Moments
import Heed.Proofs.Scope.Resolution

/-!
# Where deferred results end

A result that is stored in a variable goes on to the other references of the variable, and from there
perhaps to further variables. A deferred verdict rests on a path of such steps. At its end stands a
reference that reads the variable and whose value is handled, checked or returned, or else a lapse: a
reference that is no use of a result, or that overwrites the variable where the assignment is returned.
-/

set_option autoImplicit false

namespace Heed

/-! ## What stands around a written variable -/

namespace Tree

def isTargeting (tree : Tree) (node : Nat) : Bool :=
  tree.isPatternPart node ||
    match tree.kind node with
    | .declarator .. | .assignment .. => true
    | _ => false

theorem isHandledBelow_of_isTargeting {tree : Tree} {isHandler : String → Bool} {value parent : Nat}
    {accessed : Bool} {above : List Nat} (targeting : tree.isTargeting parent = true) :
    tree.isHandledBelow isHandler value accessed (parent :: above) = false := by
  unfold isTargeting isPatternPart at targeting
  rw [isHandledBelow]
  cases kindEq : tree.kind parent <;> simp_all

theorem isMemberOf_of_isTargeting {tree : Tree} {value parent : Nat}
    (targeting : tree.isTargeting parent = true) : tree.isMemberOf parent value = false := by
  unfold isTargeting isPatternPart at targeting
  rw [isMemberOf]
  cases kindEq : tree.kind parent <;> simp_all

end Tree

/-- A reference that only writes is a target. -/
theorem Use.parent_of_write {tree : Tree} (formed : tree.WellFormed) {use : Use}
    (member : use ∈ ScopeAnalysis.usesOf tree) (writes : use.reference.access.isRead = false) :
    ∃ parent, tree.parent? use.reference.identifier = some parent ∧ tree.isTargeting parent = true := by
  obtain ⟨owner, scope, -, -, member⟩ := (mem_usesOf_iff formed).mp member
  -- The identifiers that a target binds stand in it or in a pattern inside it.
  have below : ∀ target ∈ tree.children owner, tree.isTargeting owner = true →
      ∀ identifier, tree.Binds identifier target →
        ∃ parent, tree.parent? identifier = some parent ∧ tree.isTargeting parent = true := by
    intro target listed targeting identifier binds
    rcases formed.eq_or_part_of_binds binds with rfl | ⟨parent, found, part⟩
    · exact ⟨owner, (formed.parent_iff identifier owner).mpr listed, targeting⟩
    · exact ⟨parent, found, by rw [Tree.isTargeting, part, Bool.true_or]⟩
  rw [own] at member
  split at member
  case h_1 =>
      split at member
      case isTrue => cases member
      case isFalse =>
          obtain ⟨name, -, rfl⟩ := Option.map_eq_some_iff.mp (Option.mem_toList.mp member)
          cases writes
  case h_2 target init kindEq =>
      split at member
      case isTrue =>
          obtain ⟨identifier, bound, found⟩ := List.mem_filterMap.mp member
          obtain ⟨id, -, rfl⟩ := Option.map_eq_some_iff.mp found
          exact below target (by rw [Tree.children, kindEq]; exact List.mem_cons_self)
            (by rw [Tree.isTargeting, kindEq, Bool.or_true]) identifier (formed.mem_boundBy_iff.mp bound)
      case isFalse => cases member
  case h_3 =>
      split at member
      case isTrue =>
          obtain ⟨name, -, rfl⟩ := Option.map_eq_some_iff.mp (Option.mem_toList.mp member)
          cases writes
      case isFalse => cases member
  case h_4 operator left right kindEq =>
      have below := below left (by rw [Tree.children, kindEq]; exact List.mem_cons_self)
        (by rw [Tree.isTargeting, kindEq, Bool.or_true])
      split at member
      case isTrue isName =>
          obtain ⟨name, -, rfl⟩ := Option.map_eq_some_iff.mp (Option.mem_toList.mp member)
          have bound : left ∈ tree.boundBy left := by
            rw [formed.boundBy_eq, if_pos isName]
            exact List.mem_singleton.mpr rfl
          exact below left (formed.mem_boundBy_iff.mp bound)
      case isFalse =>
          split at member
          case isTrue =>
              obtain ⟨identifier, bound, found⟩ := List.mem_filterMap.mp member
              obtain ⟨name, -, rfl⟩ := Option.map_eq_some_iff.mp found
              exact below identifier (formed.mem_boundBy_iff.mp bound)
          case isFalse => cases member
  case h_5 => cases member

namespace Inspection

variable {σ τ : Type} (inspection : Inspection (StateM σ) τ) (start : σ)

/-- A variable takes over the value of a node, and this is another reference of the variable. -/
def Passes (node : Nat) (reference : Reference) : Prop :=
  ∃ deferral transfer, inspection.Stores start node deferral ∧
    inspection.transferOf? deferral = some transfer ∧
    reference ∈ transfer.variable_.references ∧ reference.identifier ≠ transfer.binding

/-- The references to which the value of a producer is passed, from variable to variable. -/
inductive Aliases (producer : Nat) : Reference → Prop where
  | first {reference : Reference} (passes : inspection.Passes start producer reference) :
      Aliases producer reference
  | next {earlier reference : Reference} (aliases : Aliases producer earlier)
      (passes : inspection.Passes start earlier.identifier reference) : Aliases producer reference

/-- A reference reads a result from its variable that is handled, checked or returned. -/
structure Sound (reference : Reference) : Prop where
  reads : reference.access.isRead = true
  isUse : inspection.isDeclarative reference.identifier = false
  isResult : inspection.Answers start reference.identifier true
  ends : inspection.isHandled reference.identifier = true ∨
    inspection.isChecked reference.identifier = true ∨ inspection.isReturned reference.identifier = true

/-- A reference ends the search although it does nothing with the result in its variable. -/
inductive Lapses (reference : Reference) : Prop where
  | declarative (stands : inspection.isDeclarative reference.identifier = true) : Lapses reference
  | noResult (answers : inspection.Answers start reference.identifier false) : Lapses reference
  | overwrites (writes : reference.access.isRead = false)
      (returned : inspection.isReturned reference.identifier = true) : Lapses reference

def Ends (node : Nat) (isUse : Bool) : Prop :=
  ∃ answer, inspection.Answers start node answer ∧
    ∃ verdict, inspection.verdictBy node isUse answer = some verdict

variable {inspection start}

theorem Aliases.trans {producer : Nat} {earlier reference : Reference}
    (aliases : inspection.Aliases start producer earlier)
    (onward : inspection.Aliases start earlier.identifier reference) :
    inspection.Aliases start producer reference := by
  induction onward with
  | first passes => exact .next aliases passes
  | next _ passes ih => exact .next ih passes

theorem Passes.exists_variable {node : Nat} {reference : Reference}
    (passes : inspection.Passes start node reference) :
    ∃ (id : Nat) (owner : Variable), inspection.scopes.allVariables[id]? = some owner ∧
      reference ∈ owner.references := by
  obtain ⟨deferral, transfer, -, takes, listed, -⟩ := passes
  obtain ⟨id, stored⟩ := transferOf?_variable takes
  exact ⟨id, _, stored, listed⟩

theorem Aliases.exists_variable {producer : Nat} {reference : Reference}
    (aliases : inspection.Aliases start producer reference) :
    ∃ (id : Nat) (owner : Variable), inspection.scopes.allVariables[id]? = some owner ∧
      reference ∈ owner.references := by
  cases aliases with
  | first passes => exact passes.exists_variable
  | next _ passes => exact passes.exists_variable

/-- What only writes is neither handled nor checked. -/
theorem isRead_of_handled_or_checked (formed : inspection.tree.WellFormed)
    (analysed : inspection.scopes = .ofTree inspection.tree) {id : Nat} {owner : Variable}
    {reference : Reference} (stored : inspection.scopes.allVariables[id]? = some owner)
    (listed : reference ∈ owner.references)
    (ends : inspection.isHandled reference.identifier = true ∨
      inspection.isChecked reference.identifier = true) : reference.access.isRead = true := by
  by_contra writes
  rw [analysed] at stored
  obtain ⟨parent, found, targeting⟩ := Use.parent_of_write formed
    (ScopeAnalysis.mem_usesOf_of_reference stored listed) (Bool.eq_false_of_not_eq_true writes)
  rw [isHandled, isChecked, formed.ancestors_eq_cons found,
    Tree.isHandledBelow_of_isTargeting targeting] at ends
  cases aboveEq : inspection.tree.ancestors parent <;>
    simp [aboveEq, Tree.isMemberOf_of_isTargeting targeting] at ends

theorem ends_iff_sound_or_lapses (formed : inspection.tree.WellFormed)
    (analysed : inspection.scopes = .ofTree inspection.tree) {id : Nat} {owner : Variable}
    {reference : Reference} (stored : inspection.scopes.allVariables[id]? = some owner)
    (listed : reference ∈ owner.references) :
    inspection.Ends start reference.identifier true ↔
      inspection.Sound start reference ∨ inspection.Lapses start reference := by
  have isRead := isRead_of_handled_or_checked formed analysed stored listed
  constructor
  · rintro ⟨answer, answers, ended⟩
    cases isUse : inspection.isDeclarative reference.identifier with
    | true => exact .inr (.declarative isUse)
    | false =>
        cases answer with
        | false => exact .inr (.noResult answers)
        | true =>
            rcases exists_verdictBy_iff.mp ended with stands | noResult | handled | ⟨-, checked⟩ | returned
            · rw [isUse] at stands
              cases stands
            · cases noResult
            · exact .inl ⟨isRead (.inl handled), isUse, answers, .inl handled⟩
            · exact .inl ⟨isRead (.inr checked), isUse, answers, .inr (.inl checked)⟩
            · cases reads : reference.access.isRead with
              | true => exact .inl ⟨reads, isUse, answers, .inr (.inr returned)⟩
              | false => exact .inr (.overwrites reads returned)
  · have first : inspection.Answers start reference.identifier _ := ⟨start, .start, rfl⟩
    rintro (⟨-, -, answers, ends⟩ | lapses)
    · refine ⟨true, answers, exists_verdictBy_iff.mpr (.inr (.inr ?_))⟩
      rcases ends with handled | checked | returned
      · exact .inl handled
      · exact .inr (.inl ⟨rfl, checked⟩)
      · exact .inr (.inr returned)
    · cases lapses with
      | declarative stands => exact ⟨_, first, exists_verdictBy_iff.mpr (.inl stands)⟩
      | noResult answers => exact ⟨false, answers, exists_verdictBy_iff.mpr (.inr (.inl rfl))⟩
      | overwrites _ returned =>
          exact ⟨_, first, exists_verdictBy_iff.mpr (.inr (.inr (.inr (.inr returned))))⟩

/-! ## What a verdict rests on -/

theorem Yields.transfer (formed : inspection.tree.WellFormed) (node : Nat) :
    inspection.Yields start (inspection.transfer node) fun transfer? =>
      ∀ transfer, transfer? = some transfer → ∀ use ∈ transfer.uses,
        ∃ reference, inspection.Passes start node reference ∧ reference.identifier = use := by
  refine .bind (.deferral formed node) fun deferral? stores => .pure ?_
  intro transfer found use member
  obtain ⟨deferral, rfl, takes⟩ := Option.bind_eq_some_iff.mp found
  obtain ⟨⟨reference, listed, rfl⟩, other⟩ := mem_uses_iff.mp member
  exact ⟨reference, ⟨deferral, transfer, stores deferral rfl, takes, listed, other⟩, rfl⟩

variable (inspection start) in
/-- What a verdict on a node says: a deferred one, that the value is passed to a reference with a verdict
by itself; any other that discharges, that the node has one. -/
def Accounts (node : Nat) (isUse : Bool) (verdict : Verdict) : Prop :=
  (verdict = .deferred → ∃ reference, inspection.Aliases start node reference ∧
    inspection.Ends start reference.identifier true) ∧
  (verdict.discharges = true → verdict = .deferred ∨ inspection.Ends start node isUse)

theorem accounts_unhandled (node : Nat) (isUse : Bool) :
    inspection.Accounts start node isUse .unhandled :=
  ⟨by simp, by simp [Verdict.discharges]⟩

theorem Yields.judgeWithin (formed : inspection.tree.WellFormed) (budget : Nat) (path : List Nat)
    (node : Nat) (isUse : Bool) :
    inspection.Yields start (inspection.judgeWithin budget path node isUse) fun judgement =>
      inspection.Accounts start node isUse judgement.verdict := by
  induction budget generalizing path node isUse with
  | zero => exact .pure (accounts_unhandled node isUse)
  | succ budget ih =>
      rw [Inspection.judgeWithin]
      refine .bind (.localVerdict? node isUse) ?_
      rintro verdict? ⟨answer, answers, given⟩
      cases verdict? with
      | some verdict =>
          refine .pure ⟨?_, fun _ => .inr ⟨answer, answers, verdict, given.symm⟩⟩
          rintro rfl
          exact absurd given.symm verdictBy_ne_deferred
      | none =>
          refine .bind (.transfer formed node) fun transfer? passes => ?_
          cases transfer? with
          | none => exact .pure (accounts_unhandled node isUse)
          | some transfer =>
              refine .bind (.search (fun use => inspection.Accounts start use true)
                fun use _ _ => ih (use :: path) use true) fun found searched => .pure ?_
              cases found with
              | false => exact accounts_unhandled node isUse
              | true =>
                  refine ⟨fun _ => ?_, fun _ => .inl rfl⟩
                  -- The reference that was found ends by itself or is deferred, and then its path goes on.
                  obtain ⟨use, listed, -, verdict, ⟨deferred, ended⟩, discharges⟩ := searched.1 rfl
                  obtain ⟨reference, passes, rfl⟩ := passes transfer rfl use listed
                  rcases ended discharges with isDeferred | ends
                  · obtain ⟨last, aliases, ends⟩ := deferred isDeferred
                    exact ⟨last, Aliases.trans (.first passes) aliases, ends⟩
                  · exact ⟨reference, .first passes, ends⟩

/-! ## The converse, where no answer changes -/

variable (inspection start) in
/-- A producer makes a result that nothing around it handles or returns. -/
structure Pending (producer : Nat) : Prop where
  isUse : inspection.isDeclarative producer = false
  isResult : inspection.Answers start producer true
  unhandled : inspection.isHandled producer = false
  kept : inspection.isReturned producer = false

namespace Steady

variable (steady : inspection.Steady start)

include steady

theorem ends_iff {node : Nat} {isUse : Bool} :
    inspection.Ends start node isUse ↔ ((inspection.stilled start).settled? node isUse).isSome := by
  rw [settled?_eq_verdictBy, Option.isSome_iff_exists]
  constructor
  · rintro ⟨answer, answers, verdict, given⟩
    rw [← steady.answer_eq answers]
    exact ⟨verdict, given⟩
  · intro given
    rw [isResult_stilled] at given
    exact ⟨_, ⟨start, .start, rfl⟩, given⟩

theorem pending_iff {producer : Nat} :
    inspection.Pending start producer ↔ ¬ inspection.Ends start producer false := by
  constructor
  · rintro ⟨isUse, isResult, unhandled, kept⟩ ⟨answer, answers, ended⟩
    rcases exists_verdictBy_iff.mp ended with stands | rfl | handled | ⟨checks, -⟩ | returned
    · simp [isUse] at stands
    · exact steady producer ⟨isResult, answers⟩
    · simp [unhandled] at handled
    · cases checks
    · simp [kept] at returned
  · intro open_
    have first : inspection.Answers start producer ((inspection.isResult producer).run start).1 :=
      ⟨start, .start, rfl⟩
    have unsettled := mt exists_verdictBy_iff.mpr fun settles => open_ ⟨_, first, settles⟩
    rw [not_or, not_or, not_or, not_or, Bool.not_eq_true, Bool.not_eq_false, Bool.not_eq_true,
      Bool.not_eq_true] at unsettled
    obtain ⟨isUse, isResult, unhandled, -, kept⟩ := unsettled
    rw [isResult] at first
    exact ⟨isUse, first, unhandled, kept⟩

theorem deferral_of_stores (formed : inspection.tree.WellFormed) {node : Nat} {deferral : Deferral}
    (stores : inspection.Stores start node deferral) :
    ((inspection.stilled start).deferral node).run = some deferral := by
  have climb : ∀ {node parent : Nat}, inspection.tree.parent? node = some parent →
      (inspection.stilled start).deferral node =
        (inspection.stilled start).deferralBelow node (parent :: inspection.tree.ancestors parent) := by
    intro node parent found
    rw [← formed.ancestors_eq_cons found]
    rfl
  induction stores with
  | here found stored answers =>
      rw [climb found, Inspection.deferralBelow]
      simp only [show (inspection.stilled start).tree = inspection.tree from rfl, stored, Id.run_bind,
        ← steady.answer_eq answers]
      rfl
  | past found stored answers _ ih =>
      rw [climb found, Inspection.deferralBelow]
      simp only [show (inspection.stilled start).tree = inspection.tree from rfl, stored, Id.run_bind,
        ← steady.answer_eq answers]
      exact ih
  | around found unstored inside _ ih =>
      rw [climb found, Inspection.deferralBelow]
      simp only [show (inspection.stilled start).tree = inspection.tree from rfl, unstored, inside]
      exact ih

theorem handsTo_of_passes (formed : inspection.tree.WellFormed) {node : Nat} {reference : Reference}
    (passes : inspection.Passes start node reference) :
    (inspection.stilled start).HandsTo node reference.identifier := by
  obtain ⟨deferral, transfer, stores, takes, listed, other⟩ := passes
  refine ⟨transfer, ?_, ⟨reference, listed, rfl⟩, other⟩
  have found : ((inspection.stilled start).transfer node).run =
      (((inspection.stilled start).deferral node).run).bind (inspection.stilled start).transferOf? := rfl
  rw [takenBy?, found, steady.deferral_of_stores formed stores]
  exact takes

theorem leads_of_aliases (formed : inspection.tree.WellFormed) {producer : Nat} {reference : Reference}
    (aliases : inspection.Aliases start producer reference)
    (onward : ((inspection.stilled start).settled? reference.identifier true).isSome ∨
      (inspection.stilled start).Leads [] reference.identifier) :
    (inspection.stilled start).Leads [] producer := by
  have cons : ∀ {node : Nat} {reference : Reference}, inspection.Passes start node reference →
      ((inspection.stilled start).settled? reference.identifier true).isSome ∨
        (inspection.stilled start).Leads [] reference.identifier →
      (inspection.stilled start).Leads [] node := by
    intro node reference passes onward
    have hands := steady.handsTo_of_passes formed passes
    rcases onward with settles | leads
    · exact .settled hands List.not_mem_nil settles
    · exact .through hands List.not_mem_nil leads
  induction aliases with
  | first passes => exact cons passes onward
  | next _ passes ih => exact ih (.inr (cons passes onward))

theorem deferred_iff (formed : inspection.tree.WellFormed)
    (analysed : inspection.scopes = .ofTree inspection.tree) {state : σ}
    (moment : inspection.Moment start state) (producer : Nat) :
    ((inspection.judge producer).run state).1.verdict = .deferred ↔
      inspection.Pending start producer ∧ ∃ reference, inspection.Aliases start producer reference ∧
        inspection.Ends start reference.identifier true := by
  have bounded : ∀ node use, (inspection.stilled start).HandsTo node use →
      use < (inspection.stilled start).tree.size := by
    obtain ⟨tree, scopes, oracle, options⟩ := inspection
    have analysed : scopes = .ofTree tree := analysed
    subst analysed
    exact fun node use hands => handsTo_lt_size hands
  have same := (steady.judgeWithin (inspection.tree.size + 1) [] producer false state moment).1
  have accounts := (Yields.judgeWithin formed (inspection.tree.size + 1) [] producer false state moment).1
  rw [steady.pending_iff]
  constructor
  · intro deferred
    refine ⟨fun ends => ?_, accounts.1 deferred⟩
    obtain ⟨verdict, settles⟩ := Option.isSome_iff_exists.mp (steady.ends_iff.mp ends)
    have settled : ((inspection.judge producer).run state).1.verdict = verdict := by
      rw [judge, same, verdictWithin_succ, settles]
    rw [settled?_eq_verdictBy, ← settled, deferred] at settles
    exact verdictBy_ne_deferred settles
  · rintro ⟨pending, reference, aliases, ends⟩
    have leads := steady.leads_of_aliases formed aliases (.inl (steady.ends_iff.mp ends))
    have discharges := (discharges_verdictWithin_iff bounded _ [] producer false
      (Room.start _)).mpr (.inr leads)
    exact (accounts.2 (by rw [same]; exact discharges)).resolve_right pending

end Steady

/-! ## The session of a source -/

/-- The state of a session in which some producers have been judged. -/
def after (inspection : Inspection (StateM σ) τ) (start : σ) (earlier : List Nat) : σ :=
  ((earlier.mapM inspection.blame?).run start).2

theorem moment_after (formed : inspection.tree.WellFormed) (earlier : List Nat) :
    inspection.Moment start (inspection.after start earlier) := by
  have each : ∀ producer, inspection.Yields start (inspection.blame? producer) fun _ => True :=
    fun producer => .bind (.judgeWithin formed _ [] producer false) fun _ _ => .pure trivial
  exact (Yields.mapM (fun producer _ => each producer) start .start).2

end Inspection

namespace Inspection

/-- A deferred verdict on a producer rests on a path to a reference that is sound or a lapse, whatever has
been judged before. If no answer of the oracle changes in the course of the session, the verdict is
deferred just if the producer is pending and such a path exists. So a deferred result without a sound path
is one of which all paths that end do so at lapses. -/
theorem parse_deferred_sound_or_lapses {σ τ : Type} (source : String) (tree : Tree)
    (parsed : Tree.parse source = .ok tree) (oracle : Oracle (StateM σ) τ) (options : RuleOptions)
    (start : σ) (earlier : List Nat) (producer : Nat) :
    let inspection : Inspection (StateM σ) τ := { tree, scopes := .ofTree tree, oracle, options }
    let verdict := ((inspection.judge producer).run (inspection.after start earlier)).1.verdict
    (verdict = .deferred →
      ∃ reference, inspection.Aliases start producer reference ∧
        (inspection.Sound start reference ∨ inspection.Lapses start reference)) ∧
    (inspection.Steady start →
      (verdict = .deferred ↔
        inspection.Pending start producer ∧
          ∃ reference, inspection.Aliases start producer reference ∧
            (inspection.Sound start reference ∨ inspection.Lapses start reference))) := by
  intro inspection verdict
  have formed : inspection.tree.WellFormed := Tree.wellFormed_of_parse parsed
  have moment : inspection.Moment start (inspection.after start earlier) := moment_after formed earlier
  have paths_iff : (∃ reference, inspection.Aliases start producer reference ∧
      inspection.Ends start reference.identifier true) ↔
        ∃ reference, inspection.Aliases start producer reference ∧
          (inspection.Sound start reference ∨ inspection.Lapses start reference) := by
    refine exists_congr fun reference => and_congr_right fun aliases => ?_
    obtain ⟨id, owner, stored, listed⟩ := aliases.exists_variable
    exact ends_iff_sound_or_lapses formed rfl stored listed
  constructor
  · intro deferred
    exact paths_iff.mp ((Yields.judgeWithin formed _ [] producer false _ moment).1.1 deferred)
  · intro steady
    rw [← paths_iff]
    exact steady.deferred_iff formed rfl moment producer

/-- A result that is handled behind two variables. -/
theorem parse_deferred_sound_or_lapses_chained :
    ∃ tree, Tree.parse "const res = result()\nlet rest\nrest = res\nrest.match()" = .ok tree ∧
      let inspection : Inspection Oracle.Asked Bool :=
        { tree, scopes := .ofTree tree, oracle := .byName tree "res", options := .standard }
      ∃ producer, inspection.Steady [] ∧ inspection.Pending [] producer ∧
        ∃ reference, inspection.Aliases [] producer reference ∧
          (inspection.Sound [] reference ∨ inspection.Lapses [] reference) := by
  have checks : (Tree.parse "const res = result()\nlet rest\nrest = res\nrest.match()").toOption.any
      (fun tree =>
        let inspection : Inspection Oracle.Asked Bool :=
          { tree, scopes := .ofTree tree, oracle := .byName tree "res", options := .standard }
        tree.producers.any fun producer =>
          ((inspection.judge producer).run (inspection.after [] [])).1.verdict == .deferred) = true := by
    decide +kernel
  obtain ⟨tree, parsed, checks⟩ := Tree.exists_of_checks checks
  obtain ⟨producer, -, deferred⟩ := List.any_eq_true.mp checks
  have steady := steady_byName tree (.ofTree tree) .standard "res" []
  have both := parse_deferred_sound_or_lapses _ tree parsed (.byName tree "res") .standard [] [] producer
  exact ⟨tree, parsed, producer, steady, (both.2 steady).mp (beq_iff_eq.mp deferred)⟩

/-! ## A result that is lost behind a type assertion -/

end Inspection

/-- Where the values of a node and of the nodes above it are stored, results or not. -/
def Tree.storesAlong (tree : Tree) (child : Nat) : List Nat → List Deferral
  | [] => []
  | parent :: above => (tree.storedBy? parent child).toList ++ tree.storesAlong parent above

namespace Inspection

section Bounds

variable {σ τ : Type} {inspection : Inspection (StateM σ) τ} {start : σ}

/-- The references to which the value of a node may be passed, whatever the oracle answers. -/
def passable (inspection : Inspection (StateM σ) τ) (node : Nat) : List Reference :=
  let stores := inspection.tree.storesAlong node (inspection.tree.ancestors node)
  (stores.filterMap inspection.transferOf?).flatMap fun transfer =>
    transfer.variable_.references.filter (·.identifier != transfer.binding)

theorem Stores.mem_storesAlong (formed : inspection.tree.WellFormed) {node : Nat} {deferral : Deferral}
    (stores : inspection.Stores start node deferral) :
    deferral ∈ inspection.tree.storesAlong node (inspection.tree.ancestors node) := by
  induction stores with
  | here found stored _ =>
      rw [formed.ancestors_eq_cons found, Tree.storesAlong, stored]
      exact List.mem_cons_self
  | past found _ _ _ ih =>
      rw [formed.ancestors_eq_cons found, Tree.storesAlong]
      exact List.mem_append_right _ ih
  | around found _ _ _ ih =>
      rw [formed.ancestors_eq_cons found, Tree.storesAlong]
      exact List.mem_append_right _ ih

theorem Passes.mem_passable (formed : inspection.tree.WellFormed) {node : Nat} {reference : Reference}
    (passes : inspection.Passes start node reference) : reference ∈ inspection.passable node := by
  obtain ⟨deferral, transfer, stores, takes, listed, other⟩ := passes
  refine List.mem_flatMap.mpr ⟨transfer, List.mem_filterMap.mpr ⟨deferral, ?_, takes⟩, ?_⟩
  · exact stores.mem_storesAlong formed
  · exact List.mem_filter.mpr ⟨listed, by simpa using other⟩

/-- If the value stops at the first references, all are among them. -/
theorem Aliases.mem_passable (formed : inspection.tree.WellFormed) {producer : Nat}
    (stops : ∀ reference ∈ inspection.passable producer, inspection.passable reference.identifier = [])
    {reference : Reference} (aliases : inspection.Aliases start producer reference) :
    reference ∈ inspection.passable producer := by
  induction aliases with
  | first passes => exact passes.mem_passable formed
  | next _ passes ih =>
      have member := passes.mem_passable formed
      rw [stops _ ih] at member
      cases member

end Bounds

/-- Makes a result and stores it in a variable that is never used but as the operand of an assertion. -/
def assertedAway : String :=
  "declare class R \x7b map(): R; mapErr(): R; andThen(): R; orElse(): R; match(): number; " ++
    "unwrapOr(): number \x7d\ndeclare function make(): R\nconst r = make()\nr as unknown"

/-- Nothing is found in it, although no reference to which the result is passed is sound. -/
theorem lint_assertedAway_unsound :
    lint .standard assertedAway = .ok [] ∧
      ∃ tree, Tree.parse assertedAway = .ok tree ∧
        let start := (Checker.ofTree tree).fresh
        let inspection : Inspection Session Ty :=
          { tree, scopes := .ofTree tree, oracle := .ofChecker (.ofTree tree), options := .standard }
        ∃ producer ∈ tree.producers,
          ((inspection.judge producer).run (inspection.after start [])).1.verdict = .deferred ∧
            ¬ ∃ reference, inspection.Aliases start producer reference ∧
              inspection.Sound start reference := by
  constructor
  · have none_ : (lint .standard assertedAway).toOption.any List.isEmpty = true := by decide +kernel
    cases found : lint .standard assertedAway with
    | error error =>
        rw [found] at none_
        cases none_
    | ok findings =>
        rw [found] at none_
        exact congrArg Except.ok (List.isEmpty_iff.mp none_)
  · have checks : (Tree.parse assertedAway).toOption.any (fun tree =>
        let inspection : Inspection Session Ty :=
          { tree, scopes := .ofTree tree, oracle := .ofChecker (.ofTree tree), options := .standard }
        tree.producers.any fun producer =>
          ((inspection.judge producer).run (Checker.ofTree tree).fresh).1.verdict == .deferred &&
            (inspection.passable producer).all fun reference =>
              inspection.isDeclarative reference.identifier &&
                (inspection.passable reference.identifier).isEmpty) = true := by decide +kernel
    obtain ⟨tree, parsed, checks⟩ := Tree.exists_of_checks checks
    obtain ⟨producer, produced, checks⟩ := List.any_eq_true.mp checks
    rw [Bool.and_eq_true, List.all_eq_true, beq_iff_eq] at checks
    obtain ⟨deferred, lapse⟩ := checks
    refine ⟨tree, parsed, producer, produced, deferred, ?_⟩
    rintro ⟨reference, aliases, sound⟩
    have listed := aliases.mem_passable (Tree.wellFormed_of_parse parsed) fun other member =>
      List.isEmpty_iff.mp (Bool.and_eq_true _ _ ▸ lapse other member).2
    have stands := (Bool.and_eq_true _ _ ▸ lapse reference listed).1
    rw [sound.isUse] at stands
    cases stands

end Inspection

end Heed
