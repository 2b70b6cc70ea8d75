import Heed.Proofs.Rule.Awaiting

/-!
# Who answers for a lost value

A value that is lost after a declarator has stored it is reported at the first reference of the variable. The
identifier of the declarator is a reference, but the first one only if no other declaration or use of the
variable stands before it.
-/

set_option autoImplicit false

namespace Heed

theorem Tree.declarator_of_storedBy? {tree : Tree} {node child declarator identifier : Nat}
    (stored : tree.storedBy? node child = some (.declaration declarator identifier)) :
    tree.kind declarator = .declarator identifier (some child) := by
  unfold storedBy? at stored
  split at stored
  case h_1 target init kindEq =>
      split at stored
      case isTrue stores =>
          cases Option.some.inj stored
          obtain ⟨same, -⟩ := Bool.and_eq_true_iff.mp stores
          rw [kindEq, eq_of_beq same]
      case isFalse => cases stored
  case h_2 => split at stored <;> cases stored
  case h_3 => cases stored

/-- What a declarator binds is declared by the declarator itself. -/
theorem Declared.exists_binding_of_declarator {tree : Tree} (formed : tree.WellFormed) (fits : tree.Fits)
    {declarator pattern identifier : Nat} {init : Option Nat}
    (kindEq : tree.kind declarator = .declarator pattern init) (binds : tree.Binds identifier pattern) :
    ∃ binding ∈ (Survey.ofTree tree).bindings.toList, binding.identifier = identifier ∧
      binding.owner = declarator := by
  obtain ⟨parent, fills⟩ := formed.declaration_of_declarator fits kindEq
  obtain ⟨word, declarators, ambient, parentEq, listed⟩ := Tree.declaration_of_fills fills
  obtain ⟨name, named⟩ := Tree.exists_name_of_binds binds
  obtain ⟨enclosing, function, -, -, included⟩ := exists_binding_outside formed
    (show declarator ∈ tree.children parent by rw [Tree.children, parentEq]; exact listed)
    (by simp [parentEq])
  let scope := if word = .var_ then function else enclosing
  refine ⟨{ scope, owner := declarator, identifier, name }, included _ ?_, rfl, rfl⟩
  rw [Survey.outerRecords, parentEq]
  refine List.mem_flatMap.mpr ⟨declarator, listed, ?_⟩
  rw [kindEq]
  exact mem_records_iff.mpr ⟨formed.mem_boundBy_iff.mpr binds, named, rfl, rfl⟩

namespace ScopeAnalysis

variable {tree : Tree} (formed : tree.WellFormed) (fits : tree.Fits)

include formed fits

/-- An identifier that binds a variable means it. -/
theorem variableId?_of_mem_identifiers {id identifier : Nat} {owner : Variable}
    (stored : (ofTree tree).allVariables[id]? = some owner) (member : identifier ∈ owner.identifiers) :
    (ofTree tree).variableId? identifier = some id := by
  rw [getElem?_allVariables, Option.map_eq_some_iff] at stored
  obtain ⟨key, keyAt, rfl⟩ := stored
  obtain ⟨binding, listed, rfl⟩ := List.mem_map.mp member
  obtain ⟨recorded, keyEq⟩ := List.mem_filter.mp listed
  have position : (Declared.ofTree tree).keys.idxOf binding.key = id := by
    have bounded := List.idxOf_lt_length_of_mem (Declared.key_mem recorded)
    have found := List.getElem?_idxOf (Declared.key_mem recorded)
    rw [eq_of_beq keyEq] at bounded found ⊢
    exact (List.getElem?_inj bounded (nodup_eraseDups _)).mp (found.trans keyAt.symm)
  rw [variableId?_eq_some_iff formed fits, ← position]
  exact mem_meanings_of_binding recorded

/-- The variable of an initialised declarator is the one that its identifier means and writes to. -/
theorem exists_variableBy_declarator {declarator identifier value : Nat}
    (kindEq : tree.kind declarator = .declarator identifier (some value))
    (named : (tree.kind identifier).isIdentifier = true) :
    ∃ owner, (ofTree tree).meaning? identifier = some owner ∧
      ((ofTree tree).variablesBy declarator).find? (·.identifiers.contains identifier) = some owner ∧
      ⟨identifier, .write, true⟩ ∈ owner.references := by
  have binds : tree.Binds identifier identifier := by
    rw [← formed.mem_boundBy_iff, formed.boundBy_eq, if_pos named]
    exact List.mem_singleton_self identifier
  obtain ⟨id, owner, means, stored, bound, written⟩ := exists_write_of_initialised formed fits
    ⟨declarator, identifier, some value, kindEq, binds, .inl rfl⟩
  have meaning : (ofTree tree).meaning? identifier = some owner := by
    rw [meaning?, means, Option.bind_some, stored]
  -- The declarator declares the variable.
  obtain ⟨binding, recorded, rfl, owned⟩ := Declared.exists_binding_of_declarator formed fits kindEq binds
  have sameId := (variableId?_eq_some_iff formed fits).mpr (mem_meanings_of_binding recorded)
  rw [means] at sameId
  have declares : owner ∈ (ofTree tree).variablesBy declarator := by
    refine List.mem_filterMap.mpr ⟨id, List.mem_map.mpr ⟨binding, ?_, (Option.some.inj sameId).symm⟩, stored⟩
    exact List.mem_filter.mpr ⟨recorded, beq_iff_eq.mpr owned⟩
  refine ⟨owner, meaning, ?_, written⟩
  cases found : ((ofTree tree).variablesBy declarator).find? (·.identifiers.contains binding.identifier) with
  | none =>
      have missing := List.find?_eq_none.mp found owner declares
      exact absurd (List.contains_iff_mem.mpr bound) missing
  | some other =>
      -- No other variable is bound by the identifier.
      obtain ⟨otherId, -, otherStored⟩ := List.mem_filterMap.mp (List.mem_of_find?_eq_some found)
      have otherBound : binding.identifier ∈ other.identifiers := by
        have contained := List.find?_some found
        exact List.contains_iff_mem.mp contained
      have sameId := variableId?_of_mem_identifiers formed fits otherStored otherBound
      rw [means] at sameId
      rw [← Option.some.inj sameId, stored] at otherStored
      rw [otherStored]

omit formed fits in
/-- References rise in source position. -/
theorem pairwise_references {source : String} (parsed : Tree.parse source = .ok tree) {id : Nat}
    {owner : Variable} (stored : (ofTree tree).allVariables[id]? = some owner) :
    owner.references.Pairwise fun left right =>
      (tree.span left.identifier).start < (tree.span right.identifier).start := by
  rw [references_eq stored, List.pairwise_map]
  exact (pairwise_usesOf parsed).filter _

end ScopeAnalysis

/-- Only the first reference stands before all others. -/
theorem Variable.first_eq_iff {tree : Tree} {owner : Variable} {first : Reference}
    (ordered : owner.references.Pairwise fun left right =>
      (tree.span left.identifier).start < (tree.span right.identifier).start)
    (leads : owner.references.head? = some first) :
    ∀ reference ∈ owner.references, (first.identifier = reference.identifier ↔
      ∀ other ∈ owner.references,
        (tree.span reference.identifier).start ≤ (tree.span other.identifier).start) := by
  obtain ⟨rest, listed⟩ := List.head?_eq_some_iff.mp leads
  rw [listed, List.pairwise_cons] at ordered
  obtain ⟨before, -⟩ := ordered
  intro reference member
  rw [listed] at member ⊢
  constructor
  · intro same other otherMember
    rw [← same]
    rcases List.mem_cons.mp otherMember with rfl | later
    · exact Nat.le_refl _
    · exact Nat.le_of_lt (before other later)
  · intro earliest
    rcases List.mem_cons.mp member with rfl | later
    · rfl
    · have rises := before reference later
      have first_le := earliest first List.mem_cons_self
      omega

namespace Inspection

variable {τ : Type} {inspection : Inspection Id τ} (formed : inspection.tree.WellFormed)
  (fits : inspection.tree.Fits) (analysed : inspection.scopes = .ofTree inspection.tree)

include formed fits analysed

/-- A value that a declarator stores moves to the variable that its identifier means, and the first reference
of the variable answers for it. -/
theorem exists_takenBy?_of_declaration {producer declarator identifier : Nat}
    (stores : (inspection.deferral producer).run = some (.declaration declarator identifier)) :
    ∃ owner first, inspection.scopes.meaning? identifier = some owner ∧
      ⟨identifier, .write, true⟩ ∈ owner.references ∧ owner.references.head? = some first ∧
      inspection.takenBy? producer =
        some { variable_ := owner, binding := identifier, blamed := first.identifier } := by
  obtain ⟨parent, value, stored⟩ := exists_storedBy?_of_deferralBelow stores
  obtain ⟨owner, means, found, written⟩ := ScopeAnalysis.exists_variableBy_declarator formed fits
    (Tree.declarator_of_storedBy? stored) (Tree.isIdentifier_of_storedBy? stored)
  rw [← analysed] at means found
  obtain ⟨first, rest, listed⟩ := List.exists_cons_of_ne_nil (List.ne_nil_of_mem written)
  have leads : owner.references.head? = some first := by rw [listed, List.head?_cons]
  refine ⟨owner, first, means, written, leads, ?_⟩
  have taken : inspection.takenBy? producer = (inspection.deferral producer).run.bind inspection.transferOf? :=
    rfl
  rw [taken, stores, Option.bind_some, transferOf?, found, Option.map_some, leads]
  rfl

end Inspection

/-- Of the values that are lost, one that an initialised declarator stores is reported at the first reference
of the variable that the identifier of the declarator means. That identifier is among the references, and is
the one that is reported exactly if no reference stands before it. -/
theorem lint_blames_first_reference {options : RuleOptions} {source : String} {findings : List Finding}
    (linted : lint options source = .ok findings) :
    ∃ tree, Tree.parse source = .ok tree ∧
      let analysis := ScopeAnalysis.ofTree tree
      let inspection : Inspection Session Ty :=
        { tree, scopes := analysis, oracle := .ofChecker (.ofTree tree), options }
      let still := inspection.stilled (inspection.findings.run (Checker.ofTree tree).fresh).2
      let reported := findings.map (·.node)
      reported.Perm still.findings.run ∧
      ∀ producer ∈ tree.producers, (still.judge producer).run.verdict = .unhandled →
        ∀ declarator identifier,
          (still.deferral producer).run = some (.declaration declarator identifier) →
          ∃ owner first, analysis.meaning? identifier = some owner ∧
            ⟨identifier, .write, true⟩ ∈ owner.references ∧ owner.references.head? = some first ∧
            (still.blame? producer).run = some first.identifier ∧
            (options.enabled = true → first.identifier ∈ reported) ∧
            (first.identifier = identifier ↔ ∀ reference ∈ owner.references,
              (tree.span identifier).start ≤ (tree.span reference.identifier).start) := by
  cases parsed : Tree.parse source with
  | error error =>
      rw [lint, parsed] at linted
      cases linted
  | ok tree =>
      obtain ⟨reports, linted', sorted⟩ := lint_of_parse parsed options
      cases Except.ok.inj (linted.symm.trans linted')
      have formed := Tree.wellFormed_of_parse parsed
      have fits := Tree.fits_of_parse parsed
      refine ⟨tree, rfl, ?_⟩
      intro analysis inspection still reported
      have lasting : inspection.Lasting (Checker.ofTree tree).fresh :=
        Inspection.lasting_ofChecker (.ofTree tree) options
      have perm : reported.Perm still.findings.run := by
        rw [lasting.findings_eq_stilled]
        refine sorted.trans (.of_eq ?_)
        rw [Checker.findings, List.map_map]
        exact List.map_id _
      refine ⟨perm, fun producer produces lost declarator identifier stores => ?_⟩
      obtain ⟨owner, first, means, written, leads, takes⟩ :=
        Inspection.exists_takenBy?_of_declaration formed fits rfl stores
      obtain ⟨id, -, stored⟩ := Option.bind_eq_some_iff.mp means
      have ordered := ScopeAnalysis.pairwise_references parsed stored
      refine ⟨owner, first, means, written, leads, ?_, ?_, Variable.first_eq_iff ordered leads _ written⟩
      · rw [Inspection.blame?_eq, lost, Inspection.answering, takes]
        rfl
      · intro enabled
        exact perm.mem_iff.mpr (Inspection.mem_findings_iff.mpr
          ⟨enabled, .inr ⟨producer, produces, lost, _, takes, rfl⟩⟩)

/-- Declares a variable twice, and loses a result each time. -/
def declaredTwice : String :=
  "declare class R \x7b map(): R; mapErr(): R; andThen(): R; orElse(): R; match(): number; " ++
    "unwrapOr(): number \x7d\nvar x = new R()\nvar x = new R()"

/-- The first declarator answers for its own value and for that of the second. -/
theorem lint_blames_first_reference_twice :
    ∃ findings tree, lint .standard declaredTwice = .ok findings ∧ Tree.parse declaredTwice = .ok tree ∧
      let analysis := ScopeAnalysis.ofTree tree
      let inspection : Inspection Session Ty :=
        { tree, scopes := analysis, oracle := .ofChecker (.ofTree tree), options := .standard }
      let still := inspection.stilled (inspection.findings.run (Checker.ofTree tree).fresh).2
      (still.deferral 22).run = some (.declaration 23 20) ∧ (still.blame? 22).run = some 20 ∧
      (still.deferral 27).run = some (.declaration 28 25) ∧ (still.blame? 27).run = some 20 := by
  have checks : (Tree.parse declaredTwice).toOption.any (fun tree =>
      let analysis := ScopeAnalysis.ofTree tree
      let inspection : Inspection Session Ty :=
        { tree, scopes := analysis, oracle := .ofChecker (.ofTree tree), options := .standard }
      let still := inspection.stilled (inspection.findings.run (Checker.ofTree tree).fresh).2
      decide ((22 ∈ tree.producers ∧ (still.judge 22).run.verdict = .unhandled ∧
          (still.deferral 22).run = some (.declaration 23 20)) ∧
        (27 ∈ tree.producers ∧ (still.judge 27).run.verdict = .unhandled ∧
          (still.deferral 27).run = some (.declaration 28 25)) ∧
        ((analysis.meaning? 20).bind (·.references.head?)).map (·.identifier) = some 20 ∧
        ((analysis.meaning? 25).bind (·.references.head?)).map (·.identifier) = some 20)) = true := by
    decide +kernel
  obtain ⟨tree, parsed, checks⟩ := Tree.exists_of_checks checks
  obtain ⟨⟨produces, lost, stores⟩, ⟨produces', lost', stores'⟩, leads, leads'⟩ := of_decide_eq_true checks
  obtain ⟨findings, linted, -⟩ := lint_of_parse parsed .standard
  obtain ⟨other, otherParsed, -, blames⟩ := lint_blames_first_reference linted
  cases Except.ok.inj (otherParsed.symm.trans parsed)
  obtain ⟨owner, first, means, -, head, blamed, -⟩ := blames 22 produces lost 23 20 stores
  obtain ⟨owner', first', means', -, head', blamed', -⟩ := blames 27 produces' lost' 28 25 stores'
  simp only [means, Option.bind_some, head, Option.map_some] at leads
  simp only [means', Option.bind_some, head', Option.map_some] at leads'
  exact ⟨findings, tree, linted, parsed, stores, blamed.trans leads, stores', blamed'.trans leads'⟩

/-- Uses a variable before the declarator through which it takes a result. -/
def usedBefore : String :=
  "declare class R \x7b map(): R; mapErr(): R; andThen(): R; orElse(): R; match(): number; " ++
    "unwrapOr(): number \x7d\ndeclare function make(): R\nx\nvar x = make()"

/-- The use is reported, although it takes no value, and the identifier of the declarator is not. -/
theorem lint_usedBefore_blames_use :
    ∃ findings tree, lint .standard usedBefore = .ok findings ∧ Tree.parse usedBefore = .ok tree ∧
      let inspection : Inspection Session Ty :=
        { tree, scopes := .ofTree tree, oracle := .ofChecker (.ofTree tree), options := .standard }
      let still := inspection.stilled (inspection.findings.run (Checker.ofTree tree).fresh).2
      27 ∈ tree.producers ∧ (still.judge 27).run.verdict = .unhandled ∧
      (still.deferral 27).run = some (.declaration 28 25) ∧ findings.map (·.node) = [23] := by
  have checks : (Tree.parse usedBefore).toOption.any (fun tree =>
      let inspection : Inspection Session Ty :=
        { tree, scopes := .ofTree tree, oracle := .ofChecker (.ofTree tree), options := .standard }
      let still := inspection.stilled (inspection.findings.run (Checker.ofTree tree).fresh).2
      decide ((27 ∈ tree.producers ∧ (still.judge 27).run.verdict = .unhandled ∧
          (still.deferral 27).run = some (.declaration 28 25)) ∧
        ((Checker.ofTree tree).findings .standard).map (·.node) = [23])) = true := by
    decide +kernel
  obtain ⟨tree, parsed, checks⟩ := Tree.exists_of_checks checks
  obtain ⟨⟨produces, lost, stores⟩, nodes⟩ := of_decide_eq_true checks
  obtain ⟨findings, linted, sorted⟩ := lint_of_parse parsed .standard
  have sorted : (findings.map Finding.node).Perm [23] := sorted.trans (.of_eq nodes)
  exact ⟨findings, tree, linted, parsed, produces, lost, stores, List.perm_singleton.mp sorted⟩

end Heed
