import Heed.Proofs.Scope.Walk
import Heed.Proofs.Tree.Spans
import Mathlib.Data.List.Flatten
import Mathlib.Data.List.Perm.Basic

/-!
# References are kept without loss or repetition

The walk that looks for uses meets identifiers in the order in which the tree lists its nodes, so it counts
none twice, and those that it counts rise in source position. The references of all variables and the
unresolved identifiers share out what it counts.
-/

set_option autoImplicit false

namespace Heed

theorem map_filterMap_sublist {α β : Type} {make : α → Option β} {back : β → α}
    (returns : ∀ item made, make item = some made → back made = item) (items : List α) :
    ((items.filterMap make).map back).Sublist items := by
  induction items with
  | nil => exact .refl _
  | cons item rest ih =>
      cases made : make item with
      | none =>
          rw [List.filterMap_cons_none made]
          exact ih.cons item
      | some result =>
          rw [List.filterMap_cons_some made, List.map_cons, returns item result made]
          exact ih.cons_cons item

/-- The items with a number, number after number, and those without one are all items. -/
theorem flatMap_filter_perm {α : Type} (number : α → Option Nat) (count : Nat) (items : List α)
    (bounded : ∀ item ∈ items, ∀ id, number item = some id → id < count) :
    ((List.range count).flatMap (fun id => items.filter (number · == some id)) ++
      items.filter fun item => (number item).isNone).Perm items := by
  have below : ((List.range count).flatMap fun id => items.filter (number · == some id)).Perm
      (items.filter fun item => (number item).any (· < count)) := by
    clear bounded
    induction count with
    | zero =>
        have none_below : (items.filter fun item => (number item).any (· < 0)) = [] := by simp
        rw [none_below]
        exact .refl _
    | succ count ih =>
        have split := List.filter_append_perm (fun item => (number item).any (· < count))
          (items.filter fun item => (number item).any (· < count + 1))
        rw [List.filter_filter, List.filter_filter] at split
        rw [List.range_succ, List.flatMap_append, List.flatMap_singleton]
        refine (ih.append_right _).trans (.trans (.of_eq ?_) split)
        congr 1
        all_goals
          refine List.filter_congr fun item _ => ?_
          cases number item with
          | none => rfl
          | some id =>
              rw [Bool.eq_iff_iff]
              simp
              omega
  have numbered : (items.filter fun item => (number item).any (· < count)) =
      items.filter fun item => (number item).isSome := by
    refine List.filter_congr fun item member => ?_
    cases found : number item with
    | none => rfl
    | some id => simpa using bounded item member id found
  rw [numbered] at below
  refine (below.append_right _).trans (.trans (.of_eq ?_) (List.filter_append_perm (number · |>.isSome) items))
  simp

theorem Tree.isIdentifier_of_binds {tree : Tree} {identifier pattern : Nat}
    (binds : tree.Binds identifier pattern) : (tree.kind identifier).isIdentifier = true := by
  induction binds with
  | name kindEq => rw [kindEq]; rfl
  | part _ _ ih => exact ih

namespace Tree.WellFormed

variable {tree : Tree} (formed : tree.WellFormed)

include formed

theorem self_mem_preorder (node : Nat) : node ∈ (tree.outline node).preorder := by
  rw [formed.preorder_outline]
  exact List.mem_cons_self

theorem preorder_sublist_of_child {node child : Nat} (listed : child ∈ tree.children node) :
    (tree.outline child).preorder.Sublist (tree.outline node).preorder := by
  have one := (List.singleton_sublist.mpr listed).flatMap fun child => (tree.outline child).preorder
  rw [List.flatMap_singleton] at one
  rw [formed.preorder_outline node]
  exact one.cons node

/-- What a pattern binds stands below it, in the same order. -/
theorem boundBy_sublist (node : Nat) : (tree.boundBy node).Sublist (tree.outline node).preorder := by
  induction node using Nat.strongRecOn with
  | ind node ih =>
      have below : ∀ part ∈ tree.patternParts node,
          (tree.boundBy part).Sublist (tree.outline part).preorder := fun part inner =>
        ih part (formed.exists_parent_of_part inner).1
      rw [formed.boundBy_eq]
      split
      case isTrue => exact List.singleton_sublist.mpr (formed.self_mem_preorder node)
      case isFalse =>
          rw [patternParts] at below ⊢
          rw [formed.preorder_outline, children]
          refine .cons node ?_
          cases kindEq : tree.kind node with
          | objectPattern properties =>
              rw [kindEq] at below
              simp only [List.flatMap_assoc]
              refine List.Sublist.flatMap_right properties fun property listed => ?_
              have below := fun part inner => below part (List.mem_flatMap.mpr ⟨property, listed, inner⟩)
              cases propertyEq : tree.kind property with
              | property key value shorthand =>
                  rw [propertyEq] at below
                  rw [List.flatMap_singleton]
                  refine (below value (List.mem_singleton.mpr rfl)).trans (formed.preorder_sublist_of_child ?_)
                  exact NodeKind.node_mem_children (fills_value propertyEq)
              | rest argument =>
                  rw [propertyEq] at below
                  rw [List.flatMap_singleton]
                  refine (below argument (List.mem_singleton.mpr rfl)).trans
                    (formed.preorder_sublist_of_child ?_)
                  rw [children, propertyEq]
                  exact List.mem_singleton.mpr rfl
              | _ => exact List.nil_sublist _
          | arrayPattern elements =>
              rw [kindEq] at below
              exact List.Sublist.flatMap_right elements below
          | rest argument =>
              rw [kindEq] at below
              exact List.Sublist.flatMap_right [argument] below
          | _ => exact List.nil_sublist _

end Tree.WellFormed

namespace Use

variable {tree : Tree} {declared : Declared}

theorem ofName_sublist (scope identifier : Nat) (access : Access) :
    ((ofName tree declared scope identifier access).toList.map (·.reference.identifier)).Sublist
      [identifier] := by
  cases found : ofName tree declared scope identifier access with
  | none => exact List.nil_sublist _
  | some use => simp [(isIdentifier_of_ofName found).1]

/-- A node counts itself, or identifiers below its first child, over which it passes. -/
theorem own_sublist (formed : tree.WellFormed) (scope node : Nat) :
    ((own tree declared scope node).map (·.reference.identifier)).Sublist [node] ∨
      ∃ first rest, tree.children node = first :: rest ∧ skips tree node first = true ∧
        ((own tree declared scope node).map (·.reference.identifier)).Sublist (tree.outline first).preorder := by
  have named : ∀ operand access,
      ((ofName tree declared scope operand access).toList.map (·.reference.identifier)).Sublist
        (tree.outline operand).preorder := fun operand access =>
    (ofName_sublist scope operand access).trans (List.singleton_sublist.mpr (formed.self_mem_preorder operand))
  have distinct := formed.children_nodup node
  rw [own]
  rw [Tree.children] at distinct ⊢
  cases kindEq : tree.kind node with
  | identifier =>
      refine .inl ?_
      dsimp only
      split
      case isTrue => exact List.nil_sublist _
      case isFalse => exact ofName_sublist scope node .read
  | declarator target init =>
      dsimp only
      split
      case isTrue =>
          refine .inr ⟨target, init.toList, rfl, ?_, ?_⟩
          · rw [kindEq] at distinct
            have other : init ≠ some target := by
              rintro rfl
              simp [NodeKind.children] at distinct
            simp [skips, kindEq, other]
          · refine (map_filterMap_sublist ?_ _).trans (formed.boundBy_sublist target)
            intro identifier use made
            obtain ⟨id, -, rfl⟩ := Option.map_eq_some_iff.mp made
            rfl
      case isFalse => exact .inl (List.nil_sublist _)
  | update argument increment signFirst =>
      dsimp only
      split
      case isTrue isIdentifier => exact .inr ⟨argument, [], rfl, by simp [skips, kindEq, isIdentifier], named argument _⟩
      case isFalse => exact .inl (List.nil_sublist _)
  | assignment operator left right =>
      dsimp only
      split
      case isTrue isIdentifier => exact .inr ⟨left, [right], rfl, by simp [skips, kindEq, isIdentifier], named left _⟩
      case isFalse =>
          split
          case isTrue isPattern =>
              refine .inr ⟨left, [right], rfl, by simp [skips, kindEq, isPattern], ?_⟩
              refine (map_filterMap_sublist ?_ _).trans (formed.boundBy_sublist left)
              exact fun identifier use made => (isIdentifier_of_ofName made).1
          case isFalse => exact .inl (List.nil_sublist _)
  | _ => exact .inl (List.nil_sublist _)

/-- The walk below a node meets identifiers in the order of the nodes. -/
theorem visit_sublist (formed : tree.WellFormed) (scope node : Nat) :
    ((visit tree declared scope (tree.outline node)).map (·.reference.identifier)).Sublist
      (tree.outline node).preorder := by
  induction node using formed.descend generalizing scope with
  | step node ih =>
      rw [formed.preorder_outline, formed.outline_eq, visit, visitAll_map formed, List.map_append,
        List.map_flatMap]
      generalize (declared.openedBy? node).getD scope = inner
      have below : ∀ child ∈ tree.children node,
          ((if skips tree node child then [] else visit tree declared inner (tree.outline child)).map
            (·.reference.identifier)).Sublist (tree.outline child).preorder := by
        intro child listed
        split
        · exact List.nil_sublist _
        · exact ih child listed inner
      rcases own_sublist formed inner node with here | ⟨first, rest, children_eq, skipped, inFirst⟩
      · exact here.append (List.Sublist.flatMap_right _ below)
      · rw [children_eq] at below ⊢
        rw [List.flatMap_cons, List.flatMap_cons, if_pos skipped]
        refine .cons node (inFirst.append ?_)
        exact List.Sublist.flatMap_right rest fun child listed => below child (List.mem_cons_of_mem _ listed)

end Use

namespace ScopeAnalysis

/-- The identifiers that are counted: the references of all variables, and what is unresolved. -/
def occurrences (analysis : ScopeAnalysis) : List Nat :=
  (analysis.allVariables.toList.flatMap fun owner => owner.references.map (·.identifier)) ++
    analysis.unresolved

variable {tree : Tree}

theorem flatMap_references (tree : Tree) :
    ((ofTree tree).allVariables.toList.flatMap fun owner => owner.references.map (·.identifier)) =
      ((List.range (Declared.ofTree tree).keys.length).flatMap fun id =>
        (usesOf tree).filter (·.target == some id)).map (·.reference.identifier) := by
  rw [List.map_flatMap, List.range_eq_range', ← List.zipIdx_map_snd 0 (Declared.ofTree tree).keys,
    List.flatMap_map]
  simp [ofTree, describe, usesOf, List.flatMap_map, Function.comp_def, Declared.ofTree]

theorem lookup_lt_length {scope id : Nat} {name : String} {declared : Declared}
    (found : declared.lookup scope name = some id) : id < declared.keys.length := by
  fun_induction Declared.lookup declared scope name with
  | case1 scope position located =>
      obtain rfl := Option.some.inj found
      exact (List.findIdx?_eq_some_iff_getElem.mp located).1
  | case2 scope _ _ _ _ _ _ ih => exact ih found
  | case3 => cases found
  | case4 => cases found

theorem target_lt_length (formed : tree.WellFormed) (fits : tree.Fits) {use : Use} {id : Nat}
    (member : use ∈ usesOf tree) (targeted : use.target = some id) :
    id < (Declared.ofTree tree).keys.length := by
  rcases Use.cases_of_mem_usesOf formed fits member with ⟨-, -, binds⟩ | ⟨-, -, scope, name, -, -, found⟩
  · rw [targeted] at binds
    obtain ⟨binding, recorded, -, rfl⟩ := Declared.exists_binding_of_binder? binds.symm
    exact List.idxOf_lt_length_of_mem (Declared.key_mem recorded)
  · rw [targeted] at found
    exact lookup_lt_length found.symm

theorem occurrences_perm (formed : tree.WellFormed) (fits : tree.Fits) :
    (ofTree tree).occurrences.Perm ((usesOf tree).map (·.reference.identifier)) := by
  have shared := flatMap_filter_perm Use.target (Declared.ofTree tree).keys.length (usesOf tree)
    fun use member id => target_lt_length formed fits member
  rw [occurrences, flatMap_references]
  have mapped := shared.map (·.reference.identifier)
  rwa [List.map_append] at mapped

theorem mem_occurrences_iff (formed : tree.WellFormed) (fits : tree.Fits) {identifier : Nat} :
    identifier ∈ (ofTree tree).occurrences ↔ tree.Refers identifier ∨ tree.Initialised identifier := by
  rw [(occurrences_perm formed fits).mem_iff, List.mem_map]
  constructor
  · rintro ⟨use, member, rfl⟩
    exact Use.refers_or_initialised formed fits member
  · rintro (refers | initialised)
    · exact Use.exists_use_of_refers formed fits refers
    · obtain ⟨id, member⟩ := Use.exists_use_of_initialised formed fits initialised
      exact ⟨_, member, rfl⟩

theorem usesOf_sublist (formed : tree.WellFormed) :
    ((usesOf tree).map (·.reference.identifier)).Sublist tree.preorder :=
  Use.visit_sublist formed 0 tree.root

theorem occurrences_nodup (formed : tree.WellFormed) (fits : tree.Fits) : (ofTree tree).occurrences.Nodup :=
  (occurrences_perm formed fits).nodup_iff.mpr
    ((usesOf_sublist formed).nodup (formed.nodup_preorder_outline tree.root))

/-- A bound identifier with a value writes to the variable that it declares. -/
theorem exists_write_of_initialised (formed : tree.WellFormed) (fits : tree.Fits) {identifier : Nat}
    (initialised : tree.Initialised identifier) :
    ∃ id owner, (ofTree tree).variableId? identifier = some id ∧
      (ofTree tree).allVariables[id]? = some owner ∧ identifier ∈ owner.identifiers ∧
      ⟨identifier, .write, true⟩ ∈ owner.references := by
  obtain ⟨id, member⟩ := Use.exists_use_of_initialised formed fits initialised
  have means := (variableId?_eq_some_iff formed fits).mpr (mem_meanings_of_use member rfl)
  rcases Use.cases_of_mem_usesOf formed fits member with ⟨-, -, binds⟩ | ⟨plain, -⟩
  case inr => cases plain
  obtain ⟨binding, recorded, rfl, idEq⟩ := Declared.exists_binding_of_binder? binds.symm
  have stored : (ofTree tree).declared.keys[id]? = some binding.key := by
    rw [idEq]
    exact List.getElem?_idxOf (Declared.key_mem recorded)
  have found : (ofTree tree).allVariables[id]? =
      some (describe (ofTree tree).bindings (usesOf tree) id binding.key) := by
    rw [getElem?_allVariables, stored]
    rfl
  refine ⟨id, _, means, found, ?_, ?_⟩
  · exact List.mem_map.mpr ⟨binding, List.mem_filter.mpr ⟨recorded, beq_self_eq_true _⟩, rfl⟩
  · rw [references_eq found]
    exact List.mem_map.mpr ⟨_, List.mem_filter.mpr ⟨member, beq_self_eq_true _⟩, rfl⟩

/-- Uses rise in source position. -/
theorem pairwise_usesOf {source : String} (parsed : Tree.parse source = .ok tree) :
    (usesOf tree).Pairwise fun left right =>
      (tree.span left.reference.identifier).start < (tree.span right.reference.identifier).start := by
  have formed := Tree.wellFormed_of_parse parsed
  have fits := Tree.fits_of_parse parsed
  have named : ∀ use ∈ usesOf tree, (tree.kind use.reference.identifier).isIdentifier = true := by
    intro use member
    rcases Use.refers_or_initialised formed fits member with refers | ⟨_, _, _, _, binds, _⟩
    · exact refers.1
    · exact Tree.isIdentifier_of_binds binds
  have inside : tree.root < tree.size := by
    have last := formed.root_last
    omega
  have ordered := (Tree.identifiers_in_order parsed inside).sublist (usesOf_sublist formed)
  rw [List.pairwise_map] at ordered
  exact ordered.imp_of_mem fun leftMember rightMember rises =>
    rises (named _ leftMember) (named _ rightMember)

/-- No identifier is lost and none is counted twice. An identifier labels something, is bound, or refers to a
variable. Those that refer are counted once, among the references of a variable or as unresolved; those that
are bound with a value are counted once, as a write that initialises their own variable; nothing else is counted.
References stand in source order. -/
theorem parse_keeps_references {source : String} (parsed : Tree.parse source = .ok tree) :
    let analysis := ofTree tree
    (∀ identifier ∈ tree.preorder, (tree.kind identifier).isIdentifier = true →
      tree.Labels identifier ∧ ¬ tree.Bound identifier ∧ ¬ tree.Refers identifier ∨
      ¬ tree.Labels identifier ∧ tree.Bound identifier ∧ ¬ tree.Refers identifier ∨
      ¬ tree.Labels identifier ∧ ¬ tree.Bound identifier ∧ tree.Refers identifier) ∧
    (∀ identifier, tree.Refers identifier → analysis.occurrences.count identifier = 1) ∧
    (∀ identifier, tree.Bound identifier →
      (tree.Initialised identifier → analysis.occurrences.count identifier = 1 ∧
        ∃ id owner, analysis.variableId? identifier = some id ∧ analysis.allVariables[id]? = some owner ∧
          identifier ∈ owner.identifiers ∧ ⟨identifier, .write, true⟩ ∈ owner.references) ∧
      (¬ tree.Initialised identifier → analysis.occurrences.count identifier = 0)) ∧
    (∀ identifier ∈ analysis.occurrences, tree.Refers identifier ∨ tree.Initialised identifier) ∧
    (∀ owner ∈ analysis.allVariables, owner.references.Pairwise fun left right =>
      (tree.span left.identifier).start < (tree.span right.identifier).start) ∧
    analysis.unresolved.Pairwise fun left right => (tree.span left).start < (tree.span right).start := by
  intro analysis
  have formed := Tree.wellFormed_of_parse parsed
  have fits := Tree.fits_of_parse parsed
  have once : ∀ {identifier}, identifier ∈ analysis.occurrences → analysis.occurrences.count identifier = 1 :=
    List.count_eq_one_of_mem (occurrences_nodup formed fits)
  have counted : ∀ {identifier}, identifier ∈ analysis.occurrences ↔
      tree.Refers identifier ∨ tree.Initialised identifier := mem_occurrences_iff formed fits
  refine ⟨?_, ?_, ?_, ?_, ?_, ?_⟩
  · intro identifier _ named
    rcases formed.sort_of_identifier fits named with labels | bound | refers
    · exact .inl ⟨labels, formed.not_bound_of_labels labels, formed.not_refers_of_labels labels⟩
    · exact .inr (.inl ⟨fun labels => formed.not_bound_of_labels labels bound, bound,
        fun refers => formed.not_bound_of_refers refers bound⟩)
    · exact .inr (.inr ⟨fun labels => formed.not_refers_of_labels labels refers,
        formed.not_bound_of_refers refers, refers⟩)
  · intro identifier refers
    exact once (counted.mpr (.inl refers))
  · intro identifier bound
    constructor
    · intro initialised
      exact ⟨once (counted.mpr (.inr initialised)), exists_write_of_initialised formed fits initialised⟩
    · intro uninitialised
      rw [List.count_eq_zero, counted]
      rintro (refers | initialised)
      · exact formed.not_bound_of_refers refers bound
      · exact uninitialised initialised
  · exact fun identifier => counted.mp
  · intro owner member
    obtain ⟨id, stored⟩ := Array.getElem?_of_mem member
    rw [references_eq stored, List.pairwise_map]
    exact (pairwise_usesOf parsed).filter _
  · change List.Pairwise _ (((usesOf tree).filter (·.target.isNone)).map (·.reference.identifier))
    rw [List.pairwise_map]
    exact (pairwise_usesOf parsed).filter _

/-- A pattern that a loop binds, a member of an unresolved object, and a variable without a value. -/
theorem parse_keeps_references_of_loop_pattern :
    ∃ tree, Tree.parse "for (const { k: [v] } of o.m) v\nlet z, q = { k: z }" = .ok tree ∧
      (tree.Labels 8 ∧ ¬ tree.Bound 8 ∧ ¬ tree.Refers 8) ∧
      tree.Refers 17 ∧ (ofTree tree).occurrences.count 17 = 1 ∧
      tree.Initialised 1 ∧ (ofTree tree).occurrences.count 1 = 1 ∧
      tree.Bound 13 ∧ ¬ tree.Initialised 13 ∧ (ofTree tree).occurrences.count 13 = 0 := by
  have checks : (Tree.parse "for (const { k: [v] } of o.m) v\nlet z, q = { k: z }").toOption.any (fun tree =>
      decide ((8 ∈ tree.preorder ∧ (tree.kind 8).isIdentifier = true ∧ ⟨8, .name⟩ ∈ (tree.kind 9).slots ∧
          (Declared.ofTree tree).binder? 8 = none) ∧
        ((tree.kind 17).isIdentifier = true ∧ ⟨17, .any⟩ ∈ (tree.kind 18).slots ∧
          ⟨18, .member⟩ ∈ (tree.kind 19).slots) ∧
        (1 ∈ tree.boundBy 4 ∧ ⟨4, .binding⟩ ∈ (tree.kind 5).slots ∧ (tree.kind 5).isDeclarator = true ∧
          Use.isLoopBinding tree 5 = true) ∧
        13 ∈ tree.boundBy 13 ∧ ⟨13, .binding⟩ ∈ (tree.kind 14).slots ∧ (tree.kind 14).isDeclarator = true ∧
          13 ∉ (ofTree tree).occurrences)) = true := by
    decide +kernel
  obtain ⟨tree, parsed, checks⟩ := Tree.exists_of_checks checks
  obtain ⟨⟨reached, name, label, unbound⟩, ⟨named, value, property⟩, ⟨binds, target, declares, isLoop⟩,
    emptyBinds, emptyTarget, emptyDeclares, absent⟩ := of_decide_eq_true checks
  have formed := Tree.wellFormed_of_parse parsed
  have fits := Tree.fits_of_parse parsed
  have ⟨sorts, referred, bound, _⟩ := parse_keeps_references parsed
  have declarator : ∀ {pattern node}, tree.Fills pattern .binding node →
      (tree.kind node).isDeclarator = true → ∃ init, tree.kind node = .declarator pattern init := by
    intro pattern node fills isDeclarator
    rcases Tree.binder_of_fills fills with found | kindEq | ⟨body, kindEq⟩
    · exact found
    · simp [kindEq, NodeKind.isDeclarator] at isDeclarator
    · simp [kindEq, NodeKind.isDeclarator] at isDeclarator
  have labels : tree.Labels 8 ∧ ¬ tree.Bound 8 ∧ ¬ tree.Refers 8 := by
    have unbound := (Use.binder?_eq_none_iff formed fits).mp unbound
    have labels := (Tree.labels_or_bound_of_fills label).resolve_right unbound
    rcases sorts 8 reached name with sort | ⟨other, -⟩ | ⟨other, -⟩
    · exact sort
    · exact absurd labels other
    · exact absurd labels other
  have refers : tree.Refers 17 := by
    obtain ⟨key, shorthand, kindEq⟩ := Tree.property_of_fills value
    exact ⟨named, .value kindEq property⟩
  have initialised : tree.Initialised 1 ∧ tree.Bound 1 := by
    obtain ⟨init, kindEq⟩ := declarator target declares
    have binds := formed.mem_boundBy_iff.mp binds
    exact ⟨⟨5, 4, init, kindEq, binds, .inr (formed.isLoopBinding_iff.mp isLoop)⟩,
      formed.bound_of_declarator fits kindEq binds⟩
  have empty : tree.Bound 13 := by
    obtain ⟨init, kindEq⟩ := declarator emptyTarget emptyDeclares
    exact formed.bound_of_declarator fits kindEq (formed.mem_boundBy_iff.mp emptyBinds)
  have uninitialised : ¬ tree.Initialised 13 := fun initialised =>
    absent ((mem_occurrences_iff formed fits).mpr (.inr initialised))
  exact ⟨tree, parsed, labels, refers, referred 17 refers, initialised.1,
    ((bound 1 initialised.2).1 initialised.1).1, empty, uninitialised, (bound 13 empty).2 uninitialised⟩

end ScopeAnalysis

end Heed
