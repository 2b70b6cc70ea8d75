import Mathlib.Data.Set.Finite.List
import Heed.Proofs.Checker.Memoisation
import Heed.Proofs.Ty.Unions

/-!
# Aliases of operand types

Two types are alike if the same type is behind their aliases. Where an operand is called, awaited, accessed
or taken apart, like types are not told apart. Taking the nullish parts off a type and looking for a string
are done without expanding aliases; what like types need to have in common there is stated by `Overlooks`.
-/

set_option autoImplicit false

namespace Heed

/-! ## Unions with one more type -/

namespace Ty

theorem leaves_unionOf_singleton (type : Ty) : leaves (unionOf [type]) = (leaves type).eraseDups := by
  rw [leaves_unionOf, leavesAll, leavesAll, List.append_nil]

theorem unionOf_singleton_eq_iff {first second : Ty} :
    unionOf [first] = unionOf [second] ↔ (leaves first).eraseDups = (leaves second).eraseDups := by
  constructor
  · intro same
    rw [← leaves_unionOf_singleton, same, leaves_unionOf_singleton]
  · intro same
    simp only [unionOf_eq, leavesAll, List.append_nil, same]

theorem unionOf_pair_congr {first second : Ty} (same : unionOf [first] = unionOf [second]) (other : Ty) :
    unionOf [first, other] = unionOf [second, other] := by
  simp only [unionOf_eq, leavesAll]
  rw [eraseDups_append_congr (unionOf_singleton_eq_iff.mp same) rfl]

theorem exists_objectLiteral_notMem (types : List Ty) : ∃ node, Ty.objectLiteral node ∉ types := by
  by_contra all
  rw [not_exists] at all
  have injective : Function.Injective Ty.objectLiteral := fun _ _ same => Ty.objectLiteral.inj same
  exact Set.infinite_of_injective_forall_mem injective (fun node => not_not.mp (all node)) types.finite_toSet

/-- A leaf that is not there yet comes last. -/
theorem unionOf_fresh {type leaf : Ty} (isLeaf : leaf.isLeaf = true) (fresh : leaf ∉ leaves type) :
    unionOf [type, leaf] = ofDistinct ((leaves type).eraseDups ++ [leaf]) := by
  have kept : [leaf].removeAll (leaves type) = [leaf] := by simp [List.removeAll, fresh]
  rw [unionOf_eq, leavesAll, leavesAll, leavesAll, List.append_nil, leaves_of_isLeaf isLeaf,
    List.eraseDups_append, kept]
  rfl

theorem leaves_ofDistinct_append {type leaf : Ty} (isLeaf : leaf.isLeaf = true) :
    leaves (ofDistinct ((leaves type).eraseDups ++ [leaf])) = (leaves type).eraseDups ++ [leaf] := by
  refine leaves_ofDistinct fun part member => ?_
  rcases List.mem_append.mp member with listed | last
  · exact isLeaf_of_mem_leaves type (List.mem_eraseDups.mp listed)
  · rwa [List.mem_singleton.mp last]

theorem withoutNullish_eq_self {type : Ty} (single : type.isUnion = false) : type.withoutNullish = type := by
  cases type with
  | union parts => cases single
  | _ => rfl

end Ty

/-! ## Like types -/

namespace Declarations

variable (declarations : Declarations) {first second : Ty}

theorem result_congr (alike : declarations.expand first = declarations.expand second) :
    declarations.result first = declarations.result second := by
  rw [result, result, resultWithin, resultWithin, alike]

theorem awaited_congr (alike : declarations.expand first = declarations.expand second) :
    declarations.awaited first = declarations.awaited second := by
  rw [awaited, awaited, awaitedWithin, awaitedWithin, alike]

theorem element_congr (alike : declarations.expand first = declarations.expand second) :
    declarations.element first = declarations.element second := by
  rw [element, element, alike]

theorem parts_congr (alike : declarations.expand first = declarations.expand second) :
    declarations.parts first = declarations.parts second := by
  rw [parts, parts, partsWithin, partsWithin, alike]

theorem expand_of_isUnion {type : Ty} (isUnion : type.isUnion = true) : declarations.expand type = type := by
  cases type with
  | union parts => rfl
  | _ => cases isUnion

/-- Taking the nullish parts off tells a union from an alias of it, unless there is nothing to take off. -/
theorem withoutNullish_congr_iff (alike : declarations.expand first = declarations.expand second) :
    declarations.expand first.withoutNullish = declarations.expand second.withoutNullish ↔
      first.isUnion = second.isUnion ∨
        declarations.expand (declarations.expand first).withoutNullish = declarations.expand first := by
  cases firstIsUnion : first.isUnion <;> cases secondIsUnion : second.isUnion
  · rw [Ty.withoutNullish_eq_self firstIsUnion, Ty.withoutNullish_eq_self secondIsUnion]
    simp [alike]
  · rw [Ty.withoutNullish_eq_self firstIsUnion, alike, declarations.expand_of_isUnion secondIsUnion]
    simp [eq_comm]
  · rw [Ty.withoutNullish_eq_self secondIsUnion, ← alike, declarations.expand_of_isUnion firstIsUnion]
    simp
  · rw [declarations.expand_of_isUnion firstIsUnion, declarations.expand_of_isUnion secondIsUnion] at alike
    simp [alike]

/-- In a union with a type that is not known, leaves are told apart. -/
theorem forall_expand_unionOf_iff :
    (∀ other, declarations.expand (Ty.unionOf [first, other]) =
      declarations.expand (Ty.unionOf [second, other])) ↔ Ty.unionOf [first] = Ty.unionOf [second] := by
  constructor
  · intro all
    -- A leaf that neither type has comes last in both unions, and no alias is left at the top.
    obtain ⟨node, fresh⟩ := Ty.exists_objectLiteral_notMem (Ty.leaves first ++ Ty.leaves second)
    rw [List.mem_append, not_or] at fresh
    have expanded : ∀ distinct : List Ty, let type := Ty.ofDistinct (distinct ++ [.objectLiteral node])
        declarations.expand type = type := by
      intro distinct
      cases distinct with
      | nil => rfl
      | cons type rest =>
          rw [Ty.ofDistinct_of_two_le (by simp)]
          rfl
    have same := all (.objectLiteral node)
    rw [Ty.unionOf_fresh rfl fresh.1, Ty.unionOf_fresh rfl fresh.2, expanded, expanded] at same
    have same := congrArg Ty.leaves same
    rw [Ty.leaves_ofDistinct_append rfl, Ty.leaves_ofDistinct_append rfl] at same
    exact Ty.unionOf_singleton_eq_iff.mpr (List.append_cancel_right same)
  · intro same other
    rw [Ty.unionOf_pair_congr same]

/-- What like types need to have in common for an expression of a kind not to tell them apart. -/
def Overlooks (first second : Ty) : NodeKind → Prop
  | .nonNull _ | .member _ _ _ true =>
      first.isUnion = second.isUnion ∨
        declarations.expand (declarations.expand first).withoutNullish = declarations.expand first
  | .logical _ _ _ => Ty.unionOf [first.withoutNullish] = Ty.unionOf [second.withoutNullish]
  | .binary _ _ _ => first = .primitive .string ↔ second = .primitive .string
  | _ => True

end Declarations

/-! ## Operands -/

namespace NodeKind

/-- The operand whose type an expression asks for first, if it looks at what the type is. -/
def inspected? : NodeKind → Option Nat
  | .call callee _ => some callee
  | .await argument => some argument
  | .nonNull expression => some expression
  | .member base _ _ _ => some base
  | .logical operator left _ => if operator = .and then none else some left
  | .binary operator left _ => if operator = .add then some left else none
  | _ => none

def isOptionalAccess : NodeKind → Bool
  | .member _ _ _ optional => optional
  | _ => false

def added? : NodeKind → Option Nat
  | .binary operator _ right => if operator = .add then some right else none
  | _ => none

def isLogical : NodeKind → Bool
  | .logical _ _ _ => true
  | _ => false

theorem eq_of_added? {kind : NodeKind} {right : Nat} (added : kind.added? = some right) :
    ∃ left, kind = .binary .add left right := by
  cases kind with
  | binary operator left other =>
      obtain ⟨rfl, same⟩ := Option.ite_none_right_eq_some.mp added
      cases same
      exact ⟨left, rfl⟩
  | _ => cases added

end NodeKind

def Inquiry.told {α : Type} (type : Ty) : Inquiry α → Inquiry α
  | .done value => .done value
  | .ask _ next => next type

theorem Inquiry.told_question_bind {α : Type} (node : Nat) (next : Ty → Inquiry α) (type : Ty) :
    (question node >>= next).told type = next type := rfl

theorem Inquiry.map_ite_eq_iff {f : Ty → Ty} {one other : Inquiry Ty} (differ : f <$> one ≠ f <$> other)
    (p q : Prop) [Decidable p] [Decidable q] :
    (f <$> if p then one else other) = (f <$> if q then one else other) ↔ (p ↔ q) := by
  by_cases holds : p <;> by_cases holds' : q <;> simp [holds, holds', differ, differ.symm]

namespace Checker

open Inquiry (question)

variable {checker : Checker} {node : Nat} {first second : Ty}

theorem member_congr (alike : checker.declarations.expand first = checker.declarations.expand second)
    (name : String) : checker.member question first name = checker.member question second name := by
  rw [member, member, memberWithin, memberWithin, alike]

theorem told_access_congr {base key : Nat} {computed optional : Bool}
    (kind : checker.tree.kind node = .member base key computed optional)
    (alike : checker.declarations.expand (if optional then first.withoutNullish else first) =
      checker.declarations.expand (if optional then second.withoutNullish else second)) :
    (checker.inquiry node).told first = (checker.inquiry node).told second := by
  rw [inquiry, infer, kind]
  simp only [accessType, Inquiry.told_question_bind]
  cases computed with
  | true => exact congrArg Inquiry.done (checker.declarations.element_congr alike)
  | false =>
      cases checker.tree.identifierName? key with
      | none => rfl
      | some name => simp only [member_congr alike name, Bool.false_eq_true, if_false]

theorem told_logical {operator : LogicalOperator} {left right : Nat}
    (kind : checker.tree.kind node = .logical operator left right)
    (inspects : operator ≠ .and) (type : Ty) :
    (checker.inquiry node).told type =
      .ask right fun other => .done (Ty.unionOf [type.withoutNullish, other]) := by
  rw [inquiry, infer, kind]
  cases operator with
  | and => exact absurd rfl inspects
  | or => rfl
  | nullish => rfl

theorem told_add {left right : Nat} (kind : checker.tree.kind node = .binary .add left right) (type : Ty) :
    (checker.inquiry node).told type =
      if type = .primitive .string then .done (.primitive .string)
      else .ask right fun other =>
        if other = .primitive .string then .done (.primitive .string) else .done (.primitive .number) := by
  rw [inquiry, infer, kind]
  rfl

theorem inquiry_of_inspected? {operand : Nat} (inspects : (checker.tree.kind node).inspected? = some operand) :
    ∃ next, checker.inquiry node = .ask operand next := by
  rw [inquiry, infer]
  generalize checker.tree.kind node = kind at inspects
  cases kind with
  | call | await | nonNull | member =>
      cases inspects
      exact ⟨_, rfl⟩
  | logical operator left right =>
      cases operator <;> cases inspects <;> exact ⟨_, rfl⟩
  | binary operator left right =>
      obtain ⟨rfl, same⟩ := Option.ite_none_right_eq_some.mp inspects
      cases same
      exact ⟨_, rfl⟩
  | _ => cases inspects

/-- Except for optional accesses, what like types need to have in common is known exactly. -/
theorem told_alike_iff (alike : checker.declarations.expand first = checker.declarations.expand second)
    {operand : Nat} (inspects : (checker.tree.kind node).inspected? = some operand)
    (plain : (checker.tree.kind node).isOptionalAccess = false) :
    checker.declarations.expand <$> (checker.inquiry node).told first =
        checker.declarations.expand <$> (checker.inquiry node).told second ↔
      checker.declarations.Overlooks first second (checker.tree.kind node) := by
  cases kind : checker.tree.kind node with
  | call callee arguments =>
      refine iff_of_true ?_ trivial
      rw [inquiry, infer, kind]
      simp only [Inquiry.told_question_bind, checker.declarations.result_congr alike]
  | await argument =>
      refine iff_of_true ?_ trivial
      rw [inquiry, infer, kind]
      simp only [Inquiry.told_question_bind, checker.declarations.awaited_congr alike]
  | nonNull expression =>
      rw [inquiry, infer, kind, Declarations.Overlooks, ← checker.declarations.withoutNullish_congr_iff alike]
      exact ⟨Inquiry.done.inj, congrArg Inquiry.done⟩
  | member base key computed optional =>
      rw [kind] at plain
      cases plain
      exact iff_of_true (by rw [told_access_congr kind alike]) trivial
  | logical operator left right =>
      rw [kind] at inspects
      have inspects := (Option.ite_none_left_eq_some.mp inspects).1
      rw [told_logical kind inspects, told_logical kind inspects, Declarations.Overlooks,
        ← checker.declarations.forall_expand_unionOf_iff]
      constructor
      · intro same other
        exact Inquiry.done.inj (congrFun (Inquiry.ask.inj same).2 other)
      · intro same
        exact congrArg (Inquiry.ask right) (funext fun other => congrArg Inquiry.done (same other))
  | binary operator left right =>
      rw [kind] at inspects
      obtain ⟨rfl, -⟩ := Option.ite_none_right_eq_some.mp inspects
      rw [told_add kind, told_add kind, Declarations.Overlooks]
      exact Inquiry.map_ite_eq_iff (fun same => by cases same) _ _
  | _ => simp [kind, NodeKind.inspected?] at inspects

theorem told_eq_of_optionalAccess
    (alike : checker.declarations.expand first = checker.declarations.expand second)
    (optional : (checker.tree.kind node).isOptionalAccess = true)
    (overlooks : checker.declarations.Overlooks first second (checker.tree.kind node)) :
    (checker.inquiry node).told first = (checker.inquiry node).told second := by
  cases kind : checker.tree.kind node with
  | member base key computed optional_ =>
      rw [kind] at optional overlooks
      cases optional
      exact told_access_congr kind ((checker.declarations.withoutNullish_congr_iff alike).mpr overlooks)
  | _ => simp [kind, NodeKind.isOptionalAccess] at optional

/-- The right operand of an addition is asked for if the left one is not a string. -/
theorem told_add_right {right : Nat} (added : (checker.tree.kind node).added? = some right) {leftType : Ty}
    (notString : leftType ≠ .primitive .string) :
    (checker.inquiry node).told leftType = .ask right fun type =>
      if type = .primitive .string then .done (.primitive .string) else .done (.primitive .number) := by
  obtain ⟨left, kind⟩ := NodeKind.eq_of_added? added
  rw [told_add kind, if_neg notString]

end Checker

/-- What is behind the aliases is enough, if it is neither a union nor a string and no union is made of it. -/
theorem Declarations.overlooks_of_expand {declarations : Declarations} {first second : Ty}
    (alike : declarations.expand first = declarations.expand second)
    (single : (declarations.expand first).isUnion = false)
    (notString : declarations.expand first ≠ .primitive .string) {kind : NodeKind}
    (plain : kind.isLogical = false) :
    declarations.Overlooks first second kind := by
  have notUnion : ∀ {type : Ty}, (declarations.expand type).isUnion = false → type.isUnion = false := by
    intro type single
    cases isUnion : type.isUnion with
    | false => rfl
    | true => rwa [declarations.expand_of_isUnion isUnion, isUnion] at single
  have sameShape : first.isUnion = second.isUnion := by
    rw [notUnion single, notUnion (alike ▸ single)]
  cases kind with
  | nonNull expression => exact .inl sameShape
  | member base key computed optional =>
      cases optional with
      | true => exact .inl sameShape
      | false => trivial
  | logical operator left right => cases plain
  | binary operator left right =>
      refine iff_of_false ?_ ?_
      · rintro rfl
        exact notString rfl
      · rintro rfl
        exact notString alike
  | _ => trivial

/-- An expression whose first operand has one or the other of two like types has like types itself, if it is
a call, an await or an access that is not optional. The others tell like types apart as `Overlooks` says, and
exactly so if they are not optional accesses. The right operand of an addition is looked at like the left
one, and like types have the same parts. Nothing but a logical operator tells types apart that are alike and
neither unions nor strings. -/
theorem like_operands_derive_alike (checker : Checker) {first second : Ty}
    (alike : checker.declarations.expand first = checker.declarations.expand second) :
    (∀ node operand, (checker.tree.kind node).inspected? = some operand →
      ∃ next, checker.inquiry node = .ask operand next ∧
        (checker.declarations.Overlooks first second (checker.tree.kind node) →
          checker.declarations.expand <$> next first = checker.declarations.expand <$> next second) ∧
        ((checker.tree.kind node).isOptionalAccess = false →
          checker.declarations.expand <$> next first = checker.declarations.expand <$> next second →
          checker.declarations.Overlooks first second (checker.tree.kind node))) ∧
    (∀ node right leftType, (checker.tree.kind node).added? = some right → leftType ≠ .primitive .string →
      ∃ next, (checker.inquiry node).told leftType = .ask right next ∧
        (checker.declarations.expand <$> next first = checker.declarations.expand <$> next second ↔
          (first = .primitive .string ↔ second = .primitive .string))) ∧
    checker.declarations.parts first = checker.declarations.parts second ∧
    ((checker.declarations.expand first).isUnion = false →
      checker.declarations.expand first ≠ .primitive .string → ∀ kind : NodeKind,
        kind.isLogical = false → checker.declarations.Overlooks first second kind) := by
  refine ⟨?_, ?_, checker.declarations.parts_congr alike, ?_⟩
  · intro node operand inspects
    obtain ⟨next, asks⟩ := Checker.inquiry_of_inspected? inspects
    have told : ∀ type, (checker.inquiry node).told type = next type := by simp [asks, Inquiry.told]
    refine ⟨next, asks, fun overlooks => ?_, fun plain => ?_⟩
    · rw [← told, ← told]
      cases optional : (checker.tree.kind node).isOptionalAccess with
      | true => rw [Checker.told_eq_of_optionalAccess alike optional overlooks]
      | false => exact (Checker.told_alike_iff alike inspects optional).mpr overlooks
    · rw [← told, ← told]
      exact (Checker.told_alike_iff alike inspects plain).mp
  · intro node right leftType added notString
    exact ⟨_, Checker.told_add_right added notString, Inquiry.map_ite_eq_iff (fun same => by cases same) _ _⟩
  · intro single notString kind plain
    exact Declarations.overlooks_of_expand alike single notString plain

/-- An alias of a function type and the function type itself, as types of a callee and of an operand. -/
theorem like_operands_derive_alike_callee :
    ∃ tree, Tree.parse "type F = () => string\ndeclare const f: F\nf() + 1" = .ok tree ∧
      let checker := Checker.ofTree tree
      let expand := checker.declarations.expand
      let first : Ty := .named "F" []
      let second : Ty := .function (.primitive .string)
      expand first = expand second ∧
        (∃ next, checker.inquiry 8 = .ask 7 next ∧ expand <$> next first = expand <$> next second) ∧
        (∃ next, (checker.inquiry 10).told (.primitive .number) = .ask 9 next ∧
          (expand <$> next first = expand <$> next second ↔
            (first = .primitive .string ↔ second = .primitive .string))) ∧
        checker.declarations.Overlooks first second (checker.tree.kind 10) := by
  have checks : (Tree.parse "type F = () => string\ndeclare const f: F\nf() + 1").toOption.any (fun tree =>
      decide ((Checker.ofTree tree).declarations.expand (.named "F" []) = .function (.primitive .string) ∧
        (tree.kind 8).inspected? = some 7 ∧ (tree.kind 8).isLogical = false ∧
        (tree.kind 10).added? = some 9 ∧ (tree.kind 10).isLogical = false)) = true := by
    decide +kernel
  obtain ⟨tree, parsed, checks⟩ := Tree.exists_of_checks checks
  obtain ⟨expanded, inspects, called, added, addition⟩ := of_decide_eq_true checks
  have alike : (Checker.ofTree tree).declarations.expand (.named "F" []) =
      (Checker.ofTree tree).declarations.expand (.function (.primitive .string)) := expanded
  obtain ⟨derives, right, -, overlooks⟩ := like_operands_derive_alike (Checker.ofTree tree) alike
  have overlooks := overlooks (by rw [expanded]; rfl) (by rw [expanded]; simp)
  obtain ⟨next, asks, same, -⟩ := derives 8 7 inspects
  exact ⟨tree, parsed, alike, ⟨next, asks, same (overlooks _ called)⟩,
    right 10 9 (.primitive .number) added (by simp), overlooks _ addition⟩

def assertedNames : String :=
  "type M = string | undefined\ndeclare const m: M\ndeclare const n: string | undefined\nm!\nn!"

/-- The assertion takes `undefined` off the union, but not off its alias. -/
theorem assertion_tells_alias :
    ∃ tree, Tree.parse assertedNames = .ok tree ∧
      let checker := Checker.ofTree tree
      let expanded (node : Nat) := checker.declarations.expand ((checker.typeOf node).run checker.fresh).1
      expanded 11 = expanded 14 ∧ expanded 12 = .union [.primitive .string, .undefined] ∧
        expanded 15 = .primitive .string := by
  have checks : (Tree.parse assertedNames).toOption.any (fun tree => decide (
      let checker := Checker.ofTree tree
      let expanded (node : Nat) := checker.declarations.expand ((checker.typeOf node).run checker.fresh).1
      expanded 11 = expanded 14 ∧ expanded 12 = .union [.primitive .string, .undefined] ∧
        expanded 15 = .primitive .string)) = true := by
    decide +kernel
  obtain ⟨tree, parsed, checks⟩ := Tree.exists_of_checks checks
  exact ⟨tree, parsed, of_decide_eq_true checks⟩

end Heed
