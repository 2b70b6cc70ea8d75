import Heed.Proofs.Checker.Memoisation
import Heed.Proofs.Ty.Instantiation
import Heed.Proofs.Ty.Normality

/-!
# Unions in inferred types

A property of types that every inference keeps, if it is told such types only, is a property of all types
that a session remembers. Inference keeps what holds of every union that is made by `unionOf`. The one place
where unions are not made anew is the member of a class in which the type parameters are replaced. There the
number of parts is kept. The normal form is kept in a stable class (`IsStable`): one without type parameters, or
one whose members have written types in which the parts of every union stay apart, whatever the type parameters
stand for.
-/

set_option autoImplicit false

namespace Heed

/-! ## What inquiries keep -/

namespace Inquiry

variable {α β : Type} {told : Ty → Prop}

/-- What an inquiry gives if all it is told has a property. -/
def Keeps (told : Ty → Prop) (post : α → Prop) : Inquiry α → Prop
  | .done value => post value
  | .ask _ next => ∀ type, told type → (next type).Keeps told post

namespace Keeps

theorem pure {post : α → Prop} {value : α} (holds : post value) :
    (Pure.pure value : Inquiry α).Keeps told post := holds

theorem question (node : Nat) : (question node).Keeps told told := fun _ holds => holds

theorem bind {middle : α → Prop} {post : β → Prop} {inquiry : Inquiry α} {next : α → Inquiry β}
    (first : inquiry.Keeps told middle) (then_ : ∀ value, middle value → (next value).Keeps told post) :
    (inquiry >>= next).Keeps told post := by
  induction inquiry with
  | done value => exact then_ value first
  | ask node rest ih => exact fun type holds => ih type (first type holds)

theorem mono {weak strong : α → Prop} {inquiry : Inquiry α} (keeps : inquiry.Keeps told strong)
    (weaken : ∀ value, strong value → weak value) : inquiry.Keeps told weak := by
  induction inquiry with
  | done value => exact weaken value keeps
  | ask node rest ih => exact fun type holds => ih type (keeps type holds)

theorem mapM {post : β → Prop} {read : α → Inquiry β} {items : List α}
    (each : ∀ item ∈ items, (read item).Keeps told post) :
    (items.mapM read).Keeps told fun results => ∀ result ∈ results, post result := by
  induction items with
  | nil =>
      rw [List.mapM_nil]
      exact .pure (by simp)
  | cons item rest ih =>
      rw [List.mapM_cons]
      refine .bind (each item List.mem_cons_self) fun result holds => ?_
      refine .bind (ih fun other member => each other (List.mem_cons_of_mem _ member)) fun results all => ?_
      exact .pure (List.forall_mem_cons.mpr ⟨holds, all⟩)

theorem firstFound {post : Option β → Prop} {find : α → Inquiry (Option β)} {items : List α}
    (nothing : post none) (each : ∀ item ∈ items, (find item).Keeps told post) :
    (Checker.firstFound find items).Keeps told post := by
  induction items with
  | nil => exact .pure nothing
  | cons item rest ih =>
      refine .bind (each item List.mem_cons_self) fun found holds => ?_
      cases found with
      | none => exact ih fun other member => each other (List.mem_cons_of_mem _ member)
      | some value => exact .pure holds

theorem allFound {post : β → Prop} {find : α → Inquiry (Option β)} {items : List α}
    (each : ∀ item ∈ items, (find item).Keeps told fun found => ∀ value ∈ found, post value) :
    (Checker.allFound find items).Keeps told fun found => ∀ values ∈ found, ∀ value ∈ values, post value := by
  induction items with
  | nil => exact .pure (by simp)
  | cons item rest ih =>
      refine .bind (each item List.mem_cons_self) fun found holds => ?_
      cases found with
      | none => exact .pure (by simp)
      | some value =>
          refine .bind (ih fun other member => each other (List.mem_cons_of_mem _ member)) fun rest all => ?_
          refine .pure fun values listed => ?_
          obtain ⟨others, found, rfl⟩ := Option.map_eq_some_iff.mp listed
          exact List.forall_mem_cons.mpr ⟨holds value rfl, all others found⟩

end Keeps

end Inquiry

/-! ## What inference keeps -/

open Ty (Each)
open Inquiry (Keeps question)

namespace Checker

/-- Replacing the type parameters of a class in one of its members keeps a property of unions. -/
def Retains (checker : Checker) (good : List Ty → Prop) : Prop :=
  ∀ typeName shape name member, checker.declarations.class? typeName = some shape →
    shape.member? name = some member →
    (checker.classMemberType question member).Keeps (Each good) fun type =>
      ∀ args : List Ty, (∀ arg ∈ args, Each good arg) →
        Each good (type.substitute (.ofParams shape.typeParams args))

section Inference

variable {checker : Checker} {good : List Ty → Prop} (admits : ∀ parts, Ty.NormalParts parts → good parts)

include admits

theorem each_ascribed? (ascription : Option Nat) : ∀ type ∈ checker.ascribed? ascription, Each good type := by
  intro type found
  rw [ascribed?_eq] at found
  obtain ⟨written, -, rfl⟩ := Option.map_eq_some_iff.mp found
  exact written.each_resolve_nil admits

theorem keeps_bodyType (body : Nat) :
    (checker.bodyType question body).Keeps (Each good) (Each good) := by
  unfold bodyType
  split
  · split
    · exact .pure trivial
    · refine .bind (.mapM fun argument _ => ?_) fun types each => .pure (Ty.each_unionOf admits each)
      cases argument with
      | none => exact .pure trivial
      | some argument => exact .question argument
  · exact .question body

theorem keeps_resultOf (returnType body : Option Nat) (isAsync : Bool) :
    (checker.resultOf question returnType body isAsync).Keeps (Each good) (Each good) := by
  unfold resultOf
  split
  case h_1 type found => exact .pure (each_ascribed? admits returnType type found)
  case h_2 =>
      cases body with
      | none => exact .pure trivial
      | some body =>
          refine .bind (keeps_bodyType admits body) fun type each => .pure ?_
          cases isAsync with
          | true => exact Declarations.each_awaited admits checker.declarations each
          | false => exact each

theorem keeps_functionResult (node : Nat) :
    (checker.functionResult question node).Keeps (Each good) (Each good) := by
  unfold functionResult
  split
  case h_5 => exact .pure trivial
  all_goals exact keeps_resultOf admits _ _ _

theorem keeps_propertyType (node : Nat) :
    (checker.propertyType question node).Keeps (Each good) (Each good) := by
  unfold propertyType
  split
  · split
    case h_1 found _ => exact .pure (each_ascribed? admits _ _ found)
    case h_2 => exact .question _
    case h_3 => exact .pure trivial
  · exact .pure trivial

theorem keeps_classMemberType (member : ClassMember) :
    (checker.classMemberType question member).Keeps (Each good) (Each good) := by
  unfold classMemberType
  split
  · exact .bind (keeps_functionResult admits member.node) fun _ each => .pure each
  · exact keeps_propertyType admits member.node
  · exact .pure trivial

section Members

variable {within : Ty → Inquiry (Option Ty)} {name : String}
  (looks : ∀ type, Each good type → (within type).Keeps (Each good) fun found => ∀ type ∈ found, Each good type)

include looks

theorem keeps_interfaceMember (shape : InterfaceShape) {args : List Ty} (each : ∀ arg ∈ args, Each good arg) :
    (interfaceMember within name shape args).Keeps (Each good) fun found => ∀ type ∈ found, Each good type := by
  have entries := Substitution.each_ofParams shape.typeParams each
  unfold interfaceMember
  split
  case h_1 member _ => exact .pure (member.each_resolve admits entries)
  case h_2 => exact .firstFound (by simp) fun base _ => looks _ (base.each_resolve admits entries)

theorem keeps_classMember (retains : checker.Retains good) {typeName : String} {shape : ClassShape}
    (declared : checker.declarations.class? typeName = some shape) {args : List Ty}
    (each : ∀ arg ∈ args, Each good arg) :
    (checker.classMember question within name shape args).Keeps (Each good) fun found =>
      ∀ type ∈ found, Each good type := by
  have entries := Substitution.each_ofParams shape.typeParams each
  unfold classMember
  cases found : shape.member? name with
  | some member =>
      refine .bind (retains typeName shape name member declared found) fun type keeps => .pure ?_
      simpa using keeps args each
  | none => exact .firstFound (by simp) fun base _ => looks _ (base.each_resolve admits entries)

theorem keeps_namedMember (retains : checker.Retains good) (typeName : String) {args : List Ty}
    (each : ∀ arg ∈ args, Each good arg) :
    (checker.namedMember question within name typeName args).Keeps (Each good) fun found =>
      ∀ type ∈ found, Each good type := by
  have fromClass : ∀ shape, checker.declarations.class? typeName = some shape →
      (checker.classMember question within name shape args).Keeps (Each good) fun found =>
        ∀ type ∈ found, Each good type :=
    fun shape declared => keeps_classMember admits looks retains declared each
  unfold namedMember
  cases checker.declarations.interface? typeName with
  | none =>
      cases declared : checker.declarations.class? typeName with
      | none => exact .pure (by simp)
      | some shape => exact fromClass shape declared
  | some interface_ =>
      refine .bind (keeps_interfaceMember admits looks interface_ each) fun found holds => ?_
      cases declared : checker.declarations.class? typeName with
      | none =>
          dsimp only
          split
          · exact .pure holds
          · exact .pure (by simp)
      | some shape =>
          dsimp only
          split
          · exact .pure holds
          · exact fromClass shape declared

omit admits in
theorem keeps_literalMember (node : Nat) :
    (checker.literalMember question within name node).Keeps (Each good) fun found =>
      ∀ type ∈ found, Each good type := by
  unfold literalMember
  split
  · refine .firstFound (by simp) fun property _ => ?_
    split
    · split
      · exact .bind (.question _) fun type each => .pure (by simpa using each)
      · exact .pure (by simp)
    · exact .bind (.question _) fun type each => looks type each
    · exact .pure (by simp)
  · exact .pure (by simp)

end Members

section Expressions

variable (retains : checker.Retains good)

include retains

theorem keeps_memberWithin (name : String) (levels : Nat) {type : Ty} (each : Each good type) :
    (checker.memberWithin question name levels type).Keeps (Each good) fun found =>
      ∀ type ∈ found, Each good type := by
  induction levels generalizing type with
  | zero => exact .pure (by simp)
  | succ levels ih =>
      have each := Declarations.each_expand admits checker.declarations each
      have looks : ∀ type, Each good type → (checker.memberWithin question name levels type).Keeps (Each good)
          fun found => ∀ type ∈ found, Each good type := fun _ each => ih each
      rw [memberWithin]
      split
      case h_1 => exact .pure (by simp [Each])
      case h_2 found =>
          rw [found] at each
          exact keeps_namedMember admits looks retains _ (Ty.eachOf_iff.mp each)
      case h_3 members found =>
          rw [found] at each
          refine .pure fun type listed => ?_
          obtain ⟨before, after, split_, -⟩ := List.lookup_eq_some_iff.mp listed
          refine Ty.eachMember_iff.mp each (name, type) (List.mem_reverse.mp ?_)
          simp [split_]
      case h_4 => exact keeps_literalMember looks _
      case h_5 found =>
          rw [found] at each
          refine .bind (.allFound fun part member => ih (Ty.eachOf_iff.mp each.2 part member)) ?_
          refine fun found all => .pure fun type listed => ?_
          obtain ⟨types, found, rfl⟩ := Option.map_eq_some_iff.mp listed
          exact Ty.each_unionOf admits (all types found)
      case h_6 found =>
          rw [found] at each
          exact .firstFound (by simp) fun part member => ih (Ty.eachOf_iff.mp each part member)
      case h_7 found =>
          rw [found] at each
          refine .pure (Ty.each_promiseMember? ?_ name)
          exact each
      case h_8 found =>
          rw [found] at each
          refine .pure (Ty.each_arrayMember? admits ?_ name)
          exact each
      case h_9 found =>
          rw [found] at each
          exact .pure (Ty.each_arrayMember? admits (Ty.each_unionOf admits (Ty.eachOf_iff.mp each)) name)
      case h_10 => exact .pure (Ty.each_stringMember? name)
      case h_11 => exact .pure (by simp)

theorem keeps_member {type : Ty} (each : Each good type) (name : String) :
    (checker.member question type name).Keeps (Each good) fun found => ∀ type ∈ found, Each good type :=
  keeps_memberWithin admits retains name _ each

/-- A member that is not found is unknown. -/
theorem keeps_memberOrUnknown {type : Ty} (each : Each good type) (name : String) :
    (do return (← checker.member question type name).getD .unknown : Inquiry Ty).Keeps (Each good)
      (Each good) := by
  refine .bind (keeps_member admits retains each name) fun found all => .pure ?_
  cases found with
  | none => trivial
  | some type => exact all type rfl

theorem keeps_destructured (property key : Nat) :
    (checker.destructured question property key).Keeps (Each good) (Each good) := by
  simp only [destructured]
  split
  · exact .bind (.question _) fun type each => keeps_memberOrUnknown admits retains each _
  · exact .pure trivial

theorem keeps_bindingType (binding : Nat) :
    (checker.bindingType question binding).Keeps (Each good) (Each good) := by
  have parameter : ∀ isParameter : Bool, Each good (if isParameter then .any else .unknown) := by
    intro isParameter
    cases isParameter <;> trivial
  have function : ∀ node, (do return .function (← checker.functionResult question node) : Inquiry Ty).Keeps
      (Each good) (Each good) :=
    fun node => .bind (keeps_functionResult admits node) fun _ each => .pure each
  simp only [bindingType]
  split
  case h_1 found => exact .pure (each_ascribed? admits _ _ found)
  case h_2 => exact .pure trivial
  case h_3 =>
      split
      · split
        · split
          · exact .question _
          · unfold loopElement
            split
            · exact .bind (.question _) fun type each =>
                .pure (Declarations.each_element admits checker.declarations each)
            · exact .pure trivial
            · exact .pure trivial
        · exact .pure trivial
      · split
        · exact function _
        · exact .pure (parameter _)
      · split
        · exact function _
        · exact .pure (parameter _)
      · split
        · refine .pure ?_
          cases checker.tree.identifierName? binding <;> trivial
        · exact .pure trivial
      · exact keeps_destructured admits retains _ _
      · exact .pure (parameter _)

theorem keeps_identifierType (node : Nat) (name : String) :
    (checker.identifierType question node name).Keeps (Each good) (Each good) := by
  unfold identifierType
  split
  · exact keeps_bindingType admits retains _
  · refine .pure ?_
    unfold globalType
    split
    · trivial
    · trivial
    · trivial
    · split <;> trivial

theorem keeps_accessType (base key : Nat) (computed optional : Bool) :
    (checker.accessType question base key computed optional).Keeps (Each good) (Each good) := by
  unfold accessType
  refine .bind (.question base) fun type each => ?_
  have each : Each good (if optional then type.withoutNullish else type) := by
    cases optional with
    | true => exact Ty.each_withoutNullish admits each
    | false => exact each
  dsimp only
  split
  · exact .pure (Declarations.each_element admits checker.declarations each)
  · split
    · exact keeps_memberOrUnknown admits retains each _
    · exact .pure trivial

omit retains admits in
theorem keeps_binaryType (operator : BinaryOperator) (left right : Nat) :
    (binaryType question operator left right).Keeps (Each good) (Each good) := by
  unfold binaryType
  split
  · refine .bind (.question left) fun leftType _ => ?_
    split
    · exact .pure trivial
    · refine .bind (.question right) fun rightType _ => ?_
      split <;> exact .pure trivial
  all_goals exact .pure trivial

omit retains in
theorem keeps_elementType (element : Nat) :
    (checker.elementType question element).Keeps (Each good) (Each good) := by
  unfold elementType
  split
  · exact .bind (.question _) fun type each =>
      .pure (Declarations.each_element admits checker.declarations each)
  · exact .question element

omit retains admits in
theorem each_thisType (node : Nat) : Each good (checker.thisType node) := by
  simp only [thisType, Option.getD]
  split
  case h_1 type found =>
      obtain ⟨ancestor, -, found⟩ := List.exists_of_findSome?_eq_some found
      split at found
      · obtain ⟨name, -, rfl⟩ := Option.map_eq_some_iff.mp found
        refine Ty.eachOf_iff.mpr fun arg listed => ?_
        obtain ⟨param, -, rfl⟩ := List.mem_map.mp listed
        trivial
      · cases found
  case h_2 => trivial

theorem keeps_inquiry (node : Nat) : (checker.inquiry node).Keeps (Each good) (Each good) := by
  have answered : ∀ (derive : Ty → Ty) (operand : Nat), (∀ type, Each good type → Each good (derive type)) →
      (do return derive (← question operand) : Inquiry Ty).Keeps (Each good) (Each good) :=
    fun derive operand keeps => .bind (.question operand) fun type each => .pure (keeps type each)
  have eitherOf : ∀ {one other : Ty}, Each good one → Each good other → Each good (Ty.unionOf [one, other]) :=
    fun one other => Ty.each_unionOf admits (by simp [one, other])
  unfold inquiry infer
  split
  case h_1 => exact keeps_identifierType admits retains _ _
  case h_2 value _ =>
      refine .pure ?_
      cases value <;> trivial
  case h_3 => exact .pure (each_thisType _)
  case h_4 => exact answered _ _ fun _ => Declarations.each_result admits _
  case h_5 => exact answered _ _ fun type _ => Declarations.each_instantiate _ type
  case h_6 => exact answered _ _ fun _ => Declarations.each_awaited admits _
  case h_7 => exact keeps_accessType admits retains _ _ _ _
  case h_8 => exact .bind (keeps_functionResult admits _) fun _ each => .pure each
  case h_9 => exact .bind (keeps_functionResult admits _) fun _ each => .pure each
  case h_12 =>
      exact .bind (.question _) fun _ left => .bind (.question _) fun _ right =>
        .pure (eitherOf (Ty.each_withoutNullish admits left) right)
  case h_13 => exact keeps_binaryType _ _ _
  case h_17 =>
      exact .bind (.question _) fun _ one => .bind (.question _) fun _ other => .pure (eitherOf one other)
  case h_19 =>
      exact .bind (.mapM fun element _ => keeps_elementType admits element) fun _ each =>
        .pure (Ty.each_unionOf admits each)
  case h_21 =>
      split
      · exact .question _
      · exact .pure (TypeExpr.each_resolve_nil admits _)
      · exact .pure trivial
  case h_23 => exact answered _ _ fun _ => Ty.each_withoutNullish admits
  case h_10 | h_11 | h_20 | h_22 => exact .question _
  all_goals exact .pure trivial

end Expressions

end Inference

/-! ## What sessions keep -/

/-- If inference keeps a property of the types it is told, all types that are remembered have it. -/
theorem Settles.keeps {checker : Checker} {told : Ty → Prop} (unknown : told .unknown)
    (inference : ∀ node, (checker.inquiry node).Keeps told told) {cyclic : Bool} {α : Type}
    {state after : Standing} {inquiry : Inquiry α} {value : α}
    (run : checker.Settles cyclic state inquiry value after)
    (known : ∀ node type, Memo.recall? state.memo node = some type → told type) :
    (∀ node type, Memo.recall? after.memo node = some type → told type) ∧
      ∀ post : α → Prop, inquiry.Keeps told post → post value := by
  induction run with
  | done => exact ⟨known, fun post holds => holds⟩
  | remembered recalled _ ih =>
      obtain ⟨known', value⟩ := ih known
      exact ⟨known', fun post keeps => value post (keeps _ (known _ _ recalled))⟩
  | met _ _ _ _ ih =>
      obtain ⟨known', value⟩ := ih known
      exact ⟨known', fun post keeps => value post (keeps _ unknown)⟩
  | @inferred _ _ inner _ asked type _ _ _ _ _ _ ihInference ihRest =>
      obtain ⟨inner, holds⟩ := ihInference known
      have holds : told type := holds told (inference asked)
      obtain ⟨known', value⟩ := ihRest fun node other recalled => by
        rw [Memo.recall?_set] at recalled
        split at recalled
        · cases recalled
          exact holds
        · exact inner node other recalled
      exact ⟨known', fun post keeps => value post (keeps _ holds)⟩

theorem each_typeOf {checker : Checker} {good : List Ty → Prop}
    (admits : ∀ parts, Ty.NormalParts parts → good parts) (retains : checker.Retains good)
    (earlier : List Query) (node : Nat) :
    Each good ((checker.typeOf node).run (checker.afterwards earlier checker.fresh)).1 := by
  have inference := keeps_inquiry admits retains
  have remembered : ∀ node type,
      Memo.recall? (checker.afterwards earlier checker.fresh) node = some type → Each good type := by
    refine checker.afterwards_induction
      (motive := fun memo => ∀ node type, Memo.recall? memo node = some type → Each good type) ?_ ?_ earlier
    · intro node type recalled
      simp [recall?_fresh] at recalled
    · intro memo query known
      exact (Settles.keeps trivial inference (checker.settles_answer query memo) known).1
  exact (Settles.keeps trivial inference (checker.settles_typeOf node _) remembered).2 _ (.question node)

/-! ## Classes -/

theorem retains_two_le (checker : Checker) : checker.Retains fun parts => 2 ≤ parts.length := by
  intro typeName shape name member _ _
  refine (keeps_classMemberType (fun _ normal => normal.two_le) member).mono fun type each args eachArg => ?_
  refine Ty.each_substitute (Substitution.each_ofParams _ eachArg) (fun parts two _ => ?_) type each each
  rwa [Ty.length_substituteAll]

/-- A class whose members keep the normal form of their unions, whatever its type parameters stand for: it
has no type parameters, or the types of its members are written and the parts of every union in them stay
apart. -/
def IsStable (checker : Checker) (shape : ClassShape) : Prop :=
  shape.typeParams = [] ∨ ∀ member ∈ shape.members, member.isStatic ∨ member.kind = .initializer ∨
    ∃ type ∈ (checker.written? member).bind (·.resolve []), type.Each (Ty.StayApart shape.typeParams)

instance (checker : Checker) : DecidablePred checker.IsStable := fun _ =>
  inferInstanceAs (Decidable (_ ∨ _))

theorem retains_normalParts {checker : Checker}
    (stable : ∀ declared ∈ checker.declarations.classes, checker.IsStable declared.2) :
    checker.Retains Ty.NormalParts := by
  intro typeName shape name member declared found
  obtain ⟨before, after, listed, -⟩ := List.lookup_eq_some_iff.mp declared
  rcases stable (typeName, shape) (by simp [listed]) with plain | written
  · refine (keeps_classMemberType (fun _ normal => normal) member).mono fun type each args _ => ?_
    rw [plain]
    change Each _ (type.substitute [])
    rwa [type.substitute_nil]
  · have selected := List.find?_some found
    simp only [Bool.and_eq_true, Bool.not_eq_true', bne_iff_ne] at selected
    obtain isStatic | initializer | ⟨type, resolved, apart⟩ := written member (List.mem_of_find?_eq_some found)
    · simp [isStatic] at selected
    · exact absurd initializer selected.2
    · obtain ⟨written, writes, resolved⟩ := Option.bind_eq_some_iff.mp resolved
      obtain ⟨type', resolved', asked⟩ := classMemberType_of_written question writes
      cases resolved.symm.trans resolved'
      rw [asked]
      refine .pure fun args eachArg => ?_
      have normal : type.Each Ty.NormalParts :=
        written.each_resolve (fun _ normal => normal) (by simp) type resolved
      refine Ty.each_substitute (Substitution.each_ofParams _ eachArg) ?_ type normal apart
      exact fun parts => Ty.normalParts_substituteAll fun _ => Substitution.mem_params_of_mem

/-- Every union inside a type that a session infers has two parts or more. Its parts are different, and none
of them is a union or `never`, if this is kept wherever type parameters are replaced in a member of a class. It
is kept if every class is stable: if it has no type parameters, or if its members have written types in which no
type parameter is a part of a union or can make two parts equal. -/
theorem typeOf_unions_normal (tree : Tree) (earlier : List Query) (node : Nat) :
    let checker := Checker.ofTree tree
    let type := ((checker.typeOf node).run (checker.afterwards earlier checker.fresh)).1
    type.Each (fun parts => 2 ≤ parts.length) ∧
      (checker.Retains Ty.NormalParts → type.Each Ty.NormalParts) ∧
      ((∀ declared ∈ checker.declarations.classes, checker.IsStable declared.2) →
        checker.Retains Ty.NormalParts) := by
  intro checker type
  refine ⟨?_, ?_, retains_normalParts⟩
  · exact each_typeOf (fun _ normal => normal.two_le) (retains_two_le _) earlier node
  · intro retains
    exact each_typeOf (fun _ normal => normal) retains earlier node

def listedBox : String :=
  "declare class Box<T> \x7b items: T[] | undefined; value: T \x7d\n" ++
  "declare const b: Box<string | null>\nb.items"

theorem typeOf_unions_normal_generic :
    ∃ tree, Tree.parse listedBox = .ok tree ∧
      let checker := Checker.ofTree tree
      let type := ((checker.typeOf 14).run (checker.afterwards [.typeOf 12] checker.fresh)).1
      (∀ declared ∈ checker.declarations.classes, checker.IsStable declared.2) ∧
        type = .union [.array (.union [.primitive .string, .null]), .undefined] ∧
        type.Each (fun parts => 2 ≤ parts.length) ∧ type.Each Ty.NormalParts := by
  have checks : (Tree.parse listedBox).toOption.any (fun tree => decide (
        (∀ declared ∈ (Checker.ofTree tree).declarations.classes,
          (Checker.ofTree tree).IsStable declared.2) ∧
        (((Checker.ofTree tree).typeOf 14).run
          ((Checker.ofTree tree).afterwards [.typeOf 12] (Checker.ofTree tree).fresh)).1 =
            .union [.array (.union [.primitive .string, .null]), .undefined])) = true := by
    decide +kernel
  obtain ⟨tree, parsed, checks⟩ := Tree.exists_of_checks checks
  obtain ⟨stable, inferred⟩ := of_decide_eq_true checks
  obtain ⟨twoParts, normal, retains⟩ := typeOf_unions_normal tree [.typeOf 12] 14
  exact ⟨tree, parsed, stable, inferred, twoParts, normal (retains stable)⟩

def optionalBox : String :=
  "declare class Box<T> \x7b value: T | undefined \x7d\n" ++
  "declare const b: Box<string | undefined>\nb.value"

/-- The union of the argument stands inside the one that is written, and `undefined` is there twice. -/
theorem typeOf_classMember_nested :
    ∃ tree, Tree.parse optionalBox = .ok tree ∧
      let checker := Checker.ofTree tree
      let parts := [.union [.primitive .string, .undefined], .undefined]
      ((checker.typeOf 11).run checker.fresh).1 = .union parts ∧ ¬ Ty.NormalParts parts := by
  have checks : (Tree.parse optionalBox).toOption.any (fun tree => decide (
        (((Checker.ofTree tree).typeOf 11).run (Checker.ofTree tree).fresh).1 =
          .union [.union [.primitive .string, .undefined], .undefined])) = true := by
    decide +kernel
  obtain ⟨tree, parsed, checks⟩ := Tree.exists_of_checks checks
  refine ⟨tree, parsed, of_decide_eq_true checks, fun normal => ?_⟩
  have leaf := normal.isLeaf _ List.mem_cons_self
  cases leaf

end Checker

end Heed
