import Heed.Checker.Session
import Heed.Proofs.Tree.Forest

/-!
# Inquiries

An inquiry is a computation laid open: it is done, or it asks for the type of one node and goes on with
what it is told. The functions of a checker are written against an answering function that they know
nothing about, so each of them is an inquiry that is put to that function, in whatever monad it answers.
What holds of all inquiries, by induction on them, therefore holds of inference and of every query.
-/

set_option autoImplicit false

namespace Heed

inductive Inquiry (α : Type) where
  | done (value : α)
  | ask (node : Nat) (next : Ty → Inquiry α)

namespace Inquiry

def bind {α β : Type} : Inquiry α → (α → Inquiry β) → Inquiry β
  | .done value, next => next value
  | .ask node rest, next => .ask node fun type => (rest type).bind next

instance : Monad Inquiry where
  pure := .done
  bind := .bind

def question (node : Nat) : Inquiry Ty := .ask node .done

/-- The computation that an inquiry is in the monad of an answering function. -/
def put {m : Type → Type} [Monad m] {α : Type} (answer : Nat → m Ty) : Inquiry α → m α
  | .done value => pure value
  | .ask node next => answer node >>= fun type => (next type).put answer

theorem bind_done {α : Type} (inquiry : Inquiry α) : inquiry.bind .done = inquiry := by
  induction inquiry with
  | done value => rfl
  | ask node next ih => exact congrArg (Inquiry.ask node) (funext ih)

theorem bind_bind {α β γ : Type} (inquiry : Inquiry α) (first : α → Inquiry β)
    (second : β → Inquiry γ) :
    (inquiry.bind first).bind second = inquiry.bind fun value => (first value).bind second := by
  induction inquiry with
  | done value => rfl
  | ask node next ih => exact congrArg (Inquiry.ask node) (funext ih)

instance : LawfulMonad Inquiry :=
  .mk' Inquiry bind_done (fun _ _ => rfl) bind_bind

section Put

variable {m : Type → Type} [Monad m] {α β : Type} (answer : Nat → m Ty)

@[simp] theorem put_pure (value : α) : (pure value : Inquiry α).put answer = pure value := rfl

variable [LawfulMonad m]

@[simp] theorem put_question (node : Nat) : (question node).put answer = answer node := by
  simp [question, put]

@[simp] theorem put_bind (inquiry : Inquiry α) (next : α → Inquiry β) :
    (inquiry >>= next).put answer = inquiry.put answer >>= fun value => (next value).put answer := by
  induction inquiry with
  | done value =>
      change (next value).put answer = pure value >>= _
      rw [pure_bind]
  | ask node rest ih =>
      change (answer node >>= fun type => (rest type >>= next).put answer) = _
      simp only [ih, put, bind_assoc]

@[simp] theorem put_map (change : α → β) (inquiry : Inquiry α) :
    (change <$> inquiry).put answer = change <$> inquiry.put answer := by
  rw [map_eq_pure_bind, put_bind, map_eq_pure_bind]
  rfl

@[simp] theorem put_mapM (read : α → Inquiry β) (items : List α) :
    (items.mapM read).put answer = items.mapM fun item => (read item).put answer := by
  induction items with
  | nil => simp
  | cons item rest ih => simp [ih]

end Put

end Inquiry

namespace Checker

open Inquiry (question)

variable (checker : Checker) {m : Type → Type} [Monad m] [LawfulMonad m] (answer : Nat → m Ty)

section Search

variable {α β : Type} (find : α → Inquiry (Option β)) (items : List α)

@[simp] theorem put_firstFound :
    (firstFound find items).put answer = firstFound (fun item => (find item).put answer) items := by
  induction items with
  | nil => rfl
  | cons item rest ih =>
      simp only [firstFound, Inquiry.put_bind]
      refine bind_congr fun found => ?_
      cases found with
      | none => exact ih
      | some value => rfl

@[simp] theorem put_allFound :
    (allFound find items).put answer = allFound (fun item => (find item).put answer) items := by
  induction items with
  | nil => rfl
  | cons item rest ih =>
      simp only [allFound, Inquiry.put_bind]
      refine bind_congr fun found => ?_
      cases found with
      | none => rfl
      | some value => simp [ih]

end Search

@[simp] theorem put_bodyType (body : Nat) :
    (checker.bodyType question body).put answer = checker.bodyType answer body := by
  unfold bodyType
  split
  · split
    · rfl
    · simp only [Inquiry.put_bind, Inquiry.put_mapM, Inquiry.put_pure]
      congr
      funext argument
      cases argument <;> simp
  · simp

@[simp] theorem put_resultOf (returnType body : Option Nat) (isAsync : Bool) :
    (checker.resultOf question returnType body isAsync).put answer =
      checker.resultOf answer returnType body isAsync := by
  unfold resultOf
  split
  · rfl
  · cases body <;> simp

@[simp] theorem put_functionResult (node : Nat) :
    (checker.functionResult question node).put answer = checker.functionResult answer node := by
  unfold functionResult
  split <;> simp

@[simp] theorem put_propertyType (node : Nat) :
    (checker.propertyType question node).put answer = checker.propertyType answer node := by
  unfold propertyType
  split
  · split <;> simp
  · rfl

@[simp] theorem put_classMemberType (member : ClassMember) :
    (checker.classMemberType question member).put answer = checker.classMemberType answer member := by
  unfold classMemberType
  split <;> simp

section Members

variable (within : Ty → Inquiry (Option Ty)) (name : String)

@[simp] theorem put_interfaceMember (shape : InterfaceShape) (args : List Ty) :
    (interfaceMember within name shape args).put answer =
      interfaceMember (fun type => (within type).put answer) name shape args := by
  unfold interfaceMember
  cases shape.member? name <;> simp

@[simp] theorem put_classMember (shape : ClassShape) (args : List Ty) :
    (checker.classMember question within name shape args).put answer =
      checker.classMember answer (fun type => (within type).put answer) name shape args := by
  unfold classMember
  cases shape.member? name <;> simp

@[simp] theorem put_namedMember (typeName : String) (args : List Ty) :
    (checker.namedMember question within name typeName args).put answer =
      checker.namedMember answer (fun type => (within type).put answer) name typeName args := by
  unfold namedMember
  cases checker.declarations.interface? typeName with
  | none =>
      simp only [pure_bind]
      split
      · rfl
      · cases checker.declarations.class? typeName <;> simp
  | some shape =>
      simp only [Inquiry.put_bind, put_interfaceMember]
      refine bind_congr fun found => ?_
      split
      · rfl
      · cases checker.declarations.class? typeName <;> simp

@[simp] theorem put_literalMember (node : Nat) :
    (checker.literalMember question within name node).put answer =
      checker.literalMember answer (fun type => (within type).put answer) name node := by
  unfold literalMember
  split
  · rw [put_firstFound]
    congr
    funext property
    split
    · split <;> simp
    · simp
    · rfl
  · rfl

end Members

@[simp] theorem put_memberWithin (name : String) (levels : Nat) (type : Ty) :
    (checker.memberWithin question name levels type).put answer =
      checker.memberWithin answer name levels type := by
  induction levels generalizing type with
  | zero => rfl
  | succ levels ih =>
      simp only [memberWithin]
      split <;> simp [ih]

@[simp] theorem put_member (type : Ty) (name : String) :
    (checker.member question type name).put answer = checker.member answer type name :=
  checker.put_memberWithin answer name _ type

@[simp] theorem put_loopElement (declarator : Nat) :
    (checker.loopElement question declarator).put answer = checker.loopElement answer declarator := by
  unfold loopElement
  split <;> simp

@[simp] theorem put_destructured (property key : Nat) :
    (checker.destructured question property key).put answer =
      checker.destructured answer property key := by
  simp only [destructured]
  split <;> simp

@[simp] theorem put_bindingType (binding : Nat) :
    (checker.bindingType question binding).put answer = checker.bindingType answer binding := by
  simp only [bindingType]
  split
  · rfl
  · rfl
  · -- What the parent declares decides; the name of a function asks for the function's result.
    split
    · split
      · split <;> simp
      · rfl
    · split <;> simp
    · split <;> simp
    · split <;> rfl
    · simp
    · rfl

@[simp] theorem put_identifierType (node : Nat) (name : String) :
    (checker.identifierType question node name).put answer =
      checker.identifierType answer node name := by
  unfold identifierType
  split <;> simp

@[simp] theorem put_accessType (base key : Nat) (computed optional : Bool) :
    (checker.accessType question base key computed optional).put answer =
      checker.accessType answer base key computed optional := by
  unfold accessType
  simp only [Inquiry.put_bind, Inquiry.put_question]
  refine bind_congr fun type => ?_
  cases computed
  · cases checker.tree.identifierName? key <;> simp
  · rfl

@[simp] theorem put_binaryType (operator : BinaryOperator) (left right : Nat) :
    (binaryType question operator left right).put answer = binaryType answer operator left right := by
  unfold binaryType
  split
  · simp only [Inquiry.put_bind, Inquiry.put_question]
    refine bind_congr fun leftType => ?_
    split
    · rfl
    · simp only [Inquiry.put_bind, Inquiry.put_question]
      refine bind_congr fun rightType => ?_
      split <;> rfl
  all_goals rfl

@[simp] theorem put_elementType (element : Nat) :
    (checker.elementType question element).put answer = checker.elementType answer element := by
  unfold elementType
  split <;> simp

def inquiry (node : Nat) : Inquiry Ty := checker.infer question node

/-- Inference does nothing with the answering function but put its questions to it. -/
theorem put_inquiry (node : Nat) :
    (checker.inquiry node).put answer = checker.infer answer node := by
  unfold inquiry infer
  split
  all_goals try simp
  split <;> simp

/-- Outside of the tree there is nothing to ask. -/
theorem inquiry_of_size_le {node : Nat} (outside : checker.tree.size ≤ node) :
    checker.inquiry node = .done .unknown := by
  rw [inquiry, infer, Tree.kind_eq_kindAt, kindAt_of_size_le outside]
  rfl

end Checker

end Heed
