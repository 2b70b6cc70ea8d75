import Heed.Scope.Analysis
import Heed.Ty.Expand

/-!
# Members and results of functions

What the declarations in a tree say about members of types and results of functions. Where a member or a
result has no written type, the type of an expression is asked for. How that question is answered is left
open here: the functions take the answering function `ask` and run in its monad.
-/

set_option autoImplicit false

namespace Heed

structure Checker where
  tree : Tree
  scopes : ScopeAnalysis
  declarations : Declarations

namespace Checker

def ofTree (tree : Tree) : Checker :=
  { tree, scopes := ScopeAnalysis.ofTree tree, declarations := Declarations.ofTree tree }

variable (checker : Checker)

def ascribed? (ascription : Option Nat) : Option Ty :=
  match ascription.map checker.tree.kind with
  | some (.typeAscription type) => some (type.resolve [])
  | _ => none

/-- The arguments of the `return` statements of a function body, in source order. Functions and classes
inside the body keep theirs. -/
def returns (body : Nat) : List (Option Nat) :=
  let kind := checker.tree.kind
  let nested (node : Nat) : Bool := (kind node).isFunctionLike || (kind node).isClass
  ((checker.tree.outline body).visit nested 0).filterMap fun (node, _) =>
    match kind node with
    | .returnStatement argument => some argument
    | _ => none

section Asking

variable {m : Type → Type} [Monad m] (ask : Nat → m Ty)

def firstFound {α β : Type} (find : α → m (Option β)) : List α → m (Option β)
  | [] => return none
  | item :: rest => do
      match ← find item with
      | some found => return some found
      | none => firstFound find rest

/-- All answers, or none as soon as one is missing. -/
def allFound {α β : Type} (find : α → m (Option β)) : List α → m (Option (List β))
  | [] => return some []
  | item :: rest => do
      match ← find item with
      | some found => return (← allFound find rest).map (found :: ·)
      | none => return none

def bodyType (body : Nat) : m Ty :=
  match checker.tree.kind body with
  | .block _ =>
      match checker.returns body with
      | [] => return .void
      | returns => do
          return Ty.unionOf (← returns.mapM fun
            | some argument => ask argument
            | none => return .void)
  | _ => ask body

def resultOf (returnType body : Option Nat) (isAsync : Bool) : m Ty :=
  match checker.ascribed? returnType with
  | some type => return type
  | none =>
      match body with
      | none => return .unknown
      | some body => do
          let type ← checker.bodyType ask body
          -- promises do not nest: what is returned is awaited first
          return if isAsync then .promise (checker.declarations.awaited type) else type

def functionResult (node : Nat) : m Ty :=
  match checker.tree.kind node with
  | .functionDeclaration _ _ returnType body isAsync => checker.resultOf ask returnType body isAsync
  | .methodDefinition _ _ returnType body isAsync _ => checker.resultOf ask returnType body isAsync
  | .arrowFunction _ returnType body isAsync => checker.resultOf ask returnType (some body) isAsync
  | .functionExpression _ _ returnType body isAsync =>
      checker.resultOf ask returnType (some body) isAsync
  | _ => return .unknown

def propertyType (node : Nat) : m Ty :=
  match checker.tree.kind node with
  | .propertyDefinition _ ascription value _ =>
      match checker.ascribed? ascription, value with
      | some type, _ => return type
      | none, some value => ask value
      | none, none => return .unknown
  | _ => return .unknown

def classMemberType (member : ClassMember) : m Ty :=
  match member.kind with
  | .method => return .function (← checker.functionResult ask member.node)
  | .property => checker.propertyType ask member.node
  | .initializer => return .unknown

variable (within : Ty → m (Option Ty)) (name : String)

/-- The member of an interface, from itself or from what it extends. `within` looks into a base. -/
def interfaceMember (shape : InterfaceShape) (args : List Ty) : m (Option Ty) :=
  let substitution := Substitution.ofParams shape.typeParams args
  match shape.member? name with
  | some member => return member.resolve substitution
  | none => firstFound (fun base => within (base.resolve substitution)) shape.bases

def classMember (shape : ClassShape) (args : List Ty) : m (Option Ty) :=
  let substitution := Substitution.ofParams shape.typeParams args
  match shape.member? name with
  -- the unions of the member are not made anew here, unlike those of an interface
  | some member => return some ((← checker.classMemberType ask member).substitute substitution)
  | none => firstFound (fun base => within (base.resolve substitution)) shape.heritage

/-- Whether the search for a member ends with an interface: it declares the member itself. -/
def declaresMember (shape? : Option InterfaceShape) : Bool :=
  shape?.any fun shape => (shape.member? name).isSome

/-- The member of a declared type. An interface comes before a class of the same name. -/
def namedMember (typeName : String) (args : List Ty) : m (Option Ty) := do
  let shape? := checker.declarations.interface? typeName
  let fromInterface ← match shape? with
    | some shape => interfaceMember within name shape args
    | none => pure none
  if fromInterface.isSome || declaresMember name shape? then
    return fromInterface
  match checker.declarations.class? typeName with
  | some shape => checker.classMember ask within name shape args
  | none => return none

/-- The member of an object expression, from the last property or spread that has it. -/
def literalMember (node : Nat) : m (Option Ty) :=
  match checker.tree.kind node with
  | .object properties =>
      firstFound (fun property =>
        match checker.tree.kind property with
        | .property key value _ =>
            if checker.tree.identifierName? key == some name then return some (← ask value)
            else return none
        | .spread argument => do within (← ask argument)
        | _ => return none) properties.reverse
  | _ => return none

end Asking

def memberWithin {m : Type → Type} [Monad m] (ask : Nat → m Ty) (name : String) :
    Nat → Ty → m (Option Ty)
  | 0, _ => return none
  | levels + 1, type =>
      let within := memberWithin ask name levels
      match checker.declarations.expand type with
      | .any => return some .any
      | .named typeName args => checker.namedMember ask within name typeName args
      | .object members => return members.reverse.lookup name
      | .objectLiteral node => checker.literalMember ask within name node
      -- all parts of a union must have the member, but only one of an intersection
      | .union parts => return (← allFound within parts).map Ty.unionOf
      | .intersection parts => firstFound within parts
      | .promise inner => return inner.promiseMember? name
      | .array item => return item.arrayMember? name
      | .tuple items => return (Ty.unionOf items).arrayMember? name
      | .primitive .string => return Ty.stringMember? name
      | _ => return none

def member {m : Type → Type} [Monad m] (ask : Nat → m Ty) (type : Ty) (name : String) :
    m (Option Ty) :=
  checker.memberWithin ask name (depthLimit + 1) type

end Checker

end Heed
