import Heed.Ty.Basic
import Heed.TypeSyntax.Basic

/-!
# From written types to types

Type parameters are replaced either while a written type is resolved or afterwards in the resolved type.
Resolving brings unions into normal form; replacing afterwards keeps them as they are.
-/

set_option autoImplicit false

namespace Heed

/-- Types for type parameters. The first entry of a name counts. -/
abbrev Substitution := List (String × Ty)

namespace Substitution

/-- Gives each parameter the argument at its place, or `unknown` when there are too few. Of two
parameters of one name the later counts. -/
def ofParams (params : List String) (args : List Ty) : Substitution :=
  (params.zipIdx.map fun (param, index) => (param, args.getD index .unknown)).reverse

/-- The type for a reference: only one without arguments can be a type parameter. -/
def find? (substitution : Substitution) (name : String) (args : List Ty) : Option Ty :=
  if args.isEmpty then substitution.lookup name else none

end Substitution

namespace Ty

mutual

def substitute (substitution : Substitution) : Ty → Ty
  | .named name args =>
      match substitution.find? name args with
      | some type => type
      | none => .named name (substituteAll substitution args)
  | .object members => .object (substituteMembers substitution members)
  | .function result => .function (substitute substitution result)
  | .promise inner => .promise (substitute substitution inner)
  | .array item => .array (substitute substitution item)
  | .tuple items => .tuple (substituteAll substitution items)
  | .union parts => .union (substituteAll substitution parts)
  | .intersection parts => .intersection (substituteAll substitution parts)
  | type => type

def substituteAll (substitution : Substitution) : List Ty → List Ty
  | [] => []
  | type :: rest => substitute substitution type :: substituteAll substitution rest

def substituteMembers (substitution : Substitution) : List (String × Ty) → List (String × Ty)
  | [] => []
  | (name, type) :: rest =>
      (name, substitute substitution type) :: substituteMembers substitution rest

end

def ofName (name : String) (args : List Ty) : Ty :=
  match name with
  | "string" => .primitive .string
  | "number" => .primitive .number
  | "boolean" => .primitive .boolean
  | "bigint" => .primitive .bigint
  | "symbol" => .primitive .symbol
  | "object" => .primitive .object
  | "any" => .any
  | "unknown" => .unknown
  | "never" => .never
  | "void" => .void
  | "null" => .null
  | "undefined" => .undefined
  | "Function" => .function .any
  | "Promise" | "PromiseLike" => .promise (args.headD .unknown)
  | "Array" | "ReadonlyArray" => .array (args.headD .unknown)
  | _ => .named name args

end Ty

namespace TypeExpr

mutual

def resolve (substitution : Substitution) : TypeExpr → Ty
  | .named name args =>
      let args := resolveAll substitution args
      (substitution.find? name args).getD (Ty.ofName name args)
  | .union parts => Ty.unionOf (resolveAll substitution parts)
  | .intersection parts => .intersection (resolveAll substitution parts)
  | .function result => .function (resolve substitution result)
  | .object members => .object (resolveMembers substitution members)
  | .array item => .array (resolve substitution item)
  | .tuple items => .tuple (resolveAll substitution items)
  | .literal text => .literal text
  | .unmodelled => .unknown

def resolveAll (substitution : Substitution) : List TypeExpr → List Ty
  | [] => []
  | type :: rest => resolve substitution type :: resolveAll substitution rest

/-- The members that a value of the type has. -/
def resolveMembers (substitution : Substitution) : List TypeMember → List (String × Ty)
  | [] => []
  | .property name type :: rest =>
      (name, resolve substitution type) :: resolveMembers substitution rest
  | .method name result :: rest =>
      (name, .function (resolve substitution result)) :: resolveMembers substitution rest
  | .initializer :: rest => resolveMembers substitution rest

end

end TypeExpr

def TypeMember.resolve (substitution : Substitution) : TypeMember → Option Ty
  | .property _ type => some (type.resolve substitution)
  | .method _ result => some (.function (result.resolve substitution))
  | .initializer => none

end Heed
