import Heed.Ty.Declarations
import Heed.Ty.Resolve

/-!
# Questions about types

What a type is once its aliases are expanded, what awaiting, calling, instantiating or indexing a value
of it gives, and the parts it has. These need the declared types only. Walks through aliases and nested
types give up after a fixed number of steps, so they end also where a type refers to itself.
-/

set_option autoImplicit false

namespace Heed

/-- How many aliases are expanded one after the other, and how deep a walk goes below where it starts. -/
def depthLimit : Nat := 32

namespace Declarations

variable (declarations : Declarations)

/-- One step of expansion: the body of an alias for a reference to it. -/
def step? : Ty → Option Ty
  | .named name args =>
      (declarations.alias? name).map fun shape =>
        shape.body.resolve (Substitution.ofParams shape.typeParams args)
  | _ => none

def expandWithin : Nat → Ty → Ty
  | 0, _ => .unknown
  | steps + 1, type =>
      match declarations.step? type with
      | some next => expandWithin steps next
      | none => type

def expand (type : Ty) : Ty := declarations.expandWithin depthLimit type

def awaitedWithin : Nat → Ty → Ty
  | 0, _ => .unknown
  | levels + 1, type =>
      match declarations.expand type with
      | .promise inner => awaitedWithin levels inner
      | .union parts => Ty.unionOf (parts.map (awaitedWithin levels))
      | other => other

/-- What awaiting a value gives: all promises are taken off. -/
def awaited (type : Ty) : Ty := declarations.awaitedWithin (depthLimit + 1) type

def partsWithin : Nat → Ty → List Ty
  | 0, _ => []
  | levels + 1, type =>
      match declarations.expand type with
      | .union parts => parts.flatMap (partsWithin levels)
      -- `never` is the union of nothing
      | .never => []
      | other => [other]

/-- The parts of a union with aliases expanded, or the type itself. -/
def parts (type : Ty) : List Ty := declarations.partsWithin (depthLimit + 1) type

def resultWithin : Nat → Ty → Ty
  | 0, _ => .unknown
  | levels + 1, type =>
      match declarations.expand type with
      | .function result => result
      | .any => .any
      | .union parts => Ty.unionOf (parts.map (resultWithin levels))
      | _ => .unknown

def result (type : Ty) : Ty := declarations.resultWithin (depthLimit + 1) type

/-- What `new` makes of a value. The arguments of a generic class are not known. -/
def instantiate : Ty → Ty
  | .classValue name =>
      let arity := ((declarations.class? name).map (·.typeParams.length)).getD 0
      .named name (List.replicate arity .unknown)
  | .any => .any
  | _ => .unknown

def element (type : Ty) : Ty :=
  match declarations.expand type with
  | .array item => item
  | .tuple items => Ty.unionOf items
  | .any => .any
  | _ => .unknown

end Declarations

namespace Ty

def arrayMember? (item : Ty) (name : String) : Option Ty :=
  match name with
  | "length" => some (.primitive .number)
  | "map" | "filter" | "slice" | "concat" => some (.function (.array .unknown))
  | "find" | "pop" | "shift" | "at" => some (.function (unionOf [item, .undefined]))
  | "forEach" => some (.function .void)
  | "push" | "indexOf" => some (.function (.primitive .number))
  | "some" | "every" | "includes" => some (.function (.primitive .boolean))
  | _ => none

def promiseMember? (inner : Ty) (name : String) : Option Ty :=
  match name with
  | "then" | "catch" | "finally" => some (.function (.promise inner))
  | _ => none

def stringMember? (name : String) : Option Ty :=
  match name with
  | "length" => some (.primitive .number)
  | _ => none

end Ty

end Heed
