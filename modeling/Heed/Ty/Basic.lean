/-!
# Types

Types as the checker sees them. References to declared types are kept by name and expanded on demand. Of
a function only the result is known. A union is in normal form when it comes from `Ty.unionOf`: no part
is a union or `never`, no part occurs twice, and there are at least two parts.
-/

set_option autoImplicit false

namespace Heed

inductive Primitive where
  | string | number | boolean | bigint | symbol | object
deriving DecidableEq, Repr

inductive Ty where
  | any
  | unknown
  | never
  | void
  | null
  | undefined
  | primitive (primitive : Primitive)
  | literal (text : String)
  /-- A reference to an interface, a class or an alias, or a type parameter. -/
  | named (name : String) (args : List Ty)
  | object (members : List (String × Ty))
  /-- The type of an object expression, whose members are found in its properties. -/
  | objectLiteral (node : Nat)
  | function (result : Ty)
  /-- The class itself as a value. -/
  | classValue (name : String)
  | promise (inner : Ty)
  | array (item : Ty)
  | tuple (items : List Ty)
  | union (parts : List Ty)
  | intersection (parts : List Ty)
deriving Inhabited, Repr

namespace Ty

/-! ## Equality -/

mutual

def same : Ty → Ty → Bool
  | .any, .any => true
  | .unknown, .unknown => true
  | .never, .never => true
  | .void, .void => true
  | .null, .null => true
  | .undefined, .undefined => true
  | .primitive p, .primitive q => p == q
  | .literal s, .literal t => s == t
  | .named m xs, .named n ys => m == n && sameAll xs ys
  | .object xs, .object ys => sameMembers xs ys
  | .objectLiteral m, .objectLiteral n => m == n
  | .function s, .function t => same s t
  | .classValue m, .classValue n => m == n
  | .promise s, .promise t => same s t
  | .array s, .array t => same s t
  | .tuple xs, .tuple ys => sameAll xs ys
  | .union xs, .union ys => sameAll xs ys
  | .intersection xs, .intersection ys => sameAll xs ys
  | _, _ => false

def sameAll : List Ty → List Ty → Bool
  | [], [] => true
  | x :: xs, y :: ys => same x y && sameAll xs ys
  | _, _ => false

def sameMembers : List (String × Ty) → List (String × Ty) → Bool
  | [], [] => true
  | (m, x) :: xs, (n, y) :: ys => m == n && same x y && sameMembers xs ys
  | _, _ => false

end

mutual

theorem same_iff : ∀ s t : Ty, same s t = true ↔ s = t
  | .any, t => by cases t <;> simp [same]
  | .unknown, t => by cases t <;> simp [same]
  | .never, t => by cases t <;> simp [same]
  | .void, t => by cases t <;> simp [same]
  | .null, t => by cases t <;> simp [same]
  | .undefined, t => by cases t <;> simp [same]
  | .primitive _, t => by cases t <;> simp [same]
  | .literal _, t => by cases t <;> simp [same]
  | .named _ xs, t => by cases t <;> simp [same, sameAll_iff xs]
  | .object xs, t => by cases t <;> simp [same, sameMembers_iff xs]
  | .objectLiteral _, t => by cases t <;> simp [same]
  | .function s, t => by cases t <;> simp [same, same_iff s]
  | .classValue _, t => by cases t <;> simp [same]
  | .promise s, t => by cases t <;> simp [same, same_iff s]
  | .array s, t => by cases t <;> simp [same, same_iff s]
  | .tuple xs, t => by cases t <;> simp [same, sameAll_iff xs]
  | .union xs, t => by cases t <;> simp [same, sameAll_iff xs]
  | .intersection xs, t => by cases t <;> simp [same, sameAll_iff xs]

theorem sameAll_iff : ∀ xs ys : List Ty, sameAll xs ys = true ↔ xs = ys
  | [], ys => by cases ys <;> simp [sameAll]
  | x :: xs, ys => by cases ys <;> simp [sameAll, same_iff x, sameAll_iff xs]

theorem sameMembers_iff : ∀ xs ys : List (String × Ty), sameMembers xs ys = true ↔ xs = ys
  | [], ys => by cases ys <;> simp [sameMembers]
  | (m, x) :: xs, ys => by
      cases ys <;> simp [sameMembers, same_iff x, sameMembers_iff xs, Prod.ext_iff, and_assoc]

end

instance : DecidableEq Ty := fun s t => decidable_of_iff (same s t = true) (same_iff s t)

/-! ## Unions -/

mutual

/-- Puts a type behind those that have been found, unless it is `never` or among them. A union is taken apart,
however deep it is nested. -/
def gather (found : List Ty) : Ty → List Ty
  | .union parts => gatherAll found parts
  | .never => found
  | type => if type ∈ found then found else found ++ [type]

def gatherAll (found : List Ty) : List Ty → List Ty
  | [] => found
  | type :: rest => gatherAll (gather found type) rest

end

def ofDistinct : List Ty → Ty
  | [] => .never
  | [type] => type
  | parts => .union parts

/-- The union of types in normal form, with the parts in the order in which they first occur. -/
def unionOf (types : List Ty) : Ty := ofDistinct (gatherAll [] types)

def isNullish : Ty → Bool
  | .null | .undefined | .void => true
  | _ => false

def withoutNullish : Ty → Ty
  | .union parts => unionOf (parts.filter (!·.isNullish))
  | type => type

end Ty

end Heed
