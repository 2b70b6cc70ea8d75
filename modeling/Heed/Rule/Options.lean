/-!
# Options of the rule
-/

set_option autoImplicit false

namespace Heed

/-- Where calling a guard on a variable counts as checking it. -/
inductive GuardPolicy where
  /-- Only where the call decides a branch. -/
  | controlling
  | anywhere
deriving DecidableEq, Repr

structure RuleOptions where
  enabled : Bool
  /-- The members that a type must have to count as a result. -/
  resultMembers : List String
  /-- Whether the guards must be members of a result too. -/
  requireGuardMembers : Bool
  /-- The calls that end the obligation to handle a result. -/
  handlerMethods : List String
  guardMethods : List String
  guardPolicy : GuardPolicy
deriving DecidableEq, Repr

namespace RuleOptions

def standard : RuleOptions :=
  { enabled := true
    resultMembers := ["mapErr", "map", "andThen", "orElse", "match", "unwrapOr"]
    requireGuardMembers := false
    handlerMethods := ["match", "unwrapOr", "_unsafeUnwrap"]
    guardMethods := ["isOk", "isErr"]
    guardPolicy := .controlling }

instance : Inhabited RuleOptions := ⟨standard⟩

def requiredMembers (options : RuleOptions) : List String :=
  options.resultMembers ++ (if options.requireGuardMembers then options.guardMethods else [])

def isHandler (options : RuleOptions) (name : String) : Bool := options.handlerMethods.contains name

def isGuard (options : RuleOptions) (name : String) : Bool := options.guardMethods.contains name

end RuleOptions

end Heed
