/-!
# The catalog of rules
-/

set_option autoImplicit false

namespace Heed

inductive Level where
  | warn | error
deriving DecidableEq, Repr

def Level.name : Level → String
  | .warn => "warn"
  | .error => "error"

structure RuleEntry where
  name : String
  category : String
  recommended : Level
  description : String
  /-- Whether the rule needs a type oracle. -/
  requiresTypes : Bool
deriving DecidableEq, Repr

def mustUseResult : String := "must-use-result"

def catalog : List RuleEntry :=
  [{ name := mustUseResult
     category := "Possible Errors"
     recommended := .error
     description :=
       "Not handling a Result is a possible error because errors could remain unhandled."
     requiresTypes := true }]

def RuleEntry.find? (name : String) : Option RuleEntry := catalog.find? (·.name == name)

end Heed
