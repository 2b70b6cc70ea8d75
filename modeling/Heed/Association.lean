/-!
# Association lists

Entries by name, each name once, in the order in which the names were first added.
-/

set_option autoImplicit false

namespace Heed

def upsert {α : Type} (name : String) (change : Option α → α) :
    List (String × α) → List (String × α)
  | [] => [(name, change none)]
  | (key, value) :: rest =>
      if key = name then (key, change (some value)) :: rest
      else (key, value) :: upsert name change rest

end Heed
