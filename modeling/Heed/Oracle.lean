import Heed.Checker.Session

/-!
# Type oracles

What the rule asks about types. An oracle answers in a monad, so that it may remember what it has found
out.
-/

set_option autoImplicit false

namespace Heed

structure Oracle (m : Type → Type) (τ : Type) where
  /-- The type of an expression. -/
  typeOf : Nat → m τ
  /-- The type that awaiting a value gives. -/
  awaited : τ → m τ
  /-- The parts of a union, or the type itself. -/
  parts : τ → m (List τ)
  /-- Whether a type has a member of a name. -/
  hasMember : τ → String → m Bool

namespace Oracle

def ofChecker (checker : Checker) : Oracle Session Ty :=
  { typeOf := checker.typeOf
    awaited := fun type => return checker.declarations.awaited type
    parts := fun type => return checker.declarations.parts type
    hasMember := checker.hasMember }

/-- The name at the head of an expression: that of an identifier, or of what is called. -/
def headName? (tree : Tree) (node : Nat) : Option String :=
  match tree.kind node with
  | .identifier name _ => some name
  | .call callee _ => if callee < node then headName? tree callee else none
  | _ => none
termination_by node

/-- The names of members that were asked for, the latest first, each once. -/
abbrev Asked := StateM (List String)

/-- An oracle that goes by names: an expression is a result if its head name begins with `beginning`, and a
result has every member. It keeps the members that it is asked for. -/
def byName (tree : Tree) (beginning : String) : Oracle Asked Bool :=
  { typeOf := fun node =>
      return (headName? tree node).any fun name => beginning.toList.isPrefixOf name.toList
    awaited := fun type => return type
    parts := fun type => return [type]
    hasMember := fun type name => do
      modify fun asked => if asked.contains name then asked else name :: asked
      return type }

end Oracle

end Heed
