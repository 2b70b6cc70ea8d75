import Heed.Grammar.Statement
import Heed.Token.Scan

/-!
# From source to tree

A budget of nested uses ties the productions together. Every production takes a token before it refers
to another one, so a budget above the number of tokens is never used up.
-/

set_option autoImplicit false

namespace Heed

namespace Grammar

open Reader Builder

/-- The productions with a budget of nested uses. -/
def productions : Nat → Productions
  | 0 =>
      { statement := liftM (exhausted : Reader Nat)
        expression := liftM (exhausted : Reader Nat)
        operation := fun _ => liftM (exhausted : Reader Nat)
        unary := liftM (exhausted : Reader Nat)
        binding := liftM (exhausted : Reader Nat) }
  | budget + 1 =>
      { statement := statement (productions budget)
        expression := expression (productions budget)
        operation := operation (productions budget)
        unary := unary (productions budget)
        binding := bindingTarget (productions budget) }

/-- All statements up to the end, under one root that spans the source. -/
def program (syn : Productions) (sourceLength : Nat) : Builder Nat := do
  let body ← collect do
    if ← atEnd then return .stop else return .more (some (← syn.statement))
  alloc (.program body) ⟨0, sourceLength⟩

end Grammar

namespace Tree

def ofTokens (tokens : List Token) (sourceLength : Nat) : Except SyntaxError Tree :=
  match Grammar.program (Grammar.productions (tokens.length + 1)) sourceLength
      ⟨Cursor.ofTokens tokens, #[]⟩ with
  | .ok (root, draft) => .ok (Tree.ofNodes draft.nodes root)
  | .error failure => .error failure.toSyntaxError

def parse (source : String) : Except SyntaxError Tree :=
  match Token.scan source with
  | .ok tokens => ofTokens tokens source.utf8ByteSize
  | .error error => .error error

end Tree

end Heed
