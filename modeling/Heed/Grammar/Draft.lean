import Heed.Grammar.TypeSyntax
import Heed.Tree.Basic

/-!
# Building nodes

A draft is a cursor with the nodes built so far. Nodes are numbered in the order in which they are
built. A `Builder` takes tokens and adds nodes, or fails. A failure leaves the nodes behind that were built
up to there: to go back, all that is kept is their number.
-/

set_option autoImplicit false

namespace Heed

structure Draft where
  cursor : Cursor
  nodes : Array Node

/-- Why a build has failed, and the nodes that it leaves behind. -/
structure Failure extends SyntaxError where
  nodes : Array Node

abbrev Builder := StateT Draft (Except Failure)

namespace Builder

variable {α : Type}

def ofReader (read : Reader α) : Builder α := fun draft =>
  match read draft.cursor with
  | .ok (value, cursor) => .ok (value, { draft with cursor })
  | .error error => .error { error with nodes := draft.nodes }

instance : MonadLift Reader Builder := ⟨ofReader⟩

def alloc (kind : NodeKind) (span : Span) : Builder Nat :=
  modifyGet fun draft => (draft.nodes.size, { draft with nodes := draft.nodes.push ⟨kind, span⟩ })

def nodeOf (id : Nat) : Builder Node := do
  match (← get).nodes[id]? with
  | some node => return node
  | none => liftM (Reader.outOfRange : Reader Node)

def spanOf (id : Nat) : Builder Span := return (← nodeOf id).span

def ascribe (id ascription : Nat) : Builder Unit := do
  let _ ← nodeOf id
  modify fun draft =>
    { draft with nodes := draft.nodes.modify id fun node =>
        match node.kind with
        | .identifier name _ => { node with kind := .identifier name (some ascription) }
        | _ => node }

def identifier (name : String) (span : Span) : Builder Nat := alloc (.identifier name none) span

/-- Adds a node that spans from `start` to the last token taken. -/
def allocFrom (kind : NodeKind) (start : Nat) : Builder Nat := do
  alloc kind ⟨start, ← Reader.lastEnd⟩

/-- Builds and then drops the nodes again; the tokens stay taken. -/
def discarding (build : Builder α) : Builder Unit := do
  let mark := (← get).nodes.size
  let _ ← build
  modify fun draft => { draft with nodes := draft.nodes.take mark }

/-- Builds if the text allows it. Otherwise the tokens are given back and the new nodes are dropped. -/
def attempt (build : Builder α) : Builder (Option α) := fun draft =>
  match build draft with
  | .ok (value, draft) => .ok (some value, draft)
  | .error failure =>
      -- a fault says nothing about the text, so it does not count as a refusal
      if failure.cause.isFault then .error failure
      else .ok (none, { draft with nodes := failure.nodes.take draft.nodes.size })

end Builder

/-- The productions to which statements and expressions refer back. Each of them takes a token before it
refers to any of these again. -/
structure Productions where
  statement : Builder Nat
  expression : Builder Nat
  /-- An expression of operators that bind at least as tight as a precedence. -/
  operation : Nat → Builder Nat
  unary : Builder Nat
  binding : Builder Nat

end Heed
