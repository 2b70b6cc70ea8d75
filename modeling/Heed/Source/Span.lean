/-!
# Spans of source text

A span is a half-open range of byte offsets into the UTF-8 text of a source. Two spans join to the
smallest span that covers both.
-/

set_option autoImplicit false

namespace Heed

/-- The bytes from `start` up to, and without, `stop`. -/
structure Span where
  start : Nat
  stop : Nat
deriving DecidableEq, Repr, Inhabited

namespace Span

def empty : Span := ⟨0, 0⟩

def point (offset : Nat) : Span := ⟨offset, offset⟩

def join (left right : Span) : Span :=
  ⟨min left.start right.start, max left.stop right.stop⟩

/-- The number of bytes; a span that ends before it starts has none. -/
def length (span : Span) : Nat := span.stop - span.start

def isEmpty (span : Span) : Bool := span.length == 0

end Span

end Heed
