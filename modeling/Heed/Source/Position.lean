import Heed.Source.Span

/-!
# Places in a text

A position counts lines and columns from one. Texts are measured in the bytes that their characters take.
-/

set_option autoImplicit false

namespace Heed

structure Position where
  line : Nat
  column : Nat
deriving DecidableEq, Repr

def byteLength : List Char → Nat
  | [] => 0
  | char :: rest => char.utf8Size + byteLength rest

/-- The text from byte `start` up to byte `stop` of a source, as whole characters. -/
def sliceFrom (span : Span) : Nat → List Char → List Char
  | _, [] => []
  | offset, char :: rest =>
      if span.stop ≤ offset then []
      else if span.start ≤ offset then char :: sliceFrom span (offset + char.utf8Size) rest
      else sliceFrom span (offset + char.utf8Size) rest

def Span.text (span : Span) (source : String) : String :=
  String.ofList (sliceFrom span 0 source.toList)

end Heed
