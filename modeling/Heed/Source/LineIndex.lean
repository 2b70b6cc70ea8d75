import Heed.Source.Position

/-!
# Lines and columns

The index of a source has the byte offsets at which its lines start. A line ends after a line feed, and a column
counts characters, not bytes. An offset past the end stands for the end.
-/

set_option autoImplicit false

namespace Heed

structure LineIndex where
  source : String
  starts : Array Nat
deriving Repr

/-- What a search among rising numbers finds: the place of the number that is looked for, or else the place of the
first greater one. -/
inductive SearchResult where
  | hit (place : Nat)
  | miss (place : Nat)
deriving DecidableEq, Repr

namespace LineIndex

def lineFeed : UInt8 := 10

/-- The offsets right behind the line feeds in a row of bytes that starts at `offset`. -/
def startsBehind (offset : Nat) : List UInt8 → List Nat
  | [] => []
  | byte :: rest =>
      if byte = lineFeed then (offset + 1) :: startsBehind (offset + 1) rest
      else startsBehind (offset + 1) rest

def ofSource (source : String) : LineIndex :=
  { source, starts := (0 :: startsBehind 0 source.toUTF8.data.toList).toArray }

def start (index : LineIndex) (line : Nat) : Nat := index.starts.getD line 0

/-- Binary search for an offset among the starts of the lines from `low` up to, and without, `high`. -/
def searchBetween (index : LineIndex) (offset low high : Nat) : SearchResult :=
  if low < high then
    let middle := (low + high) / 2
    if index.start middle = offset then .hit middle
    else if index.start middle < offset then index.searchBetween offset (middle + 1) high
    else index.searchBetween offset low middle
  else .miss low
termination_by high - low

def search (index : LineIndex) (offset : Nat) : SearchResult :=
  index.searchBetween offset 0 index.starts.size

/-- The line of an offset: the one that starts there, or the one before the first that starts behind it. -/
def line (index : LineIndex) (offset : Nat) : Nat :=
  match index.search offset with
  | .hit line => line
  | .miss next => next - 1

def clamp (index : LineIndex) (offset : Nat) : Nat := min offset index.source.utf8ByteSize

def position (index : LineIndex) (offset : Nat) : Position :=
  let offset := index.clamp offset
  let line := index.line offset
  let before := Span.text ⟨index.start line, offset⟩ index.source
  { line := line + 1, column := before.length + 1 }

end LineIndex

def Position.ofOffset (source : String) (offset : Nat) : Position :=
  (LineIndex.ofSource source).position offset

end Heed
