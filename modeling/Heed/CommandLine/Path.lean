/-!
# Paths

A path is text: names with slashes between them. Empty names and single dots say nothing, except for a
dot at the very start.
-/

set_option autoImplicit false

namespace Heed.Path

def segments (path : String) : List String := (path.splitOn "/")

def isAbsolute (path : String) : Bool := path.toList.head? == some '/'

def isIdle (segment : String) : Bool := segment.isEmpty || segment == "."

/-- Drops what says nothing at the end of segments that are given last first. -/
def trim (segments : List String) : List String := segments.dropWhile isIdle

def parentOfRelative (first : String) (rest : List String) : Option String :=
  match trim rest.reverse with
  | _ :: above => some ("/".intercalate (first :: (trim above).reverse))
  | [] => if first.isEmpty then none else some ""

def parentOfAbsolute (rest : List String) : Option String :=
  match trim rest.reverse with
  | _ :: above => some ("/" ++ "/".intercalate (trim above).reverse)
  | [] => none

/-- The directory that holds what a path names, as it is written. It is empty for a plain name, and the
root has none. -/
def parent? (path : String) : Option String :=
  match segments path with
  | first :: rest => if isAbsolute path then parentOfAbsolute rest else parentOfRelative first rest
  | [] => none

def join (directory name : String) : String :=
  if directory.toList.getLast? == some '/' then directory ++ name else directory ++ "/" ++ name

end Heed.Path
