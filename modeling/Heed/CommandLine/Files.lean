import Heed.CommandLine.Path

/-!
# Files

What the command line needs of a file system, and a file system in memory that provides it.
-/

set_option autoImplicit false

namespace Heed

inductive FileError where
  | notFound
  | notDirectory
  | isDirectory
  /-- The contents are not UTF-8. -/
  | notText
  /-- Any other reason that the system gives. -/
  | other (reason : String)
deriving DecidableEq, Repr

def FileError.reason : FileError → String
  | .notFound => "No such file or directory (os error 2)"
  | .notDirectory => "Not a directory (os error 20)"
  | .isDirectory => "Is a directory (os error 21)"
  | .notText => "stream did not contain valid UTF-8"
  | .other reason => reason

structure FileAccess (m : Type → Type) where
  read : String → m (Except FileError String)
  isFile : String → m Bool
  workingDirectory : m (Option String)

/-- Files in memory by the names on the way from the root, and the working directory. -/
structure FileTree where
  files : List (List String × ByteArray)
  workingDirectory : List String

namespace FileTree

variable (tree : FileTree)

def contents? (place : List String) : Option ByteArray := tree.files.lookup place

/-- Whether there is a directory at a place: the root, the working directory, and whatever is on the way
to it or to a file. -/
def isDirectory (place : List String) : Bool :=
  place.isEmpty || place.isPrefixOf tree.workingDirectory ||
    tree.files.any fun (name, _) => place.isPrefixOf name && place != name

def step (place : List String) (segment : String) : Except FileError (List String) :=
  if (tree.contents? place).isSome then .error .notDirectory
  else if Path.isIdle segment then .ok place
  else if segment = ".." then .ok place.dropLast
  else
    let next := place ++ [segment]
    if (tree.contents? next).isSome || tree.isDirectory next then .ok next else .error .notFound

def locate (path : String) : Except FileError (List String) :=
  if path.isEmpty then .error .notFound
  else
    let start := if Path.isAbsolute path then [] else tree.workingDirectory
    (Path.segments path).foldlM tree.step start

def read (path : String) : Except FileError String :=
  match tree.locate path with
  | .error error => .error error
  | .ok place =>
      match tree.contents? place with
      | none => .error .isDirectory
      | some bytes =>
          match String.fromUTF8? bytes with
          | some text => .ok text
          | none => .error .notText

def isFile (path : String) : Bool :=
  match tree.locate path with
  | .ok place => (tree.contents? place).isSome
  | .error _ => false

def access : FileAccess Id :=
  { read := tree.read
    isFile := tree.isFile
    workingDirectory := some ("/" ++ "/".intercalate tree.workingDirectory) }

end FileTree

end Heed
