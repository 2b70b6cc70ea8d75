import Heed.CommandLine.Run

/-!
# The program

Runs the command line on the files of the system.
-/

set_option autoImplicit false

namespace Heed

def FileError.ofSystem : IO.Error → FileError
  | .noFileOrDirectory .. => .notFound
  | .inappropriateType _ code details =>
      if code = 20 then .notDirectory
      else if code = 21 then .isDirectory
      else .other (details ++ " (os error " ++ toString code ++ ")")
  | error => .other (toString error)

def systemFiles : FileAccess IO :=
  { read := fun path => do
      try
        match String.fromUTF8? (← IO.FS.readBinFile path) with
        | some text => return .ok text
        | none => return .error .notText
      catch error => return .error (FileError.ofSystem error)
    isFile := fun path => do
      try
        let metadata ← (← IO.FS.realPath path).metadata
        return metadata.type matches .file
      catch _ => return false
    workingDirectory := do
      try return some (← IO.currentDir).toString
      catch _ => return none }

end Heed

def main (arguments : List String) : IO UInt32 := do
  let outcome ← Heed.CommandLine.run Heed.systemFiles arguments
  IO.print outcome.output
  outcome.errors.forM IO.eprintln
  return outcome.exitCode.toUInt32
