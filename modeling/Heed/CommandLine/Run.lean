import Heed.CommandLine.Arguments
import Heed.CommandLine.Files
import Heed.Report.Basic
import Heed.Settings.Basic

/-!
# Commands

`check` lints files one by one. A file that cannot be read or parsed is reported and left out; the others
are still linted. The exit code is 2 if some file failed or the run could not start, else 1 if something
was found, else 0.
-/

set_option autoImplicit false

namespace Heed

/-- What a run leaves behind. The lines on standard error are without source excerpts. -/
structure Outcome where
  exitCode : Nat
  output : String
  errors : List String
deriving DecidableEq, Repr

structure LintedFile where
  path : String
  source : String
  findings : List Finding
deriving DecidableEq, Repr

inductive FileFailure where
  | unreadable (error : FileError)
  | malformed (error : SyntaxError)

namespace LintedFile

def isClean (file : LintedFile) : Bool := file.findings.isEmpty

def records (file : LintedFile) : List Record :=
  file.findings.map (Record.ofFinding file.path file.source)

def warnings (file : LintedFile) : List String :=
  file.findings.map fun _ =>
    "[" ++ mustUseResult ++ "] Warning: " ++ file.path ++ ": " ++ Finding.message

end LintedFile

def FileFailure.line (path : String) (failure : FileFailure) : String :=
  "error [" ++ path ++ "]: " ++
    match failure with
    | .unreadable error => "I/O error: could not read " ++ path ++ ": " ++ error.reason
    | .malformed error => "Syntax error: " ++ error.message

def SettingsError.lines (path : String) (error : SettingsError) : List String :=
  ["error[config]: " ++ error.message, "  --> " ++ path]

namespace CommandLine

variable {m : Type → Type} [Monad m] (files : FileAccess m)

/-! ## Settings -/

def loadSettings (path : String) : m (Except (String × SettingsError) Settings) := do
  match ← files.read path with
  | .error error => return .error (path, .unreadable error.reason)
  | .ok text =>
      match Settings.parse text path with
      | .error error => return .error (path, error)
      | .ok settings => return .ok settings

/-- Where settings are looked for: beside the first file to lint, then in the working directory. -/
def settingsPlaces (firstFile : Option String) : m (List String) := do
  let beside := (firstFile.bind Path.parent?).map fun directory =>
    if directory.isEmpty then "." else directory
  let directories := beside.toList ++ (← files.workingDirectory).toList
  return directories.map fun directory => Path.join directory settingsFileName

def firstSettings : List String → m (Except (String × SettingsError) Settings)
  | [] => return .ok Settings.standard
  | place :: rest => do
      if ← files.isFile place then loadSettings files place else firstSettings rest

/-- The settings of a run. A file that is named wins. -/
def findSettings (named firstFile : Option String) :
    m (Except (String × SettingsError) Settings) := do
  match named with
  | some path => loadSettings files path
  | none => firstSettings files (← settingsPlaces files firstFile)

/-! ## Check -/

def lintFile (options : RuleOptions) (path : String) : m (Except FileFailure LintedFile) := do
  match ← files.read path with
  | .error error => return .error (.unreadable error)
  | .ok source =>
      match lint options source with
      | .error error => return .error (.malformed error)
      | .ok findings => return .ok { path, source, findings }

def sortOut : List (String × Except FileFailure LintedFile) → List String × List LintedFile
  | [] => ([], [])
  | (path, .error failure) :: rest =>
      let (errors, linted) := sortOut rest
      (failure.line path :: errors, linted)
  | (_, .ok file) :: rest =>
      let (errors, linted) := sortOut rest
      (errors, file :: linted)

def summary (linted : List LintedFile) : List String :=
  let total := (linted.flatMap (·.findings)).length
  let broken := (linted.filter (!·.isClean)).length
  if total = 0 then []
  else [toString total ++ " problem(s) in " ++ toString broken ++ " file(s)"]

def exitCode (errors : List String) (linted : List LintedFile) : Nat :=
  if !errors.isEmpty then 2 else if linted.all LintedFile.isClean then 0 else 1

def outcome (format : OutputFormat) (results : List (String × Except FileFailure LintedFile)) :
    Outcome :=
  let (errors, linted) := sortOut results
  let exitCode := exitCode errors linted
  match format with
  | .human =>
      { exitCode, output := "", errors := errors ++ linted.flatMap (·.warnings) ++ summary linted }
  | .json =>
      let records := linted.flatMap (·.records)
      { exitCode, output := (Report.json records).text ++ "\n", errors }

def check (request : CheckRequest) : m Outcome := do
  match ← findSettings files request.settings request.files.head? with
  | .error (path, error) => return { exitCode := 2, output := "", errors := error.lines path }
  | .ok settings =>
      let results ← request.files.mapM fun path => do
        return (path, ← lintFile files settings.options path)
      return outcome (request.format.getD .human) results

/-! ## Rules and version -/

def padTo (width : Nat) (text : String) : String :=
  text ++ String.ofList (List.replicate (width - text.length) ' ')

def ruleLine (rule : RuleEntry) : String :=
  padTo 20 rule.name ++ " " ++ padTo 16 rule.category ++ " " ++ padTo 6 rule.recommended.name ++
    " " ++ rule.description ++ "\n"

def versionLine : String := "resultlint 0.1.0\n"

def run (arguments : List String) : m Outcome :=
  match Invocation.ofArguments arguments with
  | .check request => check files request
  | .listRules =>
      return { exitCode := 0, output := String.join (catalog.map ruleLine), errors := [] }
  | .showHelp => return { exitCode := 0, output := "", errors := [] }
  | .showVersion => return { exitCode := 0, output := versionLine, errors := [] }
  | .misuse => return { exitCode := 2, output := "", errors := [] }

end CommandLine

end Heed
