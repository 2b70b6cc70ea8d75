/-!
# Arguments

The command line has two commands, `check` and `rules`, besides help and version. Options may stand
before, between and after files, and `--` ends them. Options that take a value may have it after an
equals sign or as the next argument, and may be given once.
-/

set_option autoImplicit false

namespace Heed

inductive OutputFormat where
  | human | json
deriving DecidableEq, Repr

def OutputFormat.ofName? : String → Option OutputFormat
  | "human" => some .human
  | "json" => some .json
  | _ => none

structure CheckRequest where
  files : List String
  settings : Option String
  format : Option OutputFormat
deriving DecidableEq, Repr

inductive Invocation where
  | check (request : CheckRequest)
  | listRules
  | showHelp
  | showVersion
  /-- The arguments are wrong. -/
  | misuse
deriving DecidableEq, Repr

namespace Invocation

inductive Argument where
  | endOfOptions
  | long (name : String) (value : Option String)
  | short (letters : List Char)
  | word (text : String)
deriving DecidableEq, Repr

def longOption (text : List Char) : Argument :=
  let name := text.takeWhile (· ≠ '=')
  match text.dropWhile (· ≠ '=') with
  | [] => .long (String.ofList name) none
  | _ :: value => .long (String.ofList name) (some (String.ofList value))

def Argument.ofText (text : String) : Argument :=
  match text.toList with
  | ['-', '-'] => .endOfOptions
  | '-' :: '-' :: rest => longOption rest
  | ['-'] => .word text
  | '-' :: letters => .short letters
  | _ => .word text

/-- Letters of one argument. Only some letters are known: `v` asks for more logging and can be repeated,
others end the reading. -/
def readLetters (known : Char → Option Invocation) : List Char → Option Invocation
  | [] => none
  | letter :: rest =>
      if letter = 'v' then readLetters known rest else some ((known letter).getD .misuse)

def helpLetter : Char → Option Invocation
  | 'h' => some .showHelp
  | _ => none

def leadingLetter : Char → Option Invocation
  | 'V' => some .showVersion
  | letter => helpLetter letter

/-! ## Check -/

namespace Check

def addFile (request : CheckRequest) (file : String) : Option CheckRequest :=
  if file.isEmpty then none else some { request with files := request.files ++ [file] }

def setSettings (request : CheckRequest) (path : String) : Option CheckRequest :=
  if path.isEmpty || request.settings.isSome then none
  else some { request with settings := some path }

def setFormat (request : CheckRequest) (name : String) : Option CheckRequest :=
  if request.format.isSome then none
  else (OutputFormat.ofName? name).map fun format => { request with format := some format }

def valued? (name : String) : Option (CheckRequest → String → Option CheckRequest) :=
  match name with
  | "config" => some setSettings
  | "format" => some setFormat
  | _ => none

/-- Whether an argument can be the value of the option before it. -/
def word? (text : String) : Option String :=
  match Argument.ofText text with
  | .word word => some word
  | _ => none

def finish (request : Option CheckRequest) : Invocation :=
  match request with
  | some request => if request.files.isEmpty then .misuse else .check request
  | none => .misuse

def continueWith (next : CheckRequest → Invocation) (request : Option CheckRequest) : Invocation :=
  (request.map next).getD .misuse

def read (request : CheckRequest) : List String → Invocation
  | [] => finish (some request)
  | argument :: rest =>
      match Argument.ofText argument with
      | .endOfOptions => finish (rest.foldlM addFile request)
      | .word file => continueWith (read · rest) (addFile request file)
      | .short letters => (readLetters helpLetter letters).getD (read request rest)
      | .long "help" none => .showHelp
      | .long "verbose" none => read request rest
      | .long name (some value) =>
          continueWith (read · rest) ((valued? name).bind fun change => change request value)
      | .long name none =>
          match valued? name, rest with
          | some change, next :: rest =>
              continueWith (read · rest) ((word? next).bind (change request))
          | _, _ => .misuse

end Check

/-! ## Other commands -/

def readRules : List String → Invocation
  | [] => .listRules
  | argument :: rest =>
      match Argument.ofText argument with
      | .endOfOptions => if rest.isEmpty then .listRules else .misuse
      | .short letters => (readLetters helpLetter letters).getD (readRules rest)
      | .long "help" none => .showHelp
      | .long "verbose" none => readRules rest
      | _ => .misuse

def readHelp : List String → Invocation
  | [] => .showHelp
  | ["check"] | ["rules"] | ["help"] => .showHelp
  | _ => .misuse

def ofArguments : List String → Invocation
  | [] => .misuse
  | argument :: rest =>
      match Argument.ofText argument with
      | .word "check" => Check.read { files := [], settings := none, format := none } rest
      | .word "rules" => readRules rest
      | .word "help" => readHelp rest
      | .short letters => (readLetters leadingLetter letters).getD (ofArguments rest)
      | .long "help" none => .showHelp
      | .long "version" none => .showVersion
      | .long "verbose" none => ofArguments rest
      | _ => .misuse

end Invocation

end Heed
