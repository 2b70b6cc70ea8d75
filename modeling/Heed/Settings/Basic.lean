import Heed.Rule.Catalog
import Heed.Rule.Options
import Heed.Settings.Blank
import Heed.Toml.Document
import Heed.Toml.Marked

/-!
# Settings

Settings come from a file in TOML with one table, `rules`, that holds a table of options for each rule.
Options that are not set keep their standard values.
-/

set_option autoImplicit false

namespace Heed

def settingsFileName : String := "resultlint.toml"

inductive SettingsError where
  | unreadable (reason : String)
  /-- It is no TOML document, or holds anything but a table of rules. -/
  | malformed
  | unknownRule (name : String)
  /-- The options of the rule do not have the right names and types. -/
  | badOptions
  /-- A list of member names is empty or holds a blank name. -/
  | blankNames (option : String)
deriving DecidableEq, Repr

def SettingsError.message (error : SettingsError) : String :=
  settingsFileName ++ ": " ++
    match error with
    | .unreadable reason => "could not read file: " ++ reason
    | .malformed => "invalid syntax"
    | .unknownRule name => "unknown rule '" ++ name ++ "'"
    | .badOptions => "[rules." ++ mustUseResult ++ "]"
    | .blankNames option => "'" ++ option ++ "' must be a non-empty list of member names"

structure OptionChanges where
  enabled : Option Bool
  resultMembers : Option (List String)
  requireGuardMembers : Option Bool
  handlerMethods : Option (List String)
  guardMethods : Option (List String)
  guardPolicy : Option GuardPolicy

namespace OptionChanges

def none : OptionChanges :=
  { enabled := .none, resultMembers := .none, requireGuardMembers := .none,
    handlerMethods := .none, guardMethods := .none, guardPolicy := .none }

/-! ## Reading -/

def boolean? : Toml.Value → Option Bool
  | .boolean value => some value
  | _ => .none

def text? : Toml.Value → Option String
  | .string text => some text
  | .dateTime value => some value.text
  | _ => .none

def names? : Toml.Value → Option (List String)
  | .array items => items.mapM text?
  | _ => .none

def policyOfName? : String → Option GuardPolicy
  | "controlling" => some .controlling
  | "anywhere" => some .anywhere
  | _ => .none

/-- A policy by its name. The name may also be the only key of a table, over an empty array or table. -/
def policy? : Toml.Value → Option GuardPolicy
  | .string name => policyOfName? name
  | .table [(name, .array [])] => policyOfName? name
  | .table [(name, .table [])] => policyOfName? name
  | _ => .none

def optionNames : List String :=
  ["enabled", "result-members", "require-guard-members", "handler-methods", "guard-methods",
    "guard-policy"]

def set? (changes : OptionChanges) (name : String) (value : Toml.Value) : Option OptionChanges :=
  match name with
  | "enabled" => do return { changes with enabled := ← boolean? value }
  | "result-members" => do return { changes with resultMembers := ← names? value }
  | "require-guard-members" => do return { changes with requireGuardMembers := ← boolean? value }
  | "handler-methods" => do return { changes with handlerMethods := ← names? value }
  | "guard-methods" => do return { changes with guardMethods := ← names? value }
  | "guard-policy" => do return { changes with guardPolicy := ← policy? value }
  | _ => .none

def ofEntries? (entries : List (String × Toml.Value)) : Option OptionChanges :=
  entries.foldlM (fun changes (name, value) => changes.set? name value) none

/-- The options that a value sets: some of them in a table, or all of them in an array. -/
def ofValue? : Toml.Value → Option OptionChanges
  | .table entries => ofEntries? entries
  | .array items =>
      if items.length = optionNames.length then ofEntries? (optionNames.zip items) else .none
  | _ => .none

/-! ## Applying -/

def checkNames (option : String) : Option (List String) → Except SettingsError Unit
  | .none => .ok ()
  | some names =>
      if names.isEmpty || names.any isBlankText then .error (.blankNames option) else .ok ()

def apply (changes : OptionChanges) (options : RuleOptions) : Except SettingsError RuleOptions := do
  checkNames "result-members" changes.resultMembers
  checkNames "handler-methods" changes.handlerMethods
  -- the list of guards may be empty: then nothing is checked by a guard
  return {
    enabled := changes.enabled.getD options.enabled
    resultMembers := changes.resultMembers.getD options.resultMembers
    requireGuardMembers := changes.requireGuardMembers.getD options.requireGuardMembers
    handlerMethods := changes.handlerMethods.getD options.handlerMethods
    guardMethods := changes.guardMethods.getD options.guardMethods
    guardPolicy := changes.guardPolicy.getD options.guardPolicy }

end OptionChanges

structure Settings where
  options : RuleOptions
  /-- The file that the settings come from, if any. -/
  source : Option String
deriving DecidableEq, Repr

namespace Settings

def standard : Settings := { options := RuleOptions.standard, source := none }

/-- The rules that a value sets up. The table of rules itself cannot be marked, and a date or time in its
place counts as the table that spells it. -/
def rulesOf? : Toml.Value → Option (List (String × Toml.Value))
  | .table entries => Toml.Value.unmarkEntries? entries
  | .dateTime value => some [(Toml.dateTimeKey, .string value.text)]
  | _ => none

def rules? : List (String × Toml.Value) → Option (List (String × Toml.Value))
  | [] => some []
  | [("rules", value)] => rulesOf? value
  | _ => none

def applyRule (options : RuleOptions) (entry : String × Toml.Value) :
    Except SettingsError RuleOptions :=
  if entry.1 = mustUseResult then
    match OptionChanges.ofValue? entry.2 with
    | some changes => changes.apply options
    | none => .error .badOptions
  else .error (.unknownRule entry.1)

/-- The options that a text sets. Rules are set up in the order of their names. -/
def optionsOf (text : String) : Except SettingsError RuleOptions :=
  match (Toml.Document.parse text).bind rules? with
  | none => .error .malformed
  | some rules =>
      (rules.mergeSort fun first second => !(second.1 < first.1)).foldlM applyRule
        RuleOptions.standard

def parse (text path : String) : Except SettingsError Settings :=
  (optionsOf text).map fun options => { options, source := some path }

end Settings

end Heed
