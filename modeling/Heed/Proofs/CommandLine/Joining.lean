import Heed.CommandLine.Run

/-!
# Files are checked one by one

A run over several files reports what the files yield on their own, one after the other. A file that cannot be
read or parsed yields nothing and takes nothing from the others: it shows in an error line of its own and in the
exit code. The order of the files decides the order of the report and nothing else.

Files are read from a file system that does not change while the program runs.
-/

set_option autoImplicit false

namespace Heed

def Record.warning (record : Record) : String :=
  "[" ++ mustUseResult ++ "] Warning: " ++ record.file ++ ": " ++ Finding.message

/-! ## One file -/

namespace FileAccess

variable (files : FileAccess Id) (options : RuleOptions) (path : String)

/-- What a file yields on its own: a record for each finding, or the reason why it cannot be linted. -/
def yield : Except FileFailure (List Record) :=
  match (files.read path).run with
  | .error error => .error (.unreadable error)
  | .ok source =>
      match lint options source with
      | .error error => .error (.malformed error)
      | .ok findings => .ok (findings.map (Record.ofFinding path source))

def Fails : Prop := (files.yield options path).isOk = false

instance : Decidable (files.Fails options path) := inferInstanceAs (Decidable (_ = _))

/-- The findings of a file on its own. One that cannot be linted has none. -/
def recordsOf : List Record := (files.yield options path).toOption.getD []

def complaint? : Option String :=
  match files.yield options path with
  | .error failure => some (failure.line path)
  | .ok _ => none

variable {files options path}

theorem recordsOf_of_fails (fails : files.Fails options path) : files.recordsOf options path = [] := by
  unfold Fails at fails
  unfold recordsOf
  cases yielded : files.yield options path with
  | error failure => rfl
  | ok records =>
      rw [yielded] at fails
      cases fails

theorem complaint?_eq_none_iff : files.complaint? options path = none ↔ ¬ files.Fails options path := by
  unfold complaint? Fails
  cases files.yield options path with
  | error failure => simp [Except.isOk, Except.toBool]
  | ok records => simp [Except.isOk, Except.toBool]

end FileAccess

namespace CommandLine

variable (files : FileAccess Id) (options : RuleOptions)

theorem yield_eq_map_lintFile (path : String) :
    files.yield options path = (lintFile files options path).run.map LintedFile.records := by
  simp only [FileAccess.yield, lintFile, Id.run_bind]
  cases (files.read path).run with
  | error error => rfl
  | ok source => cases linted : lint options source <;> simp [linted, Except.map, LintedFile.records]

def lintedOf (path : String) : List LintedFile := (lintFile files options path).run.toOption.toList

theorem flatMap_records_lintedOf (path : String) :
    (lintedOf files options path).flatMap LintedFile.records = files.recordsOf options path := by
  rw [FileAccess.recordsOf, yield_eq_map_lintFile, lintedOf]
  cases (lintFile files options path).run with
  | error failure => rfl
  | ok file => exact List.append_nil _

/-- The warning about a finding can be read off its record. -/
theorem warnings_eq_map_records (file : LintedFile) : file.warnings = file.records.map Record.warning := by
  rw [LintedFile.records, List.map_map]
  rfl

theorem flatMap_warnings_lintedOf (path : String) :
    (lintedOf files options path).flatMap LintedFile.warnings =
      (files.recordsOf options path).map Record.warning := by
  rw [← flatMap_records_lintedOf, lintedOf]
  cases (lintFile files options path).run with
  | error failure => rfl
  | ok file =>
      change file.warnings ++ [] = (file.records ++ []).map Record.warning
      rw [List.append_nil, List.append_nil, warnings_eq_map_records]

/-! ## All files -/

variable (paths : List String)

def results : List (String × Except FileFailure LintedFile) :=
  paths.map fun path => (path, (lintFile files options path).run)

theorem sortOut_results :
    sortOut (results files options paths) =
      (paths.filterMap (files.complaint? options), paths.flatMap (lintedOf files options)) := by
  induction paths with
  | nil => rfl
  | cons path rest ih =>
      rw [results, List.map_cons, ← results, List.filterMap_cons, List.flatMap_cons, lintedOf,
        FileAccess.complaint?, yield_eq_map_lintFile]
      cases (lintFile files options path).run with
      | error failure =>
          rw [sortOut, ih]
          rfl
      | ok file =>
          rw [sortOut, ih]
          rfl

def joined : List Record := paths.flatMap (files.recordsOf options)

theorem flatMap_records_flatMap :
    (paths.flatMap (lintedOf files options)).flatMap LintedFile.records = joined files options paths := by
  rw [List.flatMap_assoc, joined]
  simp only [flatMap_records_lintedOf]

theorem flatMap_warnings_flatMap :
    (paths.flatMap (lintedOf files options)).flatMap LintedFile.warnings =
      (joined files options paths).map Record.warning := by
  rw [List.flatMap_assoc, joined, List.map_flatMap]
  simp only [flatMap_warnings_lintedOf]

theorem length_flatMap_findings (linted : List LintedFile) :
    (linted.flatMap (·.findings)).length = (linted.flatMap LintedFile.records).length := by
  simp [List.length_flatMap, LintedFile.records]

theorem isClean_eq (file : LintedFile) : file.isClean = file.records.isEmpty := by
  simp [LintedFile.isClean, LintedFile.records]

/-- The files with findings are those that have findings on their own. -/
theorem length_filter_isClean :
    ((paths.flatMap (lintedOf files options)).filter (!·.isClean)).length =
      paths.countP fun path => !(files.recordsOf options path).isEmpty := by
  have one : ∀ path, ((lintedOf files options path).filter (!·.isClean)).length =
      if (!(files.recordsOf options path).isEmpty) = true then 1 else 0 := by
    intro path
    rw [← flatMap_records_lintedOf, lintedOf]
    cases (lintFile files options path).run with
    | error failure => rfl
    | ok file => simp [Except.toOption, isClean_eq, List.filter_cons, apply_ite List.length]
  induction paths with
  | nil => rfl
  | cons path rest ih =>
      rw [List.flatMap_cons, List.filter_append, List.length_append, ih, one, List.countP_cons, Nat.add_comm]

theorem all_isClean_eq :
    (paths.flatMap (lintedOf files options)).all LintedFile.isClean =
      decide (¬ ∃ path ∈ paths, files.recordsOf options path ≠ []) := by
  rw [Bool.eq_iff_iff, decide_eq_true_iff]
  simp [← flatMap_records_lintedOf, isClean_eq]

theorem isEmpty_complaints_eq :
    (paths.filterMap (files.complaint? options)).isEmpty =
      decide (¬ ∃ path ∈ paths, files.Fails options path) := by
  rw [Bool.eq_iff_iff, List.isEmpty_iff, List.filterMap_eq_nil_iff, decide_eq_true_iff]
  simp [FileAccess.complaint?_eq_none_iff]

def statusOf : Nat :=
  if ∃ path ∈ paths, files.Fails options path then 2
  else if ∃ path ∈ paths, files.recordsOf options path ≠ [] then 1
  else 0

theorem exitCode_results :
    exitCode (paths.filterMap (files.complaint? options)) (paths.flatMap (lintedOf files options)) =
      statusOf files options paths := by
  rw [exitCode, isEmpty_complaints_eq, all_isClean_eq, statusOf]
  by_cases fails : ∃ path ∈ paths, files.Fails options path
  · simp [fails]
  · by_cases found : ∃ path ∈ paths, files.recordsOf options path ≠ []
    · simp [fails, found]
    · simp [fails, found]

theorem statusOf_perm {paths paths' : List String} (perm : paths'.Perm paths) :
    statusOf files options paths' = statusOf files options paths := by
  simp only [statusOf, perm.mem_iff]

/-- The last line for a reader, from the records of all files. -/
theorem summary_results :
    summary (paths.flatMap (lintedOf files options)) =
      let total := (joined files options paths).length
      let broken := paths.countP fun path => !(files.recordsOf options path).isEmpty
      if total = 0 then []
      else [toString total ++ " problem(s) in " ++ toString broken ++ " file(s)"] := by
  rw [summary, length_flatMap_findings, flatMap_records_flatMap, length_filter_isClean]

/-- The outcome of a run over files, from what the files yield on their own. -/
def joinedOutcome (format : OutputFormat) : Outcome :=
  let complaints := paths.filterMap (files.complaint? options)
  let records := joined files options paths
  let broken := paths.countP fun path => !(files.recordsOf options path).isEmpty
  { exitCode := statusOf files options paths
    output := if format = .json then (Report.json records).text ++ "\n" else ""
    errors := if format = .json then complaints
      else complaints ++ records.map Record.warning ++
        if records.length = 0 then []
        else [toString records.length ++ " problem(s) in " ++ toString broken ++ " file(s)"] }

theorem outcome_results (format : OutputFormat) :
    outcome format (results files options paths) = joinedOutcome files options paths format := by
  rw [outcome, sortOut_results, joinedOutcome]
  cases format with
  | human => simp [exitCode_results, summary_results, flatMap_warnings_flatMap]
  | json => simp [exitCode_results, flatMap_records_flatMap]

theorem check_run {request : CheckRequest} {config text : String} {settings : Settings}
    (names : request.settings = some config) (holds : (files.read config).run = .ok text)
    (valid : Settings.parse text config = .ok settings) :
    (check files request).run =
      joinedOutcome files settings.options request.files (request.format.getD .human) := by
  have found : (findSettings files request.settings request.files.head?).run = .ok settings := by
    rw [names, findSettings, loadSettings, Id.run_bind, holds]
    simp [valid]
  rw [← outcome_results, check, Id.run_bind, found]
  simp [results]

/-! ## Files that fail -/

theorem joined_filter :
    joined files options (paths.filter fun path => ¬ files.Fails options path) = joined files options paths := by
  induction paths with
  | nil => rfl
  | cons path rest ih =>
      rw [List.filter_cons]
      by_cases fails : files.Fails options path
      · simpa [joined, fails, FileAccess.recordsOf_of_fails fails] using ih
      · simpa [joined, fails] using ih

theorem countP_filter_fails :
    (paths.filter fun path => ¬ files.Fails options path).countP
        (fun path => !(files.recordsOf options path).isEmpty) =
      paths.countP fun path => !(files.recordsOf options path).isEmpty := by
  rw [List.countP_filter]
  refine List.countP_congr fun path _ => ?_
  by_cases fails : files.Fails options path
  · simp [fails, FileAccess.recordsOf_of_fails fails]
  · simp [fails]

theorem filterMap_complaint?_filter :
    (paths.filter fun path => ¬ files.Fails options path).filterMap (files.complaint? options) = [] := by
  rw [List.filterMap_eq_nil_iff]
  intro path member
  exact FileAccess.complaint?_eq_none_iff.mpr (of_decide_eq_true (List.mem_filter.mp member).2)

/-- Without the files that fail all but their error lines is the same. -/
theorem joinedOutcome_filter (format : OutputFormat) :
    let whole := joinedOutcome files options paths format
    let others := joinedOutcome files options (paths.filter fun path => ¬ files.Fails options path) format
    whole.output = others.output ∧
      whole.errors = paths.filterMap (files.complaint? options) ++ others.errors := by
  simp only [joinedOutcome, joined_filter, countP_filter_fails, filterMap_complaint?_filter, true_and]
  split
  · exact (List.append_nil _).symm
  · rw [List.nil_append, List.append_assoc]

variable {files}

/-- A run with settings that are given by name. The report in JSON holds the records that the files yield on
their own, in the order of the files; so do the warnings for a reader, whose last line counts the findings and
the files that have any. Without the files that fail the run would report the same, less the error lines of
these files. The exit code is 2 if some file fails, else 1 if some file has a finding, else 0, in whatever order
the files are given. -/
theorem run_joins_files {arguments : List String} {request : CheckRequest} {config text : String}
    {settings : Settings} (asks : Invocation.ofArguments arguments = .check request)
    (names : request.settings = some config) (holds : (files.read config).run = .ok text)
    (valid : Settings.parse text config = .ok settings) :
    let options := settings.options
    let outcome := (run files arguments).run
    let records := request.files.flatMap (files.recordsOf options)
    let complaints := request.files.filterMap (files.complaint? options)
    let broken := request.files.countP fun path => !(files.recordsOf options path).isEmpty
    let others := (check files
      { request with files := request.files.filter fun path => ¬ files.Fails options path }).run
    (request.format = some .json → outcome.output = (Report.json records).text ++ "\n") ∧
    (request.format ≠ some .json → outcome.output = "" ∧
      outcome.errors = complaints ++ records.map Record.warning ++
        if records.length = 0 then []
        else [toString records.length ++ " problem(s) in " ++ toString broken ++ " file(s)"]) ∧
    (outcome.output = others.output ∧ outcome.errors = complaints ++ others.errors) ∧
    outcome.exitCode =
      (if ∃ path ∈ request.files, files.Fails options path then 2
      else if ∃ path ∈ request.files, files.recordsOf options path ≠ [] then 1
      else 0) ∧
    ∀ arguments' request', Invocation.ofArguments arguments' = .check request' →
      request'.settings = some config → request'.files.Perm request.files →
        (run files arguments').run.exitCode = outcome.exitCode := by
  have checked : ∀ asked : CheckRequest, asked.settings = some config → (check files asked).run =
      joinedOutcome files settings.options asked.files (asked.format.getD .human) :=
    fun _ named => check_run files named holds valid
  intro options outcome records complaints broken others
  have ran : outcome = joinedOutcome files options request.files (request.format.getD .human) := by
    show (run files arguments).run = _
    rw [run, asks]
    exact checked request names
  have ranOthers : others = joinedOutcome files options
      (request.files.filter fun path => ¬ files.Fails options path) (request.format.getD .human) :=
    checked _ names
  refine ⟨fun json => ?_, fun human => ?_, ?_, ?_, ?_⟩
  · rw [ran, json]
    rfl
  · have human : request.format.getD .human = .human := by
      cases format : request.format with
      | none => rfl
      | some format' =>
          cases format' with
          | human => rfl
          | json => exact absurd format human
    rw [ran, human]
    exact ⟨rfl, rfl⟩
  · rw [ran, ranOthers]
    exact joinedOutcome_filter files options request.files _
  · rw [ran]
    rfl
  · intro arguments' request' asks' names' perm
    rw [ran, run, asks']
    refine (congrArg Outcome.exitCode (checked request' names')).trans ?_
    exact statusOf_perm files options perm

def policyText : String := "[rules.must-use-result]\nguard-policy = \"anywhere\"\n"

/-- Settings, a source with a finding, a text that is no program, and a file that is no text. -/
def mixedFiles : FileAccess Id :=
  { read := fun path =>
      match path with
      | "rules.toml" => .ok policyText
      | "lost.ts" => .ok ("declare class R \x7b map(): R; mapErr(): R; andThen(): R; orElse(): R; " ++
          "match(): number; unwrapOr(): number \x7d\nnew R()")
      | "broken.ts" => .ok "const = ;"
      | "odd.ts" => .error .notText
      | _ => .error .notFound
    isFile := fun _ => true
    workingDirectory := none }

def mixedArguments : List String :=
  ["check", "--format", "json", "missing.ts", "lost.ts", "--config", "rules.toml", "odd.ts", "broken.ts"]

/-- Three files that fail stand around one with a finding, which is reported. -/
theorem run_joins_files_mixed :
    ∃ request settings, Invocation.ofArguments mixedArguments = .check request ∧
      request.settings = some "rules.toml" ∧ (mixedFiles.read "rules.toml").run = .ok policyText ∧
      Settings.parse policyText "rules.toml" = .ok settings ∧
      (run mixedFiles mixedArguments).run.output =
        (Report.json [⟨"lost.ts", ⟨2, 1⟩, ⟨2, 8⟩⟩]).text ++ "\n" ∧
      (run mixedFiles mixedArguments).run.exitCode = 2 := by
  have asks : Invocation.ofArguments mixedArguments =
      .check ⟨["missing.ts", "lost.ts", "odd.ts", "broken.ts"], some "rules.toml", some .json⟩ := by
    decide +kernel
  have checks : (Settings.parse policyText "rules.toml").toOption.any (fun settings =>
      decide (["missing.ts", "lost.ts", "odd.ts", "broken.ts"].flatMap (mixedFiles.recordsOf settings.options) =
          [⟨"lost.ts", ⟨2, 1⟩, ⟨2, 8⟩⟩] ∧ mixedFiles.Fails settings.options "missing.ts")) = true := by
    decide +kernel
  cases valid : Settings.parse policyText "rules.toml" with
  | error error =>
      rw [valid] at checks
      cases checks
  | ok settings =>
      rw [valid] at checks
      obtain ⟨records, fails⟩ := of_decide_eq_true checks
      have holds : (mixedFiles.read "rules.toml").run = .ok policyText := rfl
      obtain ⟨output, -, -, status, -⟩ := run_joins_files asks rfl holds valid
      refine ⟨_, settings, asks, rfl, rfl, rfl, (output rfl).trans ?_, status.trans (if_pos ?_)⟩
      · rw [records]
      · exact ⟨"missing.ts", by simp, fails⟩

end CommandLine

end Heed
