import Heed.Lint
import Heed.Report.JsonText
import Heed.Rule.Catalog
import Heed.Source.LineIndex

/-!
# Reports

Findings in a file as records with lines and columns, as lines of text and as JSON.
-/

set_option autoImplicit false

namespace Heed

structure Record where
  file : String
  start : Position
  stop : Position
deriving DecidableEq, Repr

namespace Record

def ofFinding (file source : String) (finding : Finding) : Record :=
  { file
    start := Position.ofOffset source finding.span.start
    stop := Position.ofOffset source finding.span.stop }

def line (record : Record) : String :=
  record.file ++ ":" ++ toString record.start.line ++ ":" ++ toString record.start.column ++ ": " ++
    mustUseResult ++ ": " ++ Finding.message ++ "\n"

def json (record : Record) : JsonText :=
  .object
    [("file", .string record.file),
     ("line", .number record.start.line),
     ("column", .number record.start.column),
     ("endLine", .number record.stop.line),
     ("endColumn", .number record.stop.column),
     ("rule", .string mustUseResult),
     ("messageId", .string Finding.messageId),
     ("message", .string Finding.message)]

end Record

namespace Report

def lines (records : List Record) : String := String.join (records.map Record.line)

def json (records : List Record) : JsonText := .list (records.map Record.json)

end Report

end Heed
