import Caju.Diagnostic
import Caju.Json.Document
import Caju.Json.Writer

/-! The outcome of checking one source file, as a JSON text for other programs. -/

namespace Caju

open Caju.Json (Value)

/-- One line of a report: the code and the message of a diagnostic. -/
structure ReportEntry where
  code : String
  message : String
  deriving DecidableEq, Inhabited

structure Report where
  success : Bool
  sourceFile : String
  entries : List ReportEntry
  deriving DecidableEq, Inhabited

def ReportEntry.ofDiagnostic (d : Diagnostic) : ReportEntry := ⟨d.code, d.message⟩

def ReportEntry.encode (entry : ReportEntry) : Value :=
  .object [("code", .string entry.code), ("message", .string entry.message)]

/-- A member of an object by its name. -/
def Report.member? (name : String) : Value → Option Value
  | .object members => members.lookup name
  | _ => none

def Report.asString? : Value → Option String
  | .string s => some s
  | _ => none

def ReportEntry.decode? (value : Value) : Option ReportEntry := do
  let code ← (← Report.member? "code" value) |> Report.asString?
  let message ← (← Report.member? "message" value) |> Report.asString?
  return ⟨code, message⟩

namespace Report

/-- The report on a file in which these diagnostics were found. -/
def ofDiagnostics (sourceFile : String) (diagnostics : List Diagnostic) : Report :=
  ⟨diagnostics.isEmpty, sourceFile, diagnostics.map .ofDiagnostic⟩

def encode (report : Report) : Value :=
  .object [("success", .boolean report.success), ("source_file", .string report.sourceFile),
    ("diagnostics", .list (report.entries.map ReportEntry.encode))]

def decode? (value : Value) : Option Report := do
  let .boolean success ← member? "success" value | none
  let sourceFile ← (← member? "source_file" value) |> asString?
  let .list entries ← member? "diagnostics" value | none
  return ⟨success, sourceFile, ← entries.mapM ReportEntry.decode?⟩

/-- The report as text. -/
def text (report : Report) : String := report.encode.indented

/-- Reads a report back from its text. -/
def ofText? (text : String) : Option Report :=
  match Json.document text.toList with
  | .ok value => decode? value
  | .error _ => none

end Report

end Caju
