import WordMachine.Diagnostic.Basic
import WordMachine.Diagnostic.Span
import WordMachine.Text.Numeral

/-!
# Reports

A report is a message together with labelled spans of the source.  Its written
form is one line of fields between bars; a field that is missing is a dash.
-/

namespace WordMachine

inductive Severity
  | error | advice
  deriving DecidableEq

def Severity.render : Severity → String
  | error => "Error"
  | advice => "Advice"

structure Report where
  severity : Severity
  code : Option String := none
  message : String := ""
  help : Option String := none
  labels : List (Span × String) := []
  deriving DecidableEq

namespace Report

def renderLabel (label : Span × String) : String :=
  "|" ++ toString label.1.offset ++ "+" ++ toString label.1.length ++ ":" ++ label.2

def render (report : Report) : String :=
  String.intercalate "|"
      ["report", report.severity.render, report.code.getD "-", report.message,
        report.help.getD "-"] ++
    String.join (report.labels.map renderLabel)

/-- A diagnostic with a label at the token that it points to. -/
def ofDiagnostic (source : Text) (diagnostic : Diagnostic) : Except SpanError Report := do
  let span ← Span.ofColumn source diagnostic.line diagnostic.column
  .ok
    { severity := .error
      code := some diagnostic.code
      message := diagnostic.message
      help := some diagnostic.help
      labels := (span.map (·, "here")).toList }

end Report
end WordMachine
