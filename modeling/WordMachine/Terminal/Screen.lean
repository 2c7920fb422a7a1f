import WordMachine.Debug.Session
import WordMachine.Diagnostic.Report

/-!
# The screen

Program output goes to standard output and what the debugger says to standard
error.  A minimal screen drops the debugger's small talk and its escape
sequences.  The screen knows whether the cursor is at the start of a line.
-/

namespace WordMachine
namespace Terminal

open Text

/-- Whether a minimal screen shows a debugger's line. -/
inductive Importance
  | always | sometimes
  deriving DecidableEq

structure Screen where
  minimal : Bool
  atLineStart : Bool := true
  output : String := ""
  errors : String := ""
  deriving DecidableEq

/-- What follows an escape sequence, which ends with an `m`. -/
def afterEscape (text : Text) : Text := (text.dropWhile (· != 'm')).drop 1

theorem length_afterEscape_le (text : Text) : (afterEscape text).length ≤ text.length := by
  have h : (text.dropWhile (· != 'm')).length ≤ text.length :=
    (List.dropWhile_suffix _).length_le
  simp only [afterEscape, List.length_drop]
  omega

/-- The text without its escape sequences. -/
def withoutEscapes : Text → Text
  | [] => []
  | c :: rest =>
      if c = '\x1b' then withoutEscapes (afterEscape rest) else c :: withoutEscapes rest
termination_by text => text.length
decreasing_by
  · have := length_afterEscape_le rest
    simp
    omega
  · simp

namespace Screen

/-- Follow the cursor over a text; one without visible characters leaves it alone. -/
def follow (screen : Screen) (text : Text) : Screen :=
  match (withoutEscapes text).getLast? with
  | some last => { screen with atLineStart := last == '\n' }
  | none => screen

/-- Show program output. -/
def print (screen : Screen) (text : Text) : Screen :=
  { screen with output := screen.output ++ String.ofList text }.follow text

/-- Show something that the debugger says. -/
def say (screen : Screen) (importance : Importance) (text : Text) : Screen :=
  if !screen.minimal then
    { screen with errors := screen.errors ++ String.ofList text }.follow text
  else
    match importance with
    | .always =>
        let plain := withoutEscapes text
        { screen with errors := screen.errors ++ String.ofList plain }.follow text
    | .sometimes => screen

/-- Say a whole line. -/
def sayLine (screen : Screen) (importance : Importance) (line : String) : Screen :=
  screen.say importance (line.toList ++ ['\n'])

/-- Show a report below everything else, without following the cursor. -/
def report (screen : Screen) (report : Report) : Screen :=
  { screen with errors := screen.errors ++ report.render ++ "\n" }

/-- Print a line of recorded output, without following the cursor. -/
def printRecorded (screen : Screen) (line : Text) : Screen :=
  { screen with output := screen.output ++ String.ofList line ++ "\n" }

/-- End a line that has been left open. -/
def startNewLine (screen : Screen) : Screen :=
  if screen.atLineStart then screen else screen.print ['\n']

end Screen
end Terminal
end WordMachine
