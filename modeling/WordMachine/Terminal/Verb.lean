import WordMachine.Text.Letters
import WordMachine.Text.Suggestion

/-!
# Debugger verbs

The names of the debugger's commands.  Some have short forms, and those on
breakpoints and watchpoints may be written as a group and a second word.
-/

namespace WordMachine
namespace Terminal

inductive Verb
  | help | step | back | resume | runUntil | reset | registers | get | disasm | source
  | trace | output | quit
  | breakList | breakAdd | breakRemove
  | watchList | watchAdd | watchRemove
  deriving DecidableEq

namespace Verb

open Text

def display : Verb → String
  | help => "help" | step => "step" | back => "back" | resume => "continue"
  | runUntil => "until" | reset => "reset" | registers => "registers" | get => "get"
  | disasm => "disasm" | source => "source" | trace => "trace" | output => "output"
  | quit => "quit"
  | breakList => "break list" | breakAdd => "break add" | breakRemove => "break remove"
  | watchList => "watch list" | watchAdd => "watch add" | watchRemove => "watch remove"

/-- How many arguments a verb takes at most.  What follows `help` is not looked at. -/
def arity : Verb → UInt8
  | help | resume | reset | registers | disasm | output | quit | breakList | watchList => 0
  | step | back | trace | runUntil | get | source | breakAdd | breakRemove | watchRemove => 1
  | watchAdd => 3

/-- A table of verbs with the words for each, the full word first. -/
abbrev Table := List (Verb × List String)

def table : Table :=
  [(help, ["help", "h", "--help", "-h"]),
    (step, ["step", "s"]),
    (back, ["back", "bk"]),
    (resume, ["continue", "cont", "c"]),
    (runUntil, ["until", "u"]),
    (reset, ["reset"]),
    (registers, ["registers", "reg", "r"]),
    (get, ["get", "g"]),
    (disasm, ["disasm", "dis", "d"]),
    (source, ["source", "src"]),
    (trace, ["trace", "t"]),
    (output, ["output", "out", "o"]),
    (quit, ["quit", "q", "exit"]),
    (breakList, ["breaklist", "bl"]),
    (breakAdd, ["breakadd", "ba"]),
    (breakRemove, ["breakremove", "br"]),
    (watchList, ["watchlist", "wl"]),
    (watchAdd, ["watchadd", "wa"]),
    (watchRemove, ["watchremove", "wr"])]

def breakTable : Table :=
  [(breakList, ["list", "l"]), (breakAdd, ["add", "a"]), (breakRemove, ["remove", "r"])]

def watchTable : Table :=
  [(watchList, ["list", "l"]), (watchAdd, ["add", "a"]), (watchRemove, ["remove", "r"])]

/-- The words that open a group of verbs, the full word first. -/
def groups : List (List String × Table) :=
  [(["break", "b"], breakTable), (["watch", "w"], watchTable)]

def isOneOf (word : Text) (words : List String) : Bool := words.any (sameWord word ·.toList)

def find? (table : Table) (word : Text) : Option Verb :=
  (table.find? (isOneOf word ·.2)).map (·.1)

/-- The verb whose full word is closest to a misspelled one. -/
def suggestIn (table : Table) (word : Text) : Option Verb := do
  let suggested ← suggest word (table.filterMap fun entry => entry.2.head?.map (·.toList))
  find? table suggested

end Verb
end Terminal
end WordMachine
