import WordMachine.Text.Letters

/-!
# Directives

Statements that begin with a point: they choose the section, set an origin,
define a constant or emit data bytes.
-/

namespace WordMachine

inductive Directive
  | data | text | org | equ | byte | word | ascii | asciz | space | align
  deriving DecidableEq

namespace Directive

open Text

/-- The accepted names, in the order in which suggestions are tried. -/
def names : List (String × Directive) :=
  [(".DATA", data), (".TEXT", text), (".ORG", org), (".EQU", equ), (".BYTE", byte),
    (".WORD", word), (".ASCII", ascii), (".STRING", ascii), (".ASCIZ", asciz),
    (".SPACE", space), (".ALIGN", align)]

def name : Directive → String
  | data => ".DATA" | text => ".TEXT" | org => ".ORG" | equ => ".EQU"
  | byte => ".BYTE" | word => ".WORD" | ascii => ".ASCII" | asciz => ".ASCIZ"
  | space => ".SPACE" | align => ".ALIGN"

def ofText? (word : Text) : Option Directive :=
  (names.find? (sameWord ·.1.toList word)).map (·.2)

def vocabulary : List Text := names.map (·.1.toList)

/-- Whether the directive writes bytes, which it may do in the data section only. -/
def emitsBytes : Directive → Bool
  | byte | word | ascii | asciz | space | align => true
  | _ => false

/-- The arguments that the directive takes, as an error names them. -/
def arguments : Directive → String
  | data | text => "no arguments"
  | org => "a single address"
  | equ => "a name and a value"
  | byte | word => "at least one value"
  | ascii | asciz => "at least one quoted string"
  | space => "a single byte count"
  | align => "a single power of two"

end Directive
end WordMachine
