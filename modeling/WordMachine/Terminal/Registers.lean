import WordMachine.Terminal.Screen

/-!
# Showing registers

A minimal screen shows one name and signed value a line.  Otherwise every word
is shown in hexadecimal, unsigned, signed and as a character, inside a box.
-/

namespace WordMachine
namespace Terminal

open Text

def dim : String := "\x1b[2m"

def bold : String := "\x1b[1m"

def italic : String := "\x1b[3m"

def plain : String := "\x1b[0m"

/-- The names of the control characters that are shown by name. -/
def controlNames : List (Nat × String) :=
  [(0x00, "NUL"), (0x08, "BS "), (0x09, "HT "), (0x0a, "LF "), (0x0b, "VT "), (0x0c, "FF "),
    (0x0d, "CR "), (0x1b, "ESC"), (0x7f, "DEL"), (0x20, "[_]")]

/-- A word as a character. -/
def characterCell (value : Nat) : Text :=
  match controlNames.find? (·.1 == value) with
  | some entry => entry.2.toList
  | none =>
      if 0x21 ≤ value ∧ value ≤ 0x7e then padRight 6 [Char.ofNat value]
      else if value ≤ 0x7f then (dim ++ "───" ++ plain).toList
      else (dim ++ "┄┄┄" ++ plain).toList

/-- Every view of a word; the signed number alone on a minimal screen. -/
def renderWord (minimal : Bool) (value : Word) : Text :=
  if minimal then signed value.toInt
  else
    hexWord value.toNat ++ [' ', ' '] ++ padLeft ' ' 6 (decimal value.toNat) ++ [' ', ' '] ++
      padLeft ' ' 6 (signed value.toInt) ++ "     ".toList ++ characterCell value.toNat

/-- A horizontal edge of the box. -/
def edge (left right : String) : Text :=
  (dim ++ left).toList ++ List.replicate 37 '─' ++ (right ++ plain ++ "\n").toList

def header : Text :=
  (dim ++ "│         " ++ italic ++ "hex     int    uint    char" ++ plain ++ dim ++ " │" ++
    plain ++ "\n").toList

/-- The left side of a row in the box, up to its name. -/
def rowStart : Text := (dim ++ "│" ++ plain ++ " " ++ bold).toList

def rowEnd : Text := (" " ++ dim ++ "│" ++ plain ++ "\n").toList

def row (register : Register) (value : Word) : Text :=
  rowStart ++ padRight 3 register.render ++ (plain ++ "  ").toList ++ renderWord false value ++
    rowEnd

def pointerRow (cpu : Cpu) : Text :=
  rowStart ++ ("IP" ++ plain ++ "   ").toList ++ hexWord cpu.instructionPointer.toNat ++
    [' ', ' '] ++ padRight 23 cpu.flags.display.toList ++ rowEnd

def minimalRow (register : Register) (value : Word) : Text :=
  register.render ++ [' '] ++ signed value.toInt ++ ['\n']

/-- All registers and the flags. -/
def renderRegisters (minimal : Bool) (cpu : Cpu) : Text :=
  if minimal then
    Register.all.flatMap (fun register => minimalRow register (cpu.get register)) ++
      "IP ".toList ++ decimal cpu.instructionPointer.toNat ++ ['\n'] ++
      cpu.flags.display.toList ++ ['\n']
  else
    edge "┌" "┐" ++ header ++
      Register.all.flatMap (fun register => row register (cpu.get register)) ++
      pointerRow cpu ++ edge "└" "┘"

end Terminal
end WordMachine
