/-!
# The debugger's manual

What the verb `help` shows: the verbs and the ways of naming a place.
-/

namespace WordMachine
namespace Terminal

def manualLines : List String :=
  [
    "Commands:",
    "  help                      Show this message",
    "  step [count]              Execute `count` instructions (default 1)",
    "  back [count]              Step backwards through the trace (registers only)",
    "  continue                  Run until a breakpoint, watchpoint, or halt",
    "  until <location>          Run until the instruction pointer reaches `location`",
    "  reset                     Restart the program from the beginning",
    "  registers                 Show all registers and flags",
    "  get <location>            Show a register, or the memory word at `location`",
    "  disasm                    List every instruction",
    "  source [location]         Show the source around an instruction",
    "  trace [count]             Show the most recent trace entries (default 8)",
    "  output                    Show everything the program has printed",
    "  break list                List breakpoints",
    "  break add [location]      Add a breakpoint (default: current instruction)",
    "  break remove [location]   Remove a breakpoint (default: current instruction)",
    "  watch list                List watchpoints",
    "  watch add <address> [width] [read|write|change]",
    "                            Watch 1, 2 (default) or 4 bytes of memory",
    "  watch remove <address>    Remove a watchpoint",
    "  quit                      Stop debugging",
    "",
    "Locations:",
    "  0x10, 16, %10000          Instruction index or byte address",
    "  loop, loop+2, count-1     Label with optional offset",
    "  ^, ^+1, ^-2               Relative to the instruction pointer",
    "  R0..R15, SP, BP           Register (`get` only)",
    "",
    "Separate multiple commands with `;`.",
    ""
  ]

def manual : String := String.intercalate "\n" manualLines

end Terminal
end WordMachine
