import WordMachine.CommandLine.Invocation

/-!
# The command line's manual

The greeting that is shown without arguments, the version, and the help texts.
-/

namespace WordMachine
namespace CommandLine

def programName : String := "toyasm"

def version : String := "0.1.0"

def lines (text : List String) : String := String.join (text.map (· ++ "\n"))

def welcome : String :=
  lines
    [ "",
      "~ " ++ programName ++ " v" ++ version ++ " ~",
      "",
      "  _",
      " | |_ ___  _   _  __ _ ___ _ __ ___",
      " | __/ _ \\| | | |/ _` / __| '_ ` _ \\",
      " | || (_) | |_| | (_| \\__ \\ | | | | |",
      "  \\__\\___/ \\__, |\\__,_|___/_| |_| |_|",
      "           |___/                     ",
      "",
      "Welcome to " ++ programName ++ ", an assembler and time-travelling debugger",
      "for a small 16-bit teaching instruction set.",
      "Please use `-h` or `--help` to access the usage instructions and documentation.",
      "" ]

namespace Subcommand

def about : Subcommand → String
  | run => "Assemble a `.asm` file and run it to completion"
  | debug => "Assemble a `.asm` file and step through it in the debugger"
  | check => "Check a `.asm` file without running it"
  | disasm => "Print the assembled instructions of a `.asm` file"
  | watch => "Place a watch on a `.asm` file to receive constant assembler updates"

/-- What the path of a subcommand names. -/
def pathAbout : Subcommand → String
  | run => "`.asm` file to run"
  | debug => "`.asm` file to debug"
  | check => "File to check"
  | disasm => "File to disassemble"
  | watch => "`.asm` file to watch"

def limitAbout : Subcommand → String
  | debug => "Give up a single `continue` after this many instructions"
  | _ => "Give up after this many instructions"

def switchHelp (subcommand : Subcommand) : Switch → String
  | .minimal => "  -m, --minimal                  Produce minimal output, suited for blackbox tests"
  | .stepLimit => "  -s, --step-limit <STEP_LIMIT>  " ++ subcommand.limitAbout
  | .script => "  -c, --command <COMMAND>        Read debugger commands from argument"

def help (subcommand : Subcommand) : String :=
  let switches := subcommand.switches
  lines
    ([ subcommand.about,
      "",
      "Usage: " ++ programName ++ " " ++ subcommand.name ++
        (if switches.isEmpty then "" else " [OPTIONS]") ++ " <NAME>",
      "",
      "Arguments:",
      "  <NAME>  " ++ subcommand.pathAbout,
      "",
      "Options:" ] ++
      switches.map subcommand.switchHelp ++
      [ if switches.isEmpty then "  -h, --help  Print help"
        else "  -h, --help                     Print help" ])

end Subcommand

def helpAbout : String := "Print this message or the help of the given subcommand(s)"

def helpHelp : String :=
  lines
    [ helpAbout,
      "",
      "Usage: " ++ programName ++ " help [COMMAND]...",
      "",
      "Arguments:",
      "  [COMMAND]...  Print help for the subcommand(s)" ]

def generalHelp : String :=
  lines
    ([ programName ++ " assembles and debugs programs for a small 16-bit teaching instruction set",
      "",
      "Usage: " ++ programName ++ " [PATH] [COMMAND]",
      "",
      "Commands:" ] ++
      Subcommand.all.map (fun subcommand =>
        "  " ++ String.ofList (Text.padRight 8 subcommand.name.toList) ++ subcommand.about) ++
      [ "  help    " ++ helpAbout,
        "",
        "Arguments:",
        "  [PATH]  Quickly provide a `.asm` file to run",
        "",
        "Options:",
        "  -h, --help     Print help",
        "  -V, --version  Print version" ])

def help : Topic → String
  | .program => generalHelp
  | .subcommand subcommand => subcommand.help
  | .help => helpHelp

end CommandLine
end WordMachine
