import ChipEight.Text.Quoted

set_option autoImplicit false

/-!
Options of the command line: their spellings, what can be wrong with the arguments and how it is
told, and the texts that explain them.
-/

namespace ChipEight.CommandLine

open Text

inductive Switch where
  | help
  | output
  | format
  | target
  | origin
  | verbose
  | quiet
  | logFile
  | version
deriving DecidableEq

namespace Switch

/-- The spellings of all options, in the order in which they are declared. -/
def spellings : List (List Char × Switch) :=
  [("-h".toList, help), ("--help".toList, help),
   ("-o".toList, output), ("--output".toList, output),
   ("--format".toList, format),
   ("--target".toList, target),
   ("--org".toList, origin),
   ("--verbose".toList, verbose), ("-v".toList, verbose),
   ("--quiet".toList, quiet), ("-q".toList, quiet),
   ("--log-file".toList, logFile),
   ("--version".toList, version)]

def takesValue : Switch → Bool
  | output | format | target | origin | logFile => true
  | help | verbose | quiet | version => false

/-- The option in a message: its spellings with slashes between them. -/
def title (switch : Switch) : String :=
  String.intercalate "/"
    ((spellings.filter (·.2 = switch)).map fun entry => String.ofList entry.1)

end Switch

inductive Misuse where
  | ambiguous (argument : List Char) (candidates : List (List Char))
  | ignoredValue (switch : Switch) (value : List Char)
  | missingValue (switch : Switch)
  | invalidChoice (switch : Switch) (value : List Char) (choices : List String)
  | missingInput
  | unrecognized (arguments : List (List Char))
deriving DecidableEq

namespace Misuse

private def shown (text : List Char) : String :=
  String.ofList (Quoted.quoted text)

def message : Misuse → String
  | ambiguous argument candidates =>
    "ambiguous option: " ++ String.ofList argument ++ " could match " ++
      String.intercalate ", " (candidates.map String.ofList)
  | ignoredValue switch value =>
    s!"argument {switch.title}: ignored explicit argument " ++ shown value
  | missingValue switch => s!"argument {switch.title}: expected one argument"
  | invalidChoice switch value choices =>
    s!"argument {switch.title}: invalid choice: " ++ shown value ++ " (choose from " ++
      String.intercalate ", " (choices.map fun choice => shown choice.toList) ++ ")"
  | missingInput => "the following arguments are required: input"
  | unrecognized arguments =>
    "unrecognized arguments: " ++ String.intercalate " " (arguments.map String.ofList)

end Misuse

def version : String := "0.1.0"

def versionLine : String := s!"c8asm {version}\n"

/-- Where a binary goes if no output is named. -/
def defaultOutput : String := "a.c8"

def usage : String :=
  "usage: c8asm [-h] [-o OUTPUT] [--format \x7bbin,listing\x7d]\n" ++
  "             [--target \x7bchip8,eti660\x7d] [--org ORG] [--verbose] [--quiet]\n" ++
  "             [--log-file LOG_FILE] [--version]\n" ++
  "             input\n"

def help : String :=
  usage ++
  "\n" ++
  "CHIP-8 assembler\n" ++
  "\n" ++
  "positional arguments:\n" ++
  "  input                 Input assembly source file\n" ++
  "\n" ++
  "options:\n" ++
  "  -h, --help            show this help message and exit\n" ++
  "  -o OUTPUT, --output OUTPUT\n" ++
  "                        Output file (default: a.c8 for binary, stdout for\n" ++
  "                        listing)\n" ++
  "  --format \x7bbin,listing\x7d\n" ++
  "                        Output format (auto-detected from -o extension if not\n" ++
  "                        set)\n" ++
  "  --target \x7bchip8,eti660\x7d\n" ++
  "                        Interpreter profile selecting the load address\n" ++
  "                        (default: chip8)\n" ++
  "  --org ORG             Load address override (hex, e.g. 0x200)\n" ++
  "  --verbose, -v         Increase verbosity (-v, -vv)\n" ++
  "  --quiet, -q           Only report errors\n" ++
  "  --log-file LOG_FILE   Also write a debug log to this file\n" ++
  "  --version             show program's version number and exit\n" ++
  "\n" ++
  "Targets: chip8, eti660\n"

end ChipEight.CommandLine
