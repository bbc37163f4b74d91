import ChipEight.Instruction
import ChipEight.Layout

set_option autoImplicit false

/-!
Events that a run reports, each with a level, the channel that reports it, and a message.
-/

namespace ChipEight

open Text

inductive Level where
  | debug
  | warning
deriving DecidableEq

namespace Level

def name : Level → String
  | debug => "DEBUG"
  | warning => "WARNING"

/-- The level on the scale that thresholds are given on. -/
def rank : Level → Nat
  | debug => 10
  | warning => 30

end Level

inductive Channel where
  | program
  | assembler
  | instructions
deriving DecidableEq

def Channel.name : Channel → String
  | program => "chip8asm"
  | assembler => "chip8asm.assembler"
  | instructions => "chip8asm.instructions"

inductive Event where
  | logOpened (path : List Char)
  | redefined (notice : Redefinition)
  /-- Every label has its address. -/
  | laidOut (labels : Nat) (instructions : Int)
  | truncated (notice : Truncation)
  | encoded (address : Int) (word : Nat) (instruction : List Char)
  | unreferenced (name : List Char)
  /-- All words are there. -/
  | finished (bytes : Nat)
  | overrun (stop : Int)
deriving DecidableEq

namespace Event

def level : Event → Level
  | logOpened _ | laidOut _ _ | encoded _ _ _ | finished _ => .debug
  | redefined _ | truncated _ | unreferenced _ | overrun _ => .warning

def channel : Event → Channel
  | logOpened _ => .program
  | truncated _ => .instructions
  | _ => .assembler

private def hex (width : Nat) (n : Int) : String :=
  "0x" ++ String.ofList (Hexadecimal.padded width n)

def message : Event → String
  | logOpened path => "Log file: " ++ String.ofList path
  | redefined notice =>
    s!"Line {notice.line}: label '" ++ String.ofList notice.name ++ "' redefined (" ++
      hex 3 notice.old ++ " -> " ++ hex 3 notice.new ++ ")"
  | laidOut labels instructions =>
    s!"Pass 1: {labels} labels, {instructions} instructions"
  | truncated notice =>
    s!"Line {notice.line}: " ++ String.ofList notice.mnemonic ++ " value " ++
      hex 0 notice.value ++ " truncated to " ++ hex 0 notice.kept
  | encoded address word instruction =>
    hex 3 address ++ "  " ++ String.ofList (Hexadecimal.padded 4 word) ++ "  " ++
      String.ofList instruction
  | unreferenced name => "Label '" ++ String.ofList name ++ "' is never referenced"
  | finished bytes => s!"Pass 2: emitted {bytes} bytes"
  | overrun stop => "Program ends at " ++ hex 4 stop ++ ", past the 12-bit address space"

end Event

end ChipEight
