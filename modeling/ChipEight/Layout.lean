import ChipEight.Line
import ChipEight.SymbolTable

set_option autoImplicit false

/-!
Layout of a program: every instruction takes two bytes, and a label is bound to the address of the
instruction after it.
-/

namespace ChipEight

def instructionSize : Nat := 2

def defaultBase : Int := 0x200

structure Placed where
  line : Line
  address? : Option Int
deriving DecidableEq

structure Redefinition where
  line : Nat
  name : List Char
  old : Int
  new : Int
deriving DecidableEq

/-- The lines of a program with their label addresses, the table of labels, the address behind the
last instruction, and the labels that were bound again. -/
structure Layout where
  placed : List Placed
  symbols : SymbolTable
  stop : Int
  redefinitions : List Redefinition

namespace Layout

/-- The notice that a label is bound again, unless it stays where it was. -/
def redefinition? (symbols : SymbolTable) (number : Nat) (name : List Char) (address : Int) :
    Option Redefinition :=
  match symbols.find? name with
  | some old => if old = address then none else some ⟨number, name, old, address⟩
  | none => none

/-- The layout of the lines from an address on, after labels that are bound already. -/
def scan (symbols : SymbolTable) (address : Int) : List Line → Layout
  | [] => ⟨[], symbols, address, []⟩
  | line :: lines =>
    match line.statement with
    | .instruction _ _ =>
      let rest := scan symbols (address + instructionSize) lines
      { rest with placed := ⟨line, none⟩ :: rest.placed }
    | .label name =>
      let rest := scan (symbols.insert name address) address lines
      { rest with
        placed := ⟨line, some address⟩ :: rest.placed
        redefinitions :=
          (redefinition? symbols line.number name address).toList ++ rest.redefinitions }
    | _ =>
      let rest := scan symbols address lines
      { rest with placed := ⟨line, none⟩ :: rest.placed }

def ofLines (base : Int) (lines : List Line) : Layout :=
  scan ∅ base lines

end Layout

end ChipEight
