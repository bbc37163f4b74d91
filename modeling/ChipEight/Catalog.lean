import ChipEight.Field
import ChipEight.Mnemonic
import ChipEight.Operand

set_option autoImplicit false

/-!
The instruction set.  A form says which operands an instruction takes, by a pattern for each, and how
they are packed into its word; the catalog has the forms of each mnemonic, in the order in which they
are tried.  A missing operand and a missing pattern are blank.
-/

namespace ChipEight

inductive Pattern where
  | register
  | zeroRegister
  /-- A constant, or a label that stands for one. -/
  | immediate
  | index
  | memory
  | delayTimer
  | soundTimer
  | key
  | font
  | decimal
  | blank
deriving DecidableEq

namespace Pattern

def name : Pattern → List Char
  | register => ['R', 'E', 'G']
  | zeroRegister => ['V', '0']
  | immediate => ['I', 'M', 'M']
  | index => ['I']
  | memory => ['[', 'I', ']']
  | delayTimer => ['D', 'T']
  | soundTimer => ['S', 'T']
  | key => ['K']
  | font => ['F']
  | decimal => ['B']
  | blank => ['B', 'L', 'A', 'N', 'K']

def accepts : Pattern → Operand → Bool
  | register, .register _ => true
  | zeroRegister, .register n => n == 0
  | immediate, .immediate _ => true
  | immediate, .label _ => true
  | index, .index => true
  | memory, .memory => true
  | delayTimer, .delayTimer => true
  | soundTimer, .soundTimer => true
  | key, .key => true
  | font, .font => true
  | decimal, .decimal => true
  | blank, .blank => true
  | _, _ => false

def acceptsAll : List Pattern → List Operand → Bool
  | [], [] => true
  | pattern :: patterns, operand :: operands =>
    pattern.accepts operand && acceptsAll patterns operands
  | _, _ => false

/-- Operands laid against patterns: a missing operand is blank, and behind the last pattern there
may be only blanks.  The operands that stand in the places are returned. -/
def fit? : List Pattern → List Operand → Option (List Operand)
  | [], operands => if operands.all blank.accepts then some [] else none
  | pattern :: patterns, operands =>
    let operand := operands.headD .blank
    if pattern.accepts operand then (fit? patterns operands.tail).map (operand :: ·) else none

end Pattern

/-- A place of a form: a pattern, and the field that its operand is packed into, if any. -/
inductive Slot where
  | fixed (pattern : Pattern)
  | packed (pattern : Pattern) (field : Field)
deriving DecidableEq

namespace Slot

def pattern : Slot → Pattern
  | fixed pattern => pattern
  | packed pattern _ => pattern

def field? : Slot → Option Field
  | fixed _ => none
  | packed _ field => some field

end Slot

/-- How a short way of writing is completed. -/
inductive Completion where
  | sameRegister
  | fullMask
deriving DecidableEq

def Completion.complete : Completion → List Operand → List Operand
  | _, [] => []
  | sameRegister, first :: _ => [first, first]
  | fullMask, first :: _ => [first, .immediate 0xFF]

inductive Form where
  | word (opcode : Nat) (slots : List Slot)
  /-- A short way to write a word, completed when it is read. -/
  | short (shape : List Pattern) (completion : Completion)
deriving DecidableEq

namespace Form

def shape : Form → List Pattern
  | word _ slots => slots.map Slot.pattern
  | short shape _ => shape

/-- The full operands of an instruction written in this form; `none` if the form does not fit. -/
def accept? (form : Form) (operands : List Operand) : Option (List Operand) :=
  match form with
  | word _ _ => Pattern.fit? form.shape operands
  | short shape completion => (Pattern.fit? shape operands).map completion.complete

end Form

end ChipEight

namespace ChipEight.Catalog

private def registers : List Slot :=
  [.packed .register .x, .packed .register .y]

private def registerConstant : List Slot :=
  [.packed .register .x, .packed .immediate .nn]

def forms : Mnemonic → List Form
  | .cls => [.word 0x00E0 []]
  | .ret => [.word 0x00EE []]
  | .jp =>
    [.word 0x1000 [.packed .immediate .nnn],
     .word 0xB000 [.fixed .zeroRegister, .packed .immediate .nnn]]
  | .call => [.word 0x2000 [.packed .immediate .nnn]]
  | .se => [.word 0x3000 registerConstant, .word 0x5000 registers]
  | .sne => [.word 0x4000 registerConstant, .word 0x9000 registers]
  | .skp => [.word 0xE09E [.packed .register .x]]
  | .sknp => [.word 0xE0A1 [.packed .register .x]]
  | .ld =>
    [.word 0x6000 registerConstant,
     .word 0x8000 registers,
     .word 0xA000 [.fixed .index, .packed .immediate .nnn],
     .word 0xF007 [.packed .register .x, .fixed .delayTimer],
     .word 0xF00A [.packed .register .x, .fixed .key],
     .word 0xF015 [.fixed .delayTimer, .packed .register .x],
     .word 0xF018 [.fixed .soundTimer, .packed .register .x],
     .word 0xF029 [.fixed .font, .packed .register .x],
     .word 0xF033 [.fixed .decimal, .packed .register .x],
     .word 0xF055 [.fixed .memory, .packed .register .x],
     .word 0xF065 [.packed .register .x, .fixed .memory]]
  | .or => [.word 0x8001 registers]
  | .and => [.word 0x8002 registers]
  | .xor => [.word 0x8003 registers]
  | .sub => [.word 0x8005 registers]
  | .subn => [.word 0x8007 registers]
  | .add =>
    [.word 0x7000 registerConstant,
     .word 0x8004 registers,
     .word 0xF01E [.fixed .index, .packed .register .x]]
  | .shr => [.word 0x8006 registers, .short [.register, .blank] .sameRegister]
  | .shl => [.word 0x800E registers, .short [.register, .blank] .sameRegister]
  | .rnd => [.word 0xC000 registerConstant, .short [.register, .blank] .fullMask]
  | .drw => [.word 0xD000 [.packed .register .x, .packed .register .y, .packed .immediate .n]]

end ChipEight.Catalog
