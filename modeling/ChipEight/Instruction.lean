import ChipEight.Catalog
import ChipEight.Fault
import ChipEight.SymbolTable

set_option autoImplicit false

/-!
Instructions: a name with its operands.  `parse` reads one from its mnemonic and argument text,
`resolve` replaces its labels by their addresses, `spelling` writes it, and `encode` packs its
operands into the form that takes them, with a notice for each value above its field.
-/

namespace ChipEight

open Text

/-- An instruction and where it stands; its name need not be one of the catalog. -/
structure Instruction where
  mnemonic : List Char
  operands : List Operand
  position : Position
deriving DecidableEq

namespace Operand

/-- The operands with each label replaced by its address; the first name without an address is
the failure. -/
def resolveAll (symbols : SymbolTable) : List Operand → Except (List Char) (List Operand)
  | [] => .ok []
  | label name :: rest =>
    match symbols.find? name with
    | none => .error name
    | some address => (resolveAll symbols rest).map (immediate address :: ·)
  | operand :: rest => (resolveAll symbols rest).map (operand :: ·)

end Operand

namespace Instruction

def spelling (instruction : Instruction) : List Char :=
  match instruction.operands with
  | [] => instruction.mnemonic
  | operands =>
    instruction.mnemonic ++ ' ' :: [',', ' '].intercalate (operands.map Operand.spelling)

def labels (instruction : Instruction) : List (List Char) :=
  instruction.operands.filterMap Operand.label?

def resolve (instruction : Instruction) (symbols : SymbolTable) : Except Fault Instruction :=
  match Operand.resolveAll symbols instruction.operands with
  | .ok operands => .ok { instruction with operands }
  | .error name => .error (.undefinedLabel name instruction.position)

/-- The instruction of a known mnemonic with the operands of an argument text.  A refusal shows
the line, or the arguments where there is no line. -/
def ofMnemonic (mnemonic : Mnemonic) (arguments : List Char) (position : Position) :
    Except Fault Instruction :=
  match (Catalog.forms mnemonic).findSome? (·.accept? (Operand.readList arguments)) with
  | some operands => .ok ⟨mnemonic.spelling, operands, position⟩
  | none =>
    let line := Blank.trim position.text
    .error (.unsupportedOperands mnemonic.spelling (if line.isEmpty then arguments else line)
      position)

def parse (name arguments : List Char) (position : Position) : Except Fault Instruction :=
  match Mnemonic.read? name with
  | some mnemonic => ofMnemonic mnemonic arguments position
  | none => .error (.unknownMnemonic name position)

end Instruction

structure Truncation where
  line : Int
  mnemonic : List Char
  value : Int
  kept : Nat
deriving DecidableEq

namespace Operand

def number? : Operand → Option Int
  | register n => some n
  | immediate n => some n
  | _ => none

end Operand

namespace Slot

/-- The field and the number that an operand brings to its place, if it is packed. -/
def packing? (slot : Slot) (operand : Operand) : Option (Field × Int) :=
  match slot.field?, operand.number? with
  | some field, some value => some (field, value)
  | _, _ => none

def packings (slots : List Slot) (operands : List Operand) : List (Field × Int) :=
  ((slots.zip operands).filterMap fun pair => pair.1.packing? pair.2)

end Slot

namespace Form

/-- The constant bits and the places of a word that takes exactly these operands. -/
def encoding? (form : Form) (operands : List Operand) : Option (Nat × List Slot) :=
  match form with
  | word opcode slots =>
    if Pattern.acceptsAll form.shape operands then some (opcode, slots) else none
  | short _ _ => none

end Form

namespace Instruction

def encoding? (instruction : Instruction) : Option (Nat × List Slot) :=
  (((Mnemonic.ofSpelling? instruction.mnemonic).map Catalog.forms).getD []).findSome?
    (·.encoding? instruction.operands)

/-- The word of an instruction without labels, after the notices of what was cut. -/
def encode (instruction : Instruction) : List Truncation × Except Fault Nat :=
  match instruction.labels with
  | name :: _ => ([], .error (.unresolvedLabel name instruction.position))
  | [] =>
    match instruction.encoding? with
    | none =>
      ([], .error (.noEncoding instruction.mnemonic (instruction.operands.map Operand.kind)))
    | some (opcode, slots) =>
      let packings := Slot.packings slots instruction.operands
      let cut := packings.filter fun packing => decide ((packing.1.mask : Int) < packing.2)
      (cut.map fun packing =>
          ⟨instruction.position.line, instruction.mnemonic, packing.2,
            packing.1.content packing.2⟩,
        .ok (Field.pack opcode packings))

end Instruction

end ChipEight
