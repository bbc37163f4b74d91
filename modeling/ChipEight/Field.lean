set_option autoImplicit false

/-!
Fields of an instruction word: where they lie, how much they hold, and what they keep of a value.
-/

namespace ChipEight

inductive Field where
  /-- A register, bits 8 to 11. -/
  | x
  /-- A register, bits 4 to 7. -/
  | y
  /-- A constant of four bits. -/
  | n
  /-- A constant of eight bits. -/
  | nn
  /-- An address of twelve bits. -/
  | nnn
deriving DecidableEq

namespace Field

def all : List Field := [x, y, n, nn, nnn]

def name : Field → List Char
  | x => ['x']
  | y => ['y']
  | n => ['n']
  | nn => ['n', 'n']
  | nnn => ['n', 'n', 'n']

def shift : Field → Nat
  | x => 8
  | y => 4
  | _ => 0

def mask : Field → Nat
  | nn => 0xFF
  | nnn => 0xFFF
  | _ => 0xF

/-- What the field keeps of a value: its remainder, also of a negative value. -/
def content (field : Field) (value : Int) : Nat :=
  (value % (field.mask + 1 : Nat)).toNat

def place (field : Field) (value : Int) : Nat :=
  field.content value <<< field.shift

def pack (opcode : Nat) (packings : List (Field × Int)) : Nat :=
  packings.foldl (fun word packing => word ||| packing.1.place packing.2) opcode

theorem content_le_mask (field : Field) (value : Int) : field.content value ≤ field.mask := by
  unfold content
  have upper := Int.emod_lt_of_pos value (b := ((field.mask + 1 : Nat) : Int)) (by omega)
  omega

end Field

end ChipEight
