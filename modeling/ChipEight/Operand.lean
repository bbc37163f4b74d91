import ChipEight.Text.Basic
import ChipEight.Text.Hexadecimal
import ChipEight.Text.UpperCase

set_option autoImplicit false

/-!
Operands of an instruction: the type, the spelling of an operand, and the reading of one operand
or of a list with commas.  Reading never fails: what is no register, literal or reserved name is
taken for a label.
-/

namespace ChipEight

open Text

/-- One operand.  Numbers are unbounded: only packing into a field cuts them. -/
inductive Operand where
  | register (index : Int)
  /-- A constant or an address. -/
  | immediate (value : Int)
  | index
  /-- The memory that the index register points at. -/
  | memory
  | delayTimer
  | soundTimer
  /-- The next key that is pressed. -/
  | key
  /-- The font sprite of a digit. -/
  | font
  /-- The decimal digits of a register. -/
  | decimal
  | blank
  | label (name : List Char)
  /-- Anything else by the name of its kind; no instruction takes it. -/
  | foreign (kind : List Char)
deriving DecidableEq

namespace Operand

def kind : Operand → List Char
  | register _ => ['R', 'E', 'G']
  | immediate _ => ['I', 'M', 'M']
  | index => ['I']
  | memory => ['[', 'I', ']']
  | delayTimer => ['D', 'T']
  | soundTimer => ['S', 'T']
  | key => ['K']
  | font => ['F']
  | decimal => ['B']
  | blank => ['B', 'L', 'A', 'N', 'K']
  | label _ => ['L', 'A', 'B', 'E', 'L']
  | foreign kind => kind

/-- The operands that are fully told by the name of their kind. -/
def plain : List Operand :=
  [index, memory, delayTimer, soundTimer, key, font, decimal, blank]

def ofKind (kind : List Char) : Operand :=
  (plain.find? (·.kind == kind)).getD (foreign kind)

/-- How an operand is written: a literal has at least three digits, a blank none. -/
def spelling : Operand → List Char
  | register n => 'V' :: Hexadecimal.signed n
  | immediate n => '0' :: 'x' :: Hexadecimal.padded 3 n
  | label name => name
  | blank => []
  | operand => operand.kind

def label? : Operand → Option (List Char)
  | label name => some name
  | _ => none

def registerOf? (digit : Char) : Option Operand :=
  (Hexadecimal.value? digit).map fun n => register n

def literalOf? (digits : List Char) : Option Operand :=
  if 1 ≤ digits.length ∧ digits.length ≤ 4 then
    (Hexadecimal.number? digits).map fun n => immediate n
  else
    none

def ofWord (word : List Char) : Operand :=
  match word with
  | [] => blank
  | ['K'] => key
  | ['D', 'T'] => delayTimer
  | ['S', 'T'] => soundTimer
  | ['I'] => index
  | ['[', 'I', ']'] => memory
  | ['B'] => decimal
  | ['F'] => font
  | ['V', digit] => (registerOf? digit).getD (label word)
  | '0' :: 'X' :: digits => (literalOf? digits).getD (label word)
  | _ => label word

def read (token : List Char) : Operand :=
  ofWord (UpperCase.upper (Blank.trim token))

/-- The operands of an argument text: none if it is blank, else one for each part between commas. -/
def readList (arguments : List Char) : List Operand :=
  match Blank.trim (Comment.cut arguments) with
  | [] => []
  | text => (text.splitOn ',').map read

theorem label?_eq_some_iff {operand : Operand} {name : List Char} :
    operand.label? = some name ↔ operand = label name := by
  cases operand <;> simp [label?]

end Operand

end ChipEight
