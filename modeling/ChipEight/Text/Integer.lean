import ChipEight.Text.Basic

set_option autoImplicit false

/-!
Integers in base ten and base sixteen: blanks around, one sign, digits of any script, and single
underscores between digits.  In base sixteen a marker may stand before the digits.  The decimal
digits are those of the Unicode character database (version 14), where the ten digits of a script
stand in a row, so that a script is known by its zero.
-/

namespace ChipEight.Text.Digit

def zeros : List Nat := [
  0x30, 0x660, 0x6F0, 0x7C0, 0x966, 0x9E6, 0xA66, 0xAE6, 0xB66, 0xBE6, 0xC66, 0xCE6, 0xD66, 0xDE6,
  0xE50, 0xED0, 0xF20, 0x1040, 0x1090, 0x17E0, 0x1810, 0x1946, 0x19D0, 0x1A80, 0x1A90, 0x1B50,
  0x1BB0, 0x1C40, 0x1C50, 0xA620, 0xA8D0, 0xA900, 0xA9D0, 0xA9F0, 0xAA50, 0xABF0, 0xFF10,
  0x104A0, 0x10D30, 0x11066, 0x110F0, 0x11136, 0x111D0, 0x112F0, 0x11450, 0x114D0, 0x11650,
  0x116C0, 0x11730, 0x118E0, 0x11950, 0x11C50, 0x11D50, 0x11DA0, 0x16A60, 0x16AC0, 0x16B50,
  0x1D7CE, 0x1D7D8, 0x1D7E2, 0x1D7EC, 0x1D7F6, 0x1E140, 0x1E2F0, 0x1E950, 0x1FBF0]

def value? (c : Char) : Option Nat :=
  (zeros.find? fun start => decide (start ≤ c.toNat ∧ c.toNat ≤ start + 9)).map (c.toNat - ·)

end ChipEight.Text.Digit

namespace ChipEight.Text.Integer

def decimalLimit : Nat := 4300

/-- The ASCII character that a blank or a digit of any script stands for. -/
def folded (c : Char) : Char :=
  if c.toNat < 0x7F then c
  else if Blank.isBlank c then ' '
  else match Digit.value? c with
    | some n => Char.ofNat (0x30 + n)
    | none => c

/-- The blanks that may stand around a number: the space and the controls from tab to return. -/
def isPadding (c : Char) : Bool :=
  c == ' ' || (0x09 ≤ c.toNat && c.toNat ≤ 0x0D)

def unpadded (text : List Char) : List Char :=
  ((text.dropWhile isPadding).reverse.dropWhile isPadding).reverse

def digitValue? (c : Char) : Option Nat :=
  let n := c.toNat
  if 0x30 ≤ n ∧ n ≤ 0x39 then some (n - 0x30)
  else if 0x41 ≤ n ∧ n ≤ 0x46 then some (n - 0x37)
  else if 0x61 ≤ n ∧ n ≤ 0x66 then some (n - 0x57)
  else none

def digit? (base : Nat) (c : Char) : Option Nat :=
  (digitValue? c).filter (· < base)

/-- The values of a text of digits, at least one, with single underscores between them. -/
def digits? (base : Nat) : List Char → Option (List Nat)
  | [] => none
  | [c] => (digit? base c).map ([·])
  | c :: '_' :: rest =>
    (digit? base c).bind fun n => (digits? base rest).map (n :: ·)
  | c :: rest =>
    (digit? base c).bind fun n => (digits? base rest).map (n :: ·)

def ofDigits (base : Nat) (digits : List Nat) : Nat :=
  digits.foldl (fun n digit => base * n + digit) 0

def decimalMagnitude? (text : List Char) : Option Nat :=
  ((digits? 10 text).filter (·.length ≤ decimalLimit)).map (ofDigits 10)

/-- The text behind the marker of base sixteen, if it has one; an underscore may end the marker. -/
def unmarked : List Char → List Char
  | '0' :: 'x' :: '_' :: rest => rest
  | '0' :: 'X' :: '_' :: rest => rest
  | '0' :: 'x' :: rest => rest
  | '0' :: 'X' :: rest => rest
  | text => text

def hexadecimalMagnitude? (text : List Char) : Option Nat :=
  (digits? 16 (unmarked text)).map (ofDigits 16)

def signed? (magnitude? : List Char → Option Nat) : List Char → Option Int
  | '+' :: rest => (magnitude? rest).map fun n : Nat => (n : Int)
  | '-' :: rest => (magnitude? rest).map fun n : Nat => -(n : Int)
  | text => (magnitude? text).map fun n : Nat => (n : Int)

def decimal? (text : List Char) : Option Int :=
  signed? decimalMagnitude? (unpadded (text.map folded))

def hexadecimal? (text : List Char) : Option Int :=
  signed? hexadecimalMagnitude? (unpadded (text.map folded))

end ChipEight.Text.Integer
