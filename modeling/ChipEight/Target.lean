import ChipEight.Text.Integer

set_option autoImplicit false

/-!
Where a program is loaded: the interpreters that programs are written for, each with its address,
and origins as they are given on the command line, in base sixteen behind `0x` or a dollar sign and
else in base ten.
-/

namespace ChipEight

inductive Target where
  | chip8
  | eti660
deriving DecidableEq

namespace Target

def all : List Target := [chip8, eti660]

def name : Target → String
  | chip8 => "chip8"
  | eti660 => "eti660"

def origin : Target → Int
  | chip8 => 0x200
  | eti660 => 0x600

def description : Target → String
  | chip8 => "COSMAC VIP CHIP-8 interpreter"
  | eti660 => "ETI 660 CHIP-8 interpreter"

def ofName? (name : String) : Option Target :=
  all.find? (·.name == name)

@[simp] theorem ofName?_name (target : Target) : ofName? target.name = some target := by
  cases target <;> decide

end Target

end ChipEight

namespace ChipEight.Origin

open Text

def read? (text : List Char) : Option Int :=
  let word := Blank.trim text
  match word with
  | '0' :: 'x' :: _ => Integer.hexadecimal? word
  | '0' :: 'X' :: _ => Integer.hexadecimal? word
  | '$' :: rest => Integer.hexadecimal? rest
  | _ => Integer.decimal? word

end ChipEight.Origin
