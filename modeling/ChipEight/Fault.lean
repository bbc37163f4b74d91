import ChipEight.Text.Quoted

set_option autoImplicit false

/-!
What can be wrong with an instruction, and how it is told.
-/

namespace ChipEight

open Text

/-- Where an instruction stands: the number of its line, with zero for none, and the line. -/
structure Position where
  line : Int := 0
  text : List Char := []
deriving DecidableEq

def Position.annotate (line : Int) (message : String) : String :=
  if line = 0 then message else s!"Line {line}: {message}"

inductive Fault where
  | unknownMnemonic (name : List Char) (position : Position)
  | unsupportedOperands (mnemonic shown : List Char) (position : Position)
  | undefinedLabel (name : List Char) (position : Position)
  /-- A label that was not replaced by its address before encoding. -/
  | unresolvedLabel (name : List Char) (position : Position)
  | noEncoding (mnemonic : List Char) (kinds : List (List Char))
deriving DecidableEq

namespace Fault

/-- Where the fault is; a missing encoding has no place. -/
def position? : Fault → Option Position
  | unknownMnemonic _ position => some position
  | unsupportedOperands _ _ position => some position
  | undefinedLabel _ position => some position
  | unresolvedLabel _ position => some position
  | noEncoding _ _ => none

def summary : Fault → String
  | unknownMnemonic name _ => "Unknown mnemonic: " ++ String.ofList name
  | unsupportedOperands mnemonic shown _ =>
    String.ofList mnemonic ++ ": unsupported operands: " ++ String.ofList shown
  | undefinedLabel name _ => "Undefined label: '" ++ String.ofList name ++ "'"
  | unresolvedLabel name _ =>
    "Label '" ++ String.ofList name ++ "' reached encoding unresolved"
  | noEncoding mnemonic kinds =>
    "No encoding for " ++ String.ofList mnemonic ++ " with operands [" ++
      String.intercalate ", " (kinds.map fun kind => String.ofList (Quoted.quoted kind)) ++ "]"

def message (fault : Fault) : String :=
  match fault.position? with
  | some position => Position.annotate position.line fault.summary
  | none => fault.summary

end Fault

end ChipEight
