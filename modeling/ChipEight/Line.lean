import ChipEight.Fault
import ChipEight.Mnemonic
import ChipEight.Text.Basic

set_option autoImplicit false

/-!
Source lines: a line defines a label, holds an instruction, starts with a word that is no mnemonic,
or is blank.  A lone word that is no mnemonic is a label, with or without a colon behind it.
-/

namespace ChipEight

open Text

inductive Statement where
  | blank
  | label (name : List Char)
  | instruction (mnemonic : Mnemonic) (arguments : List Char)
  | unknown (head arguments : List Char)
deriving DecidableEq

namespace Statement

/-- A word without the colon that may end it. -/
def labelName (word : List Char) : List Char :=
  if word.getLast? = some ':' then word.dropLast else word

def ofText (text : List Char) : Statement :=
  match text with
  | [] => blank
  | _ =>
    let (head, rest) := Blank.firstWord text
    match Mnemonic.read? head with
    | some mnemonic => instruction mnemonic (Blank.trim rest)
    | none =>
      if rest.isEmpty && !(labelName head).isEmpty then label (labelName head)
      else unknown head (Blank.trim rest)

/-- What a line says, whatever its comment, its case and the blanks around it. -/
def read (line : List Char) : Statement :=
  ofText (UpperCase.upper (Blank.trim (Comment.cut line)))

end Statement

/-- A line of a source, counted from one. -/
structure Line where
  number : Nat
  text : List Char
  statement : Statement
deriving DecidableEq

namespace Line

def position (line : Line) : Position :=
  ⟨line.number, line.text⟩

def isInstruction (line : Line) : Bool :=
  match line.statement with
  | .instruction _ _ => true
  | _ => false

/-- A line without the carriage return that may end it. -/
def content (raw : List Char) : List Char :=
  if raw.getLast? = some '\r' then raw.dropLast else raw

def ofText (number : Nat) (text : List Char) : Line :=
  ⟨number, text, Statement.read text⟩

def numbered : Nat → List (List Char) → List Line
  | _, [] => []
  | number, text :: texts => ofText number text :: numbered (number + 1) texts

/-- The lines of a source.  Only a line feed ends a line. -/
def ofSource (source : List Char) : List Line :=
  numbered 1 ((source.splitOn '\n').map content)

end Line

end ChipEight
