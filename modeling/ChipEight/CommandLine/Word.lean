import ChipEight.CommandLine.Switch
import ChipEight.Text.Integer

set_option autoImplicit false

/-!
Arguments by their roles: a bare word, an option with what is attached to it, an unknown option, or
the divider behind which all arguments are bare.  One argument may hold several single-letter
options, the last of them with its value or waiting for it.
-/

namespace ChipEight.CommandLine

open Text

/-- What follows the name of an option in the same argument. -/
inductive Attached where
  | nothing
  /-- A value behind an equals sign. -/
  | value (text : List Char)
  /-- Characters behind a single-letter option. -/
  | letters (text : List Char)
deriving DecidableEq

/-- Behind a single-letter option an equals sign parts nothing: what follows it stands for letters
as if it were not there. -/
def Attached.behindLetter : Attached → Attached
  | value (first :: rest) => letters (first :: rest)
  | attached => attached

inductive Word where
  | bare (text : List Char)
  | option (switch : Switch) (attached : Attached)
  | unknown (text : List Char)
  | divider
deriving DecidableEq

namespace Word

/-- Whether an argument looks like a negative number, with or without a fraction; a line feed may
follow it. -/
def isNegativeNumber (argument : List Char) : Bool :=
  let text := if argument.getLast? = some '\n' then argument.dropLast else argument
  let isDigit := fun c => (Digit.value? c).isSome
  match text with
  | '-' :: rest =>
    match rest.dropWhile isDigit with
    | [] => !rest.isEmpty
    | '.' :: fraction => !fraction.isEmpty && fraction.all isDigit
    | _ => false
  | _ => false

/-- An argument that is no option in any spelling: numbers and texts with a space are bare. -/
def other (argument : List Char) : Word :=
  if isNegativeNumber argument || argument.contains ' ' then bare argument else unknown argument

/-- An argument with two dashes: its name may be cut short as long as one option is left. -/
def long (argument name : List Char) (attached : Attached) : Except Misuse Word :=
  match Switch.spellings.filter (fun entry => name.isPrefixOf entry.1) with
  | [] => .ok (other argument)
  | [(_, switch)] => .ok (option switch attached)
  | candidates => .error (.ambiguous argument (candidates.map (·.1)))

def short (argument : List Char) : Word :=
  match Switch.spellings.lookup (argument.take 2) with
  | some switch => option switch (.letters (argument.drop 2))
  | none => other argument

def parts (argument : List Char) : List Char × Attached :=
  match argument.span (· != '=') with
  | (name, _ :: value) => (name, .value value)
  | (name, []) => (name, .nothing)

def dashed (argument : List Char) : Except Misuse Word :=
  let (name, attached) := parts argument
  match Switch.spellings.lookup name with
  | some switch =>
    .ok (option switch (if name.length = 2 then attached.behindLetter else attached))
  | none =>
    if argument.take 2 = ['-', '-'] then long argument name attached else .ok (short argument)

def classify (argument : List Char) : Except Misuse Word :=
  if argument.head? = some '-' ∧ argument ≠ ['-'] then dashed argument else .ok (bare argument)

def classifyAll : List (List Char) → Except Misuse (List Word)
  | [] => .ok []
  | argument :: arguments =>
    if argument = ['-', '-'] then .ok (divider :: arguments.map bare)
    else
      match classify argument with
      | .error misuse => .error misuse
      | .ok word => (classifyAll arguments).map (word :: ·)

end Word

structure Setting where
  switch : Switch
  value? : Option (List Char) := none
deriving DecidableEq

/-- An option with a value.  Two dashes are dropped even as a value, and leave the option empty. -/
def Setting.ofValue (switch : Switch) (value : List Char) : Setting :=
  { switch, value? := if value = ['-', '-'] then none else some value }

/-- What one argument with options asks for: settings, and an option that waits for its value. -/
structure Bundle where
  settings : List Setting := []
  waiting : Option Switch := none
deriving DecidableEq

namespace Bundle

def prepend (setting : Setting) (bundle : Bundle) : Bundle :=
  { bundle with settings := setting :: bundle.settings }

def last (switch : Switch) : Bundle :=
  if switch.takesValue then { waiting := some switch } else { settings := [{ switch }] }

def valued (switch : Switch) (value : List Char) : Except Misuse Bundle :=
  if switch.takesValue then .ok { settings := [.ofValue switch value] }
  else .error (.ignoredValue switch value)

/-- A single-letter option with the characters behind it: its value, or more such options. -/
def lettered (switch : Switch) : List Char → Except Misuse Bundle
  | [] => .ok (last switch)
  | letter :: rest =>
    if switch.takesValue then .ok { settings := [.ofValue switch (letter :: rest)] }
    else
      match Switch.spellings.lookup ['-', letter] with
      | none => .error (.ignoredValue switch (letter :: rest))
      | some following => (lettered following rest).map (prepend { switch })

def ofOption (switch : Switch) : Attached → Except Misuse Bundle
  | .nothing => .ok (last switch)
  | .value value => valued switch value
  | .letters letters => lettered switch letters

end Bundle

end ChipEight.CommandLine
