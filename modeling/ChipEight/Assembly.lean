import ChipEight.Event

set_option autoImplicit false

/-!
Assembly of a source text: its lines are laid out, then each instruction is read, resolved against
the labels and encoded.  The first line that is refused ends the run, and no byte is kept.  A listing
shows every line that is not blank, with its address and bytes.
-/

namespace ChipEight

/-- The first address that an instruction word cannot hold. -/
def addressLimit : Int := 0x1000

/-- An instruction word with its address, the number of its line, and the instruction before its
labels were resolved. -/
structure Emission where
  line : Nat
  address : Int
  word : Nat
  instruction : Instruction
deriving DecidableEq

namespace Emission

def bytes (emission : Emission) : List UInt8 :=
  [UInt8.ofNat (emission.word >>> 8), UInt8.ofNat emission.word]

def image (emissions : List Emission) : List UInt8 :=
  emissions.flatMap bytes

def references (emissions : List Emission) : List (List Char) :=
  emissions.flatMap (·.instruction.labels)

/-- The word of an instruction at an address, after what its encoding reports. -/
def ofInstruction (symbols : SymbolTable) (number : Nat) (address : Int)
    (instruction : Instruction) : List Event × Except Fault Emission :=
  match instruction.resolve symbols with
  | .error fault => ([], .error fault)
  | .ok resolved =>
    match resolved.encode with
    | (cut, .error fault) => (cut.map .truncated, .error fault)
    | (cut, .ok word) =>
      (cut.map .truncated ++ [.encoded address word instruction.spelling],
        .ok ⟨number, address, word, instruction⟩)

def ofLines (symbols : SymbolTable) (address : Int) :
    List Line → List Event × Except Fault (List Emission)
  | [] => ([], .ok [])
  | line :: lines =>
    match line.statement with
    | .blank => ofLines symbols address lines
    | .label _ => ofLines symbols address lines
    | .unknown head _ => ([], .error (.unknownMnemonic head line.position))
    | .instruction mnemonic arguments =>
      match Instruction.ofMnemonic mnemonic arguments line.position with
      | .error fault => ([], .error fault)
      | .ok instruction =>
        match ofInstruction symbols line.number address instruction with
        | (log, .error fault) => (log, .error fault)
        | (log, .ok emission) =>
          let (rest, result) := ofLines symbols (address + instructionSize) lines
          (log ++ rest, result.map (emission :: ·))

end Emission

/-- A finished run: what it reported, how the source was laid out, and its words or the fault that
ended it. -/
structure Assembly where
  log : List Event
  layout : Layout
  result : Except Fault (List Emission)

namespace Assembly

def unreferenced (symbols : SymbolTable) (emissions : List Emission) : List (List Char) :=
  symbols.names.filter fun name => !(Emission.references emissions).contains name

def opening (base : Int) (layout : Layout) : List Event :=
  layout.redefinitions.map .redefined ++
    [.laidOut layout.symbols.size ((layout.stop - base) / instructionSize)]

def closing (base : Int) (symbols : SymbolTable) (emissions : List Emission) : List Event :=
  let size := (Emission.image emissions).length
  let stop := base + size
  (unreferenced symbols emissions).map .unreferenced ++ .finished size ::
    if addressLimit < stop then [.overrun stop] else []

def ofLayout (base : Int) (lines : List Line) (layout : Layout) : Assembly :=
  match Emission.ofLines layout.symbols base lines with
  | (log, .error fault) => ⟨opening base layout ++ log, layout, .error fault⟩
  | (log, .ok emissions) =>
    ⟨opening base layout ++ (log ++ closing base layout.symbols emissions), layout,
      .ok emissions⟩

end Assembly

/-- Assembles a source text that is loaded at a base address. -/
def assemble (base : Int) (source : List Char) : Assembly :=
  let lines := Line.ofSource source
  Assembly.ofLayout base lines (Layout.ofLines base lines)

def symbolsOf (base : Int) (source : List Char) : SymbolTable :=
  (Layout.ofLines base (Line.ofSource source)).symbols

def Assembly.bytes (assembly : Assembly) : Except Fault (List UInt8) :=
  assembly.result.map Emission.image

/-- The words of an assembly; a refused source has none. -/
def Assembly.emissions (assembly : Assembly) : List Emission :=
  match assembly.result with
  | .ok emissions => emissions
  | .error _ => []

end ChipEight

namespace ChipEight.Listing

open Text

def header : List (List Char) :=
  ["  ADDR  BYTES  SOURCE".toList, List.replicate 60 '-']

def address (n : Int) : List Char :=
  '0' :: 'x' :: Hexadecimal.padded 4 n

def word (n : Nat) : List Char :=
  Hexadecimal.padded 2 (n >>> 8 : Nat) ++ ' ' :: Hexadecimal.padded 2 (n % 256 : Nat)

def row (address bytes source : List Char) : List Char :=
  address ++ [' ', ' '] ++ bytes ++ [' ', ' '] ++ source

def gap (width : Nat) : List Char :=
  List.replicate width ' '

/-- The row of a line; a blank line has none. -/
def row? (emissions : List Emission) (placed : Placed) : Option (List Char) :=
  let source := Blank.trim placed.line.text
  match emissions.find? (·.line == placed.line.number) with
  | some emission => some (row (address emission.address) (word emission.word) source)
  | none =>
    match placed.address? with
    | some bound => some (row (address bound) (gap 5) source)
    | none => if source.isEmpty then none else some (row (gap 6) (gap 5) source)

def rows (emissions : List Emission) (placed : List Placed) : List (List Char) :=
  placed.filterMap (row? emissions)

/-- The text of a listing, without a line end behind its last row. -/
def text (emissions : List Emission) (placed : List Placed) : List Char :=
  ['\n'].intercalate (header ++ rows emissions placed)

end ChipEight.Listing
