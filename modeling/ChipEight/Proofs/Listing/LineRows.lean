import ChipEight.Assembly
import ChipEight.Proofs.Passes.LineWords

set_option autoImplicit false

/-!
The rows of a listing, line by line.  A listing looks the word of a line up by the number of the line;
that comes to the row that the line has by itself at its address.
-/

namespace ChipEight

open Text

namespace Line

/-- What stands in the column of bytes of a line with an address: the bytes of an instruction, or
blanks for a label. -/
def bytesColumn? (symbols : SymbolTable) (line : Line) : Option (List Char) :=
  match line.word? symbols, line.statement with
  | some word, _ => some (Listing.word word)
  | none, .label _ => some (Listing.gap 5)
  | none, _ => none

def row? (symbols : SymbolTable) (address : Int) (line : Line) : Option (List Char) :=
  let source := Blank.trim line.text
  match line.bytesColumn? symbols with
  | some bytes => some (Listing.row (Listing.address address) bytes source)
  | none =>
    if source.isEmpty then none
    else some (Listing.row (Listing.gap 6) (Listing.gap 5) source)

def rowsFrom (symbols : SymbolTable) : Int → List Line → List (List Char)
  | _, [] => []
  | address, line :: lines =>
    (line.row? symbols address).toList ++ rowsFrom symbols (address + line.size) lines

def emission? (symbols : SymbolTable) (address : Int) (line : Line) : Option Emission :=
  (line.code? symbols).map fun code => ⟨code.line, address, code.word, code.instruction⟩

theorem number_of_emission? {symbols : SymbolTable} {line : Line} {address : Int}
    {emission : Emission} (found : line.emission? symbols address = some emission) :
    emission.line = line.number := by
  obtain ⟨code, coded, rfl⟩ := Option.map_eq_some_iff.mp found
  obtain ⟨mnemonic, arguments, _, statement, -⟩ := exists_of_code? coded
  have faultless : line.fault? symbols = none := by
    unfold code? at coded
    unfold fault?
    split at coded
    · cases coded
    · rfl
  obtain ⟨_, _, _, -, -, -, same⟩ := code?_of_instruction statement faultless
  rw [coded, Option.some.injEq] at same
  rw [same]

theorem ofCodes_cons {symbols : SymbolTable} {line : Line} (lines : List Line) (address : Int)
    (faultless : line.fault? symbols = none) :
    Emission.ofCodes address ((line :: lines).filterMap (code? symbols)) =
      (line.emission? symbols address).toList ++
        Emission.ofCodes (address + line.size) (lines.filterMap (code? symbols)) := by
  cases holds : line.isInstruction with
  | false =>
    have none : line.code? symbols = none := code?_eq_none holds
    have still : line.size = 0 := by simp [size, holds]
    rw [List.filterMap_cons_none none, emission?, none, still, Int.add_zero]
    rfl
  | true =>
    obtain ⟨mnemonic, arguments, statement⟩ := exists_of_isInstruction holds
    obtain ⟨_, _, _, -, -, -, coded⟩ := code?_of_instruction statement faultless
    have further : line.size = instructionSize := by simp [size, holds]
    rw [List.filterMap_cons_some coded, emission?, coded, further]
    rfl

end Line

namespace Listing

variable {symbols : SymbolTable}

private theorem find?_eq_none {emissions : List Emission} {number : Nat}
    (other : ∀ emission ∈ emissions, emission.line ≠ number) :
    emissions.find? (·.line == number) = none := by
  rw [List.find?_eq_none]
  intro emission member
  simpa using other emission member

private theorem find?_emission? (line : Line) (address : Int) :
    (line.emission? symbols address).toList.find? (·.line == line.number) =
      line.emission? symbols address := by
  cases found : line.emission? symbols address with
  | none => rfl
  | some emission => simp [Line.number_of_emission? found]

private theorem row?_of_find? {emissions : List Emission} {line : Line} {address : Int}
    (found : emissions.find? (·.line == line.number) = line.emission? symbols address) :
    row? emissions ⟨line, line.boundAt? address⟩ = line.row? symbols address := by
  simp only [row?, Line.row?, Line.bytesColumn?, Line.word?, found, Line.emission?, Line.boundAt?]
  cases line.code? symbols with
  | some code => rfl
  | none => cases line.statement <;> rfl

/-- The rows of a listing, for which words are looked up by the numbers of their lines, are those
that the lines have by themselves. -/
theorem rows_eq_rowsFrom {front : List Emission} {lines : List Line}
    (earlier : ∀ emission ∈ front, ∀ line ∈ lines, emission.line < line.number)
    (increasing : lines.Pairwise (fun a b => a.number < b.number))
    (faultless : ∀ line ∈ lines, line.fault? symbols = none) (table : SymbolTable)
    (address : Int) :
    rows (front ++ Emission.ofCodes address (lines.filterMap (Line.code? symbols)))
        (Layout.scan table address lines).placed =
      Line.rowsFrom symbols address lines := by
  -- `front` holds the words of the lines that were passed: no line behind them has their numbers.
  induction lines generalizing front table address with
  | nil => rfl
  | cons line lines ih =>
    obtain ⟨less, ordered⟩ := List.pairwise_cons.mp increasing
    have clear := fun later member => faultless later (List.mem_cons_of_mem line member)
    have before : front.find? (·.line == line.number) = none := by
      apply find?_eq_none
      intro emission member
      have smaller := earlier emission member line List.mem_cons_self
      omega
    have behind : (Emission.ofCodes (address + line.size)
        (lines.filterMap (Line.code? symbols))).find? (·.line == line.number) = none := by
      apply find?_eq_none
      intro emission member
      have listed : emission.line ∈ (lines.filter Line.isInstruction).map (·.number) := by
        rw [← Line.lines_codes clear, ← Emission.lines_ofCodes (address + line.size)]
        exact List.mem_map_of_mem member
      obtain ⟨other, inside, same⟩ := List.mem_map.mp listed
      have larger := less other (List.mem_filter.mp inside).1
      omega
    have passed : ∀ emission ∈ front ++ (line.emission? symbols address).toList,
        ∀ later ∈ lines, emission.line < later.number := by
      intro emission member later inside
      rcases List.mem_append.mp member with member | member
      · exact earlier emission member later (List.mem_cons_of_mem line inside)
      · rw [Line.number_of_emission? (Option.mem_toList.mp member)]
        exact less later inside
    rw [Line.ofCodes_cons lines address (faultless line List.mem_cons_self),
      Layout.placed_scan_cons, Line.rowsFrom, ← ih passed ordered clear (line.bind table address),
      ← List.append_assoc, rows, rows, List.filterMap_cons, row?_of_find?]
    · cases line.row? symbols address <;> rfl
    · rw [List.find?_append, List.find?_append, before, behind, find?_emission?]
      cases line.emission? symbols address <;> rfl

theorem text_assemble {base : Int} {source : List Char}
    (faultless : ∀ line ∈ Line.ofSource source, line.fault? (symbolsOf base source) = none) :
    text (assemble base source).emissions (assemble base source).layout.placed =
      ['\n'].intercalate
        (header ++ Line.rowsFrom (symbolsOf base source) base (Line.ofSource source)) := by
  rw [text, emissions_assemble faultless, layout_assemble]
  have none : ∀ emission ∈ ([] : List Emission), ∀ line ∈ Line.ofSource source,
      emission.line < line.number := by simp
  have same := rows_eq_rowsFrom none (Line.number_lt_of_numbered 1 _) faultless ∅ base
  rw [List.nil_append] at same
  exact congrArg (fun rows => ['\n'].intercalate (header ++ rows)) same

end Listing

end ChipEight
