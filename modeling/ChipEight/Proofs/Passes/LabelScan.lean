import ChipEight.Assembly
import ChipEight.Proofs.Passes.SourceLines

set_option autoImplicit false

/-!
The scan for labels.  Its counter stands two bytes further behind each instruction, and a name is
found where the last line that defines it binds it.  Where no label is bound again elsewhere, any of
its lines will do.
-/

namespace ChipEight

theorem SymbolTable.mem_names_iff {table : SymbolTable} {name : List Char} :
    name ∈ table.names ↔ ∃ address, table.find? name = some address := by
  rw [← Option.isSome_iff_exists, find?, List.lookup_isSome_iff, names, List.mem_map]
  constructor
  · rintro ⟨entry, member, rfl⟩
    exact ⟨entry, member, beq_self_eq_true entry.1⟩
  · rintro ⟨entry, member, same⟩
    exact ⟨entry, member, (eq_of_beq same).symm⟩

namespace Line

def size (line : Line) : Int :=
  if line.isInstruction then instructionSize else 0

def bind (symbols : SymbolTable) (address : Int) (line : Line) : SymbolTable :=
  match line.statement with
  | .label name => symbols.insert name address
  | _ => symbols

def boundAt? (address : Int) (line : Line) : Option Int :=
  match line.statement with
  | .label _ => some address
  | _ => none

def rebinding? (symbols : SymbolTable) (address : Int) (line : Line) : Option Redefinition :=
  match line.statement with
  | .label name => Layout.redefinition? symbols line.number name address
  | _ => none

theorem size_eq (line : Line) : line.size = 2 * instructionCount [line] := by
  cases h : line.isInstruction <;> simp [size, instructionCount, instructionSize, h]

theorem add_size_add_count (address : Int) (line : Line) (lines : List Line) :
    address + line.size + 2 * (instructionCount lines : Int) =
      address + 2 * (instructionCount (line :: lines) : Int) := by
  rw [size_eq, instructionCount_cons line lines]
  omega

theorem find?_bind_of_ne {symbols : SymbolTable} {address : Int} {line : Line} {name : List Char}
    (other : line.statement ≠ .label name) :
    (line.bind symbols address).find? name = symbols.find? name := by
  unfold bind
  split
  · rename_i bound statement
    apply SymbolTable.find?_insert_of_ne
    rintro rfl
    exact other statement
  · rfl

theorem find?_bind_self {symbols : SymbolTable} {address : Int} {line : Line} {name : List Char}
    (defines : line.statement = .label name) :
    (line.bind symbols address).find? name = some address := by
  simp [bind, defines]

theorem find?_bind_of_steady {symbols : SymbolTable} {address bound : Int} {line : Line}
    {name : List Char} (steady : line.rebinding? symbols address = none)
    (found : symbols.find? name = some bound) :
    (line.bind symbols address).find? name = some bound := by
  by_cases defines : line.statement = .label name
  · simp only [rebinding?, defines, Layout.redefinition?, found] at steady
    split at steady
    · rename_i same
      rw [find?_bind_self defines, same]
    · cases steady
  · rw [find?_bind_of_ne defines, found]

end Line

namespace Layout

open Line (instructionCount)

theorem scan_nil (symbols : SymbolTable) (address : Int) :
    scan symbols address [] = ⟨[], symbols, address, []⟩ := rfl

/-- One line of the scan, whatever it says: only the table and the counter reach the next line. -/
theorem scan_cons (symbols : SymbolTable) (address : Int) (line : Line) (lines : List Line) :
    scan symbols address (line :: lines) =
      let rest := scan (line.bind symbols address) (address + line.size) lines
      { rest with
        placed := ⟨line, line.boundAt? address⟩ :: rest.placed
        redefinitions := (line.rebinding? symbols address).toList ++ rest.redefinitions } := by
  obtain ⟨number, text, statement⟩ := line
  cases statement <;>
    simp [scan, Line.bind, Line.boundAt?, Line.rebinding?, Line.size, Line.isInstruction]

theorem symbols_scan_cons (symbols : SymbolTable) (address : Int) (line : Line)
    (lines : List Line) :
    (scan symbols address (line :: lines)).symbols =
      (scan (line.bind symbols address) (address + line.size) lines).symbols := by
  rw [scan_cons]

theorem stop_scan_cons (symbols : SymbolTable) (address : Int) (line : Line) (lines : List Line) :
    (scan symbols address (line :: lines)).stop =
      (scan (line.bind symbols address) (address + line.size) lines).stop := by
  rw [scan_cons]

theorem placed_scan_cons (symbols : SymbolTable) (address : Int) (line : Line)
    (lines : List Line) :
    (scan symbols address (line :: lines)).placed =
      ⟨line, line.boundAt? address⟩ ::
        (scan (line.bind symbols address) (address + line.size) lines).placed := by
  rw [scan_cons]

theorem redefinitions_scan_cons (symbols : SymbolTable) (address : Int) (line : Line)
    (lines : List Line) :
    (scan symbols address (line :: lines)).redefinitions =
      (line.rebinding? symbols address).toList ++
        (scan (line.bind symbols address) (address + line.size) lines).redefinitions := by
  rw [scan_cons]

theorem lines_placed_scan (symbols : SymbolTable) (address : Int) (lines : List Line) :
    (scan symbols address lines).placed.map (·.line) = lines := by
  induction lines generalizing symbols address with
  | nil => rfl
  | cons line lines ih => rw [placed_scan_cons, List.map_cons, ih]

theorem stop_scan (symbols : SymbolTable) (address : Int) (lines : List Line) :
    (scan symbols address lines).stop = address + 2 * instructionCount lines := by
  induction lines generalizing symbols address with
  | nil => simp [scan_nil, instructionCount]
  | cons line lines ih =>
    rw [stop_scan_cons, ih, Line.add_size_add_count]

theorem symbols_scan_append (symbols : SymbolTable) (address : Int) (xs ys : List Line) :
    (scan symbols address (xs ++ ys)).symbols =
      (scan (scan symbols address xs).symbols (address + 2 * instructionCount xs) ys).symbols := by
  induction xs generalizing symbols address with
  | nil => simp [scan_nil, instructionCount]
  | cons line xs ih =>
    rw [List.cons_append, symbols_scan_cons, symbols_scan_cons, ih, Line.add_size_add_count]

theorem redefinitions_scan_append (symbols : SymbolTable) (address : Int) (xs ys : List Line) :
    (scan symbols address (xs ++ ys)).redefinitions =
      (scan symbols address xs).redefinitions ++
        (scan (scan symbols address xs).symbols (address + 2 * instructionCount xs)
          ys).redefinitions := by
  induction xs generalizing symbols address with
  | nil => simp [scan_nil, instructionCount]
  | cons line xs ih =>
    rw [List.cons_append, redefinitions_scan_cons, redefinitions_scan_cons, symbols_scan_cons, ih,
      Line.add_size_add_count, List.append_assoc]

theorem exists_split_of_mem_placed {symbols : SymbolTable} {address : Int} {lines : List Line}
    {entry : Placed} (member : entry ∈ (scan symbols address lines).placed) :
    ∃ before after, lines = before ++ entry.line :: after ∧
      entry.address? = entry.line.boundAt? (address + 2 * instructionCount before) := by
  induction lines generalizing symbols address with
  | nil => simp [scan_nil] at member
  | cons line lines ih =>
    rw [placed_scan_cons] at member
    rcases List.mem_cons.mp member with rfl | later
    · refine ⟨[], lines, rfl, ?_⟩
      simp [instructionCount]
    · obtain ⟨before, after, split, bound⟩ := ih later
      refine ⟨line :: before, after, ?_, ?_⟩
      · rw [split, List.cons_append]
      · rw [bound, Line.add_size_add_count]

theorem find?_scan_of_steady {symbols : SymbolTable} {address bound : Int} {lines : List Line}
    {name : List Char} (steady : (scan symbols address lines).redefinitions = [])
    (found : symbols.find? name = some bound) :
    (scan symbols address lines).symbols.find? name = some bound := by
  induction lines generalizing symbols address with
  | nil => exact found
  | cons line lines ih =>
    rw [redefinitions_scan_cons, List.append_eq_nil_iff, Option.toList_eq_nil_iff] at steady
    rw [symbols_scan_cons]
    exact ih steady.2 (Line.find?_bind_of_steady steady.1 found)

theorem find?_scan_of_defines {symbols : SymbolTable} {address : Int} {before after : List Line}
    {line : Line} {name : List Char} (defines : line.statement = .label name)
    (steady : (scan symbols address (before ++ line :: after)).redefinitions = []) :
    (scan symbols address (before ++ line :: after)).symbols.find? name =
      some (address + 2 * instructionCount before) := by
  rw [redefinitions_scan_append, redefinitions_scan_cons] at steady
  have rest := (List.append_eq_nil_iff.mp (List.append_eq_nil_iff.mp steady).2).2
  rw [symbols_scan_append, symbols_scan_cons]
  exact find?_scan_of_steady rest (Line.find?_bind_self defines)

theorem find?_scan_of_undefined {name : List Char} {lines : List Line}
    (undefined : ∀ line ∈ lines, line.statement ≠ .label name) (symbols : SymbolTable)
    (address : Int) :
    (scan symbols address lines).symbols.find? name = symbols.find? name := by
  induction lines generalizing symbols address with
  | nil => rfl
  | cons line lines ih =>
    have head := undefined line List.mem_cons_self
    have tail := fun later member => undefined later (List.mem_cons_of_mem line member)
    rw [symbols_scan_cons, ih tail, Line.find?_bind_of_ne head]

theorem find?_scan_of_last {name : List Char} {before after : List Line} {line : Line}
    (defines : line.statement = .label name)
    (last : ∀ later ∈ after, later.statement ≠ .label name) (symbols : SymbolTable)
    (address : Int) :
    (scan symbols address (before ++ line :: after)).symbols.find? name =
      some (address + 2 * instructionCount before) := by
  rw [symbols_scan_append, symbols_scan_cons, find?_scan_of_undefined last,
    Line.find?_bind_self defines]

theorem find?_ofLines_iff {base : Int} {lines : List Line} {name : List Char} {address : Int} :
    (ofLines base lines).symbols.find? name = some address ↔
      ∃ before line after, lines = before ++ line :: after ∧ line.statement = .label name ∧
        (∀ later ∈ after, later.statement ≠ .label name) ∧
        address = base + 2 * instructionCount before := by
  unfold ofLines
  constructor
  · intro found
    rcases Line.undefined_or_last name lines with
      undefined | ⟨before, line, after, split, defines, last⟩
    · rw [find?_scan_of_undefined undefined] at found
      cases found
    · rw [split, find?_scan_of_last defines last] at found
      exact ⟨before, line, after, split, defines, last, (Option.some.inj found).symm⟩
  · rintro ⟨before, line, after, split, defines, last, rfl⟩
    rw [split, find?_scan_of_last defines last]

end Layout

theorem find?_symbolsOf_iff {base : Int} {source name : List Char} {address : Int} :
    (symbolsOf base source).find? name = some address ↔
      ∃ before line after, Line.ofSource source = before ++ line :: after ∧
        line.statement = .label name ∧ (∀ later ∈ after, later.statement ≠ .label name) ∧
        address = base + 2 * Line.instructionCount before :=
  Layout.find?_ofLines_iff

end ChipEight
