import ChipEight.Proofs.Listing.Columns
import ChipEight.Proofs.Listing.LineRows
import ChipEight.Proofs.Passes.Acceptance
import ChipEight.Proofs.Session.History

set_option autoImplicit false

/-!
Listings read back.  A reader that knows only where the columns of a row stand finds the bytes of the
program again, and the address of every instruction and of every label, whatever the source says.
-/

namespace ChipEight

open Text

namespace Line

def isVisible (line : Line) : Bool :=
  line.text.any (!Blank.isBlank ·)

theorem isVisible_iff {line : Line} : line.isVisible = true ↔ Blank.trim line.text ≠ [] := by
  rw [ne_eq, Blank.trim_eq_nil_iff, isVisible, List.any_eq_true]
  push Not
  simp

end Line

namespace Listing

variable {symbols : SymbolTable}

/-- How a row shows its line.  Every row ends in the text of the line; in front of it an instruction
has an address and two bytes, a label has an address and blanks, and another line has no address. -/
structure ShowsLine (line : Line) (shown : List Char) : Prop where
  source : Blank.trim line.text <:+ shown
  instruction : line.isInstruction = true → ∃ columns high low,
    Columns.read? shown = some columns ∧ columns.bytes? = some [high, low]
  label : ∀ name, line.statement = .label name → ∃ columns,
    Columns.read? shown = some columns ∧ columns.bytes = gap 5
  other : line.isInstruction = false → (∀ name, line.statement ≠ .label name) →
    Columns.read? shown = none

section Row

variable {line : Line}

private theorem bytesColumn?_cases {column : List Char}
    (found : line.bytesColumn? symbols = some column) :
    (∃ word, line.word? symbols = some word ∧ word < 0x10000 ∧ column = Listing.word word) ∨
      line.word? symbols = none ∧ column = gap 5 := by
  unfold Line.bytesColumn? at found
  split at found
  · rename_i word coded
    cases found
    exact Or.inl ⟨word, coded, Line.word?_lt coded, rfl⟩
  · rename_i wordless _
    cases found
    exact Or.inr ⟨wordless, rfl⟩
  · cases found

private theorem read?_row? {address : Int} {shown : List Char}
    (found : line.row? symbols address = some shown) :
    Columns.read? shown =
      (line.bytesColumn? symbols).map fun bytes => ⟨Listing.address address, bytes⟩ := by
  unfold Line.row? at found
  cases column : line.bytesColumn? symbols with
  | some bytes =>
    simp only [column, Option.some.injEq] at found
    have five : bytes.length = 5 := by
      rcases bytesColumn?_cases column with ⟨word, -, short, rfl⟩ | ⟨-, rfl⟩
      · exact length_word short
      · rfl
    rw [← found, read?_row five]
    rfl
  | none =>
    simp only [column, Option.ite_none_left_eq_some, Option.some.injEq] at found
    rw [← found.2]
    exact read?_row_gap _

private theorem word?_eq_none_of_column (absent : line.bytesColumn? symbols = none) :
    line.word? symbols = none := by
  unfold Line.bytesColumn? at absent
  split at absent <;> trivial

private theorem word?_eq_none_of_row? {address : Int}
    (absent : line.row? symbols address = none) : line.word? symbols = none := by
  apply word?_eq_none_of_column
  cases column : line.bytesColumn? symbols with
  | none => rfl
  | some bytes => simp [Line.row?, column] at absent

private theorem rowBytes?_row? {address : Int} {shown : List Char}
    (found : line.row? symbols address = some shown) :
    rowBytes? shown = some ((line.word? symbols).toList.flatMap bigEndian) := by
  rw [rowBytes?, read?_row? found]
  cases column : line.bytesColumn? symbols with
  | none =>
    rw [word?_eq_none_of_column column]
    rfl
  | some bytes =>
    rcases bytesColumn?_cases column with ⟨word, coded, short, rfl⟩ | ⟨wordless, rfl⟩
    · simp only [Option.map_some, bytes?_word short, coded, Option.toList_some,
        List.flatMap_singleton]
    · rw [wordless]
      rfl

private theorem address?_row? {address : Int} {shown : List Char} {columns : Columns}
    (found : line.row? symbols address = some shown)
    (read : Columns.read? shown = some columns) : columns.address? = some address := by
  rw [read?_row? found] at read
  obtain ⟨bytes, -, rfl⟩ := Option.map_eq_some_iff.mp read
  exact address?_address address bytes

private theorem isInstruction_eq (faultless : line.fault? symbols = none) :
    line.isInstruction = (line.word? symbols).isSome := by
  cases holds : line.isInstruction with
  | false =>
    rw [Line.word?_eq_none holds]
    rfl
  | true =>
    obtain ⟨word, coded⟩ := Line.exists_word? holds faultless
    rw [coded]
    rfl

private theorem showsBytes_row? (faultless : line.fault? symbols = none) {address : Int}
    {shown : List Char} (found : line.row? symbols address = some shown) :
    showsBytes shown = line.isInstruction := by
  rw [showsBytes, read?_row? found, isInstruction_eq faultless]
  cases column : line.bytesColumn? symbols with
  | none =>
    rw [word?_eq_none_of_column column]
    rfl
  | some bytes =>
    rcases bytesColumn?_cases column with ⟨word, coded, short, rfl⟩ | ⟨wordless, rfl⟩
    · simp [coded, word_ne_gap short]
    · rw [wordless]
      rfl

private theorem showsLine_row? (faultless : line.fault? symbols = none) {address : Int}
    {shown : List Char} (found : line.row? symbols address = some shown) :
    ShowsLine line shown := by
  have read := read?_row? found
  constructor
  · unfold Line.row? at found
    split at found
    · cases found
      exact List.suffix_append _ _
    · simp only [Option.ite_none_left_eq_some, Option.some.injEq] at found
      rw [← found.2]
      exact List.suffix_append _ _
  · intro holds
    obtain ⟨word, coded⟩ := Line.exists_word? holds faultless
    have column : line.bytesColumn? symbols = some (Listing.word word) := by
      simp only [Line.bytesColumn?, coded]
    rw [column] at read
    exact ⟨_, _, _, read, bytes?_word (Line.word?_lt coded) _⟩
  · intro name statement
    have wordless : line.word? symbols = none :=
      Line.word?_eq_none (by simp [Line.isInstruction, statement])
    have column : line.bytesColumn? symbols = some (gap 5) := by
      simp only [Line.bytesColumn?, wordless, statement]
    rw [column] at read
    exact ⟨_, read, rfl⟩
  · intro other unnamed
    have column : line.bytesColumn? symbols = none := by
      unfold Line.bytesColumn?
      split
      · rename_i word coded
        rw [Line.word?_eq_none other] at coded
        cases coded
      · rename_i name _ statement
        exact absurd statement (unnamed name)
      · rfl
    rw [column] at read
    exact read

private theorem not_mem_row? (clear : '\n' ∉ line.text) {address : Int} {shown : List Char}
    (found : line.row? symbols address = some shown) : '\n' ∉ shown := by
  have source : '\n' ∉ Blank.trim line.text := fun inside => clear (Blank.mem_of_mem_trim inside)
  unfold Line.row? at found
  cases column : line.bytesColumn? symbols with
  | some bytes =>
    simp only [column, Option.some.injEq] at found
    have front : '\n' ∉ Listing.address address := not_mem_address (by decide) (by decide) address
    have middle : '\n' ∉ bytes := by
      rcases bytesColumn?_cases column with ⟨word, -, -, rfl⟩ | ⟨-, rfl⟩
      · exact not_mem_word (by decide) (by decide) word
      · decide
    rw [← found]
    simp [row, front, middle, source]
  | none =>
    simp only [column, Option.ite_none_left_eq_some, Option.some.injEq] at found
    rw [← found.2]
    simp [row, gap, source]

private theorem isSome_row? (read : line.statement = Statement.read line.text) (address : Int) :
    (line.row? symbols address).isSome = line.isVisible := by
  rw [Bool.eq_iff_iff, Line.isVisible_iff]
  unfold Line.row?
  cases column : line.bytesColumn? symbols with
  | none => by_cases blank : Blank.trim line.text = [] <;> simp [blank]
  | some bytes =>
    -- A blank text would make the line a blank one, which has neither a word nor a label.
    simp only [Option.isSome_some, true_iff]
    intro blank
    have silent : line.statement = .blank := by
      rw [read]
      change Statement.ofText (Line.essence line.text) = .blank
      rw [Line.essence_eq_nil blank]
      rfl
    have wordless : line.word? symbols = none :=
      Line.word?_eq_none (by simp [Line.isInstruction, silent])
    simp [Line.bytesColumn?, wordless, silent] at column

end Row

section Rows

variable {lines : List Line}

theorem readBytes_rowsFrom (symbols : SymbolTable) (address : Int) (lines : List Line) :
    readBytes (Line.rowsFrom symbols address lines) =
      some ((lines.filterMap (Line.word? symbols)).flatMap bigEndian) := by
  induction lines generalizing address with
  | nil => rfl
  | cons line lines ih =>
    rw [Line.rowsFrom]
    cases found : line.row? symbols address with
    | none =>
      rw [List.filterMap_cons_none (word?_eq_none_of_row? found)]
      exact ih _
    | some shown =>
      rw [Option.toList_some, List.singleton_append, readBytes, rowBytes?_row? found, ih,
        List.filterMap_cons]
      cases line.word? symbols <;> rfl

variable (faultless : ∀ line ∈ lines, line.fault? symbols = none)

include faultless

theorem address?_rowsFrom {address : Int} {k : Nat} {shown : List Char} {columns : Columns}
    (stands : (Line.rowsFrom symbols address lines)[k]? = some shown)
    (read : Columns.read? shown = some columns) :
    columns.address? = some (address +
      2 * (((Line.rowsFrom symbols address lines).take k).countP showsBytes : Nat)) := by
  induction lines generalizing address k with
  | nil => simp [Line.rowsFrom] at stands
  | cons line lines ih =>
    have first := faultless line List.mem_cons_self
    have rest := fun later member => faultless later (List.mem_cons_of_mem line member)
    rw [Line.rowsFrom] at stands ⊢
    cases found : line.row? symbols address with
    | none =>
      have still : line.size = 0 := by
        rw [Line.size, isInstruction_eq first, word?_eq_none_of_row? found]
        rfl
      rw [found, still, Int.add_zero] at stands
      rw [still, Int.add_zero]
      exact ih rest stands
    | some head =>
      rw [found] at stands
      cases k with
      | zero =>
        cases stands
        simpa using address?_row? found read
      | succ k =>
        rw [Option.toList_some, List.singleton_append, List.getElem?_cons_succ] at stands
        rw [ih rest stands, Option.toList_some, List.singleton_append, List.take_succ_cons,
          List.countP_cons, showsBytes_row? first found]
        cases holds : line.isInstruction <;> simp [Line.size, holds, instructionSize]
        omega

theorem showsLine_rowsFrom (read : ∀ line ∈ lines, line.statement = Statement.read line.text)
    (address : Int) :
    List.Forall₂ ShowsLine (lines.filter Line.isVisible)
      (Line.rowsFrom symbols address lines) := by
  induction lines generalizing address with
  | nil => exact .nil
  | cons line lines ih =>
    have first := faultless line List.mem_cons_self
    have rest := ih (fun later member => faultless later (List.mem_cons_of_mem line member))
      (fun later member => read later (List.mem_cons_of_mem line member)) (address + line.size)
    have visible : (line.row? symbols address).isSome = line.isVisible :=
      isSome_row? (read line List.mem_cons_self) address
    rw [Line.rowsFrom]
    cases found : line.row? symbols address with
    | none =>
      rw [found] at visible
      rw [List.filter_cons_of_neg (by simp [← visible])]
      exact rest
    | some shown =>
      rw [found] at visible
      rw [List.filter_cons_of_pos visible.symm]
      exact .cons (showsLine_row? first found) rest

end Rows

theorem not_mem_rowsFrom {lines : List Line} (clear : ∀ line ∈ lines, '\n' ∉ line.text)
    {address : Int} {shown : List Char} (member : shown ∈ Line.rowsFrom symbols address lines) :
    '\n' ∉ shown := by
  induction lines generalizing address with
  | nil => simp [Line.rowsFrom] at member
  | cons line lines ih =>
    rw [Line.rowsFrom, List.mem_append] at member
    rcases member with here | later
    · exact not_mem_row? (clear line List.mem_cons_self) (Option.mem_toList.mp here)
    · exact ih (fun later member => clear later (List.mem_cons_of_mem line member)) later

def rowsOf (listing : List Char) : List (List Char) :=
  (listing.splitOn '\n').drop 2

/-- What can be read from the listing of an accepted source: a row for each line that shows
something, the bytes of the program, and in each row with an address how many instructions stand
above it. -/
structure ReadsBack (base : Int) (source : List Char) (binary : List UInt8)
    (listing : List Char) : Prop where
  header : (listing.splitOn '\n').take 2 = header
  lines : List.Forall₂ ShowsLine ((Line.ofSource source).filter Line.isVisible) (rowsOf listing)
  bytes : readBytes (rowsOf listing) = some binary
  addresses : ∀ (k : Nat) (shown : List Char) (columns : Columns),
    (rowsOf listing)[k]? = some shown → Columns.read? shown = some columns →
      columns.address? = some (base + 2 * (((rowsOf listing).take k).countP showsBytes : Nat))

theorem splitOn_text {rows : List (List Char)} (clear : ∀ shown ∈ rows, '\n' ∉ shown) :
    (['\n'].intercalate (header ++ rows)).splitOn '\n' = header ++ rows := by
  apply List.splitOn_intercalate
  · intro shown member
    rcases List.mem_append.mp member with above | below
    · have plain : ∀ shown ∈ header, '\n' ∉ shown := by decide
      exact plain shown above
    · exact clear shown below
  · simp [header]

end Listing

namespace Session

/-- The listing of an accepted source determines its bytes, and shows the address of each instruction
and of each label, also of one that is bound again behind it. -/
theorem listing_readsBack (session : Session) {source : List Char} {binary : List UInt8}
    (accepted : (session.assemble source).1.bytes = .ok binary) :
    Listing.ReadsBack session.base source binary (session.assemble source).2.listing := by
  rw [assemble_eq] at accepted ⊢
  obtain ⟨faultless, rfl⟩ := bytes_eq_ok_iff_words.mp accepted
  have shown : (ofAssembly session.base (ChipEight.assemble session.base source)).listing =
      ['\n'].intercalate (Listing.header ++ Line.rowsFrom (symbolsOf session.base source)
        session.base (Line.ofSource source)) := Listing.text_assemble faultless
  have clear : ∀ row ∈ Line.rowsFrom (symbolsOf session.base source) session.base
      (Line.ofSource source), '\n' ∉ row := fun row member =>
    Listing.not_mem_rowsFrom (fun line inside => (Line.of_mem_ofSource inside).2) member
  have split := Listing.splitOn_text clear
  simp only [shown]
  have rows : Listing.rowsOf (['\n'].intercalate (Listing.header ++
      Line.rowsFrom (symbolsOf session.base source) session.base (Line.ofSource source))) =
        Line.rowsFrom (symbolsOf session.base source) session.base (Line.ofSource source) := by
    rw [Listing.rowsOf, split]
    rfl
  exact {
    header := by
      rw [split]
      rfl
    lines := by
      rw [rows]
      exact Listing.showsLine_rowsFrom faultless
        (fun line inside => (Line.of_mem_ofSource inside).1) session.base
    bytes := by
      rw [rows]
      exact Listing.readBytes_rowsFrom _ session.base _
    addresses := by
      rw [rows]
      intro k shown columns stands read
      exact Listing.address?_rowsFrom faultless stands read }

/-- `A`, `CLS // 0x0  FF FF`, `a:`, `JP A` below address zero: the label has two addresses, and a remark
looks like columns. -/
theorem listing_readsBack_below_zero :
    let source := ['A', '\n', 'C', 'L', 'S', ' ', '/', '/', ' ', '0', 'x', '0', ' ', ' ', 'F', 'F',
      ' ', 'F', 'F', '\n', 'a', ':', '\n', 'J', 'P', ' ', 'A']
    ((start (-2)).assemble source).1.bytes = .ok [0x00, 0xE0, 0x10, 0x00] ∧
      Listing.readBytes (Listing.rowsOf ((start (-2)).assemble source).2.listing) =
        some [0x00, 0xE0, 0x10, 0x00] ∧
      Listing.ReadsBack (-2) source [0x00, 0xE0, 0x10, 0x00]
        ((start (-2)).assemble source).2.listing :=
  ⟨rfl, ((start (-2)).listing_readsBack rfl).bytes, (start (-2)).listing_readsBack rfl⟩

end Session

end ChipEight
