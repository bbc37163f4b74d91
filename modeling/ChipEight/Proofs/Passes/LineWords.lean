import ChipEight.Proofs.Passes.LineCode

set_option autoImplicit false

/-!
The bytes of a source as the words of its lines.  A line with an instruction has one word, which
depends on what the line says and on the addresses of its own labels, not on where the line stands
or on what else is defined.
-/

namespace ChipEight

def bigEndian (word : Nat) : List UInt8 :=
  [UInt8.ofNat (word >>> 8), UInt8.ofNat word]

def wordAt? (binary : List UInt8) (k : Nat) : Option Nat :=
  match binary[2 * k]?, binary[2 * k + 1]? with
  | some high, some low => some (256 * high.toNat + low.toNat)
  | _, _ => none

theorem wordAt?_flatMap {words : List Nat} (short : ∀ word ∈ words, word < 0x10000) (k : Nat) :
    wordAt? (words.flatMap bigEndian) k = words[k]? := by
  induction words generalizing k with
  | nil => rfl
  | cons word words ih =>
    have rest := ih fun later member => short later (List.mem_cons_of_mem word member)
    have bytes : (word :: words).flatMap bigEndian =
        UInt8.ofNat (word >>> 8) :: UInt8.ofNat word :: words.flatMap bigEndian := rfl
    rw [bytes]
    cases k with
    | zero =>
      have whole := Emission.toNat_bytes (short word List.mem_cons_self)
      simp only [wordAt?, Nat.mul_zero, Nat.zero_add, List.getElem?_cons_zero,
        List.getElem?_cons_succ, whole]
    | succ k =>
      have skip : 2 * (k + 1) = 2 * k + 1 + 1 := by omega
      rw [List.getElem?_cons_succ, ← rest k]
      simp only [wordAt?, skip, List.getElem?_cons_succ]

theorem length_flatMap_bigEndian (words : List Nat) :
    (words.flatMap bigEndian).length = 2 * words.length := by
  induction words with
  | nil => rfl
  | cons word words ih =>
    rw [List.flatMap_cons, List.length_append, ih, List.length_cons]
    simp only [bigEndian, List.length_cons, List.length_nil]
    omega

namespace Instruction

def wordUnder (symbols : SymbolTable) (instruction : Instruction) : Nat :=
  match instruction.encoding? with
  | some (opcode, slots) =>
    Field.pack opcode
      (Slot.packings slots (instruction.operands.map (Operand.substitute symbols)))
  | none => 0

theorem wordUnder_eq {mnemonic : Mnemonic} {instruction : Instruction} {word : Nat × List Slot}
    (named : instruction.mnemonic = mnemonic.spelling)
    (taken : Catalog.Takes mnemonic word instruction.operands) (symbols : SymbolTable) :
    instruction.wordUnder symbols =
      Field.pack word.1
        (Slot.packings word.2 (instruction.operands.map (Operand.substitute symbols))) := by
  rw [wordUnder, (encoding?_eq_some_iff named).mpr taken]

theorem extract_wordUnder {mnemonic : Mnemonic} {instruction : Instruction}
    {word : Nat × List Slot} (named : instruction.mnemonic = mnemonic.spelling)
    (taken : Catalog.Takes mnemonic word instruction.operands) {symbols : SymbolTable} {k : Nat}
    {slot : Slot} {field : Field} {operand : Operand} {value : Int}
    (place : word.2[k]? = some slot) (given : instruction.operands[k]? = some operand)
    (filled : slot.field? = some field)
    (number : (operand.substitute symbols).number? = some value) :
    field.extract (instruction.wordUnder symbols) = field.content value := by
  have replaced : (instruction.operands.map (Operand.substitute symbols))[k]? =
      some (operand.substitute symbols) := by
    rw [List.getElem?_map, given]
    rfl
  rw [wordUnder_eq named taken]
  exact (taken.substitute symbols).extract_eq place replaced filled number

theorem ofMnemonic_eq_ok_iff {mnemonic : Mnemonic} {arguments : List Char} {position : Position}
    {instruction : Instruction} :
    ofMnemonic mnemonic arguments position = .ok instruction ↔
      ∃ operands, (Catalog.forms mnemonic).findSome? (·.accept? (Operand.readList arguments)) =
        some operands ∧ instruction = ⟨mnemonic.spelling, operands, position⟩ := by
  rw [ofMnemonic]
  cases (Catalog.forms mnemonic).findSome? (·.accept? (Operand.readList arguments)) with
  | none => simp
  | some operands => simp [eq_comm]

end Instruction

namespace Line

def word? (symbols : SymbolTable) (line : Line) : Option Nat :=
  (line.code? symbols).map (·.word)

section Instruction

variable {symbols : SymbolTable} {line : Line} {mnemonic : Mnemonic} {arguments : List Char}
  {instruction : Instruction}

/-- A line whose instruction can be read is refused for its first undefined label, or it has the
word of that instruction: encoding never fails. -/
theorem compile_of_parsed (statement : line.statement = .instruction mnemonic arguments)
    (parsed : Instruction.ofMnemonic mnemonic arguments line.position = .ok instruction) :
    line.compile symbols =
      match instruction.labels.find? (fun name => (symbols.find? name).isNone) with
      | some name => .error (.undefinedLabel name line.position)
      | none => .ok (some ⟨line.number, instruction, instruction.wordUnder symbols⟩) := by
  obtain ⟨named, place, form, taken⟩ := Instruction.ofMnemonic_eq_ok parsed
  simp only [compile, statement, parsed]
  cases resolves : instruction.resolve symbols with
  | error fault =>
    obtain ⟨name, missing, rfl⟩ := Instruction.resolve_eq_error_iff.mp resolves
    simp only [missing, place]
  | ok resolved =>
    obtain ⟨defined, same⟩ := Instruction.resolve_eq_ok_iff.mp resolves
    have none_missing := SymbolTable.none_missing_iff.mpr defined
    have encoded := (Instruction.encode_of_resolve named taken resolves).2
    rw [same] at encoded
    simp only [none_missing, same, encoded, Except.map, Instruction.wordUnder_eq named taken]

theorem fault?_eq_none_iff_defined
    (statement : line.statement = .instruction mnemonic arguments)
    (parsed : Instruction.ofMnemonic mnemonic arguments line.position = .ok instruction) :
    line.fault? symbols = none ↔
      ∀ name ∈ instruction.labels, (symbols.find? name).isSome = true := by
  rw [fault?, compile_of_parsed statement parsed, ← SymbolTable.none_missing_iff]
  cases instruction.labels.find? (fun name => (symbols.find? name).isNone) <;> simp

theorem word?_of_parsed (statement : line.statement = .instruction mnemonic arguments)
    (parsed : Instruction.ofMnemonic mnemonic arguments line.position = .ok instruction)
    (faultless : line.fault? symbols = none) :
    line.word? symbols = some (instruction.wordUnder symbols) := by
  have compiled : line.compile symbols = _ := compile_of_parsed statement parsed
  rw [fault?, compiled] at faultless
  rw [word?, code?, compiled]
  cases missing : instruction.labels.find? (fun name => (symbols.find? name).isNone) with
  | some name => simp [missing] at faultless
  | none => rfl

end Instruction

theorem word?_eq_none {symbols : SymbolTable} {line : Line} (other : line.isInstruction = false) :
    line.word? symbols = none := by
  rw [word?, code?_eq_none other]
  rfl

theorem fault?_congr {symbols others : SymbolTable}
    (same : ∀ name, (symbols.find? name).isNone = (others.find? name).isNone) (line : Line) :
    line.fault? symbols = line.fault? others := by
  cases statement : line.statement with
  | blank => simp only [fault?, compile, statement]
  | label name => simp only [fault?, compile, statement]
  | unknown head arguments => simp only [fault?, compile, statement]
  | instruction mnemonic arguments =>
    cases parsed : Instruction.ofMnemonic mnemonic arguments line.position with
    | error fault => simp only [fault?, compile, statement, parsed]
    | ok instruction =>
      rw [fault?, fault?, compile_of_parsed statement parsed, compile_of_parsed statement parsed]
      simp only [same]
      cases instruction.labels.find? (fun name => (others.find? name).isNone) <;> rfl

theorem word?_of_extends {symbols more : SymbolTable} {line moved : Line}
    (same : moved.statement = line.statement)
    (kept : ∀ name address, symbols.find? name = some address → more.find? name = some address)
    (faultless : line.fault? symbols = none) :
    moved.fault? more = none ∧ moved.word? more = line.word? symbols := by
  cases statement : line.statement with
  | blank => simp [fault?, word?, code?, compile, same, statement]
  | label name => simp [fault?, word?, code?, compile, same, statement]
  | unknown head arguments => simp [fault?, compile, statement] at faultless
  | instruction mnemonic arguments =>
    obtain ⟨instruction, _, _, parsed, -⟩ := code?_of_instruction statement faultless
    obtain ⟨operands, accepted, rfl⟩ := Instruction.ofMnemonic_eq_ok_iff.mp parsed
    have again := Instruction.ofMnemonic_eq_ok_iff.mpr
      ⟨operands, accepted, (rfl : (⟨mnemonic.spelling, operands, moved.position⟩ : Instruction) = _)⟩
    have defined := (fault?_eq_none_iff_defined statement parsed).mp faultless
    have clear : moved.fault? more = none := by
      apply (fault?_eq_none_iff_defined (same.trans statement) again).mpr
      intro name member
      obtain ⟨address, found⟩ := Option.isSome_iff_exists.mp (defined name member)
      rw [kept name address found]
      rfl
    refine ⟨clear, ?_⟩
    rw [word?_of_parsed (same.trans statement) again clear,
      word?_of_parsed statement parsed faultless]
    have replaced : operands.map (Operand.substitute more) =
        operands.map (Operand.substitute symbols) := by
      apply Operand.map_substitute_congr
      intro name member
      obtain ⟨address, found⟩ := Option.isSome_iff_exists.mp (defined name member)
      rw [found, kept name address found]
    simp only [Instruction.wordUnder, Instruction.encoding?, replaced]

theorem exists_word? {symbols : SymbolTable} {line : Line} (holds : line.isInstruction = true)
    (faultless : line.fault? symbols = none) : ∃ word, line.word? symbols = some word := by
  obtain ⟨mnemonic, arguments, statement⟩ := exists_of_isInstruction holds
  obtain ⟨_, _, word, -, -, -, coded⟩ := code?_of_instruction statement faultless
  exact ⟨word, by rw [word?, coded, Option.map_some]⟩

theorem word?_lt {symbols : SymbolTable} {line : Line} {word : Nat}
    (found : line.word? symbols = some word) : word < 0x10000 := by
  obtain ⟨code, coded, rfl⟩ := Option.map_eq_some_iff.mp found
  exact word_lt coded

section Faultless

variable {symbols : SymbolTable} {lines : List Line}

theorem length_words (faultless : ∀ line ∈ lines, line.fault? symbols = none) :
    (lines.filterMap (word? symbols)).length = instructionCount lines := by
  have codes : lines.filterMap (word? symbols) = (lines.filterMap (code? symbols)).map (·.word) := by
    rw [List.map_filterMap]
    rfl
  rw [codes, List.length_map, length_codes faultless]

theorem getElem?_words (faultless : ∀ line ∈ lines, line.fault? symbols = none) (k : Nat) :
    (lines.filterMap (word? symbols))[k]? =
      (lines.filter isInstruction)[k]?.bind (word? symbols) := by
  induction lines generalizing k with
  | nil => simp
  | cons line lines ih =>
    have tail := fun later member => faultless later (List.mem_cons_of_mem line member)
    cases instruction : line.isInstruction with
    | false =>
      rw [List.filterMap_cons_none (word?_eq_none instruction),
        List.filter_cons_of_neg (by simp [instruction]), ih tail]
    | true =>
      obtain ⟨word, found⟩ := exists_word? instruction (faultless line List.mem_cons_self)
      rw [List.filterMap_cons_some found, List.filter_cons_of_pos instruction]
      cases k with
      | zero => simp [found]
      | succ k => rw [List.getElem?_cons_succ, List.getElem?_cons_succ, ih tail]

end Faultless

end Line

theorem wordAt?_words {symbols : SymbolTable} {lines : List Line}
    (faultless : ∀ line ∈ lines, line.fault? symbols = none) (k : Nat) :
    wordAt? ((lines.filterMap (Line.word? symbols)).flatMap bigEndian) k =
      (lines.filter Line.isInstruction)[k]?.bind (Line.word? symbols) := by
  rw [wordAt?_flatMap, Line.getElem?_words faultless]
  intro word member
  obtain ⟨line, -, found⟩ := List.mem_filterMap.mp member
  exact Line.word?_lt found

theorem wordAt?_split {symbols : SymbolTable} {before after : List Line} {line : Line}
    (faultless : ∀ other ∈ before ++ line :: after, other.fault? symbols = none)
    (holds : line.isInstruction = true) :
    wordAt? (((before ++ line :: after).filterMap (Line.word? symbols)).flatMap bigEndian)
        (Line.instructionCount before) = line.word? symbols := by
  have count : (before.filter Line.isInstruction).length = Line.instructionCount before :=
    List.countP_eq_length_filter.symm
  rw [wordAt?_words faultless, List.filter_append, List.filter_cons_of_pos holds,
    List.getElem?_append_right (by omega), count, Nat.sub_self]
  rfl

theorem image_ofCodes (address : Int) (codes : List Code) :
    Emission.image (Emission.ofCodes address codes) = (codes.map (·.word)).flatMap bigEndian := by
  induction codes generalizing address with
  | nil => rfl
  | cons code codes ih =>
    rw [List.map_cons, List.flatMap_cons, ← ih (address + instructionSize)]
    rfl

theorem bytes_eq_ok_iff_words {base : Int} {source : List Char} {binary : List UInt8} :
    (assemble base source).bytes = .ok binary ↔
      (∀ line ∈ Line.ofSource source, line.fault? (symbolsOf base source) = none) ∧
        binary = ((Line.ofSource source).filterMap
          (Line.word? (symbolsOf base source))).flatMap bigEndian := by
  rw [bytes_assemble_eq_ok_iff, image_ofCodes, List.map_filterMap]
  rfl

end ChipEight
