import ChipEight.Proofs.Encoding.ParsedInstruction
import ChipEight.Proofs.Passes.LabelScan

set_option autoImplicit false

/-!
What each line comes to by itself, given the labels.  The second pass is the first fault of its
lines, or else their words in a row, two bytes apart.
-/

namespace ChipEight

structure Code where
  line : Nat
  instruction : Instruction
  word : Nat

namespace Line

def compile (symbols : SymbolTable) (line : Line) : Except Fault (Option Code) :=
  match line.statement with
  | .blank => .ok none
  | .label _ => .ok none
  | .unknown head _ => .error (.unknownMnemonic head line.position)
  | .instruction mnemonic arguments =>
    match Instruction.ofMnemonic mnemonic arguments line.position with
    | .error fault => .error fault
    | .ok instruction =>
      match instruction.resolve symbols with
      | .error fault => .error fault
      | .ok resolved => resolved.encode.2.map fun word => some ⟨line.number, instruction, word⟩

def fault? (symbols : SymbolTable) (line : Line) : Option Fault :=
  match line.compile symbols with
  | .error fault => some fault
  | .ok _ => none

def code? (symbols : SymbolTable) (line : Line) : Option Code :=
  match line.compile symbols with
  | .error _ => none
  | .ok code => code

end Line

namespace Emission

def ofCodes (address : Int) : List Code → List Emission
  | [] => []
  | code :: codes =>
    ⟨code.line, address, code.word, code.instruction⟩ :: ofCodes (address + instructionSize) codes

theorem getElem?_ofCodes (address : Int) (codes : List Code) (k : Nat) :
    (ofCodes address codes)[k]? =
      codes[k]?.map fun code => ⟨code.line, address + 2 * k, code.word, code.instruction⟩ := by
  induction codes generalizing address k with
  | nil => simp [ofCodes]
  | cons code codes ih =>
    cases k with
    | zero => simp [ofCodes]
    | succ k =>
      rw [ofCodes, List.getElem?_cons_succ, ih, List.getElem?_cons_succ]
      have shifted : address + (instructionSize : Nat) + 2 * (k : Int) =
          address + 2 * ((k + 1 : Nat) : Int) := by
        simp only [instructionSize]
        omega
      rw [shifted]

theorem length_ofCodes (address : Int) (codes : List Code) :
    (ofCodes address codes).length = codes.length := by
  induction codes generalizing address with
  | nil => rfl
  | cons code codes ih => simp [ofCodes, ih]

theorem lines_ofCodes (address : Int) (codes : List Code) :
    (ofCodes address codes).map (·.line) = codes.map (·.line) := by
  induction codes generalizing address with
  | nil => rfl
  | cons code codes ih => simp [ofCodes, ih]

theorem toNat_bytes {word : Nat} (short : word < 0x10000) :
    256 * (UInt8.ofNat (word >>> 8)).toNat + (UInt8.ofNat word).toNat = word := by
  rw [UInt8.toNat_ofNat', UInt8.toNat_ofNat', Nat.shiftRight_eq_div_pow]
  omega

theorem length_image (emissions : List Emission) : (image emissions).length = 2 * emissions.length := by
  induction emissions with
  | nil => rfl
  | cons emission emissions ih =>
    have tail : (image (emission :: emissions)).length = 2 + (image emissions).length := by
      simp [image, bytes]
      omega
    rw [tail, ih, List.length_cons]
    omega

private theorem result_ofLines_cons (symbols : SymbolTable) (address : Int) (line : Line)
    (lines : List Line) :
    (ofLines symbols address (line :: lines)).2 =
      match line.compile symbols with
      | .error fault => .error fault
      | .ok none => (ofLines symbols address lines).2
      | .ok (some code) =>
        (ofLines symbols (address + instructionSize) lines).2.map
          (⟨code.line, address, code.word, code.instruction⟩ :: ·) := by
  obtain ⟨number, text, statement⟩ := line
  cases statement with
  | blank => rfl
  | label name => rfl
  | unknown head arguments => rfl
  | instruction mnemonic arguments =>
    simp only [ofLines, Line.compile]
    cases Instruction.ofMnemonic mnemonic arguments (Line.position ⟨number, text, _⟩) with
    | error fault => rfl
    | ok instruction =>
      simp only [ofInstruction]
      cases instruction.resolve symbols with
      | error fault => rfl
      | ok resolved =>
        simp only
        obtain ⟨cut, result⟩ := resolved.encode
        cases result <;> rfl

theorem result_ofLines (symbols : SymbolTable) (address : Int) (lines : List Line) :
    (ofLines symbols address lines).2 =
      match lines.findSome? (Line.fault? symbols) with
      | some fault => .error fault
      | none => .ok (ofCodes address (lines.filterMap (Line.code? symbols))) := by
  induction lines generalizing address with
  | nil => rfl
  | cons line lines ih =>
    rw [result_ofLines_cons, List.findSome?_cons, List.filterMap_cons, Line.fault?, Line.code?]
    cases line.compile symbols with
    | error fault => rfl
    | ok code =>
      cases code with
      | none => exact ih address
      | some code =>
        simp only [ih]
        cases lines.findSome? (Line.fault? symbols) <;> rfl

theorem forall_mem_log {p : Event → Prop} (cut : ∀ notice, p (.truncated notice))
    (plain : ∀ address word text, p (.encoded address word text)) (symbols : SymbolTable)
    (address : Int) (lines : List Line) : ∀ event ∈ (ofLines symbols address lines).1, p event := by
  have notices : ∀ list : List Truncation, ∀ event ∈ list.map Event.truncated, p event := by
    intro list event member
    obtain ⟨notice, -, rfl⟩ := List.mem_map.mp member
    exact cut notice
  have single : ∀ number address instruction,
      ∀ event ∈ (ofInstruction symbols number address instruction).1, p event := by
    intro number address instruction
    unfold ofInstruction
    cases instruction.resolve symbols with
    | error fault => simp
    | ok resolved =>
      simp only
      rcases resolved.encode with ⟨list, fault | word⟩
      · exact notices list
      · exact List.forall_mem_append.mpr
          ⟨notices list, List.forall_mem_singleton.mpr (plain address word instruction.spelling)⟩
  induction lines generalizing address with
  | nil => simp [ofLines]
  | cons line lines ih =>
    rw [ofLines]
    cases line.statement with
    | blank => exact ih address
    | label name => exact ih address
    | unknown head arguments => simp
    | instruction mnemonic arguments =>
      simp only
      cases Instruction.ofMnemonic mnemonic arguments line.position with
      | error fault => simp
      | ok instruction =>
        have here := single line.number address instruction
        simp only
        rcases run : ofInstruction symbols line.number address instruction with
          ⟨log, fault | emission⟩
        · rw [run] at here
          exact here
        · rw [run] at here
          exact List.forall_mem_append.mpr ⟨here, ih (address + instructionSize)⟩

end Emission

theorem result_assemble (base : Int) (source : List Char) :
    (assemble base source).result =
      match (Line.ofSource source).findSome? (Line.fault? (symbolsOf base source)) with
      | some fault => .error fault
      | none => .ok (Emission.ofCodes base
          ((Line.ofSource source).filterMap (Line.code? (symbolsOf base source)))) := by
  rw [← Emission.result_ofLines]
  unfold assemble Assembly.ofLayout symbolsOf
  simp only
  split <;> simp_all

theorem bytes_assemble_eq_ok_iff {base : Int} {source : List Char} {binary : List UInt8} :
    (assemble base source).bytes = .ok binary ↔
      (∀ line ∈ Line.ofSource source, line.fault? (symbolsOf base source) = none) ∧
        binary = Emission.image (Emission.ofCodes base
          ((Line.ofSource source).filterMap (Line.code? (symbolsOf base source)))) := by
  rw [Assembly.bytes, result_assemble, ← List.findSome?_eq_none_iff]
  cases (Line.ofSource source).findSome? (Line.fault? (symbolsOf base source)) with
  | some fault => simp [Except.map]
  | none => simp [Except.map, eq_comm]

theorem bytes_assemble_eq_error_iff {base : Int} {source : List Char} {fault : Fault} :
    (assemble base source).bytes = .error fault ↔
      (Line.ofSource source).findSome? (Line.fault? (symbolsOf base source)) = some fault := by
  rw [Assembly.bytes, result_assemble]
  cases (Line.ofSource source).findSome? (Line.fault? (symbolsOf base source)) with
  | some fault => simp [Except.map]
  | none => simp [Except.map]

theorem emissions_assemble {base : Int} {source : List Char}
    (faultless : ∀ line ∈ Line.ofSource source, line.fault? (symbolsOf base source) = none) :
    (assemble base source).emissions = Emission.ofCodes base
      ((Line.ofSource source).filterMap (Line.code? (symbolsOf base source))) := by
  rw [Assembly.emissions, result_assemble, List.findSome?_eq_none_iff.mpr faultless]

theorem layout_assemble (base : Int) (source : List Char) :
    (assemble base source).layout = Layout.ofLines base (Line.ofSource source) := by
  unfold assemble Assembly.ofLayout
  simp only
  split <;> rfl

namespace Line

theorem code?_of_instruction {symbols : SymbolTable} {line : Line} {mnemonic : Mnemonic}
    {arguments : List Char} (statement : line.statement = .instruction mnemonic arguments)
    (faultless : line.fault? symbols = none) :
    ∃ instruction resolved word,
      Instruction.ofMnemonic mnemonic arguments line.position = .ok instruction ∧
        instruction.resolve symbols = .ok resolved ∧ resolved.encode.2 = .ok word ∧
        line.code? symbols = some ⟨line.number, instruction, word⟩ := by
  unfold fault? at faultless
  unfold code?
  simp only [compile, statement] at faultless ⊢
  cases parsed : Instruction.ofMnemonic mnemonic arguments line.position with
  | error fault => simp [parsed] at faultless
  | ok instruction =>
    cases resolves : instruction.resolve symbols with
    | error fault => simp [parsed, resolves] at faultless
    | ok resolved =>
      cases encodes : resolved.encode.2 with
      | error fault => simp [parsed, resolves, encodes, Except.map] at faultless
      | ok word => exact ⟨instruction, resolved, word, rfl, resolves, encodes, by
          simp [resolves, encodes, Except.map]⟩

theorem exists_of_isInstruction {line : Line} (h : line.isInstruction = true) :
    ∃ mnemonic arguments, line.statement = .instruction mnemonic arguments := by
  unfold isInstruction at h
  split at h
  · rename_i mnemonic arguments statement
    exact ⟨mnemonic, arguments, statement⟩
  · cases h

theorem code?_eq_none {symbols : SymbolTable} {line : Line} (other : line.isInstruction = false) :
    line.code? symbols = none := by
  unfold code? compile
  cases statement : line.statement with
  | instruction mnemonic arguments => simp [isInstruction, statement] at other
  | blank => rfl
  | label name => rfl
  | unknown head arguments => rfl

theorem exists_of_code? {symbols : SymbolTable} {line : Line} {code : Code}
    (found : line.code? symbols = some code) :
    ∃ mnemonic arguments resolved, line.statement = .instruction mnemonic arguments ∧
      Instruction.ofMnemonic mnemonic arguments line.position = .ok code.instruction ∧
      code.instruction.resolve symbols = .ok resolved ∧ resolved.encode.2 = .ok code.word := by
  have faultless : line.fault? symbols = none := by
    unfold code? at found
    unfold fault?
    split at found
    · cases found
    · rfl
  cases instruction : line.isInstruction with
  | false =>
    rw [code?_eq_none instruction] at found
    cases found
  | true =>
    obtain ⟨mnemonic, arguments, statement⟩ := exists_of_isInstruction instruction
    obtain ⟨parsed, resolved, word, read, resolves, encodes, same⟩ :=
      code?_of_instruction statement faultless
    rw [found, Option.some.injEq] at same
    subst same
    exact ⟨mnemonic, arguments, resolved, statement, read, resolves, encodes⟩

section Faultless

variable {symbols : SymbolTable} {lines : List Line}

theorem lines_codes (faultless : ∀ line ∈ lines, line.fault? symbols = none) :
    (lines.filterMap (code? symbols)).map (·.line) =
      (lines.filter isInstruction).map (·.number) := by
  induction lines with
  | nil => rfl
  | cons line lines ih =>
    have head := faultless line List.mem_cons_self
    have tail := ih fun later member => faultless later (List.mem_cons_of_mem line member)
    cases instruction : line.isInstruction with
    | false =>
      rw [List.filterMap_cons_none (code?_eq_none instruction),
        List.filter_cons_of_neg (by simp [instruction]), tail]
    | true =>
      obtain ⟨mnemonic, arguments, statement⟩ := exists_of_isInstruction instruction
      obtain ⟨parsed, _, word, -, -, -, code⟩ := code?_of_instruction statement head
      rw [List.filterMap_cons_some code, List.filter_cons_of_pos instruction, List.map_cons,
        List.map_cons, tail]

theorem length_codes (faultless : ∀ line ∈ lines, line.fault? symbols = none) :
    (lines.filterMap (code? symbols)).length = instructionCount lines := by
  have lengths := congrArg List.length (lines_codes faultless)
  rw [List.length_map, List.length_map] at lengths
  rw [lengths, instructionCount, List.countP_eq_length_filter]

end Faultless

theorem word_lt {symbols : SymbolTable} {line : Line} {code : Code}
    (found : line.code? symbols = some code) : code.word < 0x10000 := by
  obtain ⟨mnemonic, arguments, resolved, -, parsed, resolves, encodes⟩ := exists_of_code? found
  obtain ⟨named, -, form, taken⟩ := Instruction.ofMnemonic_eq_ok parsed
  have encoded := (Instruction.encode_of_resolve named taken resolves).2
  rw [Except.ok.inj (encodes.symm.trans encoded)]
  exact Field.pack_lt (Catalog.opcode_lt mnemonic form taken.1) _

end Line

end ChipEight
