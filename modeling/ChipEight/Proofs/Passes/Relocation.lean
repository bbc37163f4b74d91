import ChipEight.Proofs.Passes.LineWords

set_option autoImplicit false

/-!
Relocation.  A source that is loaded elsewhere has the same labels, all moved by the same distance,
and is refused for the same fault; in the words only the fields that hold labels change.
-/

namespace ChipEight

open Catalog (Takes words)

namespace Slot

-- One place either adds the same to both words or lies inside the field.
private theorem pack_packing?_or_bits {slot : Slot} {operand : Operand} {field : Field}
    (inside : operand.label?.isSome = true → slot.field? = some field)
    (symbols others : SymbolTable) {left right : Nat}
    (same : left ||| field.bits = right ||| field.bits) :
    Field.pack left (slot.packing? (operand.substitute symbols)).toList ||| field.bits =
      Field.pack right (slot.packing? (operand.substitute others)).toList ||| field.bits := by
  cases labelled : operand.label? with
  | some name =>
    rw [Operand.label?_eq_some_iff] at labelled
    subst labelled
    have filled := inside rfl
    simp only [packing?, filled, Operand.substitute, Operand.number?, Option.toList_some,
      Field.pack_cons, Field.pack_nil, Nat.or_assoc, Field.place_or_bits, same]
  | none =>
    rw [Operand.substitute_of_unlabelled labelled, Operand.substitute_of_unlabelled labelled]
    cases slot.packing? operand with
    | none => exact same
    | some packing =>
      obtain ⟨other, value⟩ := packing
      simp only [Option.toList_some, Field.pack_cons, Field.pack_nil]
      rw [Nat.or_right_comm, same, Nat.or_right_comm]

private theorem pack_substitute_or_bits {slots : List Slot} {operands : List Operand}
    {field : Field}
    (inside : ∀ pair ∈ slots.zip operands, pair.2.label?.isSome = true →
      pair.1.field? = some field)
    (symbols others : SymbolTable) {left right : Nat}
    (same : left ||| field.bits = right ||| field.bits) :
    Field.pack left (packings slots (operands.map (Operand.substitute symbols))) ||| field.bits =
      Field.pack right (packings slots (operands.map (Operand.substitute others))) |||
        field.bits := by
  induction slots generalizing operands left right with
  | nil => exact same
  | cons slot slots ih =>
    cases operands with
    | nil => simpa using same
    | cons operand operands =>
      have first := inside (slot, operand) List.mem_cons_self
      have rest : ∀ pair ∈ slots.zip operands, pair.2.label?.isSome = true →
          pair.1.field? = some field := fun pair member =>
        inside pair (List.mem_cons_of_mem _ member)
      rw [List.map_cons, List.map_cons, packings_cons, packings_cons, Field.pack_append,
        Field.pack_append]
      exact ih rest (pack_packing?_or_bits first symbols others same)

end Slot

namespace Catalog

private theorem immediate_unique (mnemonic : Mnemonic) :
    ∀ word ∈ words mnemonic, ∀ a ∈ word.2, ∀ b ∈ word.2,
      a.pattern = .immediate → b.pattern = .immediate → a = b := by
  cases mnemonic <;> decide

private theorem Takes.pattern_of_label {mnemonic : Mnemonic} {word : Nat × List Slot}
    {operands : List Operand} (taken : Takes mnemonic word operands) {k : Nat} {slot : Slot}
    {name : List Char} (place : word.2[k]? = some slot)
    (given : operands[k]? = some (.label name)) : slot.pattern = .immediate := by
  have accepted := taken.accepts place given
  revert accepted
  cases slot.pattern <;> simp [Pattern.accepts]

/-- Whatever addresses the labels stand for, the word is the same outside of the field that holds
a label. -/
private theorem Takes.pack_or_bits {mnemonic : Mnemonic} {word : Nat × List Slot}
    {operands : List Operand} (taken : Takes mnemonic word operands) {k : Nat} {slot : Slot}
    {field : Field} {name : List Char} (place : word.2[k]? = some slot)
    (given : operands[k]? = some (.label name)) (filled : slot.field? = some field)
    (symbols others : SymbolTable) :
    Field.pack word.1 (Slot.packings word.2 (operands.map (Operand.substitute symbols))) |||
        field.bits =
      Field.pack word.1 (Slot.packings word.2 (operands.map (Operand.substitute others))) |||
        field.bits := by
  apply Slot.pack_substitute_or_bits _ symbols others rfl
  -- All labels of a word stand in one place, so they all share this field.
  rintro ⟨other, operand⟩ member labelled
  obtain ⟨j, zipped⟩ := List.mem_iff_getElem?.mp member
  obtain ⟨stands, written⟩ := List.getElem?_zip_eq_some.mp zipped
  obtain ⟨title, named⟩ := Option.isSome_iff_exists.mp labelled
  rw [Operand.label?_eq_some_iff] at named
  simp only at stands written named
  rw [named] at written
  have same := immediate_unique mnemonic word taken.1 other (List.mem_of_getElem? stands) slot
    (List.mem_of_getElem? place) (taken.pattern_of_label stands written)
    (taken.pattern_of_label place given)
  rw [same]
  exact filled

end Catalog

/-- How the word of an instruction changes when all labels move by an offset: not at all if it has
no label, and else only in the field of its label. -/
structure Moves (symbols : SymbolTable) (offset : Int) (instruction : Instruction)
    (word moved : Nat) : Prop where
  unlabelled : instruction.labels = [] → moved = word
  labelled : ∀ (j : Nat) (name : List Char), instruction.operands[j]? = some (.label name) →
    ∃ address opcode slots slot field, symbols.find? name = some address ∧
      instruction.encoding? = some (opcode, slots) ∧ slots[j]? = some slot ∧
      slot.field? = some field ∧
      (∀ i, field.bits.testBit i = false → moved.testBit i = word.testBit i) ∧
      (field.extract word : Int) = Int.land address field.mask ∧
      (field.extract moved : Int) = Int.land (address + offset) field.mask

structure Relocates (base offset : Int) (source : List Char) : Prop where
  symbols : ∀ name, (symbolsOf (base + offset) source).find? name =
    ((symbolsOf base source).find? name).map (· + offset)
  accepted : (∃ moved, (assemble (base + offset) source).bytes = .ok moved) ↔
    ∃ binary, (assemble base source).bytes = .ok binary
  refused : ∀ fault, (assemble (base + offset) source).bytes = .error fault ↔
    (assemble base source).bytes = .error fault
  words : ∀ binary moved, (assemble base source).bytes = .ok binary →
    (assemble (base + offset) source).bytes = .ok moved →
      binary.length = 2 * Line.instructionCount (Line.ofSource source) ∧
      moved.length = binary.length ∧
      ∀ (k : Nat) (line : Line),
        ((Line.ofSource source).filter Line.isInstruction)[k]? = some line →
          ∃ mnemonic arguments instruction word shifted,
            line.statement = .instruction mnemonic arguments ∧
            Instruction.ofMnemonic mnemonic arguments line.position = .ok instruction ∧
            wordAt? binary k = some word ∧ wordAt? moved k = some shifted ∧
            Moves (symbolsOf base source) offset instruction word shifted

theorem find?_symbolsOf_add (base offset : Int) (source name : List Char) :
    (symbolsOf (base + offset) source).find? name =
      ((symbolsOf base source).find? name).map (· + offset) := by
  unfold symbolsOf Layout.ofLines
  rcases Line.undefined_or_last name (Line.ofSource source) with
    undefined | ⟨before, line, after, split, defines, last⟩
  · rw [Layout.find?_scan_of_undefined undefined, Layout.find?_scan_of_undefined undefined]
    rfl
  · rw [split, Layout.find?_scan_of_last defines last, Layout.find?_scan_of_last defines last,
      Option.map_some]
    congr 1
    omega

theorem fault?_symbolsOf_add (base offset : Int) (source : List Char) (line : Line) :
    line.fault? (symbolsOf (base + offset) source) = line.fault? (symbolsOf base source) := by
  apply Line.fault?_congr
  intro name
  rw [find?_symbolsOf_add, Option.isNone_map]

private theorem moves_wordUnder {symbols others : SymbolTable} {offset : Int}
    (shifted : ∀ name, others.find? name = (symbols.find? name).map (· + offset))
    {mnemonic : Mnemonic} {arguments : List Char} {position : Position} {instruction : Instruction}
    (parsed : Instruction.ofMnemonic mnemonic arguments position = .ok instruction)
    (defined : ∀ name ∈ instruction.labels, (symbols.find? name).isSome = true) :
    Moves symbols offset instruction (instruction.wordUnder symbols)
      (instruction.wordUnder others) := by
  obtain ⟨named, -, form, taken⟩ := Instruction.ofMnemonic_eq_ok parsed
  constructor
  · intro unlabelled
    have same : instruction.operands.map (Operand.substitute others) =
        instruction.operands.map (Operand.substitute symbols) := by
      apply Operand.map_substitute_congr
      intro name member
      rw [Instruction.labels] at unlabelled
      simp [unlabelled] at member
    rw [Instruction.wordUnder_eq named taken, Instruction.wordUnder_eq named taken, same]
  · intro j name given
    have member : name ∈ instruction.labels :=
      List.mem_filterMap.mpr ⟨.label name, List.mem_of_getElem? given, rfl⟩
    obtain ⟨address, found⟩ := Option.isSome_iff_exists.mp (defined name member)
    have moved : others.find? name = some (address + offset) := by
      rw [shifted, found]
      rfl
    obtain ⟨slot, field, place, filled⟩ := taken.field_of_label given
    refine ⟨address, form.1, form.2, slot, field, found,
      (Instruction.encoding?_eq_some_iff named).mpr taken, place, filled, ?_, ?_, ?_⟩
    · intro i outside
      have same := congrArg (fun n => n.testBit i)
        (taken.pack_or_bits place given filled others symbols)
      simp only [Nat.testBit_or, outside, Bool.or_false] at same
      rw [Instruction.wordUnder_eq named taken, Instruction.wordUnder_eq named taken]
      exact same
    · rw [← field.content_eq_land]
      congr 1
      apply Instruction.extract_wordUnder named taken place given filled
      simp [Operand.substitute, Operand.number?, found]
    · rw [← field.content_eq_land]
      congr 1
      apply Instruction.extract_wordUnder named taken place given filled
      simp [Operand.substitute, Operand.number?, moved]

/-- Every source relocates: no decision of either pass looks at an absolute address. -/
theorem assemble_relocates (base offset : Int) (source : List Char) :
    Relocates base offset source where
  symbols := find?_symbolsOf_add base offset source
  accepted := by
    simp only [bytes_eq_ok_iff_words, fault?_symbolsOf_add, exists_and_left, exists_eq, and_true]
  refused := by
    intro fault
    simp only [bytes_assemble_eq_error_iff, funext (fault?_symbolsOf_add base offset source)]
  words := by
    intro binary moved first second
    obtain ⟨faultless, rfl⟩ := bytes_eq_ok_iff_words.mp first
    obtain ⟨clear, rfl⟩ := bytes_eq_ok_iff_words.mp second
    refine ⟨?_, ?_, ?_⟩
    · rw [length_flatMap_bigEndian, Line.length_words faultless]
    · rw [length_flatMap_bigEndian, length_flatMap_bigEndian, Line.length_words faultless,
        Line.length_words clear]
    · intro k line stands
      obtain ⟨member, holds⟩ := List.mem_filter.mp (List.mem_of_getElem? stands)
      obtain ⟨mnemonic, arguments, statement⟩ := Line.exists_of_isInstruction holds
      obtain ⟨instruction, _, _, parsed, -⟩ :=
        Line.code?_of_instruction statement (faultless line member)
      refine ⟨mnemonic, arguments, instruction, _, _, statement, parsed, ?_, ?_,
        moves_wordUnder (find?_symbolsOf_add base offset source) parsed
          ((Line.fault?_eq_none_iff_defined statement parsed).mp (faultless line member))⟩
      · rw [wordAt?_words faultless, stands]
        exact Line.word?_of_parsed statement parsed (faultless line member)
      · rw [wordAt?_words clear, stands]
        exact Line.word?_of_parsed statement parsed (clear line member)

/-- `JP A`, `LD V0, A`, `A`: the base address is moved below zero, where the twelve bits of the jump
change and the eight bits of the load do not. -/
theorem assemble_relocates_below_zero :
    let source := ['J', 'P', ' ', 'A', '\n', 'L', 'D', ' ', 'V', '0', ',', ' ', 'A', '\n', 'A']
    (assemble 0x200 source).bytes = .ok [0x12, 0x04, 0x60, 0x04] ∧
      (assemble (0x200 + -0x300) source).bytes = .ok [0x1F, 0x04, 0x60, 0x04] ∧
      (symbolsOf (0x200 + -0x300) source).find? ['A'] = some (-0xFC) ∧
      ∃ instruction, Moves (symbolsOf 0x200 source) (-0x300) instruction 0x1204 0x1F04 := by
  intro source
  have relocates := assemble_relocates 0x200 (-0x300) source
  refine ⟨rfl, rfl, relocates.symbols ['A'], ?_⟩
  obtain ⟨-, -, moves⟩ := relocates.words [0x12, 0x04, 0x60, 0x04] [0x1F, 0x04, 0x60, 0x04] rfl rfl
  obtain ⟨_, _, instruction, _, _, -, -, first, second, moved⟩ := moves 0 _ rfl
  cases first
  cases second
  exact ⟨instruction, moved⟩

end ChipEight
