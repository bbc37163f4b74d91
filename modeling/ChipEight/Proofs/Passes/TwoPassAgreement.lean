import ChipEight.Proofs.Passes.LineCode

set_option autoImplicit false

/-!
The two passes agree.  The first counts the instructions, the second emits their words; lines that
end in no fault keep both counters in step, so a label stands where the word behind it is recorded.
-/

namespace ChipEight

open Line (instructionCount)

/-- The address at which a label in front of the lines stands, by what was emitted: that of the next
instruction, or the end of the bytes. -/
def StandsBefore (base : Int) (emissions : List Emission) (binary : List UInt8)
    (after : List Line) (address : Int) : Prop :=
  match after.find? Line.isInstruction with
  | some next =>
    ∃ emission, emissions.find? (·.line == next.number) = some emission ∧
      emission.address = address
  | none => address = base + binary.length

structure PassesAgree (base : Int) (lines : List Line) (symbols : SymbolTable)
    (emissions : List Emission) (binary : List UInt8) : Prop where
  length : binary.length = 2 * instructionCount lines
  stop : (Layout.ofLines base lines).stop = base + binary.length
  recorded : emissions.map (·.line) = (lines.filter Line.isInstruction).map (·.number)
  addresses : ∀ (k : Nat) (emission : Emission), emissions[k]? = some emission →
    emission.address = base + 2 * k
  bytes : binary = emissions.flatMap Emission.bytes
  bigEndian : ∀ emission ∈ emissions, ∃ high low : UInt8,
    emission.bytes = [high, low] ∧ emission.word = 256 * high.toNat + low.toNat
  defined : ∀ line ∈ lines, ∀ name, line.statement = .label name →
    (symbols.find? name).isSome = true
  labels : ∀ name address, symbols.find? name = some address →
    ∃ before line after, lines = before ++ line :: after ∧ line.statement = .label name ∧
      (∀ later ∈ after, later.statement ≠ .label name) ∧
      address = base + 2 * instructionCount before ∧
      StandsBefore base emissions binary after address
  references : ∀ line ∈ lines, ∀ mnemonic arguments,
    line.statement = .instruction mnemonic arguments →
      ∃ emission, emissions.find? (·.line == line.number) = some emission ∧
        Instruction.ofMnemonic mnemonic arguments line.position = .ok emission.instruction ∧
        ∀ (k : Nat) (name : List Char), emission.instruction.operands[k]? = some (.label name) →
          ∃ address opcode slots slot field, symbols.find? name = some address ∧
            emission.instruction.encoding? = some (opcode, slots) ∧ slots[k]? = some slot ∧
            slot.field? = some field ∧
            (field.extract emission.word : Int) = Int.land address field.mask

section Faultless

variable {symbols : SymbolTable} {lines : List Line}

private theorem head_codes (faultless : ∀ line ∈ lines, line.fault? symbols = none) {next : Line}
    (found : lines.find? Line.isInstruction = some next) :
    ∃ code, (lines.filterMap (Line.code? symbols))[0]? = some code ∧ code.line = next.number := by
  have lengths := congrArg List.head? (Line.lines_codes faultless)
  rw [List.head?_map, List.head?_map, List.head?_filter, found, List.head?_eq_getElem?] at lengths
  obtain ⟨code, first, same⟩ := Option.map_eq_some_iff.mp lengths
  exact ⟨code, first, same⟩

private theorem find?_of_mem {emissions : List Emission} {emission : Emission}
    (distinct : (emissions.map (·.line)).Pairwise (· < ·)) (member : emission ∈ emissions) :
    emissions.find? (·.line == emission.line) = some emission := by
  induction emissions with
  | nil => simp at member
  | cons head emissions ih =>
    rw [List.map_cons, List.pairwise_cons] at distinct
    rcases List.mem_cons.mp member with rfl | later
    · simp
    · have smaller := distinct.1 emission.line (List.mem_map_of_mem later)
      rw [List.find?_cons_of_neg, ih distinct.2 later]
      simp only [beq_iff_eq]
      omega

theorem recorded_increasing (source : List Char) {emissions : List Emission}
    (recorded : emissions.map (·.line) =
      ((Line.ofSource source).filter Line.isInstruction).map (·.number)) :
    (emissions.map (·.line)).Pairwise (· < ·) := by
  rw [recorded, List.pairwise_map]
  exact (Line.number_lt_of_numbered 1 _).filter _

private theorem exists_emission (base : Int) {line : Line} (member : line ∈ lines) {code : Code}
    (found : line.code? symbols = some code) :
    ∃ address, ⟨code.line, address, code.word, code.instruction⟩ ∈
      Emission.ofCodes base (lines.filterMap (Line.code? symbols)) := by
  have listed : code ∈ lines.filterMap (Line.code? symbols) :=
    List.mem_filterMap.mpr ⟨line, member, found⟩
  obtain ⟨k, place⟩ := List.mem_iff_getElem?.mp listed
  refine ⟨base + 2 * k, List.mem_iff_getElem?.mpr ⟨k, ?_⟩⟩
  rw [Emission.getElem?_ofCodes, place]
  rfl

-- The word behind a label is the one whose index is the number of instructions in front of it.
theorem stands_before (base : Int) {before after : List Line} {line : Line}
    {name : List Char} (split : lines = before ++ line :: after)
    (defines : line.statement = .label name)
    (faultless : ∀ line ∈ lines, line.fault? symbols = none) {emissions : List Emission}
    (emitted : emissions = Emission.ofCodes base (lines.filterMap (Line.code? symbols)))
    (increasing : (emissions.map (·.line)).Pairwise (· < ·)) :
    StandsBefore base emissions (Emission.image emissions) after
      (base + 2 * instructionCount before) := by
  subst split
  have other : line.isInstruction = false := by simp [Line.isInstruction, defines]
  have earlier : ∀ line ∈ before, line.fault? symbols = none := fun line member =>
    faultless line (List.mem_append_left _ member)
  have later : ∀ line ∈ after, line.fault? symbols = none := fun line member =>
    faultless line (List.mem_append_right _ (List.mem_cons_of_mem _ member))
  have codes : (before ++ line :: after).filterMap (Line.code? symbols) =
      before.filterMap (Line.code? symbols) ++ after.filterMap (Line.code? symbols) := by
    rw [List.filterMap_append, List.filterMap_cons_none (Line.code?_eq_none other)]
  unfold StandsBefore
  cases found : after.find? Line.isInstruction with
  | some next =>
    obtain ⟨code, first, number⟩ := head_codes later found
    have recorded : emissions[instructionCount before]? =
        some ⟨code.line, base + 2 * instructionCount before, code.word, code.instruction⟩ := by
      rw [emitted, Emission.getElem?_ofCodes, codes, List.getElem?_append_right
        (by rw [Line.length_codes earlier]), Line.length_codes earlier, Nat.sub_self, first]
      rfl
    have unique := find?_of_mem increasing (List.mem_of_getElem? recorded)
    rw [number] at unique
    exact ⟨_, unique, rfl⟩
  | none =>
    have none_after : instructionCount after = 0 := by
      rw [instructionCount, List.countP_eq_zero]
      exact List.find?_eq_none.mp found
    have lengths : (Emission.image emissions).length = 2 * instructionCount before := by
      rw [Emission.length_image, emitted, Emission.length_ofCodes, codes, List.length_append,
        Line.length_codes earlier, Line.length_codes later, none_after, Nat.add_zero]
    rw [lengths]
    push_cast
    rfl

end Faultless

private theorem bytes_bigEndian {emission : Emission} (short : emission.word < 0x10000) :
    ∃ high low : UInt8,
      emission.bytes = [high, low] ∧ emission.word = 256 * high.toNat + low.toNat :=
  ⟨_, _, rfl, (Emission.toNat_bytes short).symm⟩

namespace Line

private theorem extract_label {symbols : SymbolTable} {mnemonic : Mnemonic} {arguments : List Char}
    {position : Position} {instruction resolved : Instruction} {word : Nat}
    (parsed : Instruction.ofMnemonic mnemonic arguments position = .ok instruction)
    (resolves : instruction.resolve symbols = .ok resolved)
    (encodes : resolved.encode.2 = .ok word) {k : Nat} {name : List Char}
    (given : instruction.operands[k]? = some (.label name)) :
    ∃ address opcode slots slot field, symbols.find? name = some address ∧
      instruction.encoding? = some (opcode, slots) ∧ slots[k]? = some slot ∧
      slot.field? = some field ∧ (field.extract word : Int) = Int.land address field.mask := by
  obtain ⟨named, -, form, taken⟩ := Instruction.ofMnemonic_eq_ok parsed
  obtain ⟨still, encoded⟩ := Instruction.encode_of_resolve named taken resolves
  obtain ⟨defined, same⟩ := Instruction.resolve_eq_ok_iff.mp resolves
  have member : name ∈ instruction.labels :=
    List.mem_filterMap.mpr ⟨.label name, List.mem_of_getElem? given, rfl⟩
  obtain ⟨address, found⟩ := Option.isSome_iff_exists.mp (defined name member)
  obtain ⟨slot, field, place, filled⟩ := taken.field_of_label given
  refine ⟨address, form.1, form.2, slot, field, found,
    (Instruction.encoding?_eq_some_iff named).mpr taken, place, filled, ?_⟩
  have replaced : resolved.operands[k]? = some (.immediate address) := by
    rw [same, List.getElem?_map, given]
    simp [Operand.substitute, found]
  have word_eq := Except.ok.inj (encodes.symm.trans encoded)
  rw [word_eq, still.extract_eq place replaced filled rfl, field.content_eq_land]

end Line

/-- The two passes over an accepted source agree. -/
theorem passes_agree {base : Int} {source : List Char} {binary : List UInt8}
    (h : (assemble base source).bytes = .ok binary) :
    PassesAgree base (Line.ofSource source) (assemble base source).layout.symbols
      (assemble base source).emissions binary := by
  obtain ⟨faultless, rfl⟩ := bytes_assemble_eq_ok_iff.mp h
  have table : (assemble base source).layout.symbols = symbolsOf base source := by
    rw [layout_assemble]
    rfl
  rw [emissions_assemble faultless, table]
  have recorded : (Emission.ofCodes base ((Line.ofSource source).filterMap
      (Line.code? (symbolsOf base source)))).map (·.line) =
        ((Line.ofSource source).filter Line.isInstruction).map (·.number) := by
    rw [Emission.lines_ofCodes, Line.lines_codes faultless]
  have increasing := recorded_increasing source recorded
  have length : (Emission.image (Emission.ofCodes base ((Line.ofSource source).filterMap
      (Line.code? (symbolsOf base source))))).length =
        2 * instructionCount (Line.ofSource source) := by
    rw [Emission.length_image, Emission.length_ofCodes, Line.length_codes faultless]
  exact {
    length := length
    stop := by
      rw [length, Layout.ofLines, Layout.stop_scan]
      push_cast
      rfl
    recorded := recorded
    addresses := by
      intro k emission found
      rw [Emission.getElem?_ofCodes] at found
      obtain ⟨code, -, rfl⟩ := Option.map_eq_some_iff.mp found
      rfl
    bytes := rfl
    bigEndian := by
      intro emission member
      obtain ⟨k, place⟩ := List.mem_iff_getElem?.mp member
      rw [Emission.getElem?_ofCodes] at place
      obtain ⟨code, found, rfl⟩ := Option.map_eq_some_iff.mp place
      obtain ⟨line, -, coded⟩ := List.mem_filterMap.mp (List.mem_of_getElem? found)
      exact bytes_bigEndian (Line.word_lt coded)
    defined := by
      intro line member name defines
      rcases Line.undefined_or_last name (Line.ofSource source) with
        undefined | ⟨before, last, after, split, binds, later⟩
      · exact absurd defines (undefined line member)
      · rw [find?_symbolsOf_iff.mpr ⟨before, last, after, split, binds, later, rfl⟩]
        rfl
    labels := by
      intro name address bound
      obtain ⟨before, line, after, split, defines, last, rfl⟩ := find?_symbolsOf_iff.mp bound
      exact ⟨before, line, after, split, defines, last, rfl,
        stands_before base split defines faultless rfl increasing⟩
    references := by
      intro line member mnemonic arguments statement
      obtain ⟨instruction, resolved, word, parsed, resolves, encodes, coded⟩ :=
        Line.code?_of_instruction statement (faultless line member)
      obtain ⟨address, emitted⟩ := exists_emission base member coded
      exact ⟨_, find?_of_mem increasing emitted, parsed, fun k name given =>
        Line.extract_label parsed resolves encodes given⟩ }

/-- A label that is bound twice, used before and behind its lines, and one behind the program. -/
theorem passes_agree_redefined :
    let source := ['X', '\n', 'J', 'P', ' ', 'Y', '\n', 'x', ':', '\n', 'C', 'L', 'S', '\n',
      'J', 'P', ' ', 'X', '\n', 'Y']
    (assemble 0x200 source).bytes = .ok [0x12, 0x06, 0x00, 0xE0, 0x12, 0x02] ∧
      PassesAgree 0x200 (Line.ofSource source) (assemble 0x200 source).layout.symbols
        (assemble 0x200 source).emissions [0x12, 0x06, 0x00, 0xE0, 0x12, 0x02] :=
  ⟨rfl, passes_agree rfl⟩

end ChipEight
