import ChipEight.Proofs.Encoding.Truncation
import ChipEight.Proofs.Passes.LineWords
import ChipEight.Proofs.Passes.TwoPassAgreement

set_option autoImplicit false

/-!
Runs without a warning.  Each of the four kinds of warning guards one way in which a program can come
out other than written; without any of them every label has one address, every number stands whole
in its field, and the program lies inside the memory.
-/

namespace ChipEight

open Line (instructionCount)
open Catalog (Takes words)

namespace Emission

variable {symbols : SymbolTable} {address : Int} {line : Line} {lines : List Line}

private theorem log_ofLines_of_other (other : line.isInstruction = false)
    (faultless : line.fault? symbols = none) :
    (ofLines symbols address (line :: lines)).1 = (ofLines symbols address lines).1 := by
  cases statement : line.statement with
  | blank => rw [ofLines, statement]
  | label name => rw [ofLines, statement]
  | unknown head arguments => simp [Line.fault?, Line.compile, statement] at faultless
  | instruction mnemonic arguments => simp [Line.isInstruction, statement] at other

private theorem log_ofLines_of_instruction {mnemonic : Mnemonic} {arguments : List Char}
    {instruction resolved : Instruction} {word : Nat}
    (statement : line.statement = .instruction mnemonic arguments)
    (parsed : Instruction.ofMnemonic mnemonic arguments line.position = .ok instruction)
    (resolves : instruction.resolve symbols = .ok resolved)
    (encodes : resolved.encode.2 = .ok word) :
    (ofLines symbols address (line :: lines)).1 =
      resolved.encode.1.map .truncated ++ .encoded address word instruction.spelling ::
        (ofLines symbols (address + instructionSize) lines).1 := by
  rcases encoding : resolved.encode with ⟨cut, result⟩
  rw [encoding] at encodes
  cases encodes
  simp only [ofLines, statement, parsed, ofInstruction, resolves, encoding, List.append_assoc,
    List.cons_append, List.nil_append]

theorem truncated_mem_log (faultless : ∀ line ∈ lines, line.fault? symbols = none)
    (member : line ∈ lines) {mnemonic : Mnemonic} {arguments : List Char}
    {instruction resolved : Instruction}
    (statement : line.statement = .instruction mnemonic arguments)
    (parsed : Instruction.ofMnemonic mnemonic arguments line.position = .ok instruction)
    (resolves : instruction.resolve symbols = .ok resolved) {notice : Truncation}
    (cut : notice ∈ resolved.encode.1) :
    Event.truncated notice ∈ (ofLines symbols address lines).1 := by
  induction lines generalizing address with
  | nil => simp at member
  | cons head lines ih =>
    have first := faultless head List.mem_cons_self
    have rest := fun later member => faultless later (List.mem_cons_of_mem head member)
    cases holds : head.isInstruction with
    | false =>
      rw [log_ofLines_of_other holds first]
      rcases List.mem_cons.mp member with rfl | later
      · simp [Line.isInstruction, statement] at holds
      · exact ih rest later
    | true =>
      obtain ⟨m, text, stated⟩ := Line.exists_of_isInstruction holds
      obtain ⟨_, _, word, reads, binds, encodes, -⟩ := Line.code?_of_instruction stated first
      rw [log_ofLines_of_instruction stated reads binds encodes, List.mem_append]
      rcases List.mem_cons.mp member with rfl | later
      · left
        rw [stated] at statement
        cases statement
        rw [parsed] at reads
        cases reads
        rw [resolves] at binds
        cases binds
        exact List.mem_map_of_mem cut
      · right
        exact List.mem_cons_of_mem _ (ih rest later)

end Emission

theorem log_assemble {base : Int} {source : List Char}
    (faultless : ∀ line ∈ Line.ofSource source, line.fault? (symbolsOf base source) = none) :
    (assemble base source).log =
      Assembly.opening base (Layout.ofLines base (Line.ofSource source)) ++
        ((Emission.ofLines (symbolsOf base source) base (Line.ofSource source)).1 ++
          Assembly.closing base (symbolsOf base source) (assemble base source).emissions) := by
  have result := Emission.result_ofLines (symbolsOf base source) base (Line.ofSource source)
  rw [List.findSome?_eq_none_iff.mpr faultless] at result
  rw [emissions_assemble faultless]
  rcases run : Emission.ofLines (symbolsOf base source) base (Line.ofSource source) with
    ⟨log, ending⟩
  rw [run] at result
  cases result
  unfold symbolsOf at run ⊢
  simp only [assemble, Assembly.ofLayout, run]

/-- An instruction whose label is an address of twelve bits: a jump, a call, or a load of the index
register. -/
def Instruction.TakesAddress (instruction : Instruction) : Prop :=
  instruction.mnemonic = Mnemonic.jp.spelling ∨ instruction.mnemonic = Mnemonic.call.spelling ∨
    instruction.mnemonic = Mnemonic.ld.spelling ∧ instruction.operands.head? = some .index

namespace Catalog

private theorem fields_of_jump : ∀ mnemonic ∈ [Mnemonic.jp, .call], ∀ word ∈ words mnemonic,
    ∀ field ∈ Slot.fields word.2, field = .nnn := by
  decide

private theorem fields_of_index : ∀ word ∈ words .ld,
    (Slot.shape word.2).head? = some .index → ∀ field ∈ Slot.fields word.2, field = .nnn := by
  decide

private theorem Takes.head_of_index {mnemonic : Mnemonic} {word : Nat × List Slot}
    {operands : List Operand} (taken : Takes mnemonic word operands)
    (index : operands.head? = some .index) : (Slot.shape word.2).head? = some .index := by
  obtain ⟨rest, rfl⟩ := List.head?_eq_some_iff.mp index
  have accepted := taken.2
  cases shape : Slot.shape word.2 with
  | nil => simp [shape, Pattern.acceptsAll] at accepted
  | cons pattern patterns =>
    simp only [shape, Pattern.acceptsAll, Bool.and_eq_true] at accepted
    cases pattern <;> simp [Pattern.accepts] at accepted ⊢

theorem Takes.field_eq_nnn {mnemonic : Mnemonic} {form : Nat × List Slot}
    {instruction : Instruction} (named : instruction.mnemonic = mnemonic.spelling)
    (taken : Takes mnemonic form instruction.operands) (addresses : instruction.TakesAddress)
    {field : Field} (member : field ∈ Slot.fields form.2) : field = .nnn := by
  rcases addresses with jump | call | ⟨load, index⟩
  · obtain rfl := Mnemonic.spelling_injective (named.symm.trans jump)
    exact fields_of_jump .jp (by simp) form taken.1 field member
  · obtain rfl := Mnemonic.spelling_injective (named.symm.trans call)
    exact fields_of_jump .call (by simp) form taken.1 field member
  · obtain rfl := Mnemonic.spelling_injective (named.symm.trans load)
    exact fields_of_index form taken.1 (taken.head_of_index index) field member

end Catalog

private theorem Field.extract_le (field : Field) (word : Nat) : field.extract word ≤ 0xFFF := by
  have inside : field.extract word ≤ field.mask := Nat.and_le_right
  have limit : field.mask ≤ 0xFFF := by cases field <;> decide
  exact inside.trans limit

theorem SymbolTable.mem_names {table : SymbolTable} {name : List Char} {address : Int}
    (found : table.find? name = some address) : name ∈ table.names :=
  mem_names_iff.mpr ⟨address, found⟩

section Quiet

variable {base : Int} {source : List Char}

/-- What a run without a warning did not come across: a label bound again elsewhere, a number cut to
its field, a label that is not used, an address past the memory. -/
structure Unwarned (base : Int) (source : List Char) : Prop where
  steady : (Layout.ofLines base (Line.ofSource source)).redefinitions = []
  whole : ∀ notice, Event.truncated notice ∉
    (Emission.ofLines (symbolsOf base source) base (Line.ofSource source)).1
  used : Assembly.unreferenced (symbolsOf base source) (assemble base source).emissions = []
  inside : base + (Emission.image (assemble base source).emissions).length ≤ addressLimit

theorem unwarned_of_quiet
    (faultless : ∀ line ∈ Line.ofSource source, line.fault? (symbolsOf base source) = none)
    (quiet : ∀ event ∈ (assemble base source).log, event.level ≠ .warning) :
    Unwarned base source := by
  rw [log_assemble faultless] at quiet
  have silent : ∀ event : Event, event.level = .warning → event ∉
      Assembly.opening base (Layout.ofLines base (Line.ofSource source)) ++
        ((Emission.ofLines (symbolsOf base source) base (Line.ofSource source)).1 ++
          Assembly.closing base (symbolsOf base source) (assemble base source).emissions) :=
    fun event warns member => quiet event member warns
  simp only [List.mem_append, not_or] at silent
  constructor
  · rw [List.eq_nil_iff_forall_not_mem]
    intro notice member
    apply (silent (.redefined notice) rfl).1
    rw [Assembly.opening, List.mem_append]
    exact Or.inl (List.mem_map_of_mem member)
  · intro notice
    exact (silent (.truncated notice) rfl).2.1
  · rw [List.eq_nil_iff_forall_not_mem]
    intro name member
    apply (silent (.unreferenced name) rfl).2.2
    rw [Assembly.closing, List.mem_append]
    exact Or.inl (List.mem_map_of_mem member)
  · by_contra past
    apply (silent (.overrun (base + (Emission.image (assemble base source).emissions).length))
      rfl).2.2
    rw [Assembly.closing, if_pos (not_le.mp past)]
    simp

theorem exists_of_mem_emissions {symbols : SymbolTable} {lines : List Line} {emission : Emission}
    (member : emission ∈ Emission.ofCodes base (lines.filterMap (Line.code? symbols))) :
    (∃ k < (lines.filterMap (Line.code? symbols)).length, emission.address = base + 2 * k) ∧
      ∃ line ∈ lines, ∃ mnemonic arguments resolved,
        line.statement = .instruction mnemonic arguments ∧
        Instruction.ofMnemonic mnemonic arguments line.position = .ok emission.instruction ∧
        emission.instruction.resolve symbols = .ok resolved ∧
        resolved.encode.2 = .ok emission.word := by
  obtain ⟨k, stands⟩ := List.mem_iff_getElem?.mp member
  rw [Emission.getElem?_ofCodes] at stands
  obtain ⟨code, found, rfl⟩ := Option.map_eq_some_iff.mp stands
  obtain ⟨line, listed, coded⟩ := List.mem_filterMap.mp (List.mem_of_getElem? found)
  obtain ⟨mnemonic, arguments, resolved, facts⟩ := Line.exists_of_code? coded
  exact ⟨⟨k, (List.getElem?_eq_some_iff.mp found).1, rfl⟩, line, listed, mnemonic, arguments,
    resolved, facts⟩

structure Whole (symbols : SymbolTable) (emission : Emission) (mnemonic : Mnemonic)
    (form : Nat × List Slot) (resolved : Instruction) : Prop where
  named : emission.instruction.mnemonic = mnemonic.spelling
  taken : Takes mnemonic form emission.instruction.operands
  resolves : emission.instruction.resolve symbols = .ok resolved
  encoding : resolved.encoding? = some form
  numbers : ∀ (k : Nat) (slot : Slot) (field : Field) (operand : Operand), form.2[k]? = some slot →
    slot.field? = some field → resolved.operands[k]? = some operand →
      ∃ value, operand.number? = some value ∧ (field.extract emission.word : Int) = value

theorem exists_whole (nonneg : 0 ≤ base)
    (faultless : ∀ line ∈ Line.ofSource source, line.fault? (symbolsOf base source) = none)
    (unwarned : Unwarned base source) {emission : Emission}
    (member : emission ∈ (assemble base source).emissions) :
    ∃ mnemonic form resolved, Whole (symbolsOf base source) emission mnemonic form resolved := by
  rw [emissions_assemble faultless] at member
  obtain ⟨-, line, listed, mnemonic, arguments, resolved, statement, parsed, resolves, encodes⟩ :=
    exists_of_mem_emissions member
  have silent : resolved.encode.1 = [] := by
    rw [List.eq_nil_iff_forall_not_mem]
    intro notice cut
    exact unwarned.whole notice
      (Emission.truncated_mem_log faultless listed statement parsed resolves cut)
  have positive : ∀ name address, (symbolsOf base source).find? name = some address →
      0 ≤ address := by
    intro name address found
    obtain ⟨before, _, _, -, -, -, rfl⟩ := find?_symbolsOf_iff.mp found
    omega
  obtain ⟨form, taken, numbers⟩ :=
    Instruction.extract_eq_of_silent parsed positive resolves silent encodes
  have named := (Instruction.ofMnemonic_eq_ok parsed).1
  exact ⟨mnemonic, form, resolved, named, taken, resolves,
    (Instruction.encoding?_of_resolve named taken resolves).2, numbers⟩

theorem Whole.exists_field {symbols : SymbolTable} {emission : Emission} {mnemonic : Mnemonic}
    {form : Nat × List Slot} {resolved : Instruction}
    (whole : Whole symbols emission mnemonic form resolved) {name : List Char} {address : Int}
    (refers : name ∈ emission.instruction.labels) (found : symbols.find? name = some address) :
    ∃ field ∈ Slot.fields form.2, (field.extract emission.word : Int) = address := by
  obtain ⟨operand, member, labelled⟩ := List.mem_filterMap.mp refers
  rw [Operand.label?_eq_some_iff] at labelled
  subst labelled
  obtain ⟨k, given⟩ := List.mem_iff_getElem?.mp member
  obtain ⟨slot, field, place, filled⟩ := whole.taken.field_of_label given
  have replaced : resolved.operands[k]? = some (.immediate address) := by
    rw [(Instruction.resolve_eq_ok_iff.mp whole.resolves).2, List.getElem?_map, given]
    simp [Operand.substitute, found]
  obtain ⟨value, number, same⟩ := whole.numbers k slot field _ place filled replaced
  cases number
  exact ⟨field, List.mem_filterMap.mpr ⟨slot, List.mem_of_getElem? place, filled⟩, same⟩

theorem Unwarned.exists_reference (unwarned : Unwarned base source) {name : List Char}
    {address : Int} (found : (symbolsOf base source).find? name = some address) :
    ∃ emission ∈ (assemble base source).emissions, name ∈ emission.instruction.labels := by
  have referenced := List.filter_eq_nil_iff.mp unwarned.used name (SymbolTable.mem_names found)
  rw [Bool.not_eq_true', Bool.not_eq_false, List.contains_iff_mem] at referenced
  exact List.mem_flatMap.mp referenced

theorem Unwarned.find?_of_defines (unwarned : Unwarned base source) {before after : List Line}
    {line : Line} {name : List Char} (split : Line.ofSource source = before ++ line :: after)
    (defines : line.statement = .label name) :
    (symbolsOf base source).find? name = some (base + 2 * instructionCount before) := by
  have steady := unwarned.steady
  unfold symbolsOf
  unfold Layout.ofLines at steady ⊢
  rw [split] at steady ⊢
  exact Layout.find?_scan_of_defines defines steady

end Quiet

/-- A program that came out as it was written.  Its instructions lie inside the memory, each label
has one address and is used, and each number stands whole in its field; a jump, a call or a load of
the index register through a label holds the address of what follows the label. -/
structure Faithful (base : Int) (lines : List Line) (layout : Layout) (emissions : List Emission)
    (binary : List UInt8) : Prop where
  recorded : emissions.map (·.line) = (lines.filter Line.isInstruction).map (·.number)
  bytes : binary = Emission.image emissions
  addresses : ∀ emission ∈ emissions, 0 ≤ emission.address ∧ emission.address + 2 ≤ 0x1000
  settled : ∀ entry ∈ layout.placed, ∀ name, entry.line.statement = .label name →
    ∃ address, entry.address? = some address ∧ layout.symbols.find? name = some address
  labels : ∀ name address, layout.symbols.find? name = some address →
    (∃ emission ∈ emissions, name ∈ emission.instruction.labels) ∧ 0 ≤ address ∧ address ≤ 0xFFF
  numbers : ∀ emission ∈ emissions, ∃ resolved opcode slots,
    emission.instruction.resolve layout.symbols = .ok resolved ∧
      resolved.encoding? = some (opcode, slots) ∧
      ∀ (k : Nat) (slot : Slot) (field : Field) (operand : Operand), slots[k]? = some slot →
        slot.field? = some field → resolved.operands[k]? = some operand →
          ∃ value, operand.number? = some value ∧ (field.extract emission.word : Int) = value
  jumps : ∀ emission ∈ emissions, emission.instruction.TakesAddress →
    ∀ name ∈ emission.instruction.labels, ∀ before line after,
      lines = before ++ line :: after → line.statement = .label name →
        StandsBefore base emissions binary after (emission.word % 0x1000 : Nat)

/-- A source that is accepted without a warning, at a base address that is not below zero, comes out
as it was written. -/
theorem faithful_without_warnings {base : Int} {source : List Char} {binary : List UInt8}
    (nonneg : 0 ≤ base) (accepted : (assemble base source).bytes = .ok binary)
    (quiet : ∀ event ∈ (assemble base source).log, event.level ≠ .warning) :
    Faithful base (Line.ofSource source) (assemble base source).layout
      (assemble base source).emissions binary := by
  obtain ⟨faultless, rfl⟩ := bytes_assemble_eq_ok_iff.mp accepted
  have unwarned := unwarned_of_quiet faultless quiet
  have emitted := emissions_assemble faultless
  have layout : (assemble base source).layout = Layout.ofLines base (Line.ofSource source) :=
    layout_assemble base source
  have table : (assemble base source).layout.symbols = symbolsOf base source := by
    rw [layout]
    rfl
  have recorded : (assemble base source).emissions.map (·.line) =
      ((Line.ofSource source).filter Line.isInstruction).map (·.number) := by
    rw [emitted, Emission.lines_ofCodes, Line.lines_codes faultless]
  have increasing := recorded_increasing source recorded
  rw [← emitted]
  exact {
    recorded := recorded
    bytes := rfl
    addresses := by
      intro emission member
      have inside := unwarned.inside
      rw [emitted] at member inside
      rw [Emission.length_image, Emission.length_ofCodes, addressLimit] at inside
      obtain ⟨⟨k, less, address⟩, -⟩ := exists_of_mem_emissions member
      omega
    settled := by
      intro entry member name defines
      rw [layout] at member
      obtain ⟨before, after, split, bound⟩ := Layout.exists_split_of_mem_placed member
      refine ⟨base + 2 * instructionCount before, ?_, ?_⟩
      · rw [bound]
        simp only [Line.boundAt?, defines]
      · rw [table]
        exact unwarned.find?_of_defines split defines
    labels := by
      intro name address found
      rw [table] at found
      -- Only its use bounds the address: a label that ends the program may stand past the memory.
      obtain ⟨emission, member, refers⟩ := unwarned.exists_reference found
      obtain ⟨mnemonic, form, resolved, whole⟩ := exists_whole nonneg faultless unwarned member
      obtain ⟨field, -, same⟩ := whole.exists_field refers found
      have small := field.extract_le emission.word
      exact ⟨⟨emission, member, refers⟩, by omega, by omega⟩
    numbers := by
      intro emission member
      obtain ⟨mnemonic, form, resolved, whole⟩ := exists_whole nonneg faultless unwarned member
      rw [table]
      exact ⟨resolved, form.1, form.2, whole.resolves, whole.encoding, whole.numbers⟩
    jumps := by
      intro emission member addresses name refers before line after split defines
      have found := unwarned.find?_of_defines split defines
      obtain ⟨mnemonic, form, resolved, whole⟩ := exists_whole nonneg faultless unwarned member
      obtain ⟨field, filled, same⟩ := whole.exists_field refers found
      obtain rfl := whole.taken.field_eq_nnn whole.named addresses filled
      have low : Field.nnn.extract emission.word = emission.word % 0x1000 :=
        Nat.and_two_pow_sub_one_eq_mod emission.word 12
      rw [← low, same]
      exact stands_before base split defines faultless emitted increasing }

/-- `LD I, A1`, `A1:`, `a1`, `CALL A1`: the label has two lines but one address, and the program ends
where the memory does. -/
theorem faithful_without_warnings_twice :
    let source := ['L', 'D', ' ', 'I', ',', ' ', 'A', '1', '\n', 'A', '1', ':', '\n', 'a', '1', '\n',
      'C', 'A', 'L', 'L', ' ', 'A', '1']
    (assemble 0xFFC source).bytes = .ok [0xAF, 0xFE, 0x2F, 0xFE] ∧
      (∀ event ∈ (assemble 0xFFC source).log, event.level ≠ .warning) ∧
      Faithful 0xFFC (Line.ofSource source) (assemble 0xFFC source).layout
        (assemble 0xFFC source).emissions [0xAF, 0xFE, 0x2F, 0xFE] := by
  intro source
  have accepted : (assemble 0xFFC source).bytes = .ok [0xAF, 0xFE, 0x2F, 0xFE] := rfl
  have quiet : ∀ event ∈ (assemble 0xFFC source).log, event.level ≠ .warning := by decide
  exact ⟨accepted, quiet, faithful_without_warnings (by decide) accepted quiet⟩

end ChipEight
