import ChipEight.Proofs.Encoding.ShapeFit

set_option autoImplicit false

/-!
Reading and encoding choose the same form.  Reading looks for a form that fits, where blanks do not
count and a short form is completed; encoding looks for a word that takes the operands one for one.
Whatever was read is taken by one word and no other, before and after its labels are resolved.
-/

namespace ChipEight

open Catalog (forms words shorts Takes)

/-- Whether the form is a word, and no short one, whose places take the operands one for one. -/
def Form.takes (form : Form) (operands : List Operand) : Bool :=
  match form with
  | word _ slots => Pattern.acceptsAll (Slot.shape slots) operands
  | short _ _ => false

namespace Catalog

def choose? (mnemonic : Mnemonic) (operands : List Operand) : Option Form :=
  (forms mnemonic).find? (·.fits operands)

/-- A short form belongs to a shift or to the random number, whose one word it is completed to. -/
private theorem short_stands_for (mnemonic : Mnemonic) : ∀ short ∈ shorts mnemonic,
    mnemonic ∈ [.shr, .shl, .rnd] ∧ ∀ word ∈ words mnemonic, Slot.shape word.2 = short.2.target := by
  cases mnemonic <;> decide

private theorem fits_of_takes {form : Form} {operands : List Operand}
    (taken : form.takes operands = true) : form.fits operands = true := by
  cases form with
  | word opcode slots =>
    have fitted : (Form.word opcode slots).accept? operands = some operands :=
      Pattern.fit?_of_acceptsAll taken
    rw [Form.fits, fitted]
    rfl
  | short shape completion => cases taken

theorem Takes.filter_takes {mnemonic : Mnemonic} {word : Nat × List Slot}
    {operands : List Operand} (taken : Takes mnemonic word operands) :
    (forms mnemonic).filter (·.takes operands) = [.word word.1 word.2] := by
  have member : Form.word word.1 word.2 ∈ (forms mnemonic).filter (·.takes operands) :=
    List.mem_filter.mpr ⟨mem_words.mp taken.1, taken.2⟩
  have few : ((forms mnemonic).filter (·.takes operands)).length ≤ 1 := by
    refine le_trans ?_ (length_fitting_le mnemonic operands)
    rw [← List.countP_eq_length_filter, ← List.countP_eq_length_filter]
    exact List.countP_mono_left fun form _ => fits_of_takes
  match found : (forms mnemonic).filter (·.takes operands) with
  | [] => simp [found] at member
  | [form] =>
    rw [found, List.mem_singleton] at member
    rw [found, member]
  | _ :: _ :: _ => simp [found] at few

theorem exists_choose? {mnemonic : Mnemonic} {operands full : List Operand}
    (accepted : (forms mnemonic).findSome? (·.accept? operands) = some full) :
    ∃ form ∈ forms mnemonic, choose? mnemonic operands = some form ∧
      form.accept? operands = some full := by
  obtain ⟨before, form, after, split, fitted, refused⟩ := List.findSome?_eq_some_iff.mp accepted
  refine ⟨form, by simp [split], List.find?_eq_some_iff_append.mpr ⟨?_, before, after, split, ?_⟩,
    fitted⟩
  · rw [Form.fits, fitted]
    rfl
  · intro other member
    rw [Form.fits, refused other member]
    rfl

end Catalog

namespace Instruction

/-- What an instruction that was read by a form has to do with the word that it is encoded as. -/
structure SharesForm (mnemonic : Mnemonic) (instruction : Instruction) (form : Form) (opcode : Nat)
    (slots : List Slot) : Prop where
  sole : (forms mnemonic).filter (·.takes instruction.operands) = [.word opcode slots]
  related : form = .word opcode slots ∨
    ∃ shape completion, form = .short shape completion ∧ mnemonic ∈ [.shr, .shl, .rnd] ∧
      Slot.shape slots = completion.target ∧ slots.length = 2
  resolvable : ∀ symbols, (∃ resolved, instruction.resolve symbols = .ok resolved) ↔
    ∀ name ∈ instruction.labels, (symbols.find? name).isSome = true
  encoded : ∀ symbols resolved, instruction.resolve symbols = .ok resolved →
    resolved.encode.2 = .ok (Field.pack opcode (Slot.packings slots resolved.operands)) ∧
      slots.length = resolved.operands.length ∧
      ∀ (k : Nat) (slot : Slot) (field : Field) (operand : Operand), slots[k]? = some slot →
        slot.field? = some field → resolved.operands[k]? = some operand →
          ∃ value, operand.number? = some value ∧
            (field, value) ∈ Slot.packings slots resolved.operands

theorem resolves_iff {instruction : Instruction} {symbols : SymbolTable} :
    (∃ resolved, instruction.resolve symbols = .ok resolved) ↔
      ∀ name ∈ instruction.labels, (symbols.find? name).isSome = true := by
  constructor
  · rintro ⟨resolved, resolves⟩
    exact (resolve_eq_ok_iff.mp resolves).1
  · intro defined
    exact ⟨_, resolve_eq_ok_iff.mpr ⟨defined, rfl⟩⟩

private theorem related_of_takes {mnemonic : Mnemonic} {instruction : Instruction}
    {operands : List Operand} {form : Form} {word : Nat × List Slot}
    (listed : form ∈ forms mnemonic) (accepted : form.accept? operands = some instruction.operands)
    (taken : Takes mnemonic word instruction.operands) :
    form = .word word.1 word.2 ∨
      ∃ shape completion, form = .short shape completion ∧ mnemonic ∈ [.shr, .shl, .rnd] ∧
        Slot.shape word.2 = completion.target ∧ word.2.length = 2 := by
  cases form with
  | word opcode slots =>
    have other : Takes mnemonic (opcode, slots) instruction.operands :=
      ⟨Catalog.mem_words.mpr listed, Pattern.acceptsAll_of_fit? accepted⟩
    rw [← other.unique taken rfl]
    exact Or.inl rfl
  | short shape completion =>
    have brief : (shape, completion) ∈ shorts mnemonic := List.mem_filterMap.mpr ⟨_, listed, rfl⟩
    obtain ⟨known, same⟩ := Catalog.short_stands_for mnemonic _ brief
    have target := same word taken.1
    have length := congrArg List.length target
    refine Or.inr ⟨shape, completion, rfl, known, target, ?_⟩
    cases completion <;> simpa [Slot.shape, Completion.target] using length

/-- An instruction that was read is taken by one word of its mnemonic and no other: the form that it
was read by, or the word with two places that a short form stands for.  With all its labels defined
it is resolved, and encoded as that word with a number for each field. -/
theorem read_and_encoded_by_one_form {name arguments : List Char} {position : Position}
    {instruction : Instruction} (read : parse name arguments position = .ok instruction) :
    ∃ mnemonic form opcode slots, Mnemonic.read? name = some mnemonic ∧
      instruction.mnemonic = mnemonic.spelling ∧
      Catalog.choose? mnemonic (Operand.readList arguments) = some form ∧
      form.accept? (Operand.readList arguments) = some instruction.operands ∧
      SharesForm mnemonic instruction form opcode slots := by
  obtain ⟨mnemonic, known, parsed⟩ := parse_eq_ok read
  obtain ⟨named, -, word, taken⟩ := ofMnemonic_eq_ok parsed
  obtain ⟨operands, found, rfl⟩ := ofMnemonic_eq_ok_iff.mp parsed
  obtain ⟨form, listed, chosen, accepted⟩ := Catalog.exists_choose? found
  refine ⟨mnemonic, form, word.1, word.2, known, named, chosen, accepted, taken.filter_takes,
    related_of_takes listed accepted taken, fun symbols => resolves_iff, ?_⟩
  intro symbols resolved resolves
  obtain ⟨still, encoded⟩ := encode_of_resolve named taken resolves
  refine ⟨encoded, still.length_eq, ?_⟩
  intro k slot field operand place filled given
  obtain ⟨value, number⟩ := still.exists_number (labels_of_resolve resolves) place given filled
  exact ⟨value, number, Slot.mem_packings place given filled number⟩

/-- `rand va,` is read by the short form and encoded as the word with a register and a mask. -/
theorem read_and_encoded_by_one_form_short :
    parse ['r', 'a', 'n', 'd'] ['v', 'a', ','] {} =
        .ok ⟨['R', 'N', 'D'], [.register 0xA, .immediate 0xFF], {}⟩ ∧
      ∃ shape completion opcode slots,
        Catalog.choose? .rnd [.register 0xA, .blank] = some (.short shape completion) ∧
          (forms .rnd).filter (·.takes [.register 0xA, .immediate 0xFF]) = [.word opcode slots] ∧
          Slot.shape slots = [.register, .immediate] ∧
          encode ⟨['R', 'N', 'D'], [.register 0xA, .immediate 0xFF], {}⟩ = ([], .ok 0xCAFF) := by
  have read : parse ['r', 'a', 'n', 'd'] ['v', 'a', ','] {} =
      .ok ⟨['R', 'N', 'D'], [.register 0xA, .immediate 0xFF], {}⟩ := rfl
  obtain ⟨mnemonic, form, opcode, slots, known, -, chosen, -, shares⟩ :=
    read_and_encoded_by_one_form read
  have same : mnemonic = .rnd := Option.some.inj (known.symm.trans rfl)
  subst same
  have short : form = .short [.register, .blank] .fullMask := Option.some.inj (chosen.symm.trans rfl)
  subst short
  obtain ordinary | ⟨shape, completion, brief, -, target, -⟩ := shares.related
  · cases ordinary
  · cases brief
    exact ⟨read, _, _, opcode, slots, chosen, shares.sole, target, rfl⟩

end Instruction

end ChipEight
