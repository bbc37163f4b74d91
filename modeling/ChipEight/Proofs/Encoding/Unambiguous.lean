import ChipEight.Proofs.Encoding.ParsedInstruction

set_option autoImplicit false

/-!
Instruction words are unambiguous: two instructions share a word only if they have the same name and
operands that their fields cannot tell apart.  What sets two forms apart are constant bits outside
the fields of both.
-/

namespace ChipEight

open Catalog (words Takes)

namespace Slot

/-- Operands that leave the same in a place: numbers that agree modulo the size of the field, or
equal operands where there is no field. -/
def Agrees (slot : Slot) (a b : Operand) : Prop :=
  match slot.field? with
  | some field =>
    ∃ u v, a.number? = some u ∧ b.number? = some v ∧ u ≡ v [ZMOD (field.mask + 1 : Nat)]
  | none => a = b

def AgreeAll (slots : List Slot) (as bs : List Operand) : Prop :=
  ∀ (k : Nat) (slot : Slot) (a b : Operand),
    slots[k]? = some slot → as[k]? = some a → bs[k]? = some b → slot.Agrees a b

private theorem place_eq_of_agrees {slot : Slot} {a b : Operand} (same : slot.Agrees a b)
    (opcode : Nat) :
    Field.pack opcode (slot.packing? a).toList = Field.pack opcode (slot.packing? b).toList := by
  cases slot with
  | fixed pattern => rfl
  | packed pattern field =>
    obtain ⟨u, v, left, right, congruent⟩ := same
    have contents := (field.content_eq_content_iff u v).mpr congruent
    simp [packing?, field?, left, right, Field.place, contents]

private theorem pack_eq_of_agreeAll {slots : List Slot} {as bs : List Operand}
    (lengths : as.length = bs.length) (same : AgreeAll slots as bs) (opcode : Nat) :
    Field.pack opcode (packings slots as) = Field.pack opcode (packings slots bs) := by
  induction slots generalizing as bs opcode with
  | nil => rfl
  | cons slot slots ih =>
    cases as with
    | nil =>
      cases bs with
      | nil => rfl
      | cons b bs => simp at lengths
    | cons a as =>
      cases bs with
      | nil => simp at lengths
      | cons b bs =>
        have first : slot.Agrees a b := same 0 slot a b rfl rfl rfl
        have rest : AgreeAll slots as bs := fun k => same (k + 1)
        rw [packings_cons, packings_cons, Field.pack_append, Field.pack_append,
          place_eq_of_agrees first]
        exact ih (by simpa using lengths) rest _

end Slot

namespace Pattern

private def sole : Pattern → Operand
  | zeroRegister => .register 0
  | register => .register 0
  | immediate => .immediate 0
  | index => .index
  | memory => .memory
  | delayTimer => .delayTimer
  | soundTimer => .soundTimer
  | key => .key
  | font => .font
  | decimal => .decimal
  | blank => .blank

private theorem eq_sole {p : Pattern} {operand : Operand} (rigid : ¬ p.Numeric)
    (h : p.accepts operand = true) : operand = p.sole := by
  cases p <;> cases operand <;> simp_all [accepts, sole, Numeric]

private theorem kind_eq_sole {p : Pattern} {operand : Operand} (h : p.accepts operand = true)
    (unlabelled : operand.label? = none) : operand.kind = p.sole.kind := by
  cases p <;> cases operand <;> simp_all [accepts, sole, Operand.kind, Operand.label?]

private theorem kinds_eq {ps : List Pattern} {operands : List Operand}
    (h : acceptsAll ps operands = true) (unlabelled : operands.filterMap Operand.label? = []) :
    operands.map Operand.kind = ps.map (fun p => p.sole.kind) := by
  fun_induction acceptsAll ps operands with
  | case1 => rfl
  | case2 p ps operand operands ih =>
    rw [Bool.and_eq_true] at h
    rw [List.filterMap_eq_nil_iff] at unlabelled
    have head := unlabelled operand List.mem_cons_self
    have tail : operands.filterMap Operand.label? = [] := by
      rw [List.filterMap_eq_nil_iff]
      intro other member
      exact unlabelled other (List.mem_cons_of_mem _ member)
    rw [List.map_cons, List.map_cons, kind_eq_sole h.1 head, ih h.2 tail]
  | case3 => simp at h

end Pattern

namespace Catalog

private theorem opcodes_differ : ∀ m ∈ Mnemonic.all, ∀ k ∈ Mnemonic.all,
    ∀ a ∈ words m, ∀ b ∈ words k,
      a.1 ||| Field.covered (Slot.fields a.2 ++ Slot.fields b.2) =
        b.1 ||| Field.covered (Slot.fields a.2 ++ Slot.fields b.2) → m = k ∧ a = b := by
  decide +kernel

theorem eq_of_pack_eq {m k : Mnemonic} {a b : Nat × List Slot} (left : a ∈ words m)
    (right : b ∈ words k) {as bs : List Operand}
    (same : Field.pack a.1 (Slot.packings a.2 as) = Field.pack b.1 (Slot.packings b.2 bs)) :
    m = k ∧ a = b := by
  have inside : ∀ word : Nat × List Slot, ∀ operands : List Operand,
      ∀ packing ∈ Slot.packings word.2 operands, packing.1 ∈ Slot.fields word.2 := by
    intro word operands packing member
    exact (Slot.packings_fields_sublist word.2 operands).subset (List.mem_map_of_mem member)
  apply opcodes_differ m m.mem_all k k.mem_all a left b right
  have first := Field.pack_or_covered a.1 (fun packing member =>
    List.mem_append_left (Slot.fields b.2) (inside a as packing member))
  have second := Field.pack_or_covered b.1 (fun packing member =>
    List.mem_append_right (Slot.fields a.2) (inside b bs packing member))
  rw [← first, same, second]

private theorem Takes.agreeAll {mnemonic : Mnemonic} {word : Nat × List Slot}
    {as bs : List Operand} (left : Takes mnemonic word as) (right : Takes mnemonic word bs)
    (unlabelled : as.filterMap Operand.label? = []) (unmarked : bs.filterMap Operand.label? = [])
    (same : Field.pack word.1 (Slot.packings word.2 as) =
      Field.pack word.1 (Slot.packings word.2 bs)) : Slot.AgreeAll word.2 as bs := by
  intro k slot a b place first second
  unfold Slot.Agrees
  split
  · rename_i field filled
    obtain ⟨u, hu⟩ := left.exists_number unlabelled place first filled
    obtain ⟨v, hv⟩ := right.exists_number unmarked place second filled
    refine ⟨u, v, hu, hv, (field.content_eq_content_iff u v).mp ?_⟩
    rw [← left.extract_eq place first filled hu, same, right.extract_eq place second filled hv]
  · rename_i unfilled
    have rigid : ¬ slot.pattern.Numeric := by
      intro numeric
      have filled := (packed_iff_numeric mnemonic word left.1 slot
        (List.mem_of_getElem? place)).mpr numeric
      simp [unfilled] at filled
    rw [Pattern.eq_sole rigid (left.accepts place first),
      Pattern.eq_sole rigid (right.accepts place second)]

end Catalog

namespace Instruction

/-- Instructions that were read and resolved have words of sixteen bits, and they have the same word
exactly if they have the same name, operands of the same kinds, and operands that agree in every
place of the word.  Constant bits and fields of a form never overlap, and different forms never make
the same word. -/
theorem encode_unambiguous {name arguments name' arguments' : List Char}
    {position position' : Position} {instruction resolved instruction' resolved' : Instruction}
    {symbols symbols' : SymbolTable}
    (read : parse name arguments position = .ok instruction)
    (bound : instruction.resolve symbols = .ok resolved)
    (read' : parse name' arguments' position' = .ok instruction')
    (bound' : instruction'.resolve symbols' = .ok resolved') :
    (∃ word word' opcode slots,
      resolved.encode.2 = .ok word ∧ resolved'.encode.2 = .ok word' ∧
        word ≤ 0xFFFF ∧ word' ≤ 0xFFFF ∧ resolved.encoding? = some (opcode, slots) ∧
        (word = word' ↔
          resolved.mnemonic = resolved'.mnemonic ∧
            resolved.operands.map Operand.kind = resolved'.operands.map Operand.kind ∧
            Slot.AgreeAll slots resolved.operands resolved'.operands)) ∧
    (∀ mnemonic opcode slots, Form.word opcode slots ∈ Catalog.forms mnemonic →
      (∀ field ∈ Slot.fields slots, opcode &&& field.bits = 0) ∧
        (Slot.fields slots).Pairwise (fun a b => a.bits &&& b.bits = 0)) ∧
    ∀ m opcode slots m' opcode' slots' operands operands',
      Form.word opcode slots ∈ Catalog.forms m → Form.word opcode' slots' ∈ Catalog.forms m' →
        Field.pack opcode (Slot.packings slots operands) =
          Field.pack opcode' (Slot.packings slots' operands') →
        m = m' ∧ opcode = opcode' ∧ slots = slots' := by
  refine ⟨?_, ?_, ?_⟩
  · obtain ⟨m, -, parsed⟩ := parse_eq_ok read
    obtain ⟨m', -, parsed'⟩ := parse_eq_ok read'
    obtain ⟨named, -, form, taken⟩ := ofMnemonic_eq_ok parsed
    obtain ⟨named', -, form', taken'⟩ := ofMnemonic_eq_ok parsed'
    obtain ⟨still, encoded⟩ := encode_of_resolve named taken bound
    obtain ⟨still', encoded'⟩ := encode_of_resolve named' taken' bound'
    have kept : resolved.mnemonic = m.spelling := by
      rw [(resolve_eq_ok_iff.mp bound).2]
      exact named
    have kept' : resolved'.mnemonic = m'.spelling := by
      rw [(resolve_eq_ok_iff.mp bound').2]
      exact named'
    have short := Field.pack_lt (Catalog.opcode_lt m form taken.1)
      (Slot.packings form.2 resolved.operands)
    have short' := Field.pack_lt (Catalog.opcode_lt m' form' taken'.1)
      (Slot.packings form'.2 resolved'.operands)
    refine ⟨_, _, form.1, form.2, encoded, encoded', by omega, by omega,
      (encoding?_eq_some_iff kept).mpr still, ?_⟩
    constructor
    · intro same
      obtain ⟨rfl, rfl⟩ := Catalog.eq_of_pack_eq still.1 still'.1 same
      have unlabelled := labels_of_resolve bound
      have unlabelled' := labels_of_resolve bound'
      refine ⟨kept.trans kept'.symm, ?_, still.agreeAll still' unlabelled unlabelled' same⟩
      rw [Pattern.kinds_eq still.2 unlabelled, Pattern.kinds_eq still'.2 unlabelled']
    · rintro ⟨names, kinds, agree⟩
      have same : m = m' := Mnemonic.spelling_injective (kept.symm.trans (names.trans kept'))
      subst same
      have forms := still.unique still' kinds
      subst forms
      have lengths := congrArg List.length kinds
      simp only [List.length_map] at lengths
      exact Slot.pack_eq_of_agreeAll lengths agree form.1
  · intro mnemonic opcode slots member
    have listed := Catalog.mem_words.mpr member
    exact ⟨Catalog.opcode_apart mnemonic _ listed, Catalog.fields_apart mnemonic _ listed⟩
  · intro m opcode slots m' opcode' slots' operands operands' member member' same
    have forms := Catalog.eq_of_pack_eq (Catalog.mem_words.mpr member)
      (Catalog.mem_words.mpr member') same
    simpa using forms

/-- A label below zero shares its word with the address a whole field above it. -/
theorem encode_unambiguous_below_zero :
    parse ['J', 'P'] ['a'] {} = .ok ⟨['J', 'P'], [.label ['A']], {}⟩ ∧
      resolve ⟨['J', 'P'], [.label ['A']], {}⟩ (SymbolTable.ofList [(['A'], -0xE00)]) =
        .ok ⟨['J', 'P'], [.immediate (-0xE00)], {}⟩ ∧
      parse ['j', 'p'] ['0', 'x', '2', '0', '0'] {} = .ok ⟨['J', 'P'], [.immediate 0x200], {}⟩ ∧
      resolve ⟨['J', 'P'], [.immediate 0x200], {}⟩ ∅ =
        .ok ⟨['J', 'P'], [.immediate 0x200], {}⟩ ∧
      ∃ opcode slots, encoding? ⟨['J', 'P'], [.immediate (-0xE00)], {}⟩ = some (opcode, slots) ∧
        Slot.AgreeAll slots [.immediate (-0xE00)] [.immediate 0x200] := by
  have read : parse ['J', 'P'] ['a'] {} = .ok ⟨['J', 'P'], [.label ['A']], {}⟩ := rfl
  have bound : resolve ⟨['J', 'P'], [.label ['A']], {}⟩
      (SymbolTable.ofList [(['A'], -0xE00)]) = .ok ⟨['J', 'P'], [.immediate (-0xE00)], {}⟩ := rfl
  have read' : parse ['j', 'p'] ['0', 'x', '2', '0', '0'] {} =
      .ok ⟨['J', 'P'], [.immediate 0x200], {}⟩ := rfl
  have bound' : resolve ⟨['J', 'P'], [.immediate 0x200], {}⟩ ∅ =
      .ok ⟨['J', 'P'], [.immediate 0x200], {}⟩ := rfl
  obtain ⟨⟨word, word', opcode, slots, first, second, -, -, found, same⟩, -⟩ :=
    encode_unambiguous read bound read' bound'
  have left : (.ok 0x1200 : Except Fault Nat) = .ok word := first
  have right : (.ok 0x1200 : Except Fault Nat) = .ok word' := second
  have agree := same.mp (Except.ok.inj (left.symm.trans right))
  exact ⟨read, bound, read', bound', opcode, slots, found, agree.2.2⟩

end Instruction

end ChipEight
