import ChipEight.Proofs.Encoding.OperandText
import ChipEight.Proofs.Encoding.ParsedInstruction

set_option autoImplicit false

/-!
Values that do not fit.  A field holds a value exactly if the value lies between zero and the
field's mask; encoding compares with the mask only, so it reports what is lost of a value above its
field and nothing of a value below zero.
-/

namespace ChipEight

namespace Field

theorem content_eq_self_iff (field : Field) (value : Int) :
    (field.content value : Int) = value ↔ 0 ≤ value ∧ value ≤ field.mask := by
  constructor
  · intro same
    have bound := field.content_le_mask value
    omega
  · rintro ⟨nonneg, small⟩
    have kept : value % ((field.mask + 1 : Nat) : Int) = value :=
      Int.emod_eq_of_lt nonneg (by omega)
    rw [content, kept, Int.toNat_of_nonneg nonneg]

theorem land_eq_self_iff (field : Field) (value : Int) :
    Int.land value field.mask = value ↔ 0 ≤ value ∧ value ≤ field.mask := by
  rw [← content_eq_land, content_eq_self_iff]

end Field

namespace Operand

/-- An operand that is packed as no number below zero. -/
def Unsigned (operand : Operand) : Prop :=
  ∀ value, operand.number? = some value → 0 ≤ value

theorem unsigned_of_mem_readList {arguments : List Char} {operand : Operand}
    (member : operand ∈ readList arguments) : operand.Unsigned := by
  intro value number
  rcases mem_readList_cases member with rfl | ⟨name, rfl⟩ | writable
  · cases number
  · cases number
  · cases operand <;> cases number
    · exact writable.1
    · exact writable.1

theorem Unsigned.substitute {operand : Operand} (unsigned : operand.Unsigned)
    {symbols : SymbolTable}
    (nonneg : ∀ name address, symbols.find? name = some address → 0 ≤ address) :
    (operand.substitute symbols).Unsigned := by
  cases operand with
  | label name =>
    rintro _ ⟨⟩
    cases found : symbols.find? name with
    | none => exact le_rfl
    | some address => exact nonneg name address found
  | _ => exact unsigned

end Operand

namespace Instruction

open Catalog (Takes)

theorem unsigned_of_ofMnemonic {mnemonic : Mnemonic} {arguments : List Char} {position : Position}
    {instruction : Instruction}
    (parsed : ofMnemonic mnemonic arguments position = .ok instruction) :
    ∀ operand ∈ instruction.operands, operand.Unsigned := by
  refine forall_operands_of_ofMnemonic (p := Operand.Unsigned) parsed ?_ ?_ ?_
  · intro operand
    exact Operand.unsigned_of_mem_readList
  · rintro _ ⟨⟩
  · rintro _ ⟨⟩
    decide

/-- The notices that packed values call for, in their order: one for each value that its field does
not hold. -/
def losses (instruction : Instruction) (packings : List (Field × Int)) : List Truncation :=
  (packings.filter fun packing =>
      decide (Int.land packing.2 packing.1.mask ≠ packing.2)).map fun packing =>
    ⟨instruction.position.line, instruction.mnemonic, packing.2, packing.1.content packing.2⟩

theorem notices_eq_filter_losses {instruction : Instruction} {opcode : Nat} {slots : List Slot}
    (unlabelled : instruction.labels = [])
    (found : instruction.encoding? = some (opcode, slots)) :
    instruction.encode.1 =
      (instruction.losses (Slot.packings slots instruction.operands)).filter
        fun notice => decide (0 ≤ notice.value) := by
  have above : ∀ packing : Field × Int, decide ((packing.1.mask : Int) < packing.2) =
      (decide (0 ≤ packing.2) && decide (Int.land packing.2 packing.1.mask ≠ packing.2)) := by
    intro packing
    rw [← Bool.decide_and, decide_eq_decide, ne_eq, Field.land_eq_self_iff]
    omega
  rw [encode, unlabelled]
  simp only [found, losses, List.filter_map, List.filter_filter, above, Function.comp_def]

theorem notices_eq_losses_iff {instruction : Instruction} {opcode : Nat} {slots : List Slot}
    (unlabelled : instruction.labels = [])
    (found : instruction.encoding? = some (opcode, slots)) :
    instruction.encode.1 = instruction.losses (Slot.packings slots instruction.operands) ↔
      ∀ packing ∈ Slot.packings slots instruction.operands, 0 ≤ packing.2 := by
  rw [notices_eq_filter_losses unlabelled found, List.filter_eq_self]
  simp only [losses, List.mem_map, List.mem_filter, decide_eq_true_eq]
  constructor
  · intro reported packing member
    by_contra below
    -- A value below zero is in no field, so it would have been reported.
    have lost : Int.land packing.2 packing.1.mask ≠ packing.2 := by
      rw [ne_eq, Field.land_eq_self_iff]
      omega
    exact below (reported _ ⟨packing, ⟨member, lost⟩, rfl⟩)
  · rintro nonneg _ ⟨packing, ⟨member, -⟩, rfl⟩
    exact nonneg packing member

theorem extract_eq_of_silent {mnemonic : Mnemonic} {arguments : List Char} {position : Position}
    {instruction resolved : Instruction} {symbols : SymbolTable} {word : Nat}
    (parsed : ofMnemonic mnemonic arguments position = .ok instruction)
    (nonneg : ∀ name address, symbols.find? name = some address → 0 ≤ address)
    (bound : instruction.resolve symbols = .ok resolved)
    (silent : resolved.encode.1 = []) (encodes : resolved.encode.2 = .ok word) :
    ∃ form, Takes mnemonic form instruction.operands ∧
      ∀ (k : Nat) (slot : Slot) (field : Field) (operand : Operand), form.2[k]? = some slot →
        slot.field? = some field → resolved.operands[k]? = some operand →
          ∃ value, operand.number? = some value ∧ (field.extract word : Int) = value := by
  obtain ⟨named, -, form, taken⟩ := ofMnemonic_eq_ok parsed
  obtain ⟨still, found⟩ := encoding?_of_resolve named taken bound
  have encoded := (encode_of_resolve named taken bound).2
  have unlabelled := labels_of_resolve bound
  have same := (resolve_eq_ok_iff.mp bound).2
  have unsigned : ∀ packing ∈ Slot.packings form.2 resolved.operands, 0 ≤ packing.2 := by
    intro packing member
    obtain ⟨operand, given, number⟩ := Slot.exists_of_mem_packings member
    rw [same] at given
    obtain ⟨before, listed, rfl⟩ := List.mem_map.mp given
    exact (unsigned_of_ofMnemonic parsed before listed).substitute nonneg packing.2 number
  have whole := (notices_eq_losses_iff unlabelled found).mpr unsigned
  rw [silent, eq_comm, losses, List.map_eq_nil_iff, List.filter_eq_nil_iff] at whole
  refine ⟨form, taken, ?_⟩
  intro k slot field operand place filled given
  obtain ⟨value, number⟩ := still.exists_number unlabelled place given filled
  refine ⟨value, number, ?_⟩
  have kept := whole _ (Slot.mem_packings place given filled number)
  rw [decide_eq_true_eq, not_not, ← Field.content_eq_land] at kept
  rw [Except.ok.inj (encodes.symm.trans encoded), still.extract_eq place given filled number, kept]

/-- Encoding an instruction that was read and resolved reports what the fields lose of values from
zero up, in the order of the operands, and nothing else.  So it reports every loss exactly if no
address among the operands is below zero. -/
theorem notices_of_values_from_zero {name arguments : List Char} {position : Position}
    {instruction resolved : Instruction} {symbols : SymbolTable}
    (read : parse name arguments position = .ok instruction)
    (bound : instruction.resolve symbols = .ok resolved) :
    ∃ opcode slots, resolved.encoding? = some (opcode, slots) ∧
      (∀ (k : Nat) (slot : Slot) (field : Field) (operand : Operand), slots[k]? = some slot →
        slot.field? = some field → resolved.operands[k]? = some operand →
          ∃ value, operand.number? = some value ∧
            (field, value) ∈ Slot.packings slots resolved.operands) ∧
      resolved.encode.1 =
        (resolved.losses (Slot.packings slots resolved.operands)).filter
          (fun notice => decide (0 ≤ notice.value)) ∧
      (resolved.encode.1 = resolved.losses (Slot.packings slots resolved.operands) ↔
        ∀ packing ∈ Slot.packings slots resolved.operands, 0 ≤ packing.2) := by
  obtain ⟨mnemonic, -, parsed⟩ := parse_eq_ok read
  obtain ⟨named, -, word, taken⟩ := ofMnemonic_eq_ok parsed
  obtain ⟨still, found⟩ := encoding?_of_resolve named taken bound
  have unlabelled := labels_of_resolve bound
  refine ⟨word.1, word.2, found, ?_, notices_eq_filter_losses unlabelled found,
    notices_eq_losses_iff unlabelled found⟩
  intro k slot field operand place filled given
  obtain ⟨value, number⟩ := still.exists_number unlabelled place given filled
  exact ⟨value, number, Slot.mem_packings place given filled number⟩

/-- `DRW V1, V2, A1` with `A1` at `0x12`: the address is cut to four bits, and that is reported. -/
theorem notices_of_values_from_zero_sprite :
    parse ['D', 'R', 'W'] ['v', '1', ',', 'v', '2', ',', 'a', '1'] ⟨7, []⟩ =
        .ok ⟨['D', 'R', 'W'], [.register 1, .register 2, .label ['A', '1']], ⟨7, []⟩⟩ ∧
      ∃ opcode slots,
        encoding? ⟨['D', 'R', 'W'], [.register 1, .register 2, .immediate 0x12], ⟨7, []⟩⟩ =
          some (opcode, slots) ∧
        losses ⟨['D', 'R', 'W'], [.register 1, .register 2, .immediate 0x12], ⟨7, []⟩⟩
          (Slot.packings slots [.register 1, .register 2, .immediate 0x12]) =
            [⟨7, ['D', 'R', 'W'], 0x12, 0x2⟩] := by
  have read : parse ['D', 'R', 'W'] ['v', '1', ',', 'v', '2', ',', 'a', '1'] ⟨7, []⟩ =
      .ok ⟨['D', 'R', 'W'], [.register 1, .register 2, .label ['A', '1']], ⟨7, []⟩⟩ := rfl
  have bound : resolve ⟨['D', 'R', 'W'], [.register 1, .register 2, .label ['A', '1']], ⟨7, []⟩⟩
      (SymbolTable.ofList [(['A', '1'], 0x12)]) =
        .ok ⟨['D', 'R', 'W'], [.register 1, .register 2, .immediate 0x12], ⟨7, []⟩⟩ := rfl
  obtain ⟨opcode, slots, found, -, -, every⟩ := notices_of_values_from_zero read bound
  refine ⟨read, opcode, slots, found, ?_⟩
  have form : some (0xD000, [.packed .register .x, .packed .register .y, .packed .immediate .n]) =
      some (opcode, slots) := found
  cases form
  exact (every.mpr (by decide)).symm

/-- `JP L` with `L` two below zero: the field keeps `0xFFE` of it, and nothing is reported. -/
theorem loss_below_zero_unreported :
    let resolved : Instruction := ⟨['J', 'P'], [.immediate (-2)], ⟨2, ['J', 'P', ' ', 'L']⟩⟩
    parse ['J', 'P'] ['L'] ⟨2, ['J', 'P', ' ', 'L']⟩ =
        .ok ⟨['J', 'P'], [.label ['L']], ⟨2, ['J', 'P', ' ', 'L']⟩⟩ ∧
      resolve ⟨['J', 'P'], [.label ['L']], ⟨2, ['J', 'P', ' ', 'L']⟩⟩
          (SymbolTable.ofList [(['L'], -2)]) = .ok resolved ∧
      resolved.encoding? = some (0x1000, [.packed .immediate .nnn]) ∧
      resolved.encode = ([], .ok 0x1FFE) ∧ Int.land (-2) 0xFFF ≠ -2 ∧
      resolved.losses (Slot.packings [.packed .immediate .nnn] resolved.operands) =
        [⟨2, ['J', 'P'], -2, 0xFFE⟩] :=
  ⟨rfl, rfl, rfl, rfl, by decide, rfl⟩

end Instruction

end ChipEight
