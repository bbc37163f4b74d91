import ChipEight.Instruction
import ChipEight.Proofs.Encoding.FieldBits

set_option autoImplicit false

/-!
Words of the catalog and the operands that they take.  The places of a word tell the kinds of its
operands, so at most one word of a mnemonic takes given operands; an instruction that was read has
one, and keeps it when its labels are resolved.
-/

namespace ChipEight

namespace Pattern

def kinds : Pattern → List (List Char)
  | register | zeroRegister => [(Operand.register 0).kind]
  | immediate => [(Operand.immediate 0).kind, (Operand.label []).kind]
  | index => [Operand.index.kind]
  | memory => [Operand.memory.kind]
  | delayTimer => [Operand.delayTimer.kind]
  | soundTimer => [Operand.soundTimer.kind]
  | key => [Operand.key.kind]
  | font => [Operand.font.kind]
  | decimal => [Operand.decimal.kind]
  | blank => [Operand.blank.kind]

def clashes (p q : Pattern) : Bool :=
  p.kinds.all fun kind => !q.kinds.contains kind

/-- Whether shapes differ in length, or in the kinds that some place takes. -/
def clashAll : List Pattern → List Pattern → Bool
  | [], [] => false
  | p :: ps, q :: qs => p.clashes q || clashAll ps qs
  | _, _ => true

/-- A place whose operands bring a number to the word. -/
def Numeric (p : Pattern) : Prop :=
  p = register ∨ p = immediate

instance (p : Pattern) : Decidable p.Numeric :=
  inferInstanceAs (Decidable (_ ∨ _))

private theorem kind_mem_kinds {p : Pattern} {operand : Operand} (h : p.accepts operand = true) :
    operand.kind ∈ p.kinds := by
  cases p <;> cases operand <;> simp [accepts, kinds, Operand.kind] at h ⊢

private theorem clashes_eq_false {p q : Pattern} {a b : Operand} (left : p.accepts a = true)
    (right : q.accepts b = true) (same : a.kind = b.kind) : p.clashes q = false := by
  rw [clashes, List.all_eq_false]
  refine ⟨a.kind, kind_mem_kinds left, ?_⟩
  have member : a.kind ∈ q.kinds := same ▸ kind_mem_kinds right
  simp [member]

theorem clashAll_eq_false {ps qs : List Pattern} {as bs : List Operand}
    (left : acceptsAll ps as = true) (right : acceptsAll qs bs = true)
    (same : as.map Operand.kind = bs.map Operand.kind) : clashAll ps qs = false := by
  induction ps generalizing qs as bs with
  | nil =>
    cases as with
    | cons a as => simp [acceptsAll] at left
    | nil =>
      cases bs with
      | cons b bs => simp at same
      | nil =>
        cases qs with
        | nil => rfl
        | cons q qs => simp [acceptsAll] at right
  | cons p ps ih =>
    cases as with
    | nil => simp [acceptsAll] at left
    | cons a as =>
      cases bs with
      | nil => simp at same
      | cons b bs =>
        cases qs with
        | nil => simp [acceptsAll] at right
        | cons q qs =>
          simp only [acceptsAll, Bool.and_eq_true] at left right
          simp only [List.map_cons, List.cons.injEq] at same
          rw [clashAll, clashes_eq_false left.1 right.1 same.1, ih left.2 right.2 same.2]
          rfl

theorem length_eq_of_acceptsAll {ps : List Pattern} {operands : List Operand}
    (h : acceptsAll ps operands = true) : ps.length = operands.length := by
  fun_induction acceptsAll ps operands with
  | case1 => rfl
  | case2 p ps operand operands ih =>
    rw [Bool.and_eq_true] at h
    simp [ih h.2]
  | case3 => simp at h

theorem accepts_of_acceptsAll {ps : List Pattern} {operands : List Operand} {k : Nat}
    {p : Pattern} {operand : Operand} (h : acceptsAll ps operands = true)
    (place : ps[k]? = some p) (given : operands[k]? = some operand) :
    p.accepts operand = true := by
  induction ps generalizing operands k with
  | nil => simp at place
  | cons first ps ih =>
    cases operands with
    | nil => simp at given
    | cons head operands =>
      simp only [acceptsAll, Bool.and_eq_true] at h
      cases k with
      | zero =>
        simp only [List.getElem?_cons_zero, Option.some.injEq] at place given
        exact place ▸ given ▸ h.1
      | succ k =>
        rw [List.getElem?_cons_succ] at place given
        exact ih h.2 place given

theorem length_labels_le {ps : List Pattern} {operands : List Operand}
    (h : acceptsAll ps operands = true) :
    (operands.filterMap Operand.label?).length ≤ ps.count immediate := by
  fun_induction acceptsAll ps operands with
  | case1 => simp
  | case2 p ps operand operands ih =>
    rw [Bool.and_eq_true] at h
    have rest := ih h.2
    cases operand with
    | label name =>
      have place : p = immediate := by
        have accepted := h.1
        cases p <;> simp [accepts] at accepted ⊢
      subst place
      simp only [List.filterMap_cons, Operand.label?, List.length_cons, List.count_cons_self]
      omega
    | _ =>
      simp only [List.filterMap_cons, Operand.label?]
      exact rest.trans List.count_le_count_cons
  | case3 => simp at h

theorem acceptsAll_of_fit? {shape : List Pattern} {operands fitted : List Operand}
    (h : fit? shape operands = some fitted) : acceptsAll shape fitted = true := by
  induction shape generalizing operands fitted with
  | nil =>
    simp only [fit?, Option.ite_none_right_eq_some, Option.some.injEq] at h
    rw [← h.2]
    rfl
  | cons pattern shape ih =>
    simp only [fit?, Option.ite_none_right_eq_some, Option.map_eq_some_iff] at h
    obtain ⟨accepted, rest, found, rfl⟩ := h
    rw [acceptsAll, accepted, ih found]
    rfl

end Pattern

theorem Operand.number_or_label {p : Pattern} {operand : Operand} (numeric : p.Numeric)
    (h : p.accepts operand = true) :
    (∃ value, operand.number? = some value) ∨ ∃ name, operand = label name := by
  rcases numeric with rfl | rfl <;> cases operand <;>
    simp [Pattern.accepts, number?] at h ⊢

namespace Slot

def fields (slots : List Slot) : List Field :=
  slots.filterMap field?

def shape (slots : List Slot) : List Pattern :=
  slots.map pattern

@[simp] theorem packings_nil_left (operands : List Operand) : packings [] operands = [] := rfl

@[simp] theorem packings_nil_right (slots : List Slot) : packings slots [] = [] := by
  simp [packings]

theorem packings_cons (slot : Slot) (slots : List Slot) (operand : Operand)
    (operands : List Operand) :
    packings (slot :: slots) (operand :: operands) =
      (slot.packing? operand).toList ++ packings slots operands := by
  simp only [packings, List.zip_cons_cons, List.filterMap_cons]
  cases slot.packing? operand <;> rfl

theorem packings_fields_sublist (slots : List Slot) (operands : List Operand) :
    ((packings slots operands).map Prod.fst).Sublist (fields slots) := by
  induction slots generalizing operands with
  | nil => simp
  | cons slot slots ih =>
    cases operands with
    | nil => simp
    | cons operand operands =>
      have rest := ih operands
      rw [packings_cons, List.map_append]
      cases slot with
      | fixed pattern => exact rest
      | packed pattern field =>
        cases number : operand.number? with
        | none =>
          simp only [packing?, field?, number, Option.toList_none, List.map_nil, List.nil_append]
          exact rest.trans (List.sublist_cons_self field _)
        | some value =>
          simp only [packing?, field?, number, Option.toList_some, List.map_cons, List.map_nil,
            List.singleton_append]
          exact rest.cons_cons field

theorem exists_of_mem_packings {slots : List Slot} {operands : List Operand}
    {packing : Field × Int} (member : packing ∈ packings slots operands) :
    ∃ operand ∈ operands, operand.number? = some packing.2 := by
  obtain ⟨⟨slot, operand⟩, zipped, packed⟩ := List.mem_filterMap.mp member
  refine ⟨operand, (List.of_mem_zip zipped).2, ?_⟩
  unfold packing? at packed
  split at packed
  · rename_i field value filled number
    cases packed
    exact number
  · cases packed

theorem mem_packings {slots : List Slot} {operands : List Operand} {k : Nat} {slot : Slot}
    {operand : Operand} {field : Field} {value : Int} (place : slots[k]? = some slot)
    (given : operands[k]? = some operand) (filled : slot.field? = some field)
    (number : operand.number? = some value) : (field, value) ∈ packings slots operands := by
  have zipped : (slots.zip operands)[k]? = some (slot, operand) := by
    simp [List.getElem?_zip_eq_some, place, given]
  refine List.mem_filterMap.mpr ⟨(slot, operand), List.mem_of_getElem? zipped, ?_⟩
  simp [packing?, filled, number]

end Slot

/-- The constant bits and the places of a word; a short form has none of its own. -/
def Form.word? : Form → Option (Nat × List Slot)
  | word opcode slots => some (opcode, slots)
  | short _ _ => none

namespace Catalog

def words (mnemonic : Mnemonic) : List (Nat × List Slot) :=
  (forms mnemonic).filterMap Form.word?

theorem mem_words {mnemonic : Mnemonic} {opcode : Nat} {slots : List Slot} :
    (opcode, slots) ∈ words mnemonic ↔ Form.word opcode slots ∈ forms mnemonic := by
  rw [words, List.mem_filterMap]
  constructor
  · rintro ⟨form, member, same⟩
    cases form with
    | word _ _ =>
      cases same
      exact member
    | short _ _ => cases same
  · intro member
    exact ⟨_, member, rfl⟩

theorem opcode_lt (mnemonic : Mnemonic) : ∀ word ∈ words mnemonic, word.1 < 0x10000 := by
  cases mnemonic <;> decide

theorem opcode_apart (mnemonic : Mnemonic) :
    ∀ word ∈ words mnemonic, ∀ field ∈ Slot.fields word.2, word.1 &&& field.bits = 0 := by
  cases mnemonic <;> decide

theorem fields_apart (mnemonic : Mnemonic) :
    ∀ word ∈ words mnemonic,
      (Slot.fields word.2).Pairwise (fun a b => a.bits &&& b.bits = 0) := by
  cases mnemonic <;> decide

theorem packed_iff_numeric (mnemonic : Mnemonic) :
    ∀ word ∈ words mnemonic, ∀ slot ∈ word.2,
      slot.field?.isSome = true ↔ slot.pattern.Numeric := by
  cases mnemonic <;> decide

theorem immediates_le (mnemonic : Mnemonic) :
    ∀ word ∈ words mnemonic, (Slot.shape word.2).count .immediate ≤ 1 := by
  cases mnemonic <;> decide

theorem words_clash (mnemonic : Mnemonic) :
    (words mnemonic).Pairwise (fun a b => Pattern.clashAll (Slot.shape a.2) (Slot.shape b.2)) := by
  cases mnemonic <;> decide

end Catalog

end ChipEight
