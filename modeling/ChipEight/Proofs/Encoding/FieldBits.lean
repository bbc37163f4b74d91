import Mathlib.Data.Int.Bitwise
import Mathlib.Data.Int.ModEq
import ChipEight.Field

set_option autoImplicit false

/-!
The bits of a word that a field covers.  A packed word holds in each field what the field keeps of
its value, as long as the fields lie apart from each other and from the constant bits.
-/

namespace ChipEight.Field

def width : Field → Nat
  | nn => 8
  | nnn => 12
  | _ => 4

def bits (field : Field) : Nat :=
  field.mask <<< field.shift

def extract (field : Field) (word : Nat) : Nat :=
  (word >>> field.shift) &&& field.mask

def covered (fields : List Field) : Nat :=
  fields.foldl (fun word field => word ||| field.bits) 0

theorem mask_eq (field : Field) : field.mask = 2 ^ field.width - 1 := by
  cases field <;> rfl

private theorem mask_add_one (field : Field) : field.mask + 1 = 2 ^ field.width := by
  cases field <;> rfl

private theorem content_lt (field : Field) (value : Int) :
    field.content value < 2 ^ field.width := by
  have bound := field.content_le_mask value
  have size := field.mask_add_one
  omega

private theorem ldiff_two_pow_sub_one (n m : Nat) :
    Nat.ldiff (2 ^ n - 1) m = 2 ^ n - (m % 2 ^ n + 1) := by
  apply Nat.eq_of_testBit_eq
  intro i
  have low : m % 2 ^ n < 2 ^ n := Nat.mod_lt _ (Nat.two_pow_pos n)
  rw [Nat.testBit_ldiff, Nat.testBit_two_pow_sub_one, Nat.testBit_two_pow_sub_succ low,
    Nat.testBit_mod_two_pow]
  by_cases inside : i < n <;> simp [inside]

/-- A field keeps the low bits of a value, of a negative one in two's complement. -/
theorem content_eq_land (field : Field) (value : Int) :
    (field.content value : Int) = Int.land value field.mask := by
  have size : ((field.mask + 1 : Nat) : Int) = ((2 ^ field.width : Nat) : Int) := by
    rw [field.mask_add_one]
  have positive : (0 : Int) < ((2 ^ field.width : Nat) : Int) := by
    exact_mod_cast Nat.two_pow_pos field.width
  rw [content, size, Int.toNat_of_nonneg (Int.emod_nonneg _ (ne_of_gt positive)), mask_eq]
  cases value with
  | ofNat n =>
    change ((n : Int) % ((2 ^ field.width : Nat) : Int)) =
      ((n &&& (2 ^ field.width - 1) : Nat) : Int)
    rw [Nat.and_two_pow_sub_one_eq_mod]
    exact (Int.natCast_mod n _).symm
  | negSucc n =>
    change (Int.negSucc n % ((2 ^ field.width : Nat) : Int)) =
      ((Nat.ldiff (2 ^ field.width - 1) n : Nat) : Int)
    have low : n % 2 ^ field.width < 2 ^ field.width := Nat.mod_lt _ (Nat.two_pow_pos _)
    rw [ldiff_two_pow_sub_one, Int.negSucc_emod n positive]
    have cast : ((n : Int) % ((2 ^ field.width : Nat) : Int)) = ((n % 2 ^ field.width : Nat) : Int) :=
      (Int.natCast_mod n _).symm
    rw [cast]
    omega

theorem content_eq_content_iff (field : Field) (u v : Int) :
    field.content u = field.content v ↔ u ≡ v [ZMOD (field.mask + 1 : Nat)] := by
  have positive : (0 : Int) < ((field.mask + 1 : Nat) : Int) := by omega
  have first := Int.emod_nonneg u (ne_of_gt positive)
  have second := Int.emod_nonneg v (ne_of_gt positive)
  unfold content Int.ModEq
  constructor
  · intro same
    omega
  · intro same
    rw [same]

@[simp] theorem extract_or (field : Field) (a b : Nat) :
    field.extract (a ||| b) = field.extract a ||| field.extract b := by
  simp only [extract, Nat.shiftRight_or_distrib, Nat.and_or_distrib_right]

@[simp] theorem extract_place (field : Field) (value : Int) :
    field.extract (field.place value) = field.content value := by
  have small := field.content_lt value
  rw [extract, place, Nat.shiftLeft_shiftRight, mask_eq,
    Nat.and_two_pow_sub_one_of_lt_two_pow small]

theorem extract_eq_zero (field : Field) {word : Nat} (apart : word &&& field.bits = 0) :
    field.extract word = 0 := by
  apply Nat.eq_of_testBit_eq
  intro i
  have bit := congrArg (fun n => n.testBit (field.shift + i)) apart
  simpa [bits, extract] using bit

theorem place_or_bits (field : Field) (value : Int) :
    field.place value ||| field.bits = field.bits := by
  have small := field.content_lt value
  rw [place, bits, ← Nat.shiftLeft_or_distrib]
  congr 1
  apply Nat.eq_of_testBit_eq
  intro i
  rw [Nat.testBit_or, mask_eq, Nat.testBit_two_pow_sub_one]
  by_cases inside : i < field.width
  · simp [inside]
  · have outside : field.content value < 2 ^ i :=
      lt_of_lt_of_le small (Nat.pow_le_pow_right (by omega) (by omega))
    simp [inside, Nat.testBit_lt_two_pow outside]

theorem place_and_eq_zero (field : Field) (value : Int) {word : Nat}
    (apart : field.bits &&& word = 0) : field.place value &&& word = 0 := by
  have inside := congrArg (fun n => n &&& word) (field.place_or_bits value)
  simp only [Nat.and_or_distrib_right, apart, Nat.or_zero] at inside
  exact inside

theorem place_lt (field : Field) (value : Int) : field.place value < 0x10000 := by
  have small := field.content_le_mask value
  rw [place, Nat.shiftLeft_eq]
  cases field <;> simp only [mask, shift] at small ⊢ <;> omega

@[simp] theorem pack_nil (opcode : Nat) : pack opcode [] = opcode := rfl

@[simp] theorem pack_cons (opcode : Nat) (field : Field) (value : Int)
    (packings : List (Field × Int)) :
    pack opcode ((field, value) :: packings) = pack (opcode ||| field.place value) packings := rfl

theorem pack_append (opcode : Nat) (first rest : List (Field × Int)) :
    pack opcode (first ++ rest) = pack (pack opcode first) rest :=
  List.foldl_append

theorem pack_lt {opcode : Nat} (short : opcode < 0x10000) (packings : List (Field × Int)) :
    pack opcode packings < 0x10000 := by
  induction packings generalizing opcode with
  | nil => exact short
  | cons packing packings ih =>
    obtain ⟨field, value⟩ := packing
    rw [pack_cons]
    exact ih (Nat.or_lt_two_pow (n := 16) short (field.place_lt value))

theorem extract_pack_of_apart (field : Field) (opcode : Nat) {packings : List (Field × Int)}
    (apart : ∀ packing ∈ packings, packing.1.bits &&& field.bits = 0) :
    field.extract (pack opcode packings) = field.extract opcode := by
  induction packings generalizing opcode with
  | nil => rfl
  | cons packing packings ih =>
    obtain ⟨other, value⟩ := packing
    have outside : other.place value &&& field.bits = 0 :=
      other.place_and_eq_zero value (apart (other, value) List.mem_cons_self)
    rw [pack_cons, ih _ (fun packing member => apart packing (List.mem_cons_of_mem _ member)),
      extract_or, field.extract_eq_zero outside, Nat.or_zero]

theorem extract_pack {field : Field} {value : Int} {opcode : Nat} {packings : List (Field × Int)}
    (member : (field, value) ∈ packings) (constant : opcode &&& field.bits = 0)
    (apart : packings.Pairwise (fun a b => a.1.bits &&& b.1.bits = 0)) :
    field.extract (pack opcode packings) = field.content value := by
  induction packings generalizing opcode with
  | nil => simp at member
  | cons packing packings ih =>
    obtain ⟨first, rest⟩ := List.pairwise_cons.mp apart
    rcases List.mem_cons.mp member with rfl | later
    · have others : ∀ packing ∈ packings, packing.1.bits &&& field.bits = 0 := by
        intro packing later
        rw [Nat.and_comm]
        exact first packing later
      rw [pack_cons, extract_pack_of_apart field _ others, extract_or,
        field.extract_eq_zero constant, extract_place, Nat.zero_or]
    · obtain ⟨other, before⟩ := packing
      rw [pack_cons]
      apply ih later _ rest
      rw [Nat.and_or_distrib_right, constant,
        other.place_and_eq_zero before (first (field, value) later), Nat.zero_or]

private theorem foldl_bits_or (fields : List Field) (start : Nat) :
    fields.foldl (fun word field => word ||| field.bits) start = start ||| covered fields := by
  unfold covered
  induction fields generalizing start with
  | nil => simp
  | cons field fields ih =>
    rw [List.foldl_cons, List.foldl_cons, ih (start ||| field.bits), ih (0 ||| field.bits),
      Nat.zero_or, Nat.or_assoc]

theorem covered_cons (field : Field) (fields : List Field) :
    covered (field :: fields) = field.bits ||| covered fields := by
  rw [covered, List.foldl_cons, Nat.zero_or, foldl_bits_or]

private theorem bits_or_covered {field : Field} {fields : List Field} (member : field ∈ fields) :
    field.bits ||| covered fields = covered fields := by
  induction fields with
  | nil => simp at member
  | cons first fields ih =>
    rw [covered_cons]
    rcases List.mem_cons.mp member with rfl | member
    · rw [← Nat.or_assoc, Nat.or_self]
    · rw [← Nat.or_assoc, Nat.or_comm field.bits, Nat.or_assoc, ih member]

theorem pack_or_covered (opcode : Nat) {packings : List (Field × Int)} {fields : List Field}
    (inside : ∀ packing ∈ packings, packing.1 ∈ fields) :
    pack opcode packings ||| covered fields = opcode ||| covered fields := by
  induction packings generalizing opcode with
  | nil => rfl
  | cons packing packings ih =>
    obtain ⟨field, value⟩ := packing
    have member : field ∈ fields := inside (field, value) List.mem_cons_self
    rw [pack_cons, ih _ (fun packing later => inside packing (List.mem_cons_of_mem _ later)),
      ← bits_or_covered member, Nat.or_assoc, ← Nat.or_assoc (field.place value),
      place_or_bits]

end ChipEight.Field
