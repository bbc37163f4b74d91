import ChipEight.Assembly
import ChipEight.Proofs.Passes.LineWords
import ChipEight.Proofs.Text.HexDigits

set_option autoImplicit false

/-!
The columns of a listing and their reader.  The reader takes rows that start with an address, cuts the
address at the first two spaces in a row and takes the next five characters for the bytes; on the rows
of a listing it finds the columns that were put there, whatever stands behind them.
-/

namespace ChipEight.Listing

open Text

/-- The text before its first two spaces in a row, and the text behind them. -/
def splitAtGap : List Char → List Char × List Char
  | [] => ([], [])
  | ' ' :: ' ' :: rest => ([], rest)
  | c :: rest => (c :: (splitAtGap rest).1, (splitAtGap rest).2)

structure Columns where
  address : List Char
  bytes : List Char
deriving DecidableEq

namespace Columns

/-- The columns of a row that starts with an address; other rows have none. -/
def read? (row : List Char) : Option Columns :=
  match row with
  | '0' :: 'x' :: _ => some ⟨(splitAtGap row).1, (splitAtGap row).2.take 5⟩
  | _ => none

def address? (columns : Columns) : Option Int :=
  match columns.address with
  | '0' :: 'x' :: digits => Hexadecimal.integer? digits
  | _ => none

def byte? (high low : Char) : Option UInt8 :=
  (Hexadecimal.number? [high, low]).map UInt8.ofNat

/-- The bytes that a column shows: none if it is blank, else two pairs of digits. -/
def bytes? (columns : Columns) : Option (List UInt8) :=
  match columns.bytes with
  | [' ', ' ', ' ', ' ', ' '] => some []
  | [a, b, ' ', c, d] =>
    match byte? a b, byte? c d with
    | some high, some low => some [high, low]
    | _, _ => none
  | _ => none

end Columns

def showsBytes (row : List Char) : Bool :=
  match Columns.read? row with
  | some columns => columns.bytes != gap 5
  | none => false

/-- The bytes that a row shows; one without an address is passed over. -/
def rowBytes? (row : List Char) : Option (List UInt8) :=
  match Columns.read? row with
  | some columns => columns.bytes?
  | none => some []

def readBytes : List (List Char) → Option (List UInt8)
  | [] => some []
  | row :: rows =>
    match rowBytes? row, readBytes rows with
    | some here, some rest => some (here ++ rest)
    | _, _ => none

theorem splitAtGap_append {text : List Char} (solid : ' ' ∉ text) (rest : List Char) :
    splitAtGap (text ++ ' ' :: ' ' :: rest) = (text, rest) := by
  induction text with
  | nil => rfl
  | cons c text ih =>
    rw [List.mem_cons, not_or] at solid
    have step : splitAtGap (c :: (text ++ ' ' :: ' ' :: rest)) =
        (c :: (splitAtGap (text ++ ' ' :: ' ' :: rest)).1,
          (splitAtGap (text ++ ' ' :: ' ' :: rest)).2) := by
      apply splitAtGap.eq_3
      rintro more rfl
      exact absurd rfl solid.1
    rw [List.cons_append, step, ih solid.2]

theorem not_mem_address {c : Char} (worthless : Hexadecimal.value? c = none)
    (other : c ∉ ['0', 'x', '-']) (n : Int) : c ∉ address n := by
  simp only [List.mem_cons, List.not_mem_nil, or_false, not_or] at other
  have digits : c ∉ Hexadecimal.padded 4 n := Hexadecimal.not_mem_padded worthless other.2.2 4 n
  simp [address, other, digits]

theorem not_mem_word {c : Char} (worthless : Hexadecimal.value? c = none)
    (other : c ∉ [' ', '-']) (n : Nat) : c ∉ word n := by
  simp only [List.mem_cons, List.not_mem_nil, or_false, not_or] at other
  have digits : ∀ m, c ∉ Hexadecimal.padded 2 m := Hexadecimal.not_mem_padded worthless other.2 2
  simp [word, other, digits]

theorem read?_row {bytes : List Char} (five : bytes.length = 5) (n : Int) (source : List Char) :
    Columns.read? (row (address n) bytes source) = some ⟨address n, bytes⟩ := by
  have whole : row (address n) bytes source =
      address n ++ ' ' :: ' ' :: (bytes ++ ' ' :: ' ' :: source) := by
    simp [row]
  have parts := splitAtGap_append (not_mem_address (by decide) (by decide) n) (bytes ++ ' ' :: ' ' :: source)
  rw [← whole] at parts
  have start : row (address n) bytes source =
      '0' :: 'x' :: (Hexadecimal.padded 4 n ++ ' ' :: ' ' :: (bytes ++ ' ' :: ' ' :: source)) := whole
  rw [start] at parts ⊢
  have first : (bytes ++ ' ' :: ' ' :: source).take 5 = bytes := by
    rw [← five, List.take_left]
  simp only [Columns.read?, parts, first]

theorem read?_row_gap (source : List Char) : Columns.read? (row (gap 6) (gap 5) source) = none :=
  rfl

theorem address?_address (n : Int) (bytes : List Char) :
    (Columns.mk (address n) bytes).address? = some n :=
  Hexadecimal.integer?_padded 4 n

theorem padded_two {n : Nat} (bound : n < 256) :
    Hexadecimal.padded 2 n = [Hexadecimal.digit (n / 16), Hexadecimal.digit (n % 16)] := by
  have nonnegative : ¬ (n : Int) < 0 := by omega
  rw [Hexadecimal.padded, if_neg nonnegative, Int.natAbs_natCast, Hexadecimal.fill_two bound]

theorem byte?_digits {n : Nat} (bound : n < 256) :
    Columns.byte? (Hexadecimal.digit (n / 16)) (Hexadecimal.digit (n % 16)) =
      some (UInt8.ofNat n) := by
  have read := Hexadecimal.number?_fill 2 n
  rw [Hexadecimal.fill_two bound] at read
  rw [Columns.byte?, read, Option.map_some]

-- A first character other than a space tells the column from a blank one.
private theorem bytes?_pairs {a b c d : Char} {high low : UInt8} {shown : List Char}
    (visible : a ≠ ' ') (front : Columns.byte? a b = some high)
    (back : Columns.byte? c d = some low) :
    (Columns.mk shown [a, b, ' ', c, d]).bytes? = some [high, low] := by
  unfold Columns.bytes?
  split
  · rename_i blank
    simp only [List.cons.injEq] at blank
    exact absurd blank.1 visible
  · rename_i same
    simp only [List.cons.injEq] at same
    obtain ⟨rfl, rfl, -, rfl, rfl, -⟩ := same
    simp only [front, back]
  · rename_i other
    exact absurd rfl (other a b c d)

section Word

variable {n : Nat}

private theorem word_eq (short : n < 0x10000) :
    word n = [Hexadecimal.digit (n / 256 / 16), Hexadecimal.digit (n / 256 % 16), ' ',
      Hexadecimal.digit (n % 256 / 16), Hexadecimal.digit (n % 256 % 16)] := by
  have high : n >>> 8 = n / 256 := Nat.shiftRight_eq_div_pow n 8
  have front : n / 256 < 256 := by omega
  have back : n % 256 < 256 := by omega
  rw [word, high, padded_two front, padded_two back]
  rfl

theorem length_word (short : n < 0x10000) : (word n).length = 5 := by
  rw [word_eq short]
  rfl

theorem bytes?_word (short : n < 0x10000) (shown : List Char) :
    (Columns.mk shown (word n)).bytes? = some (bigEndian n) := by
  have high : n >>> 8 = n / 256 := Nat.shiftRight_eq_div_pow n 8
  have front := byte?_digits (n := n / 256) (by omega)
  have back := byte?_digits (n := n % 256) (by omega)
  have low : UInt8.ofNat (n % 256) = UInt8.ofNat n := by
    apply UInt8.toNat_inj.mp
    simp
  have visible : Hexadecimal.digit (n / 256 / 16) ≠ ' ' := by
    intro same
    have value := Hexadecimal.value?_digit (n := n / 256 / 16) (by omega)
    rw [same] at value
    cases value
  rw [word_eq short, bytes?_pairs visible front back, bigEndian, high, low]

theorem word_ne_gap (short : n < 0x10000) : word n ≠ gap 5 := by
  intro same
  have bytes := bytes?_word short []
  rw [same] at bytes
  cases bytes

end Word

end ChipEight.Listing
