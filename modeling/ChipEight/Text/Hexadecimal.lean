set_option autoImplicit false

/-!
Base sixteen with upper-case digits: `digits` writes a number, `padded` fills it up to a width in
which the sign counts, `value?` and `number?` read digits back.
-/

namespace ChipEight.Text.Hexadecimal

def digit (n : Nat) : Char :=
  Char.ofNat (if n < 10 then 0x30 + n else 0x37 + n)

/-- The digits of a number without leading zeros, in front of a text. -/
def digitsOnto (text : List Char) (n : Nat) : List Char :=
  if n < 16 then digit n :: text else digitsOnto (digit (n % 16) :: text) (n / 16)

def digits (n : Nat) : List Char :=
  digitsOnto [] n

def fill (width : Nat) (text : List Char) : List Char :=
  List.replicate (width - text.length) '0' ++ text

/-- An integer in at least `width` characters, a minus sign among them. -/
def padded (width : Nat) (n : Int) : List Char :=
  if n < 0 then '-' :: fill (width - 1) (digits n.natAbs) else fill width (digits n.natAbs)

def signed (n : Int) : List Char :=
  padded 0 n

def value? (c : Char) : Option Nat :=
  let n := c.toNat
  if 0x30 ≤ n ∧ n ≤ 0x39 then some (n - 0x30)
  else if 0x41 ≤ n ∧ n ≤ 0x46 then some (n - 0x37)
  else none

def number? (text : List Char) : Option Nat :=
  text.foldl (fun acc c => acc.bind fun n => (value? c).map (16 * n + ·)) (some 0)

theorem digitsOnto_eq_append (text : List Char) (n : Nat) :
    digitsOnto text n = digits n ++ text := by
  suffices h : ∀ more, digitsOnto (more ++ text) n = digitsOnto more n ++ text from h []
  induction n using Nat.strongRecOn with
  | ind n ih =>
    intro more
    by_cases h : n < 16
    · rw [digitsOnto, if_pos h, digitsOnto, if_pos h]
      rfl
    · rw [digitsOnto, if_neg h, digitsOnto.eq_def more n, if_neg h]
      exact ih (n / 16) (by omega) (digit (n % 16) :: more)

theorem digits_of_lt {n : Nat} (h : n < 16) : digits n = [digit n] := by
  rw [digits, digitsOnto, if_pos h]

theorem digits_of_le {n : Nat} (h : 16 ≤ n) : digits n = digits (n / 16) ++ [digit (n % 16)] := by
  rw [digits, digitsOnto, if_neg (by omega), digitsOnto_eq_append]

theorem value?_digit {n : Nat} (h : n < 16) : value? (digit n) = some n := by
  have all : ∀ m : Fin 16, value? (digit m) = some m.val := by decide
  exact all ⟨n, h⟩

theorem number?_append_singleton (text : List Char) (c : Char) :
    number? (text ++ [c]) = (number? text).bind fun n => (value? c).map (16 * n + ·) := by
  simp [number?]

theorem number?_digits (n : Nat) : number? (digits n) = some n := by
  induction n using Nat.strongRecOn with
  | ind n ih =>
    by_cases h : n < 16
    · simp [digits_of_lt h, number?, value?_digit h]
    · have low : n % 16 < 16 := Nat.mod_lt _ (by decide)
      rw [digits_of_le (by omega), number?_append_singleton, ih (n / 16) (by omega)]
      simp [value?_digit low, Nat.div_add_mod]

end ChipEight.Text.Hexadecimal
