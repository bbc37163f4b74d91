import Mathlib.Algebra.Group.Nat.Defs
import Mathlib.Data.List.Induction
import ChipEight.Text.Hexadecimal

set_option autoImplicit false

/-!
Written numbers of base sixteen.  All their characters are digits, a number below a power of sixteen
needs no more digits than the exponent says, and zeros in front do not change what is read.
-/

namespace ChipEight.Text.Hexadecimal

/-- The integer that upper-case digits write, with or without a minus sign in front. -/
def integer? : List Char → Option Int
  | '-' :: text => (number? text).map fun n : Nat => -(n : Int)
  | text => (number? text).map fun n : Nat => (n : Int)

theorem mem_digits {n : Nat} {c : Char} (member : c ∈ digits n) : ∃ m < 16, c = digit m := by
  induction n using Nat.strongRecOn with
  | ind n ih =>
    by_cases small : n < 16
    · rw [digits_of_lt small, List.mem_singleton] at member
      exact ⟨n, small, member⟩
    · rw [digits_of_le (by omega), List.mem_append, List.mem_singleton] at member
      rcases member with front | last
      · exact ih (n / 16) (by omega) front
      · exact ⟨n % 16, by omega, last⟩

theorem mem_fill {width : Nat} {n : Nat} {c : Char} (member : c ∈ fill width (digits n)) :
    ∃ m < 16, c = digit m := by
  rcases List.mem_append.mp member with zero | written
  · have same : c = '0' := List.eq_of_mem_replicate zero
    exact ⟨0, by omega, same⟩
  · exact mem_digits written

theorem not_mem_fill {c : Char} (worthless : value? c = none) (width n : Nat) :
    c ∉ fill width (digits n) := by
  intro member
  obtain ⟨m, small, rfl⟩ := mem_fill member
  rw [value?_digit small] at worthless
  cases worthless

theorem not_mem_padded {c : Char} (worthless : value? c = none) (unsigned : c ≠ '-') (width : Nat)
    (n : Int) : c ∉ padded width n := by
  unfold padded
  split
  · rw [List.mem_cons, not_or]
    exact ⟨unsigned, not_mem_fill worthless _ _⟩
  · exact not_mem_fill worthless _ _

theorem length_digits_le {n k : Nat} (bound : n < 16 ^ (k + 1)) :
    (digits n).length ≤ k + 1 := by
  induction k generalizing n with
  | zero =>
    rw [digits_of_lt (by omega)]
    simp
  | succ k ih =>
    by_cases small : n < 16
    · rw [digits_of_lt small]
      simp
    · have quotient : n / 16 < 16 ^ (k + 1) := by
        rw [Nat.pow_succ] at bound
        omega
      have shorter := ih quotient
      rw [digits_of_le (by omega), List.length_append, List.length_singleton]
      omega

theorem length_fill (width : Nat) (text : List Char) :
    (fill width text).length = max width text.length := by
  rw [fill, List.length_append, List.length_replicate]
  omega

theorem value?_lt {c : Char} {n : Nat} (found : value? c = some n) : n < 16 := by
  simp only [value?] at found
  split at found
  · cases found
    omega
  · split at found
    · cases found
      omega
    · cases found

theorem number?_lt {text : List Char} {n : Nat} (found : number? text = some n) :
    n < 16 ^ text.length := by
  induction text using List.reverseRecOn generalizing n with
  | nil =>
    cases found
    decide
  | append_singleton text c ih =>
    rw [number?_append_singleton] at found
    obtain ⟨front, read, last⟩ := Option.bind_eq_some_iff.mp found
    obtain ⟨value, digit, rfl⟩ := Option.map_eq_some_iff.mp last
    have below := ih read
    have small := value?_lt digit
    rw [List.length_append, List.length_singleton, Nat.pow_succ]
    omega

def alphabet : List Char :=
  ['0', '1', '2', '3', '4', '5', '6', '7', '8', '9', 'A', 'B', 'C', 'D', 'E', 'F']

theorem isSome_value?_iff {c : Char} : (value? c).isSome = true ↔ c ∈ alphabet := by
  constructor
  · intro worth
    obtain ⟨n, found⟩ := Option.isSome_iff_exists.mp worth
    have codes : ∀ m : Fin 0x80, (value? (Char.ofNat m)).isSome = true →
        Char.ofNat m ∈ alphabet := by decide
    have small : c.toNat < 0x80 := by
      simp only [value?] at found
      split at found
      · omega
      · split at found
        · omega
        · cases found
    have same := codes ⟨c.toNat, small⟩
    rw [Char.ofNat_toNat] at same
    exact same worth
  · intro member
    have all : alphabet.all (fun digit => (value? digit).isSome) = true := by decide
    exact List.all_eq_true.mp all c member

theorem isSome_number?_iff {text : List Char} :
    (number? text).isSome = true ↔ ∀ c ∈ text, c ∈ alphabet := by
  induction text using List.reverseRecOn with
  | nil => simp [number?]
  | append_singleton text c ih =>
    rw [number?_append_singleton, List.forall_mem_append, List.forall_mem_singleton, ← ih,
      ← isSome_value?_iff]
    cases number? text <;> cases value? c <;> simp

theorem fill_two {n : Nat} (bound : n < 256) :
    fill 2 (digits n) = [digit (n / 16), digit (n % 16)] := by
  by_cases small : n < 16
  · have front : n / 16 = 0 := by omega
    have back : n % 16 = n := by omega
    rw [digits_of_lt small, front, back]
    rfl
  · rw [digits_of_le (by omega), digits_of_lt (n := n / 16) (by omega)]
    rfl

theorem number?_fill (width n : Nat) : number? (fill width (digits n)) = some n := by
  rw [← number?_digits n, fill]
  -- Each zero in front leaves the value that was read so far at zero.
  induction width - (digits n).length with
  | zero => rfl
  | succ k ih =>
    rw [← ih, List.replicate_succ, List.cons_append]
    rfl

theorem integer?_padded (width : Nat) (n : Int) : integer? (padded width n) = some n := by
  unfold padded
  split
  · rename_i negative
    have sign : -(n.natAbs : Int) = n := by omega
    rw [integer?, number?_fill, Option.map_some, sign]
  · rename_i nonnegative
    have sign : (n.natAbs : Int) = n := by omega
    have unsigned : ∀ text, fill width (digits n.natAbs) ≠ '-' :: text := by
      intro text same
      have minus : '-' ∉ fill width (digits n.natAbs) := not_mem_fill (by decide) _ _
      rw [same] at minus
      exact minus List.mem_cons_self
    rw [integer?, number?_fill, Option.map_some, sign]
    exact unsigned

end ChipEight.Text.Hexadecimal
