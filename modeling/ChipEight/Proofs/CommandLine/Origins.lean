import ChipEight.Target
import ChipEight.Proofs.Text.Numerals

set_option autoImplicit false

/-!
The notations of an origin.  A number reads back from each of them, whatever blanks stand around it
and whatever single underscores part its digits; a second underscore, one that stands last, and a
sign before the marker of base sixteen are refused.
-/

namespace ChipEight.Origin

open Text Text.Integer

def Encloses (text word : List Char) : Prop :=
  ∃ before behind, text = before ++ word ++ behind ∧ (∀ c ∈ before, Blank.isBlank c = true) ∧
    ∀ c ∈ behind, Blank.isBlank c = true

def marks : List (List Char) :=
  [['0', 'x'], ['0', 'X'], ['$'], ['$', '0', 'x'], ['$', '0', 'X']]

/-- How a reader takes the notations of an origin: it gives back the number that is written in any of
them, and refuses stray underscores and a sign before the marker of base sixteen. -/
structure TakesNotations (read? : List Char → Option Int) : Prop where
  hexadecimal : ∀ n mark digits text, mark ∈ marks → Writes 16 n digits →
    Encloses text (mark ++ digits) → read? text = some (n : Int)
  decimal : ∀ n digits text, Writes 10 n digits → (figures digits).length ≤ 4300 →
    Encloses text digits → read? text = some (n : Int)
  negative : ∀ n digits text, Writes 10 n digits → (figures digits).length ≤ 4300 →
    Encloses text ('-' :: digits) → read? text = some (-(n : Int))
  adjacent : ∀ text, ['_', '_'] <:+: text → read? text = none
  trailing : ∀ word text, Encloses text (word ++ ['_']) → read? text = none
  signed : ∀ sign x rest text, sign = '+' ∨ sign = '-' → x = 'x' ∨ x = 'X' →
    Encloses text (sign :: '0' :: x :: rest) → read? text = none

variable {text word : List Char}

theorem Encloses.trim_eq (encloses : Encloses text word) : Blank.trim text = Blank.trim word := by
  obtain ⟨before, behind, rfl, left, right⟩ := encloses
  exact Blank.trim_pad left right word

theorem Encloses.read?_eq (encloses : Encloses text word) : read? text = read? word := by
  rw [read?, read?, encloses.trim_eq]

theorem read?_mark_append {n : Nat} {mark digits : List Char} (member : mark ∈ marks)
    (writes : Writes 16 n digits) : read? (mark ++ digits) = some (n : Int) := by
  have ascii : ∀ mark ∈ marks, Plain mark := by decide
  have plain : Plain (mark ++ digits) := plain_append (ascii mark member) (writes.plain (by decide))
  have behind : ∀ marker ∈ markers, hexadecimal? (marker ++ digits) = some (n : Int) :=
    fun marker inside => writes.hexadecimal?_append inside
  rw [read?, trim_of_plain plain]
  simp only [marks, List.mem_cons, List.not_mem_nil, or_false] at member
  rcases member with rfl | rfl | rfl | rfl | rfl
  · exact behind ['0', 'x'] (by decide)
  · exact behind ['0', 'X'] (by decide)
  · exact behind [] (by decide)
  · exact behind ['0', 'x'] (by decide)
  · exact behind ['0', 'X'] (by decide)

theorem read?_of_unmarked (zero : ∀ x rest, x = 'x' ∨ x = 'X' → Blank.trim text ≠ '0' :: x :: rest)
    (dollar : (Blank.trim text).head? ≠ some '$') : read? text = decimal? (Blank.trim text) := by
  simp only [read?]
  split
  · rename_i rest same
    exact absurd same (zero 'x' rest (.inl rfl))
  · rename_i rest same
    exact absurd same (zero 'X' rest (.inr rfl))
  · rename_i rest same
    exact absurd (by rw [same]; rfl) dollar
  · rfl

theorem read?_digits {n : Nat} {digits : List Char} (writes : Writes 10 n digits)
    (short : (figures digits).length ≤ decimalLimit) : read? digits = some (n : Int) := by
  have alone : Blank.trim digits = digits := trim_of_plain (writes.plain (by decide))
  rw [read?_of_unmarked, alone]
  · exact writes.decimal?_eq short
  · intro x rest letter same
    rw [alone] at same
    have inside : x ∈ digits := by simp [same]
    have foreign : digitValue? x = none ∧ x ≠ '_' := by
      rcases letter with rfl | rfl <;> decide
    exact writes.not_mem (by decide) foreign inside
  · intro first
    rw [alone] at first
    exact writes.not_mem (by decide) (by decide) (List.mem_of_head? first)

theorem read?_of_sign {sign : Char} (signs : sign = '+' ∨ sign = '-') (rest : List Char) :
    read? (sign :: rest) = decimal? (Blank.trim (sign :: rest)) := by
  obtain ⟨keep, zero, dollar⟩ : Blank.isBlank sign = false ∧ sign ≠ '0' ∧ sign ≠ '$' := by
    rcases signs with rfl | rfl <;> decide
  have first := Blank.head?_trim keep rest
  apply read?_of_unmarked
  · intro x tail _ same
    rw [same] at first
    exact zero (Option.some.inj first).symm
  · rw [first]
    exact fun same => dollar (Option.some.inj same)

theorem tidy_of_read? {n : Int} (read : read? text = some n) : Tidy text := by
  apply tidy_of_trim
  simp only [read?] at read
  split at read
  · exact tidy_of_hexadecimal? read
  · exact tidy_of_hexadecimal? read
  · rename_i rest same
    rw [same]
    exact (tidy_of_hexadecimal? read).cons (by decide)
  · exact tidy_of_decimal? read

/-- The reader of origins takes every notation, and refuses what is none. -/
theorem notations_read : TakesNotations read? where
  hexadecimal n mark digits text member writes encloses := by
    rw [encloses.read?_eq]
    exact read?_mark_append member writes
  decimal n digits text writes short encloses := by
    rw [encloses.read?_eq]
    exact read?_digits writes short
  negative n digits text writes short encloses := by
    have sign : Plain ['-'] := by decide
    have plain : Plain ('-' :: digits) := plain_append sign (writes.plain (by decide))
    rw [encloses.read?_eq, read?_of_sign (.inr rfl), trim_of_plain plain]
    exact writes.decimal?_minus short
  adjacent text twice := by
    refine Option.eq_none_iff_forall_ne_some.mpr fun n read => ?_
    have chain := List.IsChain.infix (tidy_of_read? read).single twice
    simp at chain
  trailing word text encloses := by
    refine Option.eq_none_iff_forall_ne_some.mpr fun n read => ?_
    rw [encloses.read?_eq] at read
    exact (tidy_of_read? read).last (by simp)
  signed sign x rest text signs letter encloses := by
    obtain ⟨keep, plain, solid, worthless, other⟩ : Blank.isBlank x = false ∧ folded x = x ∧
        isPadding x = false ∧ digit? 10 x = none ∧ x ∉ ['_', '+', '-'] := by
      rcases letter with rfl | rfl <;> decide
    have inside : x ∈ Blank.trim (sign :: '0' :: x :: rest) := Blank.mem_trim (by simp) keep
    rw [encloses.read?_eq, read?_of_sign signs]
    exact decimal?_eq_none_of_mem inside plain solid worthless other

theorem notations_read_mixed :
    read? [' ', '\t', '$', '0', 'x', '0', '_', '1', 'a', 'F', '\u00a0'] = some 0x1AF ∧
      read? ['\u3000', '-', '0', '0', '_', '7'] = some (-7) ∧
      read? ['$', '1', '_', '_', '2'] = none ∧ read? ['0', 'X', '1', '_', ' '] = none ∧
      read? ['\n', '+', '0', 'X', '1'] = none := by
  have blank : ∀ {outer : List Char}, outer.all Blank.isBlank = true →
      ∀ c ∈ outer, Blank.isBlank c = true := List.all_eq_true.mp
  refine ⟨?_, ?_, ?_, ?_, ?_⟩
  · exact notations_read.hexadecimal 0x1AF ['$', '0', 'x'] ['0', '_', '1', 'a', 'F'] _ (by decide)
      ⟨⟨⟨by simp, by simp⟩, by simp⟩, 1, by decide⟩
      ⟨[' ', '\t'], ['\u00a0'], rfl, blank (by decide), blank (by decide)⟩
  · exact notations_read.negative 7 ['0', '0', '_', '7'] _
      ⟨⟨⟨by simp, by simp⟩, by simp⟩, 2, by decide⟩ (by decide)
      ⟨['\u3000'], [], rfl, blank (by decide), blank (by decide)⟩
  · exact notations_read.adjacent _ ⟨['$', '1'], ['2'], rfl⟩
  · exact notations_read.trailing ['0', 'X', '1'] _
      ⟨[], [' '], rfl, blank (by decide), blank (by decide)⟩
  · exact notations_read.signed '+' 'X' ['1'] _ (.inl rfl) (.inr rfl)
      ⟨['\n'], [], rfl, blank (by decide), blank (by decide)⟩

end ChipEight.Origin
