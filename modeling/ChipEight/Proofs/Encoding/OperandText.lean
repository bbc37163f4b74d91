import ChipEight.Operand
import ChipEight.Proofs.Text.Comments
import ChipEight.Proofs.Text.HexDigits

set_option autoImplicit false

/-!
Operands as text.  A word is read as nothing, as a label, or as an operand that can be written: the
spelling of such an operand has only solid characters and reads as it, by itself and between commas.
-/

namespace ChipEight

open Text
open Text.Blank (isBlank Trimmed)
open Text.UpperCase (upper)

namespace Text

/-- A text that a line keeps whole: it is not empty, no blank is around it and no comment in it. -/
structure Tight (text : List Char) : Prop where
  nonempty : text ≠ []
  trimmed : Trimmed text
  free : Comment.cut text = text

/-- A character that neither parts words, operands or lines nor starts a comment. -/
def Solid (c : Char) : Prop :=
  isBlank c = false ∧ c ≠ ',' ∧ c ≠ '/'

instance (c : Char) : Decidable (Solid c) :=
  inferInstanceAs (Decidable (_ ∧ _))

theorem solid_of_all {text : List Char} (all : text.all (fun c => decide (Solid c)) = true) :
    ∀ c ∈ text, Solid c := by
  intro c member
  exact of_decide_eq_true (List.all_eq_true.mp all c member)

theorem tight_of_solid {text : List Char} (nonempty : text ≠ []) (solid : ∀ c ∈ text, Solid c) :
    Tight text := by
  refine ⟨nonempty, ⟨?_, ?_⟩, ?_⟩
  · intro c first
    exact (solid c (List.mem_of_head? first)).1
  · intro c last
    exact (solid c (List.mem_of_getLast? last)).1
  · apply Comment.cut_of_not_mem
    intro slash
    exact (solid _ slash).2.2 rfl

theorem Tight.append {front back gap : List Char} (left : Tight front) (right : Tight back)
    (nonempty : gap ≠ []) (clear : '/' ∉ gap) : Tight (front ++ gap ++ back) := by
  refine ⟨?_, ⟨?_, ?_⟩, ?_⟩
  · simp [left.nonempty]
  · intro c first
    rw [List.append_assoc, List.head?_append_of_ne_nil _ left.nonempty] at first
    exact left.trimmed.1 c first
  · intro c last
    rw [List.getLast?_append_of_ne_nil _ right.nonempty] at last
    exact right.trimmed.2 c last
  · obtain ⟨c, gap, rfl⟩ := List.exists_cons_of_ne_nil nonempty
    rw [List.mem_cons, not_or] at clear
    rw [List.append_assoc, List.cons_append, Comment.cut_append_cons left.free (Ne.symm clear.1),
      Comment.cut_append_of_not_mem clear.2, right.free]

end Text

namespace Operand

/-- An operand whose spelling reads as it, by itself and between commas. -/
structure Legible (operand : Operand) : Prop where
  tight : Tight operand.spelling
  comma : ',' ∉ operand.spelling
  reads : ofWord (upper operand.spelling) = operand

/-- An operand that can be written without a label: a register or a literal in range, or a reserved
name. -/
def Writable : Operand → Prop
  | register n => 0 ≤ n ∧ n < 16
  | immediate n => 0 ≤ n ∧ n ≤ 0xFFFF
  | label _ => False
  | blank => False
  | foreign _ => False
  | _ => True

private theorem digits_solid : ∀ n : Fin 16, Solid (Hexadecimal.digit n) ∧
    UpperCase.upperChar (Hexadecimal.digit n) = [Hexadecimal.digit n] := by
  decide

private theorem solid_fill {width n : Nat} :
    ∀ c ∈ Hexadecimal.fill width (Hexadecimal.digits n), Solid c := by
  intro c member
  obtain ⟨m, small, rfl⟩ := Hexadecimal.mem_fill member
  exact (digits_solid ⟨m, small⟩).1

private theorem upper_fill (width n : Nat) :
    upper (Hexadecimal.fill width (Hexadecimal.digits n)) =
      Hexadecimal.fill width (Hexadecimal.digits n) := by
  apply UpperCase.upper_of_settled
  intro c member
  obtain ⟨m, small, rfl⟩ := Hexadecimal.mem_fill member
  exact (digits_solid ⟨m, small⟩).2

private theorem spelling_register {n : Int} (low : 0 ≤ n) :
    (register n).spelling = 'V' :: Hexadecimal.fill 0 (Hexadecimal.digits n.natAbs) := by
  rw [spelling, Hexadecimal.signed, Hexadecimal.padded, if_neg (by omega)]

private theorem spelling_immediate {n : Int} (low : 0 ≤ n) :
    (immediate n).spelling =
      '0' :: 'x' :: Hexadecimal.fill 3 (Hexadecimal.digits n.natAbs) := by
  rw [spelling, Hexadecimal.padded, if_neg (by omega)]

theorem solid_spelling {operand : Operand} (writable : operand.Writable) :
    ∀ c ∈ operand.spelling, Solid c := by
  cases operand with
  | register n =>
    have front : Solid 'V' := by decide
    rw [spelling_register writable.1]
    exact List.forall_mem_cons.mpr ⟨front, solid_fill⟩
  | immediate n =>
    have zero : Solid '0' := by decide
    have mark : Solid 'x' := by decide
    rw [spelling_immediate writable.1]
    exact List.forall_mem_cons.mpr ⟨zero, List.forall_mem_cons.mpr ⟨mark, solid_fill⟩⟩
  | label name => exact writable.elim
  | blank => exact writable.elim
  | foreign kind => exact writable.elim
  | _ => exact solid_of_all (by decide)

private theorem reads_register {n : Int} (low : 0 ≤ n) (high : n < 16) :
    ofWord (upper (register n).spelling) = register n := by
  have all : ∀ m : Fin 16, ofWord (upper ['V', Hexadecimal.digit m]) = register m := by decide
  obtain ⟨m, rfl⟩ := Int.eq_ofNat_of_zero_le low
  have small : m < 16 := by omega
  have text : (register m).spelling = ['V', Hexadecimal.digit m] := by
    rw [spelling_register low, Int.natAbs_natCast, Hexadecimal.digits_of_lt small]
    rfl
  rw [text]
  exact all ⟨m, small⟩

private theorem registerOf?_eq (digit : Char) :
    registerOf? digit = (Hexadecimal.value? digit).map fun n : Nat => register n := by
  unfold registerOf?
  cases Hexadecimal.value? digit <;> rfl

private theorem literalOf?_eq (digits : List Char) :
    literalOf? digits =
      if 1 ≤ digits.length ∧ digits.length ≤ 4 then
        (Hexadecimal.number? digits).map fun n : Nat => immediate n
      else none := by
  unfold literalOf?
  cases Hexadecimal.number? digits <;> rfl

private theorem reads_immediate {n : Int} (low : 0 ≤ n) (high : n ≤ 0xFFFF) :
    ofWord (upper (immediate n).spelling) = immediate n := by
  have zero : UpperCase.upperChar '0' = ['0'] := by decide
  have mark : UpperCase.upperChar 'x' = ['X'] := by decide
  have text : upper (immediate n).spelling =
      '0' :: 'X' :: Hexadecimal.fill 3 (Hexadecimal.digits n.natAbs) := by
    rw [spelling_immediate low, UpperCase.upper_cons, UpperCase.upper_cons, zero, mark, upper_fill]
    rfl
  have short : (Hexadecimal.digits n.natAbs).length ≤ 4 :=
    Hexadecimal.length_digits_le (k := 3) (by omega)
  have length := Hexadecimal.length_fill 3 (Hexadecimal.digits n.natAbs)
  have value : ((n.natAbs : Nat) : Int) = n := by omega
  rw [text, ofWord, literalOf?_eq, if_pos (by omega), Hexadecimal.number?_fill, Option.map_some,
    Option.getD_some, value]

theorem reads_spelling {operand : Operand} (writable : operand.Writable) :
    ofWord (upper operand.spelling) = operand := by
  cases operand with
  | register n => exact reads_register writable.1 writable.2
  | immediate n => exact reads_immediate writable.1 writable.2
  | label name => exact writable.elim
  | blank => exact writable.elim
  | foreign kind => exact writable.elim
  | _ => decide

theorem Writable.legible {operand : Operand} (writable : operand.Writable) : operand.Legible := by
  have solid := solid_spelling writable
  have reads := reads_spelling writable
  refine ⟨tight_of_solid ?_ solid, ?_, reads⟩
  · intro empty
    rw [empty] at reads
    subst reads
    exact writable
  · intro comma
    exact (solid _ comma).2.1 rfl

theorem ofWord_cases (word : List Char) :
    ofWord word = blank ∨ ofWord word = label word ∨ (ofWord word).Writable := by
  fun_cases ofWord word with
  | case1 => exact Or.inl rfl
  | case9 digit =>
    cases read : registerOf? digit with
    | none => exact Or.inr (Or.inl rfl)
    | some operand =>
      rw [registerOf?_eq] at read
      obtain ⟨n, found, rfl⟩ := Option.map_eq_some_iff.mp read
      have small := Hexadecimal.value?_lt found
      exact Or.inr (Or.inr ⟨by omega, by omega⟩)
  | case10 digits =>
    cases read : literalOf? digits with
    | none => exact Or.inr (Or.inl rfl)
    | some operand =>
      rw [literalOf?_eq] at read
      split at read
      · rename_i short
        obtain ⟨n, found, rfl⟩ := Option.map_eq_some_iff.mp read
        have small := Hexadecimal.number?_lt found
        have power : 16 ^ digits.length ≤ 16 ^ 4 := Nat.pow_le_pow_right (by omega) short.2
        exact Or.inr (Or.inr ⟨by omega, by omega⟩)
      · cases read
  | case11 => exact Or.inr (Or.inl rfl)
  | _ => exact Or.inr (Or.inr trivial)

theorem mem_readList_cases {arguments : List Char} {operand : Operand}
    (member : operand ∈ readList arguments) :
    operand = blank ∨ (∃ name, operand = label name) ∨ operand.Writable := by
  unfold readList at member
  split at member
  · simp at member
  · obtain ⟨token, -, rfl⟩ := List.mem_map.mp member
    rcases ofWord_cases (upper (Blank.trim token)) with empty | named | writable
    · exact Or.inl empty
    · exact Or.inr (Or.inl ⟨_, named⟩)
    · exact Or.inr (Or.inr writable)

def spellAll (operands : List Operand) : List Char :=
  [',', ' '].intercalate (operands.map spelling)

theorem spellAll_cons_cons (first second : Operand) (rest : List Operand) :
    spellAll (first :: second :: rest) =
      first.spelling ++ [',', ' '] ++ spellAll (second :: rest) := by
  simp [spellAll, List.intercalate]

theorem spellAll_singleton (operand : Operand) : spellAll [operand] = operand.spelling := by
  simp [spellAll, List.intercalate]

theorem not_mem_spellAll {c : Char} (apart : c ∉ [',', ' ']) {operands : List Operand}
    (clear : ∀ operand ∈ operands, c ∉ operand.spelling) : c ∉ spellAll operands := by
  induction operands with
  | nil => simp [spellAll, List.intercalate]
  | cons first rest ih =>
    have head := clear first List.mem_cons_self
    have tail := ih fun operand member => clear operand (List.mem_cons_of_mem first member)
    cases rest with
    | nil =>
      rw [spellAll_singleton]
      exact head
    | cons second rest =>
      rw [spellAll_cons_cons, List.mem_append, List.mem_append, not_or, not_or]
      exact ⟨⟨head, apart⟩, tail⟩

theorem tight_spellAll {first : Operand} {rest : List Operand}
    (legible : ∀ operand ∈ first :: rest, operand.Legible) : Tight (spellAll (first :: rest)) := by
  induction rest generalizing first with
  | nil =>
    rw [spellAll_singleton]
    exact (legible first List.mem_cons_self).tight
  | cons second rest ih =>
    have head := (legible first List.mem_cons_self).tight
    have tail := ih fun operand member => legible operand (List.mem_cons_of_mem first member)
    rw [spellAll_cons_cons]
    exact head.append tail (by simp) (by decide)

theorem Legible.read {operand : Operand} (legible : operand.Legible) (before : List Char)
    (blank : ∀ c ∈ before, isBlank c = true) :
    Operand.read (before ++ operand.spelling) = operand := by
  have none : ∀ c ∈ ([] : List Char), isBlank c = true := by simp
  have trimmed := Blank.trim_pad blank none operand.spelling
  rw [List.append_nil, Blank.trim_of_trimmed legible.tight.trimmed] at trimmed
  rw [Operand.read, trimmed, legible.reads]

-- The blank behind a comma goes with the operand after it.
private theorem spellAll_eq_intercalate (first : Operand) (rest : List Operand) :
    spellAll (first :: rest) =
      [','].intercalate (first.spelling :: rest.map fun operand => ' ' :: operand.spelling) := by
  induction rest generalizing first with
  | nil => rfl
  | cons second rest ih =>
    rw [spellAll_cons_cons, ih]
    cases rest <;> simp [List.intercalate]

theorem readList_spellAll {operands : List Operand}
    (legible : ∀ operand ∈ operands, operand.Legible) : readList (spellAll operands) = operands := by
  cases operands with
  | nil => rfl
  | cons first rest =>
    have tight := tight_spellAll legible
    have head := legible first List.mem_cons_self
    have tail := fun operand member => legible operand (List.mem_cons_of_mem first member)
    have split : (spellAll (first :: rest)).splitOn ',' =
        first.spelling :: rest.map fun operand => ' ' :: operand.spelling := by
      rw [spellAll_eq_intercalate, List.splitOn_intercalate]
      · intro piece member
        rcases List.mem_cons.mp member with rfl | member
        · exact head.comma
        · obtain ⟨operand, listed, rfl⟩ := List.mem_map.mp member
          simpa using (tail operand listed).comma
      · simp
    unfold readList
    rw [tight.free, Blank.trim_of_trimmed tight.trimmed]
    split
    · rename_i empty
      exact absurd empty tight.nonempty
    · have same : read first.spelling = first := head.read [] (by simp)
      have others : rest.map (read ∘ fun operand => ' ' :: operand.spelling) = rest.map id := by
        apply List.map_congr_left
        intro operand member
        exact (tail operand member).read [' '] (List.forall_mem_singleton.mpr rfl)
      rw [split, List.map_cons, List.map_map, same, others, List.map_id]

@[simp] theorem read_upper (token : List Char) : read (upper token) = read token := by
  rw [read, UpperCase.trim_upper, UpperCase.upper_upper, read]

@[simp] theorem readList_upper (arguments : List Char) :
    readList (upper arguments) = readList arguments := by
  unfold readList
  rw [Comment.cut_upper, UpperCase.trim_upper]
  cases text : Blank.trim (Comment.cut arguments) with
  | nil => rfl
  | cons c rest =>
    have parts := UpperCase.splitOn_upper (show (',' : Char).toNat < 0x41 by decide) (c :: rest)
    split
    · rename_i empty
      cases UpperCase.upper_eq_nil_iff.mp empty
    · rw [parts, List.map_map]
      exact List.map_congr_left fun token _ => read_upper token

end Operand

end ChipEight
