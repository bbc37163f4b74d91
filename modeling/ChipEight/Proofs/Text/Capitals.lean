import Mathlib.Algebra.Group.Nat.Defs
import ChipEight.Proofs.Text.Trimmed
import ChipEight.Text.UpperCase

set_option autoImplicit false

/-!
Upper case is settled: no character that upper-casing brings is upper-cased again.  Blanks, digits
and the marks below the letters take no part in it, so a text is parted in the same places before
and after.
-/

namespace ChipEight.Text.UpperCase

open Blank (isBlank trim Trimmed)

private def Run.codes (run : Run) : List Nat :=
  List.range' run.first ((run.last - run.first) / run.step + 1) run.step

private def movable : List Nat :=
  List.range' 0x61 26 ++ expansions.map Prod.fst ++ runs.flatMap Run.codes

private def capitals : List Nat :=
  List.range' 0x41 26 ++ expansions.flatMap Prod.snd ++
    runs.flatMap fun run => run.codes.map fun code : Nat => (code + run.shift).toNat

private def blanks : List Nat :=
  List.range' 0x09 5 ++ List.range' 0x1C 5 ++ [0x85, 0xA0, 0x1680] ++ List.range' 0x2000 11 ++
    [0x2028, 0x2029, 0x202F, 0x205F, 0x3000]

private theorem mem_blanks {c : Char} (blank : isBlank c = true) : c.toNat ∈ blanks := by
  simp only [isBlank, Bool.or_eq_true, Bool.and_eq_true, decide_eq_true_eq, beq_iff_eq] at blank
  simp only [blanks, List.mem_append, List.mem_range'_1, List.mem_cons, List.not_mem_nil]
  omega

/-- A set of numbers as the bits of one. -/
private def mask (codes : List Nat) : Nat :=
  codes.foldr (fun code bits => 2 ^ code ||| bits) 0

private theorem testBit_mask {code : Nat} {codes : List Nat} (member : code ∈ codes) :
    (mask codes).testBit code = true := by
  induction codes with
  | nil => simp at member
  | cons first codes ih =>
    have bits : mask (first :: codes) = 2 ^ first ||| mask codes := rfl
    rw [bits, Nat.testBit_or, Bool.or_eq_true]
    rcases List.mem_cons.mp member with rfl | member
    · left
      exact Nat.testBit_two_pow_self
    · exact Or.inr (ih member)

private theorem not_mem_of_masks {left right : List Nat} (apart : mask left &&& mask right = 0)
    {code : Nat} (member : code ∈ left) : code ∉ right := by
  intro other
  have both : (mask left &&& mask right).testBit code = true := by
    rw [Nat.testBit_and, testBit_mask member, testBit_mask other]
    rfl
  rw [apart, Nat.zero_testBit] at both
  cases both

/-- What the tables of letters and of blanks have to do with each other: what is upper-cased to is
neither upper-cased again nor blank, no blank is upper-cased, and all of it is above the marks. -/
private theorem tables_apart :
    mask capitals &&& mask movable = 0 ∧ mask blanks &&& mask movable = 0 ∧
      mask capitals &&& mask blanks = 0 ∧ (∀ code ∈ movable, 0x61 ≤ code) ∧
      ∀ code ∈ capitals, 0x41 ≤ code ∧ code.isValidChar := by
  -- Going through the pairs of code points would take the kernel far longer than one number each.
  decide +kernel

private theorem expansions_ne_nil : ∀ entry ∈ expansions, entry.2 ≠ [] := by
  decide

private theorem toUpper_cases (c : Char) : c.toUpper = c ∨
    (0x61 ≤ c.toNat ∧ c.toNat ≤ 0x7A) ∧ c.toUpper.toNat = c.toNat - 0x20 := by
  unfold Char.toUpper
  split
  · rename_i lower
    rw [UInt32.le_iff_toNat_le, UInt32.le_iff_toNat_le] at lower
    have range : 0x61 ≤ c.toNat ∧ c.toNat ≤ 0x7A := lower
    refine Or.inr ⟨range, ?_⟩
    have sum : (c.val + ('A'.val - 'a'.val)).toNat = (c.toNat + 0xFFFFFFE0) % 2 ^ 32 :=
      UInt32.toNat_add _ _
    change (c.val + ('A'.val - 'a'.val)).toNat = _
    omega
  · exact Or.inl rfl

private theorem mem_of_lookup {entries : List (Nat × List Nat)} {code : Nat} {codes : List Nat}
    (found : entries.lookup code = some codes) : (code, codes) ∈ entries := by
  obtain ⟨before, after, rfl, -⟩ := List.lookup_eq_some_iff.mp found
  simp

private theorem mem_codes {run : Run} {code moved : Nat} (found : run.image? code = some moved) :
    code ∈ run.codes ∧ (code + run.shift).toNat = moved := by
  simp only [Run.image?, Option.ite_none_right_eq_some, Option.some.injEq] at found
  obtain ⟨⟨low, high, stride⟩, image⟩ := found
  refine ⟨List.mem_range'.mpr ⟨(code - run.first) / run.step, ?_, ?_⟩, image⟩
  · have steps : (code - run.first) / run.step ≤ (run.last - run.first) / run.step :=
      Nat.div_le_div_right (by omega)
    omega
  · have whole := Nat.div_add_mod (code - run.first) run.step
    omega

private theorem toNat_capital {code : Nat} (listed : code ∈ capitals) :
    (Char.ofNat code).toNat = code := by
  rw [Char.ofNat, dif_pos (tables_apart.2.2.2.2 code listed).2]
  rfl

private theorem fixed_or_capitals (c : Char) : upperChar c = [c] ∨
    c.toNat ∈ movable ∧ ∀ d ∈ upperChar c, d.toNat ∈ capitals := by
  unfold upperChar
  split
  · rcases toUpper_cases c with same | ⟨range, moved⟩
    · left
      rw [same]
    · right
      refine ⟨?_, ?_⟩
      · have letter : c.toNat ∈ List.range' 0x61 26 := List.mem_range'_1.mpr (by omega)
        exact List.mem_append_left _ (List.mem_append_left _ letter)
      · intro d member
        have letter : c.toNat - 0x20 ∈ List.range' 0x41 26 := List.mem_range'_1.mpr (by omega)
        rw [List.mem_singleton.mp member, moved]
        exact List.mem_append_left _ (List.mem_append_left _ letter)
  · split
    · rename_i codes found
      have entry := mem_of_lookup found
      right
      refine ⟨?_, ?_⟩
      · have key : c.toNat ∈ expansions.map Prod.fst := List.mem_map_of_mem entry
        exact List.mem_append_left _ (List.mem_append_right _ key)
      · intro d member
        obtain ⟨code, listed, rfl⟩ := List.mem_map.mp member
        have capital : code ∈ capitals := by
          have value : code ∈ expansions.flatMap Prod.snd := List.mem_flatMap.mpr ⟨_, entry, listed⟩
          exact List.mem_append_left _ (List.mem_append_right _ value)
        rw [toNat_capital capital]
        exact capital
    · split
      · rename_i code found
        obtain ⟨run, listed, image⟩ := List.exists_of_findSome?_eq_some found
        obtain ⟨inside, moved⟩ := mem_codes image
        right
        refine ⟨List.mem_append_right _ (List.mem_flatMap.mpr ⟨run, listed, inside⟩), ?_⟩
        intro d member
        have capital : code ∈ capitals := by
          have reached : code ∈ run.codes.map fun code : Nat => (code + run.shift).toNat :=
            List.mem_map.mpr ⟨c.toNat, inside, moved⟩
          exact List.mem_append_right _ (List.mem_flatMap.mpr ⟨run, listed, reached⟩)
        rw [List.mem_singleton.mp member, toNat_capital capital]
        exact capital
      · exact Or.inl rfl

private theorem upperChar_of_fixed {c : Char} (fixed : c.toNat ∉ movable) : upperChar c = [c] := by
  rcases fixed_or_capitals c with same | ⟨listed, -⟩
  · exact same
  · exact absurd listed fixed

theorem upperChar_of_mem {c d : Char} (member : d ∈ upperChar c) : upperChar d = [d] := by
  rcases fixed_or_capitals c with same | ⟨-, capital⟩
  · rw [same, List.mem_singleton] at member
    rw [member, same]
  · exact upperChar_of_fixed (not_mem_of_masks tables_apart.1 (capital d member))

theorem isBlank_of_mem_upperChar {c d : Char} (clear : isBlank c = false)
    (member : d ∈ upperChar c) : isBlank d = false := by
  rcases fixed_or_capitals c with same | ⟨-, capital⟩
  · rw [same, List.mem_singleton] at member
    rw [member, clear]
  · rw [Bool.eq_false_iff]
    intro blank
    exact not_mem_of_masks tables_apart.2.2.1 (capital d member) (mem_blanks blank)

theorem upperChar_ne_nil (c : Char) : upperChar c ≠ [] := by
  unfold upperChar
  split
  · simp
  · split
    · rename_i codes found
      have entry := expansions_ne_nil (c.toNat, codes) (mem_of_lookup found)
      simpa using entry
    · split <;> simp

theorem trimmed_upper {text : List Char} (trimmed : Trimmed text) : Trimmed (upper text) := by
  constructor
  · intro d first
    cases text with
    | nil => simp at first
    | cons c text =>
      rw [upper_cons, List.head?_append_of_ne_nil _ (upperChar_ne_nil c)] at first
      exact isBlank_of_mem_upperChar (trimmed.1 c rfl) (List.mem_of_head? first)
  · intro d last
    -- The last character may expand to several, none of them blank.
    rcases List.eq_nil_or_concat text with rfl | ⟨init, c, rfl⟩
    · simp at last
    · rw [List.concat_eq_append] at last trimmed
      rw [upper_append, List.getLast?_append_of_ne_nil] at last
      · have ends : isBlank c = false := trimmed.2 c (by simp)
        apply isBlank_of_mem_upperChar ends
        simpa using List.mem_of_getLast? last
      · simpa using upperChar_ne_nil c

theorem upperChar_of_isBlank {c : Char} (blank : isBlank c = true) : upperChar c = [c] :=
  upperChar_of_fixed (not_mem_of_masks tables_apart.2.1 (mem_blanks blank))

theorem mem_upperChar_iff {mark : Char} (low : mark.toNat < 0x41) {c : Char} :
    mark ∈ upperChar c ↔ c = mark := by
  constructor
  · intro member
    rcases fixed_or_capitals c with same | ⟨-, capital⟩
    · rw [same, List.mem_singleton] at member
      exact member.symm
    · have large := (tables_apart.2.2.2.2 _ (capital mark member)).1
      omega
  · rintro rfl
    have fixed : c.toNat ∉ movable := by
      intro listed
      have large := tables_apart.2.2.2.1 _ listed
      omega
    rw [upperChar_of_fixed fixed]
    exact List.mem_singleton_self c

theorem upperChar_of_low {mark : Char} (low : mark.toNat < 0x41) : upperChar mark = [mark] :=
  upperChar_of_mem ((mem_upperChar_iff low).mpr rfl)

theorem upper_eq_nil_iff {text : List Char} : upper text = [] ↔ text = [] := by
  cases text with
  | nil => simp
  | cons c text => simp [upperChar_ne_nil c]

theorem upper_of_settled {text : List Char} (settled : ∀ c ∈ text, upperChar c = [c]) :
    upper text = text := by
  induction text with
  | nil => rfl
  | cons c text ih =>
    rw [upper_cons, settled c List.mem_cons_self,
      ih fun d member => settled d (List.mem_cons_of_mem c member)]
    rfl

@[simp] theorem upper_upper (text : List Char) : upper (upper text) = upper text := by
  apply upper_of_settled
  intro d member
  obtain ⟨c, -, inside⟩ := List.mem_flatMap.mp member
  exact upperChar_of_mem inside

theorem trim_upper (text : List Char) : trim (upper text) = upper (trim text) := by
  obtain ⟨before, behind, whole, left, right⟩ := Blank.exists_pad text
  have fixed : ∀ blanks : List Char, (∀ c ∈ blanks, isBlank c = true) → upper blanks = blanks := by
    intro blanks blank
    exact upper_of_settled fun c member => upperChar_of_isBlank (blank c member)
  have parts : upper text = before ++ upper (trim text) ++ behind := by
    conv_lhs => rw [whole]
    rw [upper_append, upper_append, fixed before left, fixed behind right]
  rw [parts, Blank.trim_pad left right,
    Blank.trim_of_trimmed (trimmed_upper (Blank.trimmed_trim text))]

private theorem splitOn_append_of_not_mem {mark : Char} {front : List Char} (clear : mark ∉ front)
    (text : List Char) :
    (front ++ text).splitOn mark = (text.splitOn mark).modifyHead (front ++ ·) := by
  induction front with
  | nil =>
    rw [List.nil_append]
    cases text.splitOn mark <;> rfl
  | cons c front ih =>
    rw [List.mem_cons, not_or] at clear
    have other : (c == mark) = false := by simpa using Ne.symm clear.1
    rw [List.cons_append, List.splitOn_cons_eq_if_modifyHead, other, ih clear.2]
    cases text.splitOn mark <;> rfl

theorem splitOn_upper {mark : Char} (low : mark.toNat < 0x41) (text : List Char) :
    (upper text).splitOn mark = (text.splitOn mark).map upper := by
  induction text with
  | nil => rfl
  | cons c text ih =>
    rw [upper_cons, List.splitOn_cons_eq_if_modifyHead]
    by_cases same : c = mark
    · subst same
      rw [upperChar_of_low low, List.singleton_append, List.splitOn_cons_eq_if_modifyHead, ih]
      simp
    · have clear : mark ∉ upperChar c := by
        rw [mem_upperChar_iff low]
        exact same
      have other : (c == mark) = false := by simpa using same
      rw [splitOn_append_of_not_mem clear, ih, other]
      cases text.splitOn mark <;> rfl

end ChipEight.Text.UpperCase
