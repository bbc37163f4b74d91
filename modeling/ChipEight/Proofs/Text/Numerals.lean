import Mathlib.Data.List.Chain
import ChipEight.Text.Integer
import ChipEight.Proofs.Text.Trimmed

set_option autoImplicit false

/-!
Written numbers with underscores.  A text is read exactly if its underscores part its digits one by
one; digits of either case, with zeros in front and single underscores between them, read as the
number that they write.  Padding, signs and the markers of base sixteen do not let a stray underscore
through.
-/

namespace ChipEight.Text.Integer

/-- No two underscores stand side by side, and none stands last. -/
structure Tidy (text : List Char) : Prop where
  single : text.IsChain fun c d => c ≠ '_' ∨ d ≠ '_'
  last : text.getLast? ≠ some '_'

/-- Every underscore stands alone between two other characters. -/
structure Parted (text : List Char) : Prop extends Tidy text where
  first : text.head? ≠ some '_'

def figures (text : List Char) : List Char :=
  text.filter (· ≠ '_')

/-- A text writes a number: behind zeros stand its digits in either case, parted by underscores. -/
structure Writes (base n : Nat) (text : List Char) : Prop where
  parted : Parted text
  written : ∃ zeros, (figures text).map Char.toLower =
    List.replicate zeros '0' ++ Nat.toDigits base n

section underscores

theorem tidy_of_not_mem {text : List Char} (free : '_' ∉ text) : Tidy text := by
  refine ⟨?_, ?_⟩
  · induction text with
    | nil => exact List.isChain_nil
    | cons c text ih =>
      rw [List.mem_cons, not_or] at free
      rw [List.isChain_cons]
      exact ⟨fun d _ => .inl fun same => free.1 same.symm, ih free.2⟩
  · intro last
    exact free (List.mem_of_getLast? last)

theorem Tidy.append {left right : List Char} (front : Tidy left) (back : Tidy right) :
    Tidy (left ++ right) := by
  refine ⟨?_, ?_⟩
  · rw [List.isChain_append]
    refine ⟨front.single, back.single, ?_⟩
    intro c member d _
    refine .inl ?_
    rintro rfl
    exact front.last member
  · rw [List.getLast?_append]
    intro last
    rcases Option.or_eq_some_iff.mp last with inner | ⟨_, outer⟩
    · exact back.last inner
    · exact front.last outer

theorem Tidy.cons {c : Char} {text : List Char} (tidy : Tidy text) (other : c ≠ '_') :
    Tidy (c :: text) := by
  have front : '_' ∉ [c] := by simpa using other.symm
  exact (tidy_of_not_mem front).append tidy

theorem parted_singleton_iff {c : Char} : Parted [c] ↔ c ≠ '_' := by
  constructor
  · intro parted same
    exact parted.first (by simp [same])
  · intro other
    exact ⟨tidy_of_not_mem (by simpa using other.symm), by simpa using other⟩

theorem parted_cons_underscore_iff {c : Char} {rest : List Char} :
    Parted (c :: '_' :: rest) ↔ c ≠ '_' ∧ rest ≠ [] ∧ Parted rest := by
  constructor
  · intro parted
    have other : c ≠ '_' := by
      intro same
      exact parted.first (by simp [same])
    have nonempty : rest ≠ [] := by
      rintro rfl
      exact parted.last rfl
    obtain ⟨_, chain⟩ := List.isChain_cons_cons.mp parted.single
    obtain ⟨starts, chain⟩ := List.isChain_cons.mp chain
    refine ⟨other, nonempty, ⟨chain, ?_⟩, ?_⟩
    · intro last
      exact parted.last (by simp [List.getLast?_cons, last])
    · intro first
      simpa using starts '_' first
  · rintro ⟨other, nonempty, parted⟩
    refine ⟨⟨?_, ?_⟩, by simpa using other⟩
    · rw [List.isChain_cons_cons, List.isChain_cons]
      refine ⟨.inl other, ?_, parted.single⟩
      intro d first
      refine .inr ?_
      rintro rfl
      exact parted.first first
    · rw [List.getLast?_cons_cons, List.getLast?_cons_of_ne_nil nonempty]
      exact parted.last

theorem parted_cons_iff {c : Char} {rest : List Char} (nonempty : rest ≠ [])
    (start : rest.head? ≠ some '_') : Parted (c :: rest) ↔ c ≠ '_' ∧ Parted rest := by
  constructor
  · intro parted
    refine ⟨?_, ⟨(List.isChain_cons.mp parted.single).2, ?_⟩, start⟩
    · intro same
      exact parted.first (by simp [same])
    · rw [← List.getLast?_cons_of_ne_nil nonempty]
      exact parted.last
  · rintro ⟨other, parted⟩
    exact ⟨parted.toTidy.cons other, by simpa using other⟩

end underscores

section digits

theorem digit?_underscore (base : Nat) : digit? base '_' = none := rfl

private theorem figures_cons_of_ne {c : Char} (other : c ≠ '_') (rest : List Char) :
    figures (c :: rest) = c :: figures rest := by
  simp [figures, other]

private theorem figures_cons_underscore (rest : List Char) :
    figures ('_' :: rest) = figures rest := rfl

private theorem read_cons_iff {first : Option Nat} {others : Option (List Nat)}
    {seen : List (Option Nat)} {sound : Prop} {values : List Nat}
    (rest : ∀ {inner : List Nat}, others = some inner ↔ sound ∧ seen = inner.map some) :
    (first.bind fun n => others.map (n :: ·)) = some values ↔
      sound ∧ first :: seen = values.map some := by
  constructor
  · intro read
    obtain ⟨n, one, more⟩ := Option.bind_eq_some_iff.mp read
    obtain ⟨inner, others, rfl⟩ := Option.map_eq_some_iff.mp more
    obtain ⟨holds, same⟩ := rest.mp others
    exact ⟨holds, by rw [one, same, List.map_cons]⟩
  · rintro ⟨holds, same⟩
    obtain ⟨n, inner, rfl, one, more⟩ := List.map_eq_cons_iff.mp same.symm
    rw [← one, rest.mpr ⟨holds, more.symm⟩]
    rfl

theorem digits?_eq_some_iff {base : Nat} {text : List Char} {values : List Nat} :
    digits? base text = some values ↔
      (text ≠ [] ∧ Parted text) ∧ (figures text).map (digit? base) = values.map some := by
  -- By the reader's own cases: a digit that ends the text, stands before an underscore, or neither.
  fun_induction digits? base text generalizing values with
  | case1 => simp
  | case2 c =>
    rw [parted_singleton_iff]
    by_cases same : c = '_'
    · simp [same, digit?_underscore]
    · rw [figures_cons_of_ne same]
      constructor
      · intro read
        obtain ⟨n, one, rfl⟩ := Option.map_eq_some_iff.mp read
        simp [same, one, figures]
      · rintro ⟨_, read⟩
        obtain ⟨n, inner, rfl, one, more⟩ := List.map_eq_cons_iff.mp read.symm
        obtain rfl : inner = [] := by simpa [figures] using more
        rw [← one]
        rfl
  | case3 c rest ih =>
    rw [parted_cons_underscore_iff]
    by_cases same : c = '_'
    · simp [same, digit?_underscore]
    · rw [figures_cons_of_ne same, figures_cons_underscore, List.map_cons, read_cons_iff ih]
      simp [same]
  | case4 c rest nonempty start ih =>
    have filled : rest ≠ [] := nonempty
    have direct : rest.head? ≠ some '_' := by
      intro first
      obtain ⟨tail, rfl⟩ := List.head?_eq_some_iff.mp first
      exact start tail rfl
    rw [parted_cons_iff filled direct]
    by_cases same : c = '_'
    · simp [same, digit?_underscore]
    · rw [figures_cons_of_ne same, List.map_cons, read_cons_iff ih]
      simp [same, filled]

theorem parted_of_digits? {base : Nat} {text : List Char} {values : List Nat}
    (read : digits? base text = some values) : text ≠ [] ∧ Parted text :=
  (digits?_eq_some_iff.mp read).1

theorem digits?_eq_none_of_mem {base : Nat} {text : List Char} {c : Char} (member : c ∈ text)
    (worthless : digit? base c = none) (other : c ≠ '_') : digits? base text = none := by
  rw [Option.eq_none_iff_forall_ne_some]
  intro values read
  have inside : c ∈ figures text := by simp [figures, member, other]
  have seen : digit? base c ∈ values.map some := by
    rw [← (digits?_eq_some_iff.mp read).2]
    exact List.mem_map_of_mem inside
  simp [worthless] at seen

end digits

section values

theorem digitValue?_toLower (c : Char) : digitValue? c.toLower = digitValue? c := by
  by_cases small : c.toNat < 0x80
  · have codes : ∀ m : Fin 0x80,
        digitValue? (Char.ofNat m).toLower = digitValue? (Char.ofNat m) := by decide
    simpa using codes ⟨c.toNat, small⟩
  · have other : ¬ (c.val ≥ 'A'.val ∧ c.val ≤ 'Z'.val) := by
      rintro ⟨_, below⟩
      have bound : c.toNat ≤ 'Z'.toNat := below
      have letter : 'Z'.toNat = 0x5A := rfl
      omega
    have same : c.toLower = c := dif_neg other
    rw [same]

theorem digit?_digitChar {base d : Nat} (small : d < base) (bound : base ≤ 16) :
    digit? base (Nat.digitChar d) = some d := by
  have values : ∀ m : Fin 16, digitValue? (Nat.digitChar m) = some m.val := by decide
  have value : digitValue? (Nat.digitChar d) = some d := values ⟨d, by omega⟩
  rw [digit?, value]
  simp [small]

theorem ofDigits_append_singleton (base : Nat) (front : List Nat) (d : Nat) :
    ofDigits base (front ++ [d]) = base * ofDigits base front + d := by
  simp [ofDigits]

theorem ofDigits_zeros_append (base zeros : Nat) (values : List Nat) :
    ofDigits base (List.replicate zeros 0 ++ values) = ofDigits base values := by
  induction zeros with
  | zero => rfl
  | succ zeros ih =>
    rw [← ih, List.replicate_succ, List.cons_append, ofDigits, List.foldl_cons]
    rfl

variable {base n : Nat} {text : List Char}

theorem exists_values_toDigits (fits : 1 < base ∧ base ≤ 16) (n : Nat) :
    ∃ values, (Nat.toDigits base n).map (digit? base) = values.map some ∧
      ofDigits base values = n := by
  obtain ⟨large, bound⟩ := fits
  induction n using Nat.strongRecOn with
  | ind n ih =>
    by_cases small : n < base
    · refine ⟨[n], ?_, by simp [ofDigits]⟩
      rw [Nat.toDigits_of_lt_base small, List.map_singleton, digit?_digitChar small bound]
      rfl
    · have le : base ≤ n := by omega
      obtain ⟨front, read, sum⟩ := ih (n / base) (Nat.div_lt_self (by omega) large)
      have last : digit? base (Nat.digitChar (n % base)) = some (n % base) :=
        digit?_digitChar (Nat.mod_lt n (by omega)) bound
      refine ⟨front ++ [n % base], ?_, ?_⟩
      · rw [Nat.toDigits_of_base_le large le, List.map_append, read, List.map_singleton, last,
          List.map_append, List.map_singleton]
      · rw [ofDigits_append_singleton, sum, Nat.div_add_mod]

theorem Writes.digits?_eq (writes : Writes base n text) (fits : 1 < base ∧ base ≤ 16) :
    ∃ values, digits? base text = some values ∧ values.length = (figures text).length ∧
      ofDigits base values = n := by
  obtain ⟨zeros, written⟩ := writes.written
  obtain ⟨values, read, sum⟩ := exists_values_toDigits fits n
  have nonempty : text ≠ [] := by
    rintro rfl
    have digits : Nat.toDigits base n ≠ [] := Nat.toDigits_ne_nil
    simp [figures, digits] at written
  have zero : digit? base '0' = some 0 := by
    change digit? base (Nat.digitChar 0) = some 0
    exact digit?_digitChar (by omega) fits.2
  -- The case of a letter does not count, so the figures have the values of the digits written.
  have lower : (figures text).map (digit? base) =
      ((figures text).map Char.toLower).map (digit? base) := by
    rw [List.map_map]
    refine List.map_congr_left fun c _ => ?_
    rw [Function.comp_apply, digit?, digit?, digitValue?_toLower]
  have seen : (figures text).map (digit? base) =
      (List.replicate zeros 0 ++ values).map some := by
    rw [lower, written, List.map_append, read, List.map_replicate, zero, List.map_append,
      List.map_replicate]
  refine ⟨List.replicate zeros 0 ++ values, ?_, ?_, ?_⟩
  · exact digits?_eq_some_iff.mpr ⟨⟨nonempty, writes.parted⟩, seen⟩
  · simpa using (congrArg List.length seen).symm
  · rw [ofDigits_zeros_append, sum]

theorem Writes.mem_cases (writes : Writes base n text) (fits : 1 < base ∧ base ≤ 16) {c : Char}
    (member : c ∈ text) : c = '_' ∨ ∃ value, digitValue? c = some value := by
  obtain ⟨values, read, _, _⟩ := writes.digits?_eq fits
  by_cases same : c = '_'
  · exact .inl same
  · refine .inr (Option.ne_none_iff_exists'.mp fun worthless => ?_)
    have none : digits? base text = none :=
      digits?_eq_none_of_mem member (by rw [digit?, worthless]; rfl) same
    rw [none] at read
    cases read

end values

section padding

/-- Characters that are read as they stand: ASCII characters that are not blank. -/
def Plain (text : List Char) : Prop :=
  text.all (fun c => c.toNat < 0x7F && !Blank.isBlank c) = true

instance (text : List Char) : Decidable (Plain text) :=
  inferInstanceAs (Decidable (_ = true))

theorem plain_iff {text : List Char} :
    Plain text ↔ ∀ c ∈ text, c.toNat < 0x7F ∧ Blank.isBlank c = false := by
  simp [Plain]

theorem plain_append {left right : List Char} (front : Plain left) (back : Plain right) :
    Plain (left ++ right) := by
  rw [Plain, List.all_append, front, back]
  rfl

theorem plain_of_digitValue? {c : Char} {value : Nat} (found : digitValue? c = some value) :
    c.toNat < 0x7F ∧ Blank.isBlank c = false := by
  have low : 0x30 ≤ c.toNat ∧ c.toNat ≤ 0x66 := by
    simp only [digitValue?] at found
    split at found
    · omega
    · split at found
      · omega
      · split at found
        · omega
        · cases found
  refine ⟨by omega, Bool.eq_false_iff.mpr fun blank => ?_⟩
  simp only [Blank.isBlank, Bool.or_eq_true, Bool.and_eq_true, decide_eq_true_eq, beq_iff_eq] at blank
  omega

theorem isBlank_of_isPadding {c : Char} (h : isPadding c = true) : Blank.isBlank c = true := by
  simp only [isPadding, Bool.or_eq_true, Bool.and_eq_true, decide_eq_true_eq, beq_iff_eq] at h
  rcases h with rfl | ⟨low, high⟩
  · decide
  · simp [Blank.isBlank, low, high]

theorem trim_of_plain {text : List Char} (plain : Plain text) : Blank.trim text = text :=
  Blank.eq_of_not_cut fun c member => (plain_iff.mp plain c member).2

theorem unpadded_of_plain {text : List Char} (plain : Plain text) :
    unpadded (text.map folded) = text := by
  have same : text.map folded = text := by
    conv_rhs => rw [← List.map_id text]
    exact List.map_congr_left fun c member => if_pos (plain_iff.mp plain c member).1
  have solid : ∀ c ∈ text, isPadding c = false := by
    intro c member
    refine Bool.eq_false_iff.mpr fun padding => ?_
    have other := (plain_iff.mp plain c member).2
    rw [isBlank_of_isPadding padding] at other
    cases other
  rw [same]
  exact Blank.eq_of_not_cut solid

theorem tidy_of_cut {p : Char → Bool} (mark : p '_' = false) {text : List Char}
    (tidy : Tidy ((text.dropWhile p).rdropWhile p)) : Tidy text := by
  have free : ∀ outer : List Char, (∀ c ∈ outer, p c = true) → '_' ∉ outer := by
    intro outer kind member
    simp [kind '_' member] at mark
  obtain ⟨before, behind, whole, left, right⟩ := Blank.exists_cut p text
  rw [whole]
  exact ((tidy_of_not_mem (free before left)).append tidy).append
    (tidy_of_not_mem (free behind right))

theorem tidy_of_trim {text : List Char} (tidy : Tidy (Blank.trim text)) : Tidy text :=
  tidy_of_cut (p := Blank.isBlank) (by decide) tidy

theorem tidy_of_unpadded {text : List Char} (tidy : Tidy (unpadded (text.map folded))) :
    Tidy text := by
  have inner : Tidy (text.map folded) := tidy_of_cut (p := isPadding) (by decide) tidy
  refine ⟨?_, ?_⟩
  · refine List.isChain_of_isChain_map folded ?_ inner.single
    intro c d apart
    refine apart.imp ?_ ?_
    · rintro other rfl
      exact other rfl
    · rintro other rfl
      exact other rfl
  · intro last
    exact inner.last (by rw [List.getLast?_map, last]; rfl)

end padding

section signs

variable {magnitude? : List Char → Option Nat}

theorem tidy_of_signed? (tidy : ∀ text n, magnitude? text = some n → Tidy text)
    {text : List Char} {n : Int} (read : signed? magnitude? text = some n) : Tidy text := by
  unfold signed? at read
  split at read
  all_goals obtain ⟨m, magnitude, _⟩ := Option.map_eq_some_iff.mp read
  · exact (tidy _ m magnitude).cons (by decide)
  · exact (tidy _ m magnitude).cons (by decide)
  · exact tidy _ m magnitude

theorem tidy_of_decimal? {text : List Char} {n : Int} (read : decimal? text = some n) :
    Tidy text := by
  refine tidy_of_unpadded (tidy_of_signed? ?_ read)
  intro inner m magnitude
  obtain ⟨values, kept, _⟩ := Option.map_eq_some_iff.mp magnitude
  exact (parted_of_digits? (Option.filter_eq_some_iff.mp kept).1).2.toTidy

/-- The marker of base sixteen may end in the one underscore that parts it from the digits. -/
theorem tidy_of_unmarked {text : List Char} :
    unmarked text ≠ [] → Parted (unmarked text) → Tidy text := by
  have marked : ∀ x rest, x ≠ '_' → rest ≠ [] → Parted rest → Tidy ('0' :: x :: '_' :: rest) := by
    intro x rest other nonempty parted
    have inner : Parted (x :: '_' :: rest) :=
      parted_cons_underscore_iff.mpr ⟨other, nonempty, parted⟩
    exact inner.toTidy.cons (by decide)
  fun_cases unmarked text with
  | case1 rest => exact marked 'x' rest (by decide)
  | case2 rest => exact marked 'X' rest (by decide)
  | case3 rest =>
    intro _ parted
    have inner : Tidy ('x' :: rest) := parted.toTidy.cons (by decide)
    exact inner.cons (by decide)
  | case4 rest =>
    intro _ parted
    have inner : Tidy ('X' :: rest) := parted.toTidy.cons (by decide)
    exact inner.cons (by decide)
  | case5 => exact fun _ parted => parted.toTidy

theorem tidy_of_hexadecimal? {text : List Char} {n : Int} (read : hexadecimal? text = some n) :
    Tidy text := by
  refine tidy_of_unpadded (tidy_of_signed? ?_ read)
  intro inner m magnitude
  obtain ⟨values, digits, _⟩ := Option.map_eq_some_iff.mp magnitude
  obtain ⟨nonempty, parted⟩ := parted_of_digits? digits
  exact tidy_of_unmarked nonempty parted

theorem signed?_of_unsigned {text : List Char} (plus : '+' ∉ text) (minus : '-' ∉ text) :
    signed? magnitude? text = (magnitude? text).map fun n : Nat => (n : Int) := by
  unfold signed?
  split
  · exact absurd List.mem_cons_self plus
  · exact absurd List.mem_cons_self minus
  · rfl

theorem decimal?_eq_none_of_mem {text : List Char} {c : Char} (member : c ∈ text)
    (plain : folded c = c) (solid : isPadding c = false) (worthless : digit? 10 c = none)
    (other : c ∉ ['_', '+', '-']) : decimal? text = none := by
  have kept : c ∈ unpadded (text.map folded) :=
    Blank.mem_of_not_cut (List.mem_map.mpr ⟨c, member, plain⟩) solid
  have spoilt : ∀ inner, c ∈ inner → decimalMagnitude? inner = none := by
    intro inner inside
    rw [decimalMagnitude?, digits?_eq_none_of_mem inside worthless (by grind)]
    rfl
  rw [decimal?]
  unfold signed?
  split
  all_goals rw [spoilt _ (by grind), Option.map_none]

end signs

section notations

variable {n : Nat} {text : List Char}

def markers : List (List Char) :=
  [[], ['0', 'x'], ['0', 'X']]

theorem Writes.not_mem {base : Nat} (writes : Writes base n text) (fits : 1 < base ∧ base ≤ 16)
    {c : Char} (foreign : digitValue? c = none ∧ c ≠ '_') : c ∉ text := by
  intro member
  rcases writes.mem_cases fits member with same | ⟨value, found⟩
  · exact foreign.2 same
  · rw [foreign.1] at found
    cases found

theorem Writes.plain {base : Nat} (writes : Writes base n text) (fits : 1 < base ∧ base ≤ 16) :
    Plain text := by
  refine plain_iff.mpr fun c member => ?_
  rcases writes.mem_cases fits member with rfl | ⟨value, found⟩
  · decide
  · exact plain_of_digitValue? found

theorem unmarked_of_not_mem (lower : 'x' ∉ text) (upper : 'X' ∉ text) : unmarked text = text := by
  fun_cases unmarked text with
  | case1 | case3 => simp at lower
  | case2 | case4 => simp at upper
  | case5 => rfl

theorem unmarked_of_marked {x : Char} (letter : x = 'x' ∨ x = 'X') (first : text.head? ≠ some '_') :
    unmarked ('0' :: x :: text) = text := by
  cases text with
  | nil => rcases letter with rfl | rfl <;> rfl
  | cons c rest =>
    have other : c ≠ '_' := by simpa using first
    rcases letter with rfl | rfl <;> simp [unmarked, other]

theorem Writes.unmarked_append (writes : Writes 16 n text) {marker : List Char}
    (member : marker ∈ markers) : unmarked (marker ++ text) = text := by
  simp only [markers, List.mem_cons, List.not_mem_nil, or_false] at member
  rcases member with rfl | rfl | rfl
  · exact unmarked_of_not_mem (writes.not_mem (by decide) (by decide))
      (writes.not_mem (by decide) (by decide))
  · exact unmarked_of_marked (.inl rfl) writes.parted.first
  · exact unmarked_of_marked (.inr rfl) writes.parted.first

theorem Writes.hexadecimal?_append (writes : Writes 16 n text) {marker : List Char}
    (member : marker ∈ markers) : hexadecimal? (marker ++ text) = some (n : Int) := by
  have signs : ∀ mark ∈ markers, '+' ∉ mark ∧ '-' ∉ mark := by decide
  have ascii : ∀ mark ∈ markers, Plain mark := by decide
  have plain : Plain (marker ++ text) := plain_append (ascii marker member) (writes.plain (by decide))
  have plus : '+' ∉ marker ++ text :=
    List.not_mem_append (signs marker member).1 (writes.not_mem (by decide) (by decide))
  have minus : '-' ∉ marker ++ text :=
    List.not_mem_append (signs marker member).2 (writes.not_mem (by decide) (by decide))
  obtain ⟨values, read, _, sum⟩ := writes.digits?_eq (by decide)
  rw [hexadecimal?, unpadded_of_plain plain, signed?_of_unsigned plus minus, hexadecimalMagnitude?,
    writes.unmarked_append member, read, Option.map_some, Option.map_some, sum]

theorem Writes.decimalMagnitude?_eq (writes : Writes 10 n text)
    (short : (figures text).length ≤ decimalLimit) : decimalMagnitude? text = some n := by
  obtain ⟨values, read, length, sum⟩ := writes.digits?_eq (by decide)
  have kept : (some values).filter (·.length ≤ decimalLimit) = some values := by
    simp [length, short]
  rw [decimalMagnitude?, read, kept, Option.map_some, sum]

theorem Writes.decimal?_eq (writes : Writes 10 n text)
    (short : (figures text).length ≤ decimalLimit) : decimal? text = some (n : Int) := by
  have plus : '+' ∉ text := writes.not_mem (by decide) (by decide)
  have minus : '-' ∉ text := writes.not_mem (by decide) (by decide)
  rw [decimal?, unpadded_of_plain (writes.plain (by decide)), signed?_of_unsigned plus minus,
    writes.decimalMagnitude?_eq short, Option.map_some]

theorem Writes.decimal?_minus (writes : Writes 10 n text)
    (short : (figures text).length ≤ decimalLimit) : decimal? ('-' :: text) = some (-(n : Int)) := by
  have sign : Plain ['-'] := by decide
  have plain : Plain ('-' :: text) := plain_append sign (writes.plain (by decide))
  rw [decimal?, unpadded_of_plain plain]
  change (decimalMagnitude? text).map _ = _
  rw [writes.decimalMagnitude?_eq short, Option.map_some]

end notations

end ChipEight.Text.Integer
