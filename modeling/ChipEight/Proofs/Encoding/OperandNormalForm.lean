import ChipEight.Proofs.Passes.LabelNames

set_option autoImplicit false

/-!
Operands in normal form.  What is read from an argument text is spelt in one way, and the spelling
is read as the same operand: numbers are in range, and the name of a label is a text that nothing
changes on its way from the arguments to the label.  The operands that can be read are exactly
these, and their number is told by the commas of the text.
-/

namespace ChipEight

open Text
open Text.Blank (isBlank Trimmed)
open Text.UpperCase (upper)

namespace Text

theorem length_splitOn (mark : Char) (text : List Char) :
    (text.splitOn mark).length = text.count mark + 1 := by
  induction text with
  | nil => rfl
  | cons c text ih =>
    rw [List.splitOn_cons_eq_if_modifyHead, List.count_cons]
    split
    · rw [List.length_cons, ih]
    · rw [List.length_modifyHead, ih, Nat.add_zero]

theorem Blank.count_trim {c : Char} (solid : isBlank c = false) (text : List Char) :
    (trim text).count c = text.count c := by
  obtain ⟨before, behind, whole, left, right⟩ := exists_pad text
  have none : ∀ blanks : List Char, (∀ d ∈ blanks, isBlank d = true) → blanks.count c = 0 := by
    intro blanks blank
    apply List.count_eq_zero.mpr
    intro member
    simp [blank c member] at solid
  conv_rhs => rw [whole]
  rw [List.count_append, List.count_append, none before left, none behind right, Nat.zero_add,
    Nat.add_zero]

end Text

namespace Operand

/-- A text that names a label: trimming, upper-casing, commas and comments leave it whole, and it is
no other operand. -/
structure LabelName (name : List Char) : Prop where
  nonempty : name ≠ []
  trimmed : Trimmed name
  comma : ',' ∉ name
  comment : ¬ ['/', '/'] <:+: name
  capital : upper name = name
  unreserved : ¬ Reserved name

/-- An operand in normal form: its spelling is read as it, its number is in range, and its name is
one for a label. -/
structure Normal (operand : Operand) : Prop where
  reads : read operand.spelling = operand
  register : ∀ n, operand = .register n → 0 ≤ n ∧ n ≤ 15
  immediate : ∀ n, operand = .immediate n → 0 ≤ n ∧ n ≤ 0xFFFF
  label : ∀ name, operand = .label name → LabelName name

theorem Legible.read_spelling {operand : Operand} (legible : operand.Legible) :
    Operand.read operand.spelling = operand :=
  legible.read [] (List.forall_mem_nil _)

theorem legible_label_iff_labelName {name : List Char} : (label name).Legible ↔ LabelName name := by
  constructor
  · intro legible
    obtain ⟨capital, word⟩ := eq_of_read legible.read_spelling
    have trimmed : Trimmed name := legible.tight.trimmed
    have nonempty : name ≠ [] := legible.tight.nonempty
    rw [spelling, Blank.trim_of_trimmed trimmed] at capital
    exact ⟨nonempty, trimmed, legible.comma, Comment.cut_eq_self_iff.mp legible.tight.free,
      capital.symm, (ofWord_eq_label_iff nonempty).mp word⟩
  · intro named
    have word := (ofWord_eq_label_iff named.nonempty).mpr named.unreserved
    refine ⟨⟨named.nonempty, named.trimmed, Comment.cut_eq_self_iff.mpr named.comment⟩,
      named.comma, ?_⟩
    rw [spelling, named.capital, word]

theorem normal_blank : Normal blank :=
  ⟨rfl, by simp, by simp, by simp⟩

theorem Writable.normal {operand : Operand} (writable : operand.Writable) : operand.Normal := by
  refine ⟨writable.legible.read_spelling, ?_, ?_, ?_⟩
  · rintro n rfl
    have range : 0 ≤ n ∧ n < 16 := writable
    omega
  · rintro n rfl
    exact writable
  · rintro name rfl
    exact writable.elim

theorem LabelName.normal {name : List Char} (named : LabelName name) : (label name).Normal := by
  refine ⟨(legible_label_iff_labelName.mpr named).read_spelling, by simp, by simp, ?_⟩
  intro other same
  exact label.inj same ▸ named

theorem normal_of_mem_readList {arguments : List Char} {operand : Operand}
    (member : operand ∈ readList arguments) : operand.Normal := by
  rcases mem_readList_cases member with rfl | ⟨name, rfl⟩ | writable
  · exact normal_blank
  · exact (legible_label_iff_labelName.mp (legible_label member)).normal
  · exact writable.normal

theorem Normal.blank_or_legible {operand : Operand} (normal : operand.Normal) :
    operand = blank ∨ operand.Legible := by
  cases operand with
  | blank => exact Or.inl rfl
  | register n =>
    have range := normal.register n rfl
    have writable : (Operand.register n).Writable := ⟨by omega, by omega⟩
    exact Or.inr writable.legible
  | immediate n =>
    have writable : (Operand.immediate n).Writable := normal.immediate n rfl
    exact Or.inr writable.legible
  | label name => exact Or.inr (legible_label_iff_labelName.mpr (normal.label name rfl))
  | foreign kind =>
    -- No word is read as an operand of an unknown kind.
    have reads : ofWord (upper (Blank.trim kind)) = foreign kind := normal.reads
    have cases := ofWord_cases (upper (Blank.trim kind))
    rw [reads] at cases
    rcases cases with empty | named | writable
    · cases empty
    · cases named
    · exact writable.elim
  | _ => exact Or.inr (Writable.legible trivial)

theorem Normal.exists_readList {operand : Operand} (normal : operand.Normal) :
    ∃ arguments, operand ∈ readList arguments := by
  rcases normal.blank_or_legible with rfl | legible
  · -- A lone comma stands between two blanks.
    exact ⟨[','], List.mem_cons_self⟩
  · refine ⟨spellAll [operand], ?_⟩
    rw [readList_spellAll (List.forall_mem_singleton.mpr legible)]
    exact List.mem_singleton_self operand

theorem length_readList (arguments : List Char) :
    (readList arguments).length =
      if (Comment.cut arguments).all isBlank then 0 else (Comment.cut arguments).count ',' + 1 := by
  have blank : (Comment.cut arguments).all isBlank = true ↔
      Blank.trim (Comment.cut arguments) = [] := by
    rw [Blank.trim_eq_nil_iff, List.all_eq_true]
  unfold readList
  split
  · rename_i empty
    rw [if_pos (blank.mpr empty), List.length_nil]
  · rename_i full
    rw [if_neg fun idle => full (blank.mp idle), List.length_map, length_splitOn,
      Blank.count_trim (by decide)]

/-- The operands that can be read are those in normal form, and an argument text that is not blank
up to its comment has one operand more than commas. -/
theorem operands_read_in_normal_form :
    (∀ operand : Operand, (∃ arguments, operand ∈ readList arguments) ↔ operand.Normal) ∧
      ∀ arguments, (readList arguments).length =
        if (Comment.cut arguments).all isBlank then 0
        else (Comment.cut arguments).count ',' + 1 := by
  refine ⟨?_, length_readList⟩
  intro operand
  constructor
  · rintro ⟨arguments, member⟩
    exact normal_of_mem_readList member
  · exact Normal.exists_readList

/-- `0xﬀ,, 0xfffff / ß // ,` has three operands: the ligature makes digits, and five digits are too
many for a literal. -/
theorem operands_read_in_normal_form_ligature :
    let arguments := ['0', 'x', 'ﬀ', ',', ',', ' ', '0', 'x', 'f', 'f', 'f', 'f', 'f', ' ', '/',
      ' ', 'ß', ' ', '/', '/', ' ', ',']
    let name := ['0', 'X', 'F', 'F', 'F', 'F', 'F', ' ', '/', ' ', 'S', 'S']
    readList arguments = [immediate 0xFF, blank, label name] ∧
      (readList arguments).length = (Comment.cut arguments).count ',' + 1 ∧
      (immediate 0xFF).Normal ∧ blank.Normal ∧ (label name).Normal := by
  intro arguments name
  have listed : readList arguments = [immediate 0xFF, blank, label name] := by decide
  have normal : ∀ operand ∈ readList arguments, operand.Normal := by
    intro operand member
    exact (operands_read_in_normal_form.1 operand).mp ⟨arguments, member⟩
  have filled : ¬ (Comment.cut arguments).all isBlank = true := by decide
  have length := operands_read_in_normal_form.2 arguments
  rw [if_neg filled] at length
  refine ⟨listed, length, ?_⟩
  rw [listed] at normal
  simpa using normal

end Operand

end ChipEight
