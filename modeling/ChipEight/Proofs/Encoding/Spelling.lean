import ChipEight.Proofs.Encoding.OperandText
import ChipEight.Proofs.Passes.Acceptance

set_option autoImplicit false

/-!
Instructions that are written and read again.  The operands of a word are accepted as they stand, so
the line that writes an instruction is read as the same instruction.
-/

namespace ChipEight

open Text
open Text.Blank (Opens)
open Text.UpperCase (upper)
open Catalog (words Takes)

namespace Pattern

theorem fit?_of_acceptsAll {shape : List Pattern} {operands : List Operand}
    (accepted : acceptsAll shape operands = true) : fit? shape operands = some operands := by
  fun_induction acceptsAll shape operands with
  | case1 => rfl
  | case2 pattern shape operand operands ih =>
    rw [Bool.and_eq_true] at accepted
    simp [fit?, accepted.1, ih accepted.2]
  | case3 => simp at accepted

theorem eq_blank_of_accepts {operand : Operand} (accepted : blank.accepts operand = true) :
    operand = .blank := by
  cases operand <;> simp [accepts] at accepted ⊢

theorem not_mem_blank_of_acceptsAll {shape : List Pattern} {operands : List Operand}
    (full : blank ∉ shape) (accepted : acceptsAll shape operands = true) :
    .blank ∉ operands := by
  fun_induction acceptsAll shape operands with
  | case1 => simp
  | case2 pattern shape operand operands ih =>
    rw [Bool.and_eq_true] at accepted
    rw [List.mem_cons, not_or] at full ⊢
    refine ⟨?_, ih full.2 accepted.2⟩
    rintro rfl
    have blank := accepted.1
    cases pattern <;> simp_all [accepts]
  | case3 => simp at accepted

theorem eq_of_fit? {shape : List Pattern} {operands fitted : List Operand}
    (given : .blank ∉ operands) (filled : .blank ∉ fitted)
    (found : fit? shape operands = some fitted) : fitted = operands := by
  induction shape generalizing operands fitted with
  | nil =>
    simp only [fit?, Option.ite_none_right_eq_some, Option.some.injEq] at found
    cases operands with
    | nil => exact found.2.symm
    | cons operand operands =>
      have empty := eq_blank_of_accepts (List.all_eq_true.mp found.1 operand List.mem_cons_self)
      exact absurd (empty ▸ List.mem_cons_self) given
  | cons pattern shape ih =>
    simp only [fit?, Option.ite_none_right_eq_some, Option.map_eq_some_iff] at found
    obtain ⟨-, rest, later, rfl⟩ := found
    cases operands with
    | nil => exact absurd List.mem_cons_self filled
    | cons operand operands =>
      rw [List.mem_cons, not_or] at given filled
      rw [ih given.2 filled.2 later]
      rfl

end Pattern

namespace Catalog

private theorem words_full (mnemonic : Mnemonic) :
    ∀ word ∈ words mnemonic, Pattern.blank ∉ Slot.shape word.2 := by
  cases mnemonic <;> decide

private theorem shorts_blank (mnemonic : Mnemonic) : ∀ short ∈ shorts mnemonic,
    short.1 = [.register, .blank] ∧ ∀ word ∈ words mnemonic, word.2.length = 2 := by
  cases mnemonic <;> decide

theorem Takes.not_mem_blank {mnemonic : Mnemonic} {word : Nat × List Slot}
    {operands : List Operand} (taken : Takes mnemonic word operands) : .blank ∉ operands :=
  Pattern.not_mem_blank_of_acceptsAll (words_full mnemonic word taken.1) taken.2

theorem Takes.eq_of_accept? {mnemonic : Mnemonic} {word : Nat × List Slot}
    {operands full : List Operand} (taken : Takes mnemonic word operands) {form : Form}
    (listed : form ∈ forms mnemonic) (accepted : form.accept? operands = some full) :
    full = operands := by
  cases form with
  | word opcode slots =>
    have filled := Pattern.not_mem_blank_of_acceptsAll
      (words_full mnemonic (opcode, slots) (mem_words.mpr listed))
      (Pattern.acceptsAll_of_fit? accepted)
    exact Pattern.eq_of_fit? taken.not_mem_blank filled accepted
  | short shape completion =>
    -- The second operand is there, so it would have to be a blank.
    have brief : (shape, completion) ∈ shorts mnemonic :=
      List.mem_filterMap.mpr ⟨_, listed, rfl⟩
    obtain ⟨same, double⟩ := shorts_blank mnemonic _ brief
    have length := taken.length_eq
    rw [double word taken.1] at length
    obtain ⟨first, second, rfl⟩ := List.length_eq_two.mp length.symm
    simp only [Form.accept?, Option.map_eq_some_iff] at accepted
    obtain ⟨fitted, found, -⟩ := accepted
    change shape = _ at same
    subst same
    simp only [Pattern.fit?, Option.ite_none_right_eq_some, Option.map_eq_some_iff] at found
    obtain ⟨-, rest, ⟨last, -⟩, -⟩ := found
    have empty : second = .blank := Pattern.eq_blank_of_accepts last
    subst empty
    exact absurd (by simp) taken.not_mem_blank

theorem Takes.findSome?_accept? {mnemonic : Mnemonic} {word : Nat × List Slot}
    {operands : List Operand} (taken : Takes mnemonic word operands) :
    (forms mnemonic).findSome? (·.accept? operands) = some operands := by
  cases found : (forms mnemonic).findSome? (·.accept? operands) with
  | none =>
    have refused := List.findSome?_eq_none_iff.mp found _ (mem_words.mp taken.1)
    have fits : (Form.word word.1 word.2).accept? operands = some operands :=
      Pattern.fit?_of_acceptsAll taken.2
    rw [fits] at refused
    cases refused
  | some full =>
    obtain ⟨form, listed, accepted⟩ := List.exists_of_findSome?_eq_some found
    rw [taken.eq_of_accept? listed accepted]

end Catalog

theorem Line.essence_of_tight {text : List Char} (tight : Tight text) :
    essence text = upper text := by
  rw [essence, tight.free, Blank.trim_of_trimmed tight.trimmed]

namespace Instruction

open Operand (spellAll)

theorem mnemonic_tight (mnemonic : Mnemonic) : mnemonic.spelling ≠ [] ∧
    (∀ c ∈ mnemonic.spelling, Solid c) ∧ upper mnemonic.spelling = mnemonic.spelling := by
  refine ⟨?_, solid_of_all ?_, ?_⟩ <;> cases mnemonic <;> decide

theorem spelling_cons (mnemonic : Mnemonic) (first : Operand) (rest : List Operand)
    (position : Position) :
    spelling ⟨mnemonic.spelling, first :: rest, position⟩ =
      mnemonic.spelling ++ [' '] ++ spellAll (first :: rest) := by
  simp [spelling, spellAll]

variable {mnemonic : Mnemonic} {operands : List Operand} {position : Position}

theorem tight_spelling (legible : ∀ operand ∈ operands, operand.Legible) :
    Tight (spelling ⟨mnemonic.spelling, operands, position⟩) := by
  have name : Tight mnemonic.spelling :=
    tight_of_solid (mnemonic_tight mnemonic).1 (mnemonic_tight mnemonic).2.1
  cases operands with
  | nil => exact name
  | cons first rest =>
    rw [spelling_cons]
    exact name.append (Operand.tight_spellAll legible) (by simp) (by decide)

theorem read_mnemonic (mnemonic : Mnemonic) :
    Statement.read mnemonic.spelling = .instruction mnemonic [] := by
  cases mnemonic <;> decide

theorem read_mnemonic_append {text : List Char} (tight : Tight text) :
    Statement.read (mnemonic.spelling ++ [' '] ++ text) = .instruction mnemonic (upper text) := by
  obtain ⟨nonempty, solid, name⟩ := mnemonic_tight mnemonic
  have blank : upper [' '] = [' '] := by decide
  have whole : Tight (mnemonic.spelling ++ [' '] ++ text) :=
    (tight_of_solid nonempty solid).append tight (by simp) (by decide)
  have opens : Opens (Line.essence (mnemonic.spelling ++ [' '] ++ text)) mnemonic.spelling
      (upper text) := by
    rw [Line.essence_of_tight whole, UpperCase.upper_append, UpperCase.upper_append, name, blank]
    refine ⟨nonempty, fun c member => (solid c member).1,
      (UpperCase.trimmed_upper tight.trimmed).1, [' '], rfl, ?_, by simp⟩
    exact List.forall_mem_singleton.mpr rfl
  have read := Line.read_of_opens opens
  rw [Mnemonic.read?_spelling] at read
  exact read

theorem read_spelling (legible : ∀ operand ∈ operands, operand.Legible) :
    Statement.read (spelling ⟨mnemonic.spelling, operands, position⟩) =
      .instruction mnemonic (upper (spellAll operands)) := by
  cases operands with
  | nil => exact read_mnemonic mnemonic
  | cons first rest =>
    rw [spelling_cons]
    exact read_mnemonic_append (Operand.tight_spellAll legible)

theorem ofMnemonic_spellAll {word : Nat × List Slot} (taken : Takes mnemonic word operands)
    (legible : ∀ operand ∈ operands, operand.Legible) :
    ofMnemonic mnemonic (upper (spellAll operands)) position =
      .ok ⟨mnemonic.spelling, operands, position⟩ := by
  rw [ofMnemonic, Operand.readList_upper, Operand.readList_spellAll legible,
    taken.findSome?_accept?]

end Instruction

end ChipEight
