import ChipEight.Proofs.Encoding.Spelling
import ChipEight.Proofs.Passes.LineWords

set_option autoImplicit false

/-!
Instructions that were read, written and read again.  What is read as a label is a text of its own:
trimmed, in upper case, without a comma or a comment, and no other operand.  So every operand that
was read can be written, and an instruction comes back as it was.
-/

namespace ChipEight

open Text
open Text.UpperCase (upper)

namespace Text

private theorem mem_intersperse {α : Type} {a : α} {entries : List α} (member : a ∈ entries)
    (between : α) : a ∈ entries.intersperse between := by
  fun_induction List.intersperse between entries with
  | case1 => exact member
  | case2 b => exact member
  | case3 b rest _ ih =>
    rcases List.mem_cons.mp member with rfl | later
    · exact List.mem_cons_self
    · exact List.mem_cons_of_mem b (List.mem_cons_of_mem between (ih later))

theorem infix_of_mem_splitOn {mark : Char} {text piece : List Char}
    (member : piece ∈ text.splitOn mark) : piece <:+: text := by
  have whole : ((text.splitOn mark).intersperse [mark]).flatten = text :=
    List.intercalate_splitOn mark
  rw [← whole]
  exact List.infix_of_mem_flatten (mem_intersperse member [mark])

theorem infix_trim (text : List Char) : Blank.trim text <:+: text := by
  obtain ⟨before, behind, whole, -, -⟩ := Blank.exists_pad text
  exact ⟨before, behind, whole.symm⟩

end Text

theorem Text.UpperCase.mem_upper_iff {mark : Char} (low : mark.toNat < 0x41) {text : List Char} :
    mark ∈ upper text ↔ mark ∈ text := by
  simp [upper, mem_upperChar_iff low]

namespace Operand

theorem eq_of_read {token name : List Char} (labelled : read token = label name) :
    name = upper (Blank.trim token) ∧ ofWord name = label name := by
  have reads : ofWord (upper (Blank.trim token)) = label name := labelled
  have same : name = upper (Blank.trim token) := by
    rcases ofWord_cases (upper (Blank.trim token)) with empty | word | writable
    · cases empty.symm.trans reads
    · exact label.inj (reads.symm.trans word)
    · rw [reads] at writable
      exact writable.elim
  exact ⟨same, same ▸ reads⟩

theorem legible_label {arguments name : List Char} (member : label name ∈ readList arguments) :
    (label name).Legible := by
  unfold readList at member
  split at member
  · simp at member
  · obtain ⟨token, part, labelled⟩ := List.mem_map.mp member
    obtain ⟨same, reads⟩ := eq_of_read labelled
    have free : Comment.cut (Blank.trim token) = Blank.trim token := by
      apply Comment.cut_of_infix _ (Comment.cut_cut arguments)
      exact ((infix_trim token).trans (infix_of_mem_splitOn part)).trans (infix_trim _)
    have comma : ',' ∉ Blank.trim token := fun inside =>
      Line.not_mem_of_mem_splitOn part (Blank.mem_of_mem_trim inside)
    refine ⟨⟨?_, ?_, ?_⟩, ?_, ?_⟩
    · rintro (rfl : name = [])
      cases reads
    · rw [spelling, same]
      exact UpperCase.trimmed_upper (Blank.trimmed_trim token)
    · rw [spelling, same, Comment.cut_upper, free]
    · rw [spelling, same, UpperCase.mem_upper_iff (by decide)]
      exact comma
    · rw [spelling, same, UpperCase.upper_upper, ← same, reads]

theorem blank_or_legible {arguments : List Char} {operand : Operand}
    (member : operand ∈ readList arguments) : operand = blank ∨ operand.Legible := by
  rcases mem_readList_cases member with empty | ⟨name, rfl⟩ | writable
  · exact Or.inl empty
  · exact Or.inr (legible_label member)
  · exact Or.inr writable.legible

end Operand

namespace Instruction

variable {mnemonic : Mnemonic} {arguments : List Char} {position : Position}
  {instruction : Instruction}

theorem legible_of_ofMnemonic
    (parsed : ofMnemonic mnemonic arguments position = .ok instruction) :
    ∀ operand ∈ instruction.operands, operand.Legible := by
  obtain ⟨-, -, word, taken⟩ := ofMnemonic_eq_ok parsed
  have mask : (Operand.immediate 0xFF).Writable := ⟨by decide, by decide⟩
  have read := forall_operands_of_ofMnemonic (p := fun operand => operand = .blank ∨ operand.Legible)
    parsed (fun operand => Operand.blank_or_legible) (Or.inl rfl) (Or.inr mask.legible)
  intro operand member
  rcases read operand member with rfl | legible
  · exact absurd member taken.not_mem_blank
  · exact legible

theorem parse_of_takes {word : Nat × List Slot} {operands : List Operand} {text : List Char}
    (taken : Catalog.Takes mnemonic word operands) (read : Operand.readList text = operands)
    (place : Position) :
    parse mnemonic.spelling text place = .ok ⟨mnemonic.spelling, operands, place⟩ := by
  rw [parse, Mnemonic.read?_spelling]
  simp only [ofMnemonic, read, taken.findSome?_accept?]

/-- An instruction that was read comes back from its name with the spellings of its operands between
commas, and from the line that writes it, wherever the line stands. -/
theorem parse_written {name arguments : List Char} {position : Position} {instruction : Instruction}
    (read : parse name arguments position = .ok instruction) (other : Position) :
    parse instruction.mnemonic
          ([',', ' '].intercalate (instruction.operands.map Operand.spelling)) other =
        .ok { instruction with position := other } ∧
      ∀ number, ∃ mnemonic text,
        (Line.ofText number instruction.spelling).statement = .instruction mnemonic text ∧
          parse mnemonic.spelling text other = .ok { instruction with position := other } := by
  obtain ⟨mnemonic, -, parsed⟩ := parse_eq_ok read
  obtain ⟨-, -, word, taken⟩ := ofMnemonic_eq_ok parsed
  have legible := legible_of_ofMnemonic parsed
  obtain ⟨operands, -, rfl⟩ := ofMnemonic_eq_ok_iff.mp parsed
  have listed : Operand.readList (Operand.spellAll operands) = operands :=
    Operand.readList_spellAll legible
  refine ⟨parse_of_takes taken listed other, ?_⟩
  intro number
  refine ⟨mnemonic, upper (Operand.spellAll operands), read_spelling legible, ?_⟩
  exact parse_of_takes taken ((Operand.readList_upper _).trans listed) other

/-- `jp v0 , a / ß:b // c` is written `JP V0, A / SS:B`, where the label keeps a blank and a slash. -/
theorem parse_written_slash :
    let arguments := ['v', '0', ' ', ',', ' ', 'a', ' ', '/', ' ', 'ß', ':', 'b', ' ', '/', '/', 'c']
    let instruction : Instruction :=
      ⟨['J', 'P'], [.register 0, .label ['A', ' ', '/', ' ', 'S', 'S', ':', 'B']], {}⟩
    parse ['j', 'p'] arguments {} = .ok instruction ∧
      instruction.spelling =
        ['J', 'P', ' ', 'V', '0', ',', ' ', 'A', ' ', '/', ' ', 'S', 'S', ':', 'B'] ∧
      ∃ mnemonic text, Statement.read instruction.spelling = .instruction mnemonic text ∧
        parse mnemonic.spelling text {} = .ok instruction := by
  intro arguments instruction
  have read : parse ['j', 'p'] arguments {} = .ok instruction := by decide +kernel
  exact ⟨read, by decide +kernel, (parse_written read {}).2 1⟩

end Instruction

end ChipEight
