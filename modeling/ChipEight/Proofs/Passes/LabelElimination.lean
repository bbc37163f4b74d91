import ChipEight.Proofs.Encoding.Spelling
import ChipEight.Proofs.Passes.LineWords

set_option autoImplicit false

/-!
Programs without labels.  An accepted source can be written again as its instructions alone, one on a
line and with addresses in place of labels; that text comes to the same bytes wherever it is loaded.
-/

namespace ChipEight

open Text
open Catalog (Takes)

def Line.plain? (symbols : SymbolTable) (line : Line) : Option (List Char) :=
  match line.statement with
  | .instruction mnemonic arguments =>
    match Instruction.ofMnemonic mnemonic arguments line.position with
    | .error _ => none
    | .ok instruction =>
      match instruction.resolve symbols with
      | .error _ => none
      | .ok resolved => some resolved.spelling
  | _ => none

/-- The instructions of a source, one on a line, with the addresses of their labels. -/
def withoutLabels (base : Int) (source : List Char) : List Char :=
  ['\n'].intercalate ((Line.ofSource source).filterMap (Line.plain? (symbolsOf base source)))

namespace SymbolTable

/-- A table whose addresses can be written as literals. -/
def Writable (symbols : SymbolTable) : Prop :=
  ∀ entry ∈ symbols.entries, 0 ≤ entry.2 ∧ entry.2 ≤ 0xFFFF

instance (symbols : SymbolTable) : Decidable symbols.Writable :=
  inferInstanceAs (Decidable (∀ entry ∈ symbols.entries, _))

theorem Writable.of_find? {symbols : SymbolTable} (within : symbols.Writable) {name : List Char}
    {address : Int} (found : symbols.find? name = some address) :
    0 ≤ address ∧ address ≤ 0xFFFF := by
  obtain ⟨before, after, split, -⟩ := List.lookup_eq_some_iff.mp found
  apply within (name, address)
  rw [split]
  simp

end SymbolTable

namespace Instruction

variable {mnemonic : Mnemonic} {arguments : List Char} {position : Position}
  {instruction resolved : Instruction} {symbols : SymbolTable}

theorem writable_of_resolve (parsed : ofMnemonic mnemonic arguments position = .ok instruction)
    (resolves : instruction.resolve symbols = .ok resolved) (within : symbols.Writable) :
    ∀ operand ∈ resolved.operands, operand.Writable := by
  obtain ⟨named, -, word, taken⟩ := ofMnemonic_eq_ok parsed
  obtain ⟨defined, same⟩ := resolve_eq_ok_iff.mp resolves
  have still := (encode_of_resolve named taken resolves).1
  have read := forall_operands_of_ofMnemonic
    (p := fun operand => operand = .blank ∨ (∃ name, operand = .label name) ∨ operand.Writable)
    parsed (fun operand => Operand.mem_readList_cases) (Or.inl rfl)
    (Or.inr (Or.inr ⟨by decide, by decide⟩))
  intro operand member
  have solid : operand ≠ .blank := by
    rintro rfl
    exact still.not_mem_blank member
  rw [same] at member
  obtain ⟨before, listed, rfl⟩ := List.mem_map.mp member
  rcases read before listed with rfl | ⟨name, rfl⟩ | writable
  · exact absurd rfl solid
  · have known := defined name (List.mem_filterMap.mpr ⟨_, listed, rfl⟩)
    obtain ⟨address, found⟩ := Option.isSome_iff_exists.mp known
    rw [Operand.substitute, found]
    exact within.of_find? found
  · cases before with
    | label name => exact writable.elim
    | _ => exact writable

theorem not_mem_spelling {operands : List Operand}
    (writable : ∀ operand ∈ operands, operand.Writable) :
    '\n' ∉ spelling ⟨mnemonic.spelling, operands, position⟩ := by
  have name : '\n' ∉ mnemonic.spelling := by
    cases mnemonic <;> decide
  have solid : ∀ operand ∈ operands, '\n' ∉ operand.spelling := by
    intro operand member inside
    have blank := (Operand.solid_spelling (writable operand member) _ inside).1
    revert blank
    decide
  have list := Operand.not_mem_spellAll (by decide) solid
  cases operands with
  | nil => exact name
  | cons first rest =>
    rw [spelling_cons, List.mem_append, List.mem_append, not_or, not_or]
    exact ⟨⟨name, by decide⟩, list⟩

end Instruction

namespace Line

/-- A text that holds an instruction with a given word when it stands on a line of its own, whatever
the labels are. -/
structure Holds (text : List Char) (word : Nat) : Prop where
  newline : '\n' ∉ text
  whole : content text = text
  instruction : ∀ number, (ofText number text).isInstruction = true
  faultless : ∀ number symbols, (ofText number text).fault? symbols = none
  coded : ∀ number symbols, (ofText number text).word? symbols = some word

theorem content_of_trimmed {text : List Char} (trimmed : Blank.Trimmed text) :
    content text = text := by
  apply if_neg
  intro last
  have solid := trimmed.2 _ last
  revert solid
  decide

theorem holds_spelling {mnemonic : Mnemonic} {word : Nat × List Slot} {operands : List Operand}
    (taken : Takes mnemonic word operands) (writable : ∀ operand ∈ operands, operand.Writable)
    (position : Position) :
    Holds (Instruction.spelling ⟨mnemonic.spelling, operands, position⟩)
      (Field.pack word.1 (Slot.packings word.2 operands)) := by
  have legible := fun operand member => (writable operand member).legible
  have read := fun number : Nat => show
    (ofText number (Instruction.spelling ⟨mnemonic.spelling, operands, position⟩)).statement = _
    from Instruction.read_spelling legible
  have unlabelled : ∀ operand ∈ operands, operand.label? = none := by
    intro operand member
    cases operand with
    | label name => exact (writable _ member).elim
    | _ => rfl
  have none : ∀ place : Position,
      Instruction.labels ⟨mnemonic.spelling, operands, place⟩ = [] := by
    intro place
    exact List.filterMap_eq_nil_iff.mpr unlabelled
  have faultless : ∀ number symbols,
      (ofText number (Instruction.spelling ⟨mnemonic.spelling, operands, position⟩)).fault?
        symbols = .none := by
    intro number symbols
    rw [fault?_eq_none_iff_defined (read number) (Instruction.ofMnemonic_spellAll taken legible), none]
    simp
  refine ⟨Instruction.not_mem_spelling writable, ?_, ?_, faultless, ?_⟩
  · exact content_of_trimmed (Instruction.tight_spelling legible).trimmed
  · intro number
    simp only [isInstruction, read number]
  · intro number symbols
    -- Without labels, there is nothing to replace.
    have kept : operands.map (Operand.substitute symbols) = operands.map id :=
      List.map_congr_left fun operand member =>
        Operand.substitute_of_unlabelled (unlabelled operand member) symbols
    rw [word?_of_parsed (read number) (Instruction.ofMnemonic_spellAll taken legible)
      (faultless number symbols), Instruction.wordUnder_eq rfl taken, kept, List.map_id]

variable {symbols : SymbolTable}

theorem plain?_eq_none {line : Line} (other : line.isInstruction = false) :
    line.plain? symbols = none := by
  unfold plain?
  cases statement : line.statement with
  | instruction mnemonic arguments => simp [isInstruction, statement] at other
  | _ => rfl

theorem exists_plain? {line : Line} (holds : line.isInstruction = true)
    (faultless : line.fault? symbols = none) (within : symbols.Writable) :
    ∃ text word, line.plain? symbols = some text ∧ line.word? symbols = some word ∧
      Holds text word := by
  obtain ⟨mnemonic, arguments, statement⟩ := exists_of_isInstruction holds
  obtain ⟨instruction, resolved, _, parsed, resolves, -, -⟩ :=
    code?_of_instruction statement faultless
  obtain ⟨named, -, form, taken⟩ := Instruction.ofMnemonic_eq_ok parsed
  have still := (Instruction.encode_of_resolve named taken resolves).1
  have writable := Instruction.writable_of_resolve parsed resolves within
  have name := (Instruction.mnemonic_of_resolve resolves).trans named
  have same := (Instruction.resolve_eq_ok_iff.mp resolves).2
  have operands : instruction.operands.map (Operand.substitute symbols) = resolved.operands := by
    rw [same]
  have spelled : resolved = ⟨mnemonic.spelling, resolved.operands, resolved.position⟩ := by
    rw [← name]
  refine ⟨resolved.spelling, _, ?_, word?_of_parsed statement parsed faultless, ?_⟩
  · simp only [plain?, statement, parsed, resolves]
  · rw [Instruction.wordUnder_eq named taken, operands, spelled]
    exact holds_spelling still writable resolved.position

theorem holds_plain {lines : List Line} (faultless : ∀ line ∈ lines, line.fault? symbols = none)
    (within : symbols.Writable) :
    (lines.filter isInstruction).map (plain? symbols) =
        (lines.filterMap (plain? symbols)).map some ∧
      List.Forall₂ Holds (lines.filterMap (plain? symbols)) (lines.filterMap (word? symbols)) := by
  induction lines with
  | nil => exact ⟨rfl, .nil⟩
  | cons line lines ih =>
    have head := faultless line List.mem_cons_self
    obtain ⟨listed, rest⟩ := ih fun later member => faultless later (List.mem_cons_of_mem line member)
    cases holds : line.isInstruction with
    | false =>
      rw [List.filterMap_cons_none (plain?_eq_none holds),
        List.filterMap_cons_none (word?_eq_none holds), List.filter_cons_of_neg (by simp [holds])]
      exact ⟨listed, rest⟩
    | true =>
      obtain ⟨text, word, written, coded, stands⟩ := exists_plain? holds head within
      rw [List.filterMap_cons_some written, List.filterMap_cons_some coded,
        List.filter_cons_of_pos holds, List.map_cons, List.map_cons, written, listed]
      exact ⟨rfl, .cons stands rest⟩

theorem newline_of_holds {texts : List (List Char)} {words : List Nat}
    (holds : List.Forall₂ Holds texts words) : ∀ text ∈ texts, '\n' ∉ text := by
  induction holds with
  | nil => simp
  | cons stands _ ih => exact List.forall_mem_cons.mpr ⟨stands.newline, ih⟩

theorem words_numbered {texts : List (List Char)} {words : List Nat}
    (holds : List.Forall₂ Holds texts words) (number : Nat) (symbols : SymbolTable) :
    (∀ line ∈ numbered number (texts.map content),
        line.isInstruction = true ∧ line.fault? symbols = none) ∧
      (numbered number (texts.map content)).filterMap (word? symbols) = words := by
  induction holds generalizing number with
  | nil => simp [numbered]
  | cons stands _ ih =>
    obtain ⟨clear, coded⟩ := ih (number + 1)
    rw [List.map_cons, numbered, stands.whole,
      List.filterMap_cons_some (stands.coded number symbols), coded]
    refine ⟨List.forall_mem_cons.mpr ⟨?_, clear⟩, rfl⟩
    exact ⟨stands.instruction number, stands.faultless number symbols⟩

end Line

theorem Layout.symbols_scan_of_unlabelled {lines : List Line}
    (unlabelled : ∀ line ∈ lines, ∀ name, line.statement ≠ .label name) (symbols : SymbolTable)
    (address : Int) : (scan symbols address lines).symbols = symbols := by
  induction lines generalizing address with
  | nil => rfl
  | cons line lines ih =>
    have kept : line.bind symbols address = symbols := by
      unfold Line.bind
      split
      · rename_i name statement
        exact absurd statement (unlabelled line List.mem_cons_self name)
      · rfl
    rw [symbols_scan_cons, kept]
    exact ih (fun later member => unlabelled later (List.mem_cons_of_mem line member)) _

theorem assemble_holding {texts : List (List Char)} {words : List Nat}
    (holds : List.Forall₂ Line.Holds texts words) (base : Int) :
    (assemble base (['\n'].intercalate texts)).bytes = .ok (words.flatMap bigEndian) ∧
      symbolsOf base (['\n'].intercalate texts) = ∅ := by
  cases holds with
  | nil => exact ⟨rfl, rfl⟩
  | @cons text word texts words stands rest =>
    have holds : List.Forall₂ Line.Holds (text :: texts) (word :: words) := .cons stands rest
    have lines : Line.ofSource (['\n'].intercalate (text :: texts)) =
        Line.numbered 1 ((text :: texts).map Line.content) := by
      rw [Line.ofSource, List.splitOn_intercalate]
      · exact Line.newline_of_holds holds
      · simp
    rw [bytes_eq_ok_iff_words, lines]
    obtain ⟨clear, coded⟩ := Line.words_numbered holds 1
      (symbolsOf base (['\n'].intercalate (text :: texts)))
    refine ⟨⟨fun line member => (clear line member).2, by rw [coded]⟩, ?_⟩
    unfold symbolsOf Layout.ofLines
    rw [lines]
    apply Layout.symbols_scan_of_unlabelled
    intro line member name defines
    have holds := (clear line member).1
    simp [Line.isInstruction, defines] at holds

/-- An accepted source with addresses of at most four digits, written again without its labels, comes
to the same bytes at any base address.  The text has a line for each line with an instruction. -/
theorem assemble_withoutLabels {base : Int} {source : List Char} {binary : List UInt8}
    (accepted : (assemble base source).bytes = .ok binary)
    (within : (symbolsOf base source).Writable) :
    (∃ texts, ((Line.ofSource source).filter Line.isInstruction).map
          (Line.plain? (symbolsOf base source)) = texts.map some ∧
        withoutLabels base source = ['\n'].intercalate texts) ∧
      ∀ other, (assemble other (withoutLabels base source)).bytes = .ok binary ∧
        (assemble other (withoutLabels base source)).layout.symbols = ∅ := by
  obtain ⟨faultless, rfl⟩ := bytes_eq_ok_iff_words.mp accepted
  obtain ⟨listed, holds⟩ := Line.holds_plain faultless within
  refine ⟨⟨_, listed, rfl⟩, ?_⟩
  intro other
  rw [layout_assemble]
  exact assemble_holding holds other

/-- `A:`, `shr v1 // half`, `rnd va,`, `LD I, a`, `JP C`, `C`: short forms are completed, and one
address takes four digits. -/
theorem assemble_withoutLabels_four_digits :
    let source := ['A', ':', '\n', 's', 'h', 'r', ' ', 'v', '1', ' ', '/', '/', ' ', 'h', 'a', 'l',
      'f', '\n', 'r', 'n', 'd', ' ', 'v', 'a', ',', '\n', 'L', 'D', ' ', 'I', ',', ' ', 'a', '\r',
      '\n', 'J', 'P', ' ', 'C', '\n', 'C']
    let binary := [0x81, 0x16, 0xCA, 0xFF, 0xAF, 0xFA, 0x10, 0x02]
    (assemble 0xFFA source).bytes = .ok binary ∧ (symbolsOf 0xFFA source).Writable ∧
      withoutLabels 0xFFA source =
        ['S', 'H', 'R', ' ', 'V', '1', ',', ' ', 'V', '1', '\n', 'R', 'N', 'D', ' ', 'V', 'A', ',',
          ' ', '0', 'x', '0', 'F', 'F', '\n', 'L', 'D', ' ', 'I', ',', ' ', '0', 'x', 'F', 'F', 'A',
          '\n', 'J', 'P', ' ', '0', 'x', '1', '0', '0', '2'] ∧
      (assemble (-2) (withoutLabels 0xFFA source)).bytes = .ok binary := by
  intro source binary
  have accepted : (assemble 0xFFA source).bytes = .ok binary := rfl
  have within : (symbolsOf 0xFFA source).Writable := by decide
  have plain := (assemble_withoutLabels accepted within).2 (-2)
  exact ⟨accepted, within, by decide +kernel, plain.1⟩

end ChipEight
