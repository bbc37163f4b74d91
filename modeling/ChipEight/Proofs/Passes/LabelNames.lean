import ChipEight.Proofs.Encoding.FieldBits
import ChipEight.Proofs.Encoding.Reprint

set_option autoImplicit false

/-!
Names of labels where they are defined and where they are used.  A line can define any single word as
a label; an operand refers to a word if no comma parts it and it is no register, literal or special
name.  A jump that is written with such a word, in whatever case, goes to the label.
-/

namespace ChipEight

open Text
open Text.Blank (isBlank)
open Text.UpperCase (upper)
open Line (instructionCount)

namespace Text

/-- A text that a line keeps as one word: it is not empty, and no blank or comment is in it. -/
structure Single (text : List Char) : Prop where
  nonempty : text ≠ []
  unparted : ∀ c ∈ text, isBlank c = false
  free : Comment.cut text = text

theorem Single.tight {text : List Char} (single : Single text) : Tight text := by
  refine ⟨single.nonempty, ⟨?_, ?_⟩, single.free⟩
  · intro c first
    exact single.unparted c (List.mem_of_head? first)
  · intro c last
    exact single.unparted c (List.mem_of_getLast? last)

theorem Single.of_upper {text : List Char} (single : Single (upper text)) : Single text := by
  refine ⟨?_, ?_, Comment.cut_of_cut_upper single.free⟩
  · rintro rfl
    exact single.nonempty rfl
  · intro c member
    rw [Bool.eq_false_iff]
    intro blank
    -- A blank is its own upper case, so the word would have it too.
    have kept : c ∈ UpperCase.upperChar c := by
      rw [UpperCase.upperChar_of_isBlank blank]
      exact List.mem_singleton_self c
    have clear := single.unparted c (List.mem_flatMap.mpr ⟨c, member, kept⟩)
    rw [blank] at clear
    cases clear

end Text

namespace Line

theorem cut_essence (text : List Char) : Comment.cut (essence text) = essence text := by
  rw [essence, Comment.cut_upper, Comment.cut_of_infix (infix_trim _) (Comment.cut_cut text)]

theorem isInfix_labelName (word : List Char) : Statement.labelName word <:+: word := by
  unfold Statement.labelName
  split
  · have front := List.dropLast_prefix word
    exact front.isInfix
  · exact List.infix_rfl

theorem single_of_label {text name : List Char} (defines : Statement.read text = .label name) :
    Single name := by
  have nonempty : essence text ≠ [] := by
    intro empty
    change Statement.ofText (essence text) = .label name at defines
    rw [empty] at defines
    cases defines
  obtain ⟨head, arguments, opens⟩ := exists_opens nonempty
  rw [read_of_opens opens] at defines
  cases known : Mnemonic.read? head with
  | some mnemonic => simp [known] at defines
  | none =>
    simp only [known] at defines
    split at defines
    · cases defines
    · rename_i lone
      cases defines
      rw [not_or, not_not] at lone
      obtain ⟨rfl, named⟩ := lone
      have whole := essence_eq_head opens
      refine ⟨?_, ?_, ?_⟩
      · intro empty
        exact named ((labelName_isEmpty opens.nonempty).mp (List.isEmpty_iff.mpr empty))
      · intro c member
        exact opens.word c ((isInfix_labelName head).subset member)
      · apply Comment.cut_of_infix (isInfix_labelName head)
        rw [← whole]
        exact cut_essence text

end Line

namespace Operand

/-- The words that stand for an operand of their own and cannot refer to a label: the special names,
the registers, and the literals of one to four digits. -/
inductive Reserved : List Char → Prop
  | special {word : List Char}
      (listed : word ∈ [['K'], ['D', 'T'], ['S', 'T'], ['I'], ['[', 'I', ']'], ['B'], ['F']]) :
      Reserved word
  | register {digit : Char} (hex : digit ∈ Hexadecimal.alphabet) : Reserved ['V', digit]
  | literal {digits : List Char} (enough : 1 ≤ digits.length) (few : digits.length ≤ 4)
      (hex : ∀ digit ∈ digits, digit ∈ Hexadecimal.alphabet) : Reserved ('0' :: 'X' :: digits)

private theorem reserved_register_iff {digit : Char} :
    Reserved ['V', digit] ↔ (registerOf? digit).isSome = true := by
  have shown : (registerOf? digit).isSome = true ↔ digit ∈ Hexadecimal.alphabet := by
    rw [registerOf?, ← Hexadecimal.isSome_value?_iff]
    cases Hexadecimal.value? digit <;> simp
  rw [shown]
  constructor
  · rintro (⟨listed⟩ | ⟨hex⟩)
    · simp at listed
    · exact hex
  · exact Reserved.register

private theorem reserved_literal_iff {digits : List Char} :
    Reserved ('0' :: 'X' :: digits) ↔ (literalOf? digits).isSome = true := by
  have shown : (literalOf? digits).isSome = true ↔ (1 ≤ digits.length ∧ digits.length ≤ 4) ∧
      ∀ digit ∈ digits, digit ∈ Hexadecimal.alphabet := by
    rw [literalOf?, ← Hexadecimal.isSome_number?_iff]
    split
    · rename_i short
      cases Hexadecimal.number? digits <;> simp [short]
    · rename_i long
      simp [long]
  rw [shown]
  constructor
  · rintro (⟨listed⟩ | - | ⟨enough, few, hex⟩)
    · simp at listed
    · exact ⟨⟨enough, few⟩, hex⟩
  · rintro ⟨⟨enough, few⟩, hex⟩
    exact .literal enough few hex

theorem ofWord_eq_label_iff {word : List Char} (nonempty : word ≠ []) :
    ofWord word = label word ↔ ¬ Reserved word := by
  fun_cases ofWord word with
  | case1 => exact absurd rfl nonempty
  | case9 digit =>
    rw [reserved_register_iff]
    cases read : registerOf? digit with
    | none => simp
    | some operand =>
      obtain ⟨n, -, rfl⟩ := Option.map_eq_some_iff.mp read
      simp
  | case10 digits =>
    rw [reserved_literal_iff]
    cases read : literalOf? digits with
    | none => simp
    | some operand =>
      simp only [literalOf?, Option.ite_none_right_eq_some, Option.map_eq_some_iff] at read
      obtain ⟨-, n, -, rfl⟩ := read
      simp
  | case11 =>
    refine iff_of_true rfl ?_
    -- The word is none of the patterns above, and each way to be reserved is one of them.
    rintro (⟨listed⟩ | ⟨hex⟩ | ⟨enough, few, hex⟩)
    · simp_all
    · simp_all
    · simp_all
  | _ =>
    refine iff_of_false (by simp) (not_not.mpr (.special ?_))
    decide

instance : DecidablePred Reserved
  | [] => isFalse fun reserved => by
    obtain ⟨listed⟩ := reserved
    simp at listed
  | c :: rest => decidable_of_iff (¬ ofWord (c :: rest) = label (c :: rest)) <| by
    rw [ofWord_eq_label_iff (List.cons_ne_nil c rest), not_not]

example : Reserved ['0', 'X', '3', '0', '0'] ∧ ¬ Reserved ['0', 'X'] ∧ ¬ Reserved ['V', 'G'] := by
  decide

theorem legible_label_iff {name : List Char} (single : Single name) (capital : upper name = name) :
    (label name).Legible ↔ ',' ∉ name ∧ ¬ Reserved name := by
  rw [← ofWord_eq_label_iff single.nonempty]
  constructor
  · intro legible
    have reads := legible.reads
    rw [spelling, capital] at reads
    exact ⟨legible.comma, reads⟩
  · rintro ⟨comma, reads⟩
    refine ⟨single.tight, comma, ?_⟩
    rw [spelling, capital, reads]

end Operand

namespace Instruction

def jumpTo (name : List Char) (position : Position) : Instruction :=
  ⟨['J', 'P'], [.label name], position⟩

theorem takes_jumpTo (name : List Char) :
    Catalog.Takes .jp (0x1000, [.packed .immediate .nnn]) [.label name] :=
  ⟨by decide, rfl⟩

theorem parse_jump {name : List Char} (legible : (Operand.label name).Legible)
    (position : Position) : parse ['J', 'P'] name position = .ok (jumpTo name position) := by
  have listed : Operand.readList (Operand.spellAll [.label name]) = [.label name] :=
    Operand.readList_spellAll (List.forall_mem_singleton.mpr legible)
  rw [Operand.spellAll, List.map_singleton, List.intercalate_singleton] at listed
  exact parse_of_takes (takes_jumpTo name) listed position

theorem jump_refers_iff {name : List Char} {position : Position} :
    (∃ instruction, parse ['J', 'P'] name position = .ok instruction ∧
      instruction.labels = [name]) ↔ (Operand.label name).Legible := by
  constructor
  · rintro ⟨instruction, parsed, refers⟩
    obtain ⟨mnemonic, -, read⟩ := parse_eq_ok parsed
    have member : name ∈ instruction.labels := by
      rw [refers]
      exact List.mem_singleton_self name
    obtain ⟨operand, listed, named⟩ := List.mem_filterMap.mp member
    rw [Operand.label?_eq_some_iff] at named
    exact named ▸ legible_of_ofMnemonic read operand listed
  · intro legible
    exact ⟨_, parse_jump legible position, rfl⟩

private theorem pack_address (opcode : Nat) (address : Int) :
    Field.pack opcode (Slot.packings [.packed .immediate .nnn] [.immediate address]) =
      opcode ||| (Int.land address 0xFFF).toNat := by
  have kept : Int.land address 0xFFF = Field.nnn.content address :=
    (Field.content_eq_land .nnn address).symm
  rw [kept, Int.toNat_natCast]
  rfl

theorem wordUnder_jumpTo {symbols : SymbolTable} {name : List Char} {address : Int}
    (found : symbols.find? name = some address) (position : Position) :
    (jumpTo name position).wordUnder symbols = 0x1000 ||| (Int.land address 0xFFF).toNat := by
  have named : (jumpTo name position).mnemonic = Mnemonic.jp.spelling := rfl
  have replaced : (jumpTo name position).operands.map (Operand.substitute symbols) =
      [.immediate address] := by
    simp [jumpTo, Operand.substitute, found]
  rw [wordUnder_eq named (takes_jumpTo name), replaced]
  exact pack_address 0x1000 address

end Instruction

/-- What a jump that is written with a text has to do with the label of a name: it is read with the
name, it refers to the label unless the name has a comma in it or is reserved, and then its word has
the address of the label.  A source that is accepted with such a jump defines the name. -/
structure ReachedByJump (name text : List Char) : Prop where
  read : Statement.read (['J', 'P', ' '] ++ text) = .instruction .jp name
  refers : ∀ position, (∃ instruction, Instruction.parse ['J', 'P'] name position = .ok instruction ∧
    instruction.labels = [name]) ↔ ',' ∉ name ∧ ¬ Operand.Reserved name
  encoded : ',' ∉ name → ¬ Operand.Reserved name → ∀ base source binary,
    (assemble base source).bytes = .ok binary → ∀ before line after,
      Line.ofSource source = before ++ line :: after → line.text = ['J', 'P', ' '] ++ text →
        ∃ address, (assemble base source).layout.symbols.find? name = some address ∧
          wordAt? binary (instructionCount before) =
            some (0x1000 ||| (Int.land address 0xFFF).toNat)

theorem wordAt?_jump {base : Int} {source name : List Char} {binary : List UInt8}
    (accepted : (assemble base source).bytes = .ok binary) {before after : List Line} {line : Line}
    (split : Line.ofSource source = before ++ line :: after)
    (read : line.statement = .instruction .jp name) (legible : (Operand.label name).Legible) :
    ∃ address, (symbolsOf base source).find? name = some address ∧
      wordAt? binary (instructionCount before) =
        some (0x1000 ||| (Int.land address 0xFFF).toNat) := by
  obtain ⟨faultless, rfl⟩ := bytes_eq_ok_iff_words.mp accepted
  rw [split] at faultless ⊢
  have clear := faultless line (List.mem_append_right before List.mem_cons_self)
  have parsed : Instruction.ofMnemonic .jp name line.position =
      .ok (Instruction.jumpTo name line.position) := Instruction.parse_jump legible line.position
  have defined := (Line.fault?_eq_none_iff_defined read parsed).mp clear
  obtain ⟨address, found⟩ :=
    Option.isSome_iff_exists.mp (defined name (List.mem_singleton_self name))
  refine ⟨address, found, ?_⟩
  have holds : line.isInstruction = true := by simp [Line.isInstruction, read]
  rw [wordAt?_split faultless holds, Line.word?_of_parsed read parsed clear,
    Instruction.wordUnder_jumpTo found]

/-- A label is reached by a jump that is written with its name, in whatever case. -/
theorem label_reached_by_jump {line name text : List Char}
    (defines : Statement.read line = .label name) (same : upper text = name) :
    ReachedByJump name text := by
  have single : Single name := Line.single_of_label defines
  have capital : upper name = name := by rw [← same, UpperCase.upper_upper]
  have legible := Operand.legible_label_iff single capital
  have read : Statement.read (['J', 'P', ' '] ++ text) = .instruction .jp name := by
    have written : ['J', 'P', ' '] ++ text = Mnemonic.jp.spelling ++ [' '] ++ text := rfl
    rw [← same] at single ⊢
    rw [written, Instruction.read_mnemonic_append single.of_upper.tight]
  refine ⟨read, fun position => Instruction.jump_refers_iff.trans legible, ?_⟩
  intro comma unreserved base source binary accepted before line after split written
  have statement : line.statement = .instruction .jp name := by
    have member : line ∈ Line.ofSource source := by
      rw [split]
      exact List.mem_append_right before List.mem_cons_self
    rw [(Line.of_mem_ofSource member).1, written, read]
  rw [layout_assemble]
  exact wordAt?_jump accepted split statement (legible.mpr ⟨comma, unreserved⟩)

/-- A source that defines a label as `ß:` below the first address and jumps to it as `sS`. -/
theorem label_reached_by_jump_sharp_s :
    let source := ['ß', ':', '\n', 'C', 'L', 'S', '\n', 'J', 'P', ' ', 's', 'S']
    Statement.read ['ß', ':'] = .label ['S', 'S'] ∧ upper ['s', 'S'] = ['S', 'S'] ∧
      (assemble (-2) source).bytes = .ok [0x00, 0xE0, 0x1F, 0xFE] ∧
      ∃ address, (assemble (-2) source).layout.symbols.find? ['S', 'S'] = some address ∧
        wordAt? [0x00, 0xE0, 0x1F, 0xFE] 1 = some (0x1000 ||| (Int.land address 0xFFF).toNat) := by
  intro source
  have defines : Statement.read ['ß', ':'] = .label ['S', 'S'] := by decide +kernel
  have same : upper ['s', 'S'] = ['S', 'S'] := by decide
  have accepted : (assemble (-2) source).bytes = .ok [0x00, 0xE0, 0x1F, 0xFE] := by decide +kernel
  refine ⟨defines, same, accepted, ?_⟩
  exact (label_reached_by_jump defines same).encoded (by decide) (by decide) (-2) source _ accepted
    [Line.ofText 1 ['ß', ':'], Line.ofText 2 ['C', 'L', 'S']]
    (Line.ofText 3 ['J', 'P', ' ', 's', 'S']) [] (by decide +kernel) rfl

end ChipEight
