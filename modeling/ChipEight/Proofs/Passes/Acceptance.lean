import ChipEight.Proofs.Passes.LineCode
import ChipEight.Proofs.Text.Comments

set_option autoImplicit false

/-!
Which sources are accepted, and what the others are refused for.  A line is good or bad by its text
and the table of labels; a source is refused for its first bad line, and the encoder adds no fault
of its own.
-/

namespace ChipEight

open Text
open Text.Blank (isBlank Trimmed Opens)

namespace Line

/-- What counts of a line: its text without the comment and the blanks around, in upper case. -/
def essence (text : List Char) : List Char :=
  UpperCase.upper (Blank.trim (Comment.cut text))

/-- A line that is accepted: nothing, a lone word that is no mnemonic and not just a colon, or a
mnemonic with operands that it takes and labels that are defined. -/
inductive Good (symbols : SymbolTable) (position : Position) : Prop where
  | blank (empty : essence position.text = [])
  | label (nonempty : essence position.text ≠ [])
      (single : ∀ c ∈ essence position.text, isBlank c = false)
      (other : Mnemonic.read? (essence position.text) = none)
      (named : essence position.text ≠ [':'])
  | instruction {head arguments : List Char} {instruction : Instruction}
      (opens : Opens (essence position.text) head arguments)
      (parsed : Instruction.parse head arguments position = .ok instruction)
      (defined : ∀ name ∈ instruction.labels, (symbols.find? name).isSome = true)

/-- A line that is refused, and its fault: a first word that is no mnemonic, a mnemonic without a
form for the operands, or a label that is not defined. -/
inductive Bad (symbols : SymbolTable) (position : Position) : Fault → Prop where
  | unknown {head arguments : List Char} (opens : Opens (essence position.text) head arguments)
      (other : Mnemonic.read? head = none) (more : arguments ≠ [] ∨ head = [':']) :
      Bad symbols position (.unknownMnemonic head position)
  | shape {head arguments : List Char} {mnemonic : Mnemonic}
      (opens : Opens (essence position.text) head arguments)
      (known : Mnemonic.read? head = some mnemonic)
      (unfit : ∀ form ∈ Catalog.forms mnemonic,
        form.accept? (Operand.readList arguments) = none) :
      Bad symbols position
        (.unsupportedOperands mnemonic.spelling (Blank.trim position.text) position)
  | undefined {head arguments : List Char} {instruction : Instruction} {name : List Char}
      (opens : Opens (essence position.text) head arguments)
      (parsed : Instruction.parse head arguments position = .ok instruction)
      (refers : instruction.labels = [name]) (absent : symbols.find? name = none) :
      Bad symbols position (.undefinedLabel name position)

theorem trimmed_essence (text : List Char) : Trimmed (essence text) :=
  UpperCase.trimmed_upper (Blank.trimmed_trim _)

theorem mem_cut {c : Char} {text : List Char} (h : c ∈ Comment.cut text) : c ∈ text := by
  obtain ⟨comment, whole⟩ := Comment.exists_comment text
  rw [whole]
  exact List.mem_append_left comment h

theorem essence_eq_nil {text : List Char} (blank : Blank.trim text = []) :
    essence text = [] := by
  have inside : Blank.trim (Comment.cut text) = [] := by
    rw [Blank.trim_eq_nil_iff] at blank ⊢
    intro c member
    exact blank c (mem_cut member)
  rw [essence, inside]
  rfl

theorem exists_opens {text : List Char} (nonempty : essence text ≠ []) :
    ∃ head arguments, Opens (essence text) head arguments := by
  have trimmed := trimmed_essence text
  cases whole : essence text with
  | nil => exact absurd whole nonempty
  | cons c rest =>
    rw [whole] at trimmed
    exact ⟨_, _, Blank.opens_firstWord (trimmed.1 c rfl)⟩

theorem trim_arguments {text head arguments : List Char}
    (opens : Opens (essence text) head arguments) : Blank.trim arguments = arguments := by
  apply Blank.trim_of_trimmed
  refine ⟨opens.start, ?_⟩
  intro c last
  obtain ⟨gap, whole, -, -⟩ := opens.split
  apply (trimmed_essence text).2 c
  rw [whole, List.getLast?_append, last]
  rfl

theorem labelName_isEmpty {word : List Char} (nonempty : word ≠ []) :
    (Statement.labelName word).isEmpty = true ↔ word = [':'] := by
  rw [Statement.labelName, List.isEmpty_iff]
  split
  · rename_i colon
    constructor
    · intro rest
      have parts := List.dropLast_append_getLast? ':' colon
      rw [rest] at parts
      exact parts.symm
    · rintro rfl
      rfl
  · rename_i noColon
    constructor
    · intro empty
      exact absurd empty nonempty
    · rintro rfl
      exact absurd rfl noColon

theorem read_of_opens {text head arguments : List Char}
    (opens : Opens (essence text) head arguments) :
    Statement.read text =
      match Mnemonic.read? head with
      | some mnemonic => .instruction mnemonic arguments
      | none =>
        if arguments ≠ [] ∨ head = [':'] then .unknown head arguments
        else .label (Statement.labelName head) := by
  have parts := Blank.firstWord_of_opens opens
  have trimmed := trim_arguments opens
  have read : Statement.read text = Statement.ofText (essence text) := rfl
  obtain ⟨gap, whole, -, -⟩ := opens.split
  rw [read]
  cases shown : essence text with
  | nil =>
    rw [shown] at whole
    have empty : head = [] := by simp_all
    exact absurd empty opens.nonempty
  | cons c rest =>
    rw [shown] at parts
    simp only [Statement.ofText, parts, trimmed]
    cases Mnemonic.read? head with
    | some mnemonic => rfl
    | none =>
      have name := labelName_isEmpty opens.nonempty
      by_cases colon : head = [':']
      · simp [colon, Statement.labelName]
      · have named : (Statement.labelName head).isEmpty = false := by
          rw [Bool.eq_false_iff]
          exact fun empty => colon (name.mp empty)
        simp only [named, colon, or_false, Bool.not_false, Bool.and_true]
        cases arguments <;> simp

theorem essence_eq_head {text head : List Char} (opens : Opens (essence text) head []) :
    essence text = head := by
  obtain ⟨gap, whole, blank, -⟩ := opens.split
  rw [List.append_nil] at whole
  -- A gap with nothing behind it would leave the line ending in a blank.
  cases last : gap.getLast? with
  | none =>
    rw [List.getLast?_eq_none_iff] at last
    rw [whole, last, List.append_nil]
  | some c =>
    have ends : (essence text).getLast? = some c := by
      rw [whole, List.getLast?_append, last]
      rfl
    have clear := (trimmed_essence text).2 c ends
    rw [blank c (List.mem_of_getLast? last)] at clear
    cases clear

theorem opens_word {word : List Char} (nonempty : word ≠ [])
    (single : ∀ c ∈ word, isBlank c = false) : Opens word word [] := by
  refine ⟨nonempty, single, by simp, [], ?_, by simp, fun _ => rfl⟩
  rw [List.append_nil, List.append_nil]

private theorem parse_of_known {head : List Char} {mnemonic : Mnemonic}
    (known : Mnemonic.read? head = some mnemonic) (arguments : List Char) (position : Position) :
    Instruction.parse head arguments position =
      Instruction.ofMnemonic mnemonic arguments position := by
  simp [Instruction.parse, known]

private theorem labels_eq_of_undefined {symbols : SymbolTable} {mnemonic : Mnemonic}
    {arguments : List Char} {position : Position} {instruction : Instruction}
    (parsed : Instruction.ofMnemonic mnemonic arguments position = .ok instruction)
    (undefined : ¬ ∀ name ∈ instruction.labels, (symbols.find? name).isSome = true) :
    ∃ name, instruction.labels = [name] ∧ symbols.find? name = none := by
  obtain ⟨-, -, word, taken⟩ := Instruction.ofMnemonic_eq_ok parsed
  -- No word has room for two labels.
  have few : instruction.labels.length ≤ 1 := taken.length_labels_le
  match labels : instruction.labels with
  | [] =>
    rw [labels] at undefined
    exact absurd (by simp) undefined
  | [name] =>
    rw [labels] at undefined
    exact ⟨name, rfl, by simpa using undefined⟩
  | _ :: _ :: _ =>
    rw [labels] at few
    simp at few

private theorem ofMnemonic_eq_error_iff {mnemonic : Mnemonic} {arguments : List Char}
    {position : Position} {fault : Fault} (shown : Blank.trim position.text ≠ []) :
    Instruction.ofMnemonic mnemonic arguments position = .error fault ↔
      (∀ form ∈ Catalog.forms mnemonic, form.accept? (Operand.readList arguments) = none) ∧
        fault = .unsupportedOperands mnemonic.spelling (Blank.trim position.text) position := by
  have visible : (Blank.trim position.text).isEmpty = false := by
    simpa using shown
  rw [Instruction.ofMnemonic, ← List.findSome?_eq_none_iff]
  cases (Catalog.forms mnemonic).findSome? (·.accept? (Operand.readList arguments)) with
  | some operands => simp
  | none => simp [visible, eq_comm]

private theorem trim_ne_nil {text head arguments : List Char}
    (opens : Opens (essence text) head arguments) : Blank.trim text ≠ [] := by
  intro blank
  obtain ⟨gap, whole, -, -⟩ := opens.split
  rw [essence_eq_nil blank] at whole
  have empty : head = [] := by simp_all
  exact opens.nonempty empty

theorem good_or_bad (symbols : SymbolTable) (position : Position) :
    Good symbols position ∨ ∃ fault, Bad symbols position fault := by
  by_cases empty : essence position.text = []
  · exact Or.inl (.blank empty)
  obtain ⟨head, arguments, opens⟩ := exists_opens empty
  cases known : Mnemonic.read? head with
  | none =>
    by_cases more : arguments ≠ [] ∨ head = [':']
    · exact Or.inr ⟨_, .unknown opens known more⟩
    · rw [not_or, not_not] at more
      obtain ⟨rfl, named⟩ := more
      have whole := essence_eq_head opens
      left
      refine .label empty ?_ ?_ ?_ <;> rw [whole]
      · exact opens.word
      · exact known
      · exact named
  | some mnemonic =>
    have parse := parse_of_known known arguments position
    cases read : Instruction.ofMnemonic mnemonic arguments position with
    | error fault =>
      have unfit := ((ofMnemonic_eq_error_iff (trim_ne_nil opens)).mp read).1
      exact Or.inr ⟨_, .shape opens known unfit⟩
    | ok instruction =>
      rw [read] at parse
      by_cases defined : ∀ name ∈ instruction.labels, (symbols.find? name).isSome = true
      · exact Or.inl (.instruction opens parse defined)
      · obtain ⟨name, refers, absent⟩ := labels_eq_of_undefined read defined
        exact Or.inr ⟨_, .undefined opens parse refers absent⟩

theorem fault?_of_good {symbols : SymbolTable} {number : Nat} {text : List Char}
    (good : Good symbols ⟨number, text⟩) : (ofText number text).fault? symbols = none := by
  cases good with
  | blank empty =>
    have read : Statement.read text = .blank := by
      change Statement.ofText (essence text) = .blank
      rw [empty]
      rfl
    simp [fault?, compile, ofText, read]
  | label nonempty single other named =>
    have read := read_of_opens (opens_word nonempty single)
    simp only [other, ne_eq, not_true_eq_false, named, or_self, if_false] at read
    simp [fault?, compile, ofText, read]
  | instruction opens parsed defined =>
    obtain ⟨mnemonic, known, parsed⟩ := Instruction.parse_eq_ok parsed
    have read := read_of_opens opens
    obtain ⟨name, -, word, taken⟩ := Instruction.ofMnemonic_eq_ok parsed
    have resolves := Instruction.resolve_eq_ok_iff.mpr ⟨defined, rfl⟩
    have encoded := (Instruction.encode_of_resolve name taken resolves).2
    simp [fault?, compile, ofText, read, known, position, parsed, resolves, encoded, Except.map]

theorem fault?_of_bad {symbols : SymbolTable} {number : Nat} {text : List Char} {fault : Fault}
    (bad : Bad symbols ⟨number, text⟩ fault) : (ofText number text).fault? symbols = some fault := by
  cases bad with
  | unknown opens other more =>
    have read := read_of_opens opens
    simp only [other, more, if_true] at read
    simp [fault?, compile, ofText, read, position]
  | shape opens known unfit =>
    have read := read_of_opens opens
    have refused := (ofMnemonic_eq_error_iff (trim_ne_nil opens)).mpr ⟨unfit, rfl⟩
    simp [fault?, compile, ofText, read, known, position, refused]
  | @undefined _ _ instruction name opens parsed refers absent =>
    obtain ⟨mnemonic, known, parsed⟩ := Instruction.parse_eq_ok parsed
    have read := read_of_opens opens
    have place := (Instruction.ofMnemonic_eq_ok parsed).2.1
    have missing : instruction.labels.find? (fun name => (symbols.find? name).isNone) =
        some name := by
      rw [refers]
      simp [absent]
    have refused := Instruction.resolve_eq_error_iff.mpr ⟨name, missing, rfl⟩
    simp [fault?, compile, ofText, read, known, position, parsed, refused, place]

theorem fault?_eq_none_iff {symbols : SymbolTable} {number : Nat} {text : List Char} :
    (ofText number text).fault? symbols = none ↔ Good symbols ⟨number, text⟩ := by
  constructor
  · intro faultless
    rcases good_or_bad symbols ⟨number, text⟩ with good | ⟨fault, bad⟩
    · exact good
    · rw [fault?_of_bad bad] at faultless
      cases faultless
  · exact fault?_of_good

theorem fault?_eq_some_iff {symbols : SymbolTable} {number : Nat} {text : List Char}
    {fault : Fault} :
    (ofText number text).fault? symbols = some fault ↔ Bad symbols ⟨number, text⟩ fault := by
  constructor
  · intro refused
    rcases good_or_bad symbols ⟨number, text⟩ with good | ⟨other, bad⟩
    · rw [fault?_of_good good] at refused
      cases refused
    · rw [fault?_of_bad bad] at refused
      cases refused
      exact bad
  · exact fault?_of_bad

theorem not_good_iff {symbols : SymbolTable} {number : Nat} {text : List Char} :
    ¬ Good symbols ⟨number, text⟩ ↔ ∃! fault, Bad symbols ⟨number, text⟩ fault := by
  simp only [← fault?_eq_none_iff, ← fault?_eq_some_iff]
  cases (ofText number text).fault? symbols with
  | none => simp [ExistsUnique]
  | some fault => simp

end Line

/-- Where the line at an index of a source stands: lines are counted from one, and a carriage return
that ends a line is no part of it. -/
def Position.inSource? (source : List Char) (k : Nat) : Option Position :=
  (source.splitOn '\n')[k]?.map fun raw => ⟨(k + 1 : Nat), Line.content raw⟩

/-- An instruction that encoding has an answer for: no label is left, and one word takes the operands
with a number for each of its fields. -/
structure Instruction.Encodable (instruction : Instruction) : Prop where
  unlabelled : instruction.labels = []
  word : ∃ opcode slots, instruction.encoding? = some (opcode, slots) ∧
    slots.length = instruction.operands.length ∧
    ∀ (k : Nat) (slot : Slot) (field : Field) (operand : Operand), slots[k]? = some slot →
      slot.field? = some field → instruction.operands[k]? = some operand →
        ∃ value, operand.number? = some value

structure Verdict (base : Int) (source : List Char) : Prop where
  accepted : (∃ binary, (assemble base source).bytes = .ok binary) ↔
    ∀ k position, Position.inSource? source k = some position →
      Line.Good (symbolsOf base source) position
  refused : ∀ fault, (assemble base source).bytes = .error fault ↔
    ∃ k position, Position.inSource? source k = some position ∧
      Line.Bad (symbolsOf base source) position fault ∧
      ∀ j < k, ∀ earlier, Position.inSource? source j = some earlier →
        Line.Good (symbolsOf base source) earlier
  apart : ∀ k position, Position.inSource? source k = some position →
    (¬ Line.Good (symbolsOf base source) position ↔
      ∃! fault, Line.Bad (symbolsOf base source) position fault)
  placed : ∀ position fault, Line.Bad (symbolsOf base source) position fault →
    fault.position? = some position
  encodable : ∀ name arguments position instruction resolved,
    Instruction.parse name arguments position = .ok instruction →
      instruction.resolve (symbolsOf base source) = .ok resolved →
        resolved.Encodable ∧ ∃ word, resolved.encode.2 = .ok word

section Source

variable {symbols : SymbolTable} {source : List Char} {fault : Fault}

private theorem good_at_iff {k : Nat} :
    (∀ line, (Line.ofSource source)[k]? = some line → line.fault? symbols = none) ↔
      ∀ position, Position.inSource? source k = some position → Line.Good symbols position := by
  rw [Line.getElem?_ofSource, Position.inSource?]
  cases (source.splitOn '\n')[k]? with
  | none => simp
  | some raw => simp [Line.fault?_eq_none_iff]

private theorem bad_at_iff {k : Nat} :
    (∃ line, (Line.ofSource source)[k]? = some line ∧ line.fault? symbols = some fault) ↔
      ∃ position, Position.inSource? source k = some position ∧
        Line.Bad symbols position fault := by
  rw [Line.getElem?_ofSource, Position.inSource?]
  cases (source.splitOn '\n')[k]? with
  | none => simp
  | some raw => simp [Line.fault?_eq_some_iff]

private theorem findSome?_fault?_eq_some_iff {lines : List Line} :
    lines.findSome? (Line.fault? symbols) = some fault ↔
      ∃ k : Nat, (∃ line, lines[k]? = some line ∧ line.fault? symbols = some fault) ∧
        ∀ j < k, ∀ earlier, lines[j]? = some earlier → earlier.fault? symbols = none := by
  induction lines with
  | nil => simp
  | cons head lines ih =>
    rw [List.findSome?_cons]
    cases first : head.fault? symbols with
    | some found =>
      constructor
      · rintro ⟨rfl⟩
        refine ⟨0, ⟨head, rfl, first⟩, ?_⟩
        intro j less
        omega
      · rintro ⟨k, ⟨line, stands, refused⟩, clear⟩
        cases k with
        | zero =>
          cases stands
          rw [← first, refused]
        | succ k =>
          have none := clear 0 (by omega) head rfl
          rw [first] at none
          cases none
    | none =>
      rw [ih]
      constructor
      · rintro ⟨k, stands, clear⟩
        refine ⟨k + 1, stands, ?_⟩
        intro j less earlier found
        cases j with
        | zero =>
          cases found
          exact first
        | succ j => exact clear j (by omega) earlier found
      · rintro ⟨k, ⟨line, stands, refused⟩, clear⟩
        cases k with
        | zero =>
          cases stands
          rw [first] at refused
          cases refused
        | succ k =>
          refine ⟨k, ⟨line, stands, refused⟩, ?_⟩
          intro j less earlier found
          exact clear (j + 1) (by omega) earlier found

end Source

private theorem encodable_of_resolve {name arguments : List Char} {position : Position}
    {instruction resolved : Instruction} {symbols : SymbolTable}
    (parsed : Instruction.parse name arguments position = .ok instruction)
    (resolves : instruction.resolve symbols = .ok resolved) :
    resolved.Encodable ∧ ∃ word, resolved.encode.2 = .ok word := by
  obtain ⟨mnemonic, -, read⟩ := Instruction.parse_eq_ok parsed
  obtain ⟨named, -, word, taken⟩ := Instruction.ofMnemonic_eq_ok read
  obtain ⟨still, found⟩ := Instruction.encoding?_of_resolve named taken resolves
  have encoded := (Instruction.encode_of_resolve named taken resolves).2
  have unlabelled := Instruction.labels_of_resolve resolves
  refine ⟨⟨unlabelled, word.1, word.2, found, still.length_eq, ?_⟩, _, encoded⟩
  intro k slot field operand place filled given
  exact still.exists_number unlabelled place given filled

/-- Every source is accepted if all its lines are good, and else refused for the first bad one. -/
theorem accepted_unless_bad_line (base : Int) (source : List Char) : Verdict base source where
  accepted := by
    have every : (∀ line ∈ Line.ofSource source, line.fault? (symbolsOf base source) = none) ↔
        ∀ k position, Position.inSource? source k = some position →
          Line.Good (symbolsOf base source) position := by
      simp only [← good_at_iff, List.mem_iff_getElem?]
      constructor
      · intro clear k line found
        exact clear line ⟨k, found⟩
      · rintro clear line ⟨k, found⟩
        exact clear k line found
    rw [← every]
    constructor
    · rintro ⟨binary, assembled⟩
      exact (bytes_assemble_eq_ok_iff.mp assembled).1
    · intro clear
      exact ⟨_, bytes_assemble_eq_ok_iff.mpr ⟨clear, rfl⟩⟩
  refused := by
    intro fault
    rw [bytes_assemble_eq_error_iff, findSome?_fault?_eq_some_iff]
    constructor
    · rintro ⟨k, stands, clear⟩
      obtain ⟨position, found, bad⟩ := bad_at_iff.mp stands
      exact ⟨k, position, found, bad, fun j less => good_at_iff.mp (clear j less)⟩
    · rintro ⟨k, position, found, bad, clear⟩
      exact ⟨k, bad_at_iff.mpr ⟨position, found, bad⟩, fun j less => good_at_iff.mpr (clear j less)⟩
  apart := by
    intro k position found
    rw [Position.inSource?, Option.map_eq_some_iff] at found
    obtain ⟨raw, -, rfl⟩ := found
    exact Line.not_good_iff
  placed := by
    intro position fault bad
    cases bad <;> rfl
  encodable := by
    intro name arguments position instruction resolved parsed resolves
    exact encodable_of_resolve parsed resolves

/-- `JP L1`, `L1:`, `JP L2`, `FOO 1`: a later line makes the first one good, and the third is refused
before the fourth. -/
theorem accepted_unless_bad_line_third :
    let source := ['J', 'P', ' ', 'L', '1', '\n', 'L', '1', ':', '\n', 'J', 'P', ' ', 'L', '2', '\r',
      '\n', 'F', 'O', 'O', ' ', '1']
    let fault := Fault.undefinedLabel ['L', '2'] ⟨3, ['J', 'P', ' ', 'L', '2']⟩
    (assemble defaultBase source).bytes = .error fault ∧
      Line.Bad (symbolsOf defaultBase source) ⟨3, ['J', 'P', ' ', 'L', '2']⟩ fault ∧
      Line.Good (symbolsOf defaultBase source) ⟨1, ['J', 'P', ' ', 'L', '1']⟩ := by
  intro source fault
  have verdict := accepted_unless_bad_line defaultBase source
  have result : (assemble defaultBase source).bytes = .error fault := rfl
  obtain ⟨k, position, found, bad, clear⟩ := (verdict.refused fault).mp result
  have same : position = ⟨3, ['J', 'P', ' ', 'L', '2']⟩ :=
    (Option.some.inj (verdict.placed position fault bad)).symm
  subst same
  refine ⟨result, bad, clear 0 ?_ _ rfl⟩
  cases k with
  | zero => cases found
  | succ k => omega

end ChipEight
