import ChipEight.Proofs.Passes.Restyling

set_option autoImplicit false

/-!
One instruction in place of another.  Every instruction takes the same room and binds no label, so
an edit of one line leaves the table of labels and all other lines as they are: what can change is
the word of that line, or whether that line is accepted.
-/

namespace ChipEight

open Line (instructionCount)

theorem getElem?_bytes_replace (front back : List Nat) (old new : Nat) {i : Nat}
    (high : i ≠ 2 * front.length) (low : i ≠ 2 * front.length + 1) :
    ((front ++ new :: back).flatMap bigEndian)[i]? =
      ((front ++ old :: back).flatMap bigEndian)[i]? := by
  have length := length_flatMap_bigEndian front
  rw [List.flatMap_append, List.flatMap_append, List.flatMap_cons, List.flatMap_cons]
  by_cases before : i < 2 * front.length
  · rw [List.getElem?_append_left (by omega), List.getElem?_append_left (by omega)]
  · have start : (front.flatMap bigEndian).length ≤ i := by omega
    have behind : ∀ word : Nat, (bigEndian word).length ≤ i - (front.flatMap bigEndian).length := by
      intro word
      show 2 ≤ i - (front.flatMap bigEndian).length
      omega
    rw [List.getElem?_append_right start, List.getElem?_append_right start,
      List.getElem?_append_right (behind new), List.getElem?_append_right (behind old)]
    rfl

namespace Line

theorem bind_of_isInstruction {line : Line} (holds : line.isInstruction = true)
    (symbols : SymbolTable) (address : Int) : line.bind symbols address = symbols := by
  obtain ⟨mnemonic, arguments, statement⟩ := exists_of_isInstruction holds
  simp only [bind, statement]

theorem isInstruction_ofText {raw arguments : List Char} {mnemonic : Mnemonic}
    (read : Statement.read raw = .instruction mnemonic arguments) (number : Nat) :
    (ofText number (content raw)).isInstruction = true := by
  simp only [isInstruction, ofText, Statement.read_content, read]

theorem ofSource_of_lines {source raw : List Char} {front back : List (List Char)}
    (lines : source.splitOn '\n' = front ++ raw :: back) :
    ofSource source =
      numbered 1 (front.map content) ++
        ofText (front.length + 1) (content raw) ::
          numbered (front.length + 2) (back.map content) := by
  have number : 1 + (front.map content).length = front.length + 1 := by
    rw [List.length_map]
    omega
  rw [ofSource, lines, List.map_append, List.map_cons, numbered_append, number, numbered]

theorem length_numbered (number : Nat) (texts : List (List Char)) :
    (numbered number texts).length = texts.length := by
  induction texts generalizing number with
  | nil => rfl
  | cons text texts ih => rw [numbered, List.length_cons, List.length_cons, ih]

end Line

theorem splitOn_replace {source old new : List Char} {front back : List (List Char)}
    (lines : source.splitOn '\n' = front ++ old :: back) (single : '\n' ∉ new) :
    (['\n'].intercalate (front ++ new :: back)).splitOn '\n' = front ++ new :: back := by
  have clear : ∀ raw ∈ front ++ old :: back, '\n' ∉ raw := by
    intro raw member
    rw [← lines] at member
    exact Line.not_mem_of_mem_splitOn member
  apply List.splitOn_intercalate
  · rw [List.forall_mem_append, List.forall_mem_cons] at clear ⊢
    exact ⟨clear.1, single, clear.2.2⟩
  · simp

section Replaced

variable {before after : List Line} {line other : Line}

theorem Layout.symbols_replace (holds : line.isInstruction = true)
    (also : other.isInstruction = true) (base : Int) :
    (ofLines base (before ++ other :: after)).symbols =
      (ofLines base (before ++ line :: after)).symbols := by
  have size : other.size = line.size := by
    simp only [Line.size, holds, also]
  unfold ofLines
  rw [symbols_scan_append, symbols_scan_append, symbols_scan_cons, symbols_scan_cons,
    Line.bind_of_isInstruction holds, Line.bind_of_isInstruction also, size]

variable {symbols : SymbolTable}

theorem exists_words_around
    (faultless : ∀ each ∈ before ++ line :: after, each.fault? symbols = none)
    (holds : line.isInstruction = true) :
    ∃ word, (before ++ line :: after).filterMap (Line.word? symbols) =
      before.filterMap (Line.word? symbols) ++ word :: after.filterMap (Line.word? symbols) := by
  have clear := faultless line (List.mem_append_right before List.mem_cons_self)
  obtain ⟨word, found⟩ := Line.exists_word? holds clear
  refine ⟨word, ?_⟩
  rw [List.filterMap_append, List.filterMap_cons_some found]

theorem fault?_of_replaced
    (faultless : ∀ each ∈ before ++ line :: after, each.fault? symbols = none) {fault : Fault}
    (refused : (before ++ other :: after).findSome? (Line.fault? symbols) = some fault) :
    other.fault? symbols = some fault := by
  obtain ⟨faulty, member, found⟩ := List.exists_of_findSome?_eq_some refused
  have kept : faulty ∈ before ++ line :: after → faulty = other := by
    intro untouched
    rw [faultless faulty untouched] at found
    cases found
  rcases List.mem_append.mp member with early | late
  · rw [← kept (List.mem_append_left _ early)]
    exact found
  · rcases List.mem_cons.mp late with rfl | late
    · exact found
    · rw [← kept (List.mem_append_right _ (List.mem_cons_of_mem line late))]
      exact found

end Replaced

/-- What an edit of one line keeps: all labels, all bytes but the two at the given word, and the
verdict on all other lines, so that only the edited line can be refused. -/
structure EditKeepsRest (base : Int) (source target : List Char) (edited : Position) (k : Nat) :
    Prop where
  symbols : symbolsOf base target = symbolsOf base source
  bytes : ∀ binary changed, (assemble base source).bytes = .ok binary →
    (assemble base target).bytes = .ok changed →
      changed.length = binary.length ∧
        ∀ i, i ≠ 2 * k → i ≠ 2 * k + 1 → changed[i]? = binary[i]?
  refused : ∀ binary fault, (assemble base source).bytes = .ok binary →
    (assemble base target).bytes = .error fault → fault.position? = some edited

section Edited

variable {source target : List Char} {before after : List Line} {line other : Line}
  (old : Line.ofSource source = before ++ line :: after)
  (new : Line.ofSource target = before ++ other :: after)
  (holds : line.isInstruction = true) (also : other.isInstruction = true) {base : Int}

include old new holds also

theorem symbolsOf_edited : symbolsOf base target = symbolsOf base source := by
  unfold symbolsOf
  rw [old, new]
  exact Layout.symbols_replace holds also base

theorem bytes_edited {binary changed : List UInt8}
    (first : (assemble base source).bytes = .ok binary)
    (second : (assemble base target).bytes = .ok changed) :
    changed.length = binary.length ∧
      ∀ i, i ≠ 2 * instructionCount before → i ≠ 2 * instructionCount before + 1 →
        changed[i]? = binary[i]? := by
  obtain ⟨faultless, rfl⟩ := bytes_eq_ok_iff_words.mp first
  obtain ⟨fine, rfl⟩ := bytes_eq_ok_iff_words.mp second
  rw [symbolsOf_edited old new holds also] at fine ⊢
  rw [old] at faultless
  rw [new] at fine
  obtain ⟨word, words⟩ := exists_words_around faultless holds
  obtain ⟨instead, others⟩ := exists_words_around fine also
  have count := Line.length_words (List.forall_mem_append.mp faultless).1
  rw [old, new, words, others, ← count]
  refine ⟨?_, ?_⟩
  · simp only [length_flatMap_bigEndian, List.length_append, List.length_cons]
  · intro i high low
    exact getElem?_bytes_replace _ _ word instead high low

theorem fault?_edited {binary : List UInt8} {fault : Fault}
    (first : (assemble base source).bytes = .ok binary)
    (second : (assemble base target).bytes = .error fault) :
    other.fault? (symbolsOf base source) = some fault := by
  obtain ⟨faultless, -⟩ := bytes_eq_ok_iff_words.mp first
  rw [bytes_assemble_eq_error_iff, symbolsOf_edited old new holds also, new] at second
  rw [old] at faultless
  exact fault?_of_replaced faultless second

end Edited

/-- An instruction in place of another touches only its own word, or it is refused itself. -/
theorem assemble_edited {source old new arguments operands : List Char} {mnemonic other : Mnemonic}
    {front back : List (List Char)} (lines : source.splitOn '\n' = front ++ old :: back)
    (single : '\n' ∉ new) (holds : Statement.read old = .instruction mnemonic arguments)
    (also : Statement.read new = .instruction other operands) (base : Int) :
    EditKeepsRest base source (['\n'].intercalate (front ++ new :: back))
      ⟨front.length + 1, Line.content new⟩
      (instructionCount ((Line.ofSource source).take front.length)) := by
  have before := Line.ofSource_of_lines lines
  have behind := Line.ofSource_of_lines (splitOn_replace lines single)
  have left := Line.isInstruction_ofText holds (front.length + 1)
  have right := Line.isInstruction_ofText also (front.length + 1)
  have ahead : (Line.ofSource source).take front.length =
      Line.numbered 1 (front.map Line.content) := by
    rw [before, List.take_left']
    rw [Line.length_numbered, List.length_map]
  refine ⟨symbolsOf_edited before behind left right, ?_, ?_⟩
  · intro binary changed first second
    rw [ahead]
    exact bytes_edited before behind left right first second
  · intro binary fault first second
    cases Line.fault?_eq_some_iff.mp (fault?_edited before behind left right first second) <;> rfl

/-- `L`, `JP L`, `CLS`, `JP L`: the third line becomes `ld i, l` with a carriage return, which changes
the third and the fourth byte, or `JP M`, which is refused there. -/
theorem assemble_edited_load :
    let source := ['L', '\n', 'J', 'P', ' ', 'L', '\n', 'C', 'L', 'S', '\n', 'J', 'P', ' ', 'L']
    let target := ['L', '\n', 'J', 'P', ' ', 'L', '\n', 'l', 'd', ' ', 'i', ',', ' ', 'l', '\r',
      '\n', 'J', 'P', ' ', 'L']
    let broken := ['L', '\n', 'J', 'P', ' ', 'L', '\n', 'J', 'P', ' ', 'M', '\n', 'J', 'P', ' ', 'L']
    (assemble 0x200 source).bytes = .ok [0x12, 0x00, 0x00, 0xE0, 0x12, 0x00] ∧
      (assemble 0x200 target).bytes = .ok [0x12, 0x00, 0xA2, 0x00, 0x12, 0x00] ∧
      EditKeepsRest 0x200 source target ⟨3, ['l', 'd', ' ', 'i', ',', ' ', 'l']⟩ 1 ∧
      ∃ fault, (assemble 0x200 broken).bytes = .error fault ∧
        fault.position? = some ⟨3, ['J', 'P', ' ', 'M']⟩ := by
  intro source target broken
  have lines : source.splitOn '\n' =
      [['L'], ['J', 'P', ' ', 'L']] ++ ['C', 'L', 'S'] :: [['J', 'P', ' ', 'L']] := rfl
  have cleared : Statement.read ['C', 'L', 'S'] = .instruction .cls [] := rfl
  have loaded : Statement.read ['l', 'd', ' ', 'i', ',', ' ', 'l', '\r'] =
      .instruction .ld ['I', ',', ' ', 'L'] := rfl
  have jumped : Statement.read ['J', 'P', ' ', 'M'] = .instruction .jp ['M'] := rfl
  have accepted : (assemble 0x200 source).bytes = .ok [0x12, 0x00, 0x00, 0xE0, 0x12, 0x00] := rfl
  have refused : (assemble 0x200 broken).bytes =
      .error (.undefinedLabel ['M'] ⟨3, ['J', 'P', ' ', 'M']⟩) := rfl
  refine ⟨accepted, rfl, assemble_edited lines (by decide) cleared loaded 0x200, _, refused, ?_⟩
  exact (assemble_edited lines (by decide) cleared jumped 0x200).refused _ _ accepted refused

end ChipEight
