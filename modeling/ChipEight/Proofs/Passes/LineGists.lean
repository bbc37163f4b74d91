import ChipEight.Proofs.Passes.Concatenation

set_option autoImplicit false

/-!
What counts of the lines of a source: the number and the statement of each line that says something.
Sources that agree in these, up to the numbers, have the same labels and the same bytes, or they are
refused for the same fault in lines that answer to each other.
-/

namespace ChipEight

/-- A fault without the text of its line, under another number. -/
def Fault.outline (move : Nat → Nat) : Fault → Fault
  | unknownMnemonic name position => unknownMnemonic name ⟨move position.line.toNat, []⟩
  | unsupportedOperands mnemonic _ position =>
    unsupportedOperands mnemonic [] ⟨move position.line.toNat, []⟩
  | undefinedLabel name position => undefinedLabel name ⟨move position.line.toNat, []⟩
  | unresolvedLabel name position => unresolvedLabel name ⟨move position.line.toNat, []⟩
  | noEncoding mnemonic kinds => noEncoding mnemonic kinds

/-- Two runs with the same labels that come to the same bytes, or to faults that differ only in the
text and, as `move` stated, in the number of the line. -/
structure SameOutcome (move : Nat → Nat) (before after : Assembly) : Prop where
  symbols : after.layout.symbols = before.layout.symbols
  accepted : ∀ binary, after.bytes = .ok binary ↔ before.bytes = .ok binary
  refused : ∀ fault, before.bytes = .error fault →
    ∃ other, after.bytes = .error other ∧ other.outline id = fault.outline move

namespace Line

def told (lines : List Line) : List Line :=
  lines.filter fun line => decide (line.statement ≠ .blank)

def gists (lines : List Line) : List (Nat × Statement) :=
  (told lines).map fun line => (line.number, line.statement)

theorem told_cons_of_blank {line : Line} (blank : line.statement = .blank) (lines : List Line) :
    told (line :: lines) = told lines :=
  List.filter_cons_of_neg (by simp [blank])

theorem told_cons_of_ne {line : Line} (speaks : line.statement ≠ .blank) (lines : List Line) :
    told (line :: lines) = line :: told lines :=
  List.filter_cons_of_pos (by simpa using speaks)

variable {symbols : SymbolTable}

theorem fault?_of_blank {line : Line} (blank : line.statement = .blank) :
    line.fault? symbols = none := by
  simp only [fault?, compile, blank]

theorem word?_of_blank {line : Line} (blank : line.statement = .blank) :
    line.word? symbols = none :=
  word?_eq_none (by simp only [isInstruction, blank])

theorem findSome?_told (lines : List Line) :
    (told lines).findSome? (fault? symbols) = lines.findSome? (fault? symbols) := by
  induction lines with
  | nil => rfl
  | cons line lines ih =>
    by_cases blank : line.statement = .blank
    · rw [told_cons_of_blank blank, ih, List.findSome?_cons, fault?_of_blank blank]
    · rw [told_cons_of_ne blank, List.findSome?_cons, List.findSome?_cons, ih]

theorem words_told (lines : List Line) :
    (told lines).filterMap (word? symbols) = lines.filterMap (word? symbols) := by
  induction lines with
  | nil => rfl
  | cons line lines ih =>
    by_cases blank : line.statement = .blank
    · rw [told_cons_of_blank blank, ih, List.filterMap_cons_none (word?_of_blank blank)]
    · rw [told_cons_of_ne blank, List.filterMap_cons, List.filterMap_cons, ih]

theorem symbols_told (symbols : SymbolTable) (address : Int) (lines : List Line) :
    (Layout.scan symbols address (told lines)).symbols =
      (Layout.scan symbols address lines).symbols := by
  induction lines generalizing symbols address with
  | nil => rfl
  | cons line lines ih =>
    by_cases blank : line.statement = .blank
    · have bound : line.bind symbols address = symbols := by simp only [bind, blank]
      have still : line.size = 0 := by simp [size, isInstruction, blank]
      rw [told_cons_of_blank blank, ih, Layout.symbols_scan_cons, bound, still, Int.add_zero]
    · rw [told_cons_of_ne blank, Layout.symbols_scan_cons, Layout.symbols_scan_cons, ih]

theorem outline_fault? {move : Nat → Nat} {line moved : Line}
    (number : moved.number = move line.number) (statement : moved.statement = line.statement) :
    (moved.fault? symbols).map (Fault.outline id) =
      (line.fault? symbols).map (Fault.outline move) := by
  cases stated : line.statement with
  | blank =>
    rw [fault?_of_blank stated, fault?_of_blank (statement.trans stated)]
    rfl
  | label name =>
    simp only [fault?, compile, stated, statement.trans stated]
    rfl
  | unknown head arguments =>
    simp [fault?, compile, stated, statement.trans stated, Fault.outline, position, number]
  | instruction mnemonic arguments =>
    cases accepted :
        (Catalog.forms mnemonic).findSome? (·.accept? (Operand.readList arguments)) with
    | none =>
      simp [fault?, compile, stated, statement.trans stated, Instruction.ofMnemonic, accepted,
        Fault.outline, position, number]
    | some operands =>
      have parsed : ∀ place : Position, Instruction.ofMnemonic mnemonic arguments place =
          .ok ⟨mnemonic.spelling, operands, place⟩ := by
        intro place
        rw [Instruction.ofMnemonic, accepted]
      rw [fault?, fault?, compile_of_parsed stated (parsed line.position),
        compile_of_parsed (statement.trans stated) (parsed moved.position)]
      simp only [Instruction.labels]
      cases (operands.filterMap Operand.label?).find? fun name => (symbols.find? name).isNone with
      | none => rfl
      | some name => simp [Fault.outline, position, number]

theorem outline_findSome? {move : Nat → Nat} {lines moved : List Line}
    (same : moved.map (fun line => (line.number, line.statement)) =
      lines.map fun line => (move line.number, line.statement)) :
    (moved.findSome? (fault? symbols)).map (Fault.outline id) =
      (lines.findSome? (fault? symbols)).map (Fault.outline move) := by
  induction lines generalizing moved with
  | nil =>
    rw [List.map_nil, List.map_eq_nil_iff] at same
    rw [same]
    rfl
  | cons line lines ih =>
    cases moved with
    | nil => simp at same
    | cons head moved =>
      rw [List.map_cons, List.map_cons, List.cons.injEq, Prod.mk.injEq] at same
      have first : (head.fault? symbols).map _ = (line.fault? symbols).map _ :=
        outline_fault? same.1.1 same.1.2
      have rest := ih same.2
      rw [List.findSome?_cons, List.findSome?_cons]
      cases refused : line.fault? symbols with
      | none =>
        rw [refused, Option.map_none, Option.map_eq_none_iff] at first
        rw [first]
        exact rest
      | some fault =>
        rw [refused, Option.map_some, Option.map_eq_some_iff] at first
        obtain ⟨other, found, outlines⟩ := first
        rw [found]
        exact congrArg some outlines

end Line

theorem sameOutcome_of_gists {move : Nat → Nat} {source target : List Char}
    (same : Line.gists (Line.ofSource target) =
      (Line.gists (Line.ofSource source)).map (Prod.map move id)) (base : Int) :
    SameOutcome move (assemble base source) (assemble base target) := by
  have pairs : (Line.told (Line.ofSource target)).map
      (fun line => (line.number, line.statement)) =
        (Line.told (Line.ofSource source)).map fun line => (move line.number, line.statement) := by
    rw [Line.gists, Line.gists, List.map_map] at same
    exact same
  have statements : (Line.told (Line.ofSource target)).map (·.statement) =
      (Line.told (Line.ofSource source)).map (·.statement) := by
    have seconds := congrArg (List.map Prod.snd) pairs
    rw [List.map_map, List.map_map] at seconds
    exact seconds
  have symbols : symbolsOf base target = symbolsOf base source := by
    unfold symbolsOf Layout.ofLines
    rw [← Line.symbols_told, Layout.symbols_scan_congr statements, Line.symbols_told]
  have outlines : ((Line.ofSource target).findSome? (Line.fault? (symbolsOf base source))).map
      (Fault.outline id) =
        ((Line.ofSource source).findSome? (Line.fault? (symbolsOf base source))).map
          (Fault.outline move) := by
    rw [← Line.findSome?_told, ← Line.findSome?_told (Line.ofSource source)]
    exact Line.outline_findSome? pairs
  refine ⟨?_, ?_, ?_⟩
  · rw [layout_assemble, layout_assemble]
    exact symbols
  · intro binary
    have clear : (Line.ofSource target).findSome? (Line.fault? (symbolsOf base source)) = none ↔
        (Line.ofSource source).findSome? (Line.fault? (symbolsOf base source)) = none := by
      rw [← Option.map_eq_none_iff (f := Fault.outline id), outlines, Option.map_eq_none_iff]
    rw [bytes_eq_ok_iff_words, bytes_eq_ok_iff_words, symbols, ← List.findSome?_eq_none_iff,
      ← List.findSome?_eq_none_iff, clear]
    apply and_congr_right
    intro none
    rw [← Line.findSome?_told, List.findSome?_eq_none_iff] at none
    have words := (Line.words_of_extends (fun _ _ bound => bound) statements none).2
    rw [Line.words_told, Line.words_told] at words
    rw [words]
  · intro fault refused
    rw [bytes_assemble_eq_error_iff] at refused
    rw [refused, Option.map_some, Option.map_eq_some_iff] at outlines
    obtain ⟨other, found, same⟩ := outlines
    refine ⟨other, ?_, same⟩
    rw [bytes_assemble_eq_error_iff, symbols]
    exact found

end ChipEight
