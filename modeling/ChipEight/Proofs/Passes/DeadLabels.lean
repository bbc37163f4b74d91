import Mathlib.Data.List.Basic
import ChipEight.Proofs.Passes.WarningFree

set_option autoImplicit false

/-!
Dead labels.  The labels that a run reports as never referenced are those whose lines can be emptied
without any effect on the bytes; emptying the lines of another label makes the source refused for it.
-/

namespace ChipEight

open Line (instructionCount)

def Event.deadNames (log : List Event) : List (List Char) :=
  log.filterMap fun event => match event with
    | .unreferenced name => some name
    | _ => none

/-- The source with each line that defines the name as a label made empty. -/
def withoutLabel (name source : List Char) : List Char :=
  ['\n'].intercalate ((source.splitOn '\n').map fun raw =>
    if Statement.read (Line.content raw) = .label name then [] else raw)

namespace Line

def blankOut (name : List Char) (line : Line) : Line :=
  if line.statement = .label name then ofText line.number [] else line

def references (line : Line) : List (List Char) :=
  match line.statement with
  | .instruction mnemonic arguments =>
    match Instruction.ofMnemonic mnemonic arguments line.position with
    | .ok instruction => instruction.labels
    | .error _ => []
  | _ => []

theorem blankOut_of_defines {name : List Char} {line : Line}
    (defines : line.statement = .label name) : (line.blankOut name).statement = .blank := by
  rw [blankOut, if_pos defines]
  rfl

theorem blankOut_of_other {name : List Char} {line : Line}
    (other : line.statement ≠ .label name) : line.blankOut name = line :=
  if_neg other

theorem isInstruction_blankOut (name : List Char) (line : Line) :
    (line.blankOut name).isInstruction = line.isInstruction := by
  by_cases defines : line.statement = .label name
  · simp only [isInstruction, blankOut_of_defines defines, defines]
  · rw [blankOut_of_other defines]

theorem instructionCount_blankOut (name : List Char) (lines : List Line) :
    instructionCount (lines.map (blankOut name)) = instructionCount lines := by
  rw [instructionCount, List.countP_map]
  exact List.countP_congr fun line _ => by simp [isInstruction_blankOut]

private theorem numbered_blankOut (name : List Char) (number : Nat) (raws : List (List Char)) :
    numbered number ((raws.map fun raw =>
        if Statement.read (content raw) = .label name then [] else raw).map content) =
      (numbered number (raws.map content)).map (blankOut name) := by
  induction raws generalizing number with
  | nil => rfl
  | cons raw raws ih =>
    simp only [List.map_cons, numbered, ih, List.cons.injEq, and_true]
    by_cases defines : Statement.read (content raw) = .label name
    · rw [if_pos defines, blankOut, if_pos (show (ofText number (content raw)).statement = _ from
        defines)]
      rfl
    · rw [if_neg defines, blankOut_of_other]
      exact defines

theorem ofSource_withoutLabel (name source : List Char) :
    ofSource (withoutLabel name source) = (ofSource source).map (blankOut name) := by
  rw [ofSource, withoutLabel, List.splitOn_intercalate, numbered_blankOut, ofSource]
  · intro piece member
    obtain ⟨raw, listed, rfl⟩ := List.mem_map.mp member
    split
    · simp
    · exact not_mem_of_mem_splitOn listed
  · simp [List.splitOn_ne_nil]

end Line

section Labels

variable {base : Int} {source name : List Char}

theorem find?_withoutLabel_self : (symbolsOf base (withoutLabel name source)).find? name = none := by
  unfold symbolsOf Layout.ofLines
  rw [Line.ofSource_withoutLabel, Layout.find?_scan_of_undefined]
  · rfl
  · intro line member defines
    obtain ⟨old, -, rfl⟩ := List.mem_map.mp member
    by_cases defined : old.statement = .label name
    · rw [Line.blankOut_of_defines defined] at defines
      cases defines
    · rw [Line.blankOut_of_other defined] at defines
      exact defined defines

theorem find?_withoutLabel_of_ne {other : List Char} (apart : other ≠ name) :
    (symbolsOf base (withoutLabel name source)).find? other =
      (symbolsOf base source).find? other := by
  have kept : ∀ line : Line, (line.blankOut name).statement = .label other ↔
      line.statement = .label other := by
    intro line
    by_cases defined : line.statement = .label name
    · rw [Line.blankOut_of_defines defined, defined]
      simp [Ne.symm apart]
    · rw [Line.blankOut_of_other defined]
  unfold symbolsOf Layout.ofLines
  rw [Line.ofSource_withoutLabel]
  rcases Line.undefined_or_last other (Line.ofSource source) with
    undefined | ⟨before, line, after, split, defines, last⟩
  · rw [Layout.find?_scan_of_undefined undefined, Layout.find?_scan_of_undefined]
    intro line member
    obtain ⟨old, listed, rfl⟩ := List.mem_map.mp member
    rw [ne_eq, kept]
    exact undefined old listed
  · have later : ∀ line ∈ after.map (Line.blankOut name), line.statement ≠ .label other := by
      intro line member
      obtain ⟨old, listed, rfl⟩ := List.mem_map.mp member
      rw [ne_eq, kept]
      exact last old listed
    rw [split, Layout.find?_scan_of_last defines last, List.map_append, List.map_cons,
      Layout.find?_scan_of_last ((kept line).mpr defines) later, Line.instructionCount_blankOut]

end Labels

namespace Line

variable {symbols fewer : SymbolTable} {name : List Char} {line : Line}

theorem fault?_blankOut (absent : fewer.find? name = none)
    (kept : ∀ other, other ≠ name → fewer.find? other = symbols.find? other)
    (faultless : line.fault? symbols = none) :
    (line.blankOut name).fault? fewer =
      if name ∈ line.references then some (.undefinedLabel name line.position) else none := by
  cases statement : line.statement with
  | blank =>
    rw [blankOut_of_other (by simp [statement])]
    simp [fault?, compile, references, statement]
  | label defined =>
    by_cases same : defined = name
    · subst same
      simp [fault?, compile, references, statement, blankOut_of_defines statement]
    · rw [blankOut_of_other (by simp [statement, same])]
      simp [fault?, compile, references, statement]
  | unknown head arguments => simp [fault?, compile, statement] at faultless
  | instruction mnemonic arguments =>
    obtain ⟨instruction, _, _, parsed, -⟩ := code?_of_instruction statement faultless
    have defined := (fault?_eq_none_iff_defined statement parsed).mp faultless
    have refers : line.references = instruction.labels := by
      simp only [references, statement, parsed]
    -- Every other label of the instruction is still defined.
    have missing : ∀ label ∈ instruction.labels, fewer.find? label = none ↔ label = name := by
      intro label member
      by_cases same : label = name
      · simp [same, absent]
      · have present := defined label member
        rw [kept label same]
        simp [same, Option.isSome_iff_ne_none.mp present]
    rw [blankOut_of_other (by simp [statement]), fault?, compile_of_parsed statement parsed, refers]
    cases first : instruction.labels.find? (fun label => (fewer.find? label).isNone) with
    | some label =>
      have member := List.mem_of_find?_eq_some first
      have gone := List.find?_some first
      rw [Option.isNone_iff_eq_none, missing label member] at gone
      subst gone
      rw [if_pos member]
    | none =>
      have others : name ∉ instruction.labels := by
        intro member
        have present := List.find?_eq_none.mp first name member
        simp [absent] at present
      rw [if_neg others]

theorem word?_blankOut (kept : ∀ other address, fewer.find? other = some address →
      symbols.find? other = some address)
    (clear : (line.blankOut name).fault? fewer = none) :
    (line.blankOut name).word? fewer = line.word? symbols := by
  by_cases defines : line.statement = .label name
  · rw [word?_eq_none, word?_eq_none]
    · simp [isInstruction, defines]
    · simp [isInstruction, blankOut_of_defines defines]
  · rw [blankOut_of_other defines] at clear ⊢
    exact (word?_of_extends rfl kept clear).2.symm

end Line

namespace Emission

theorem references_ofCodes {symbols : SymbolTable} {lines : List Line}
    (faultless : ∀ line ∈ lines, line.fault? symbols = none) (address : Int) :
    references (ofCodes address (lines.filterMap (Line.code? symbols))) =
      lines.flatMap Line.references := by
  induction lines generalizing address with
  | nil => rfl
  | cons line lines ih =>
    have rest := ih fun later member => faultless later (List.mem_cons_of_mem line member)
    rw [List.flatMap_cons]
    cases holds : line.isInstruction with
    | false =>
      have silent : line.references = [] := by
        unfold Line.references
        split
        · rename_i statement
          simp [Line.isInstruction, statement] at holds
        · rfl
      rw [List.filterMap_cons_none (Line.code?_eq_none holds), silent, List.nil_append]
      exact rest address
    | true =>
      obtain ⟨mnemonic, arguments, statement⟩ := Line.exists_of_isInstruction holds
      obtain ⟨instruction, _, word, parsed, -, -, coded⟩ :=
        Line.code?_of_instruction statement (faultless line List.mem_cons_self)
      have refers : line.references = instruction.labels := by
        simp only [Line.references, statement, parsed]
      rw [List.filterMap_cons_some coded, refers, ← rest (address + instructionSize)]
      rfl

theorem deadNames_ofLines (symbols : SymbolTable) (address : Int) (lines : List Line) :
    Event.deadNames (ofLines symbols address lines).1 = [] := by
  rw [Event.deadNames, List.filterMap_eq_nil_iff]
  apply forall_mem_log
  · intro notice
    rfl
  · intro address word text
    rfl

end Emission

theorem deadNames_assemble {base : Int} {source : List Char}
    (faultless : ∀ line ∈ Line.ofSource source, line.fault? (symbolsOf base source) = none) :
    Event.deadNames (assemble base source).log =
      (symbolsOf base source).names.filter fun name =>
        !((Line.ofSource source).flatMap Line.references).contains name := by
  have before : ∀ layout, Event.deadNames (Assembly.opening base layout) = [] := by
    intro layout
    rw [Assembly.opening, Event.deadNames, List.filterMap_append, List.filterMap_map]
    refine List.append_eq_nil_iff.mpr ⟨?_, rfl⟩
    rw [List.filterMap_eq_nil_iff]
    intro notice _
    rfl
  have middle := Emission.deadNames_ofLines (symbolsOf base source) base (Line.ofSource source)
  have behind : ∀ emissions, Event.deadNames
      (Assembly.closing base (symbolsOf base source) emissions) =
        Assembly.unreferenced (symbolsOf base source) emissions := by
    intro emissions
    rw [Assembly.closing, Event.deadNames, List.filterMap_append, List.filterMap_map]
    have ending : ∀ stop : Int, List.filterMap (fun event => match event with
        | Event.unreferenced name => some name
        | _ => none) (if addressLimit < stop then [Event.overrun stop] else []) = [] := by
      intro stop
      split <;> rfl
    rw [List.filterMap_cons_none rfl, ending, List.append_nil]
    exact List.filterMap_some
  rw [log_assemble faultless, Event.deadNames, List.filterMap_append, List.filterMap_append]
  change Event.deadNames _ ++ (Event.deadNames _ ++ Event.deadNames _) = _
  rw [before, middle, behind, List.nil_append, List.nil_append, Assembly.unreferenced,
    emissions_assemble faultless, Emission.references_ofCodes faultless]

/-- What the reports of dead labels tell of a source and its bytes: which labels can be left out, and
which cannot. -/
structure MarksDead (base : Int) (source : List Char) (binary : List UInt8) : Prop where
  ordered : (Event.deadNames (assemble base source).log).Pairwise (· < ·)
  dead : ∀ name address, (assemble base source).layout.symbols.find? name = some address →
    name ∈ Event.deadNames (assemble base source).log →
      (assemble base (withoutLabel name source)).bytes = .ok binary ∧
      ∀ other, (assemble base (withoutLabel name source)).layout.symbols.find? other =
        if other = name then none else (assemble base source).layout.symbols.find? other
  alive : ∀ name address, (assemble base source).layout.symbols.find? name = some address →
    name ∉ Event.deadNames (assemble base source).log →
      ∃ position, (assemble base (withoutLabel name source)).bytes =
        .error (.undefinedLabel name position)

section Accepted

variable {base : Int} {source name : List Char}
  (faultless : ∀ line ∈ Line.ofSource source, line.fault? (symbolsOf base source) = none)

include faultless

private theorem fault?_withoutLabel {line : Line} (member : line ∈ Line.ofSource source) :
    (line.blankOut name).fault? (symbolsOf base (withoutLabel name source)) =
      if name ∈ line.references then some (.undefinedLabel name line.position) else none :=
  Line.fault?_blankOut find?_withoutLabel_self (fun _ apart => find?_withoutLabel_of_ne apart)
    (faultless line member)

theorem bytes_withoutLabel_of_dead
    (dead : name ∉ (Line.ofSource source).flatMap Line.references) :
    (assemble base (withoutLabel name source)).bytes =
      .ok (((Line.ofSource source).filterMap
        (Line.word? (symbolsOf base source))).flatMap bigEndian) := by
  have clear : ∀ line ∈ Line.ofSource source,
      (line.blankOut name).fault? (symbolsOf base (withoutLabel name source)) = none := by
    intro line member
    rw [fault?_withoutLabel faultless member, if_neg]
    intro refers
    exact dead (List.mem_flatMap.mpr ⟨line, member, refers⟩)
  have kept : ∀ other address,
      (symbolsOf base (withoutLabel name source)).find? other = some address →
        (symbolsOf base source).find? other = some address := by
    intro other address found
    by_cases same : other = name
    · rw [same, find?_withoutLabel_self] at found
      cases found
    · rw [find?_withoutLabel_of_ne same] at found
      exact found
  rw [bytes_eq_ok_iff_words, Line.ofSource_withoutLabel]
  constructor
  · intro line member
    obtain ⟨old, listed, rfl⟩ := List.mem_map.mp member
    exact clear old listed
  · rw [List.filterMap_map]
    congr 1
    apply List.filterMap_congr
    intro line member
    exact (Line.word?_blankOut kept (clear line member)).symm

theorem bytes_withoutLabel_of_alive
    (alive : name ∈ (Line.ofSource source).flatMap Line.references) :
    ∃ position, (assemble base (withoutLabel name source)).bytes =
      .error (.undefinedLabel name position) := by
  obtain ⟨user, listed, refers⟩ := List.mem_flatMap.mp alive
  -- The first line that is refused need not be this one, but it is refused for the same name.
  cases first : (Line.ofSource (withoutLabel name source)).findSome?
      (Line.fault? (symbolsOf base (withoutLabel name source))) with
  | none =>
    rw [Line.ofSource_withoutLabel, List.findSome?_eq_none_iff] at first
    have clear := first (user.blankOut name) (List.mem_map_of_mem listed)
    rw [fault?_withoutLabel faultless listed, if_pos refers] at clear
    cases clear
  | some fault =>
    have refused := first
    rw [Line.ofSource_withoutLabel] at first
    obtain ⟨line, member, found⟩ := List.exists_of_findSome?_eq_some first
    obtain ⟨old, inside, rfl⟩ := List.mem_map.mp member
    rw [fault?_withoutLabel faultless inside, Option.ite_none_right_eq_some,
      Option.some.injEq] at found
    refine ⟨old.position, ?_⟩
    rw [bytes_assemble_eq_error_iff, refused, found.2]

end Accepted

/-- The labels reported as never referenced are those that a source can do without. -/
theorem unreferenced_iff_dead {base : Int} {source : List Char} {binary : List UInt8}
    (accepted : (assemble base source).bytes = .ok binary) : MarksDead base source binary := by
  obtain ⟨faultless, rfl⟩ := bytes_eq_ok_iff_words.mp accepted
  have table : ∀ text, (assemble base text).layout.symbols = symbolsOf base text := by
    intro text
    rw [layout_assemble]
    rfl
  have listed : ∀ name address, (symbolsOf base source).find? name = some address →
      (name ∈ Event.deadNames (assemble base source).log ↔
        name ∉ (Line.ofSource source).flatMap Line.references) := by
    intro name address found
    rw [deadNames_assemble faultless, List.mem_filter, Bool.not_eq_true', ← Bool.not_eq_true,
      List.contains_iff_mem]
    exact and_iff_right (SymbolTable.mem_names found)
  constructor
  · rw [deadNames_assemble faultless]
    apply List.Pairwise.filter
    exact List.pairwise_map.mpr (symbolsOf base source).increasing
  · intro name address found named
    simp only [table] at found ⊢
    refine ⟨bytes_withoutLabel_of_dead faultless ((listed name address found).mp named), ?_⟩
    intro other
    split
    · rename_i same
      rw [same, find?_withoutLabel_self]
    · rename_i apart
      exact find?_withoutLabel_of_ne apart
  · intro name address found unnamed
    rw [table] at found
    rw [listed name address found, not_not] at unnamed
    exact bytes_withoutLabel_of_alive faultless unnamed

/-- `V0`, `JP A`, `a:`, `B`, `JP A`, `B:`: a label spelt like a register and one that is bound twice are
dead, and the one that is used is not. -/
theorem unreferenced_iff_dead_register :
    let source := ['V', '0', '\n', 'J', 'P', ' ', 'A', '\n', 'a', ':', '\n', 'B', '\n',
      'J', 'P', ' ', 'A', '\n', 'B', ':']
    (assemble 0x200 source).bytes = .ok [0x12, 0x02, 0x12, 0x02] ∧
      Event.deadNames (assemble 0x200 source).log = [['B'], ['V', '0']] ∧
      (assemble 0x200 (withoutLabel ['B'] source)).bytes = .ok [0x12, 0x02, 0x12, 0x02] ∧
      ∃ position, (assemble 0x200 (withoutLabel ['A'] source)).bytes =
        .error (.undefinedLabel ['A'] position) := by
  intro source
  have accepted : (assemble 0x200 source).bytes = .ok [0x12, 0x02, 0x12, 0x02] := rfl
  have named : Event.deadNames (assemble 0x200 source).log = [['B'], ['V', '0']] := by decide
  have marks := unreferenced_iff_dead accepted
  refine ⟨accepted, named, (marks.dead ['B'] 0x204 rfl ?_).1, marks.alive ['A'] 0x202 rfl ?_⟩
  · simp [named]
  · simp [named]

end ChipEight
