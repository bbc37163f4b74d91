import ChipEight.Proofs.Session.History

set_option autoImplicit false

/-!
Labels that are defined more than once.  The table keeps the last address of a name, and the scan
reports a line that defines the name again exactly if an instruction stands between it and the
nearest line before it with the same name: only then do the two lines have different addresses.
-/

namespace ChipEight

open Line (instructionCount)

def Event.redefinition? : Event → Option Redefinition
  | redefined notice => some notice
  | _ => none

theorem Layout.redefinition?_eq_some_iff {symbols : SymbolTable} {number : Nat} {name : List Char}
    {address : Int} {notice : Redefinition} :
    redefinition? symbols number name address = some notice ↔
      symbols.find? name = some notice.old ∧ notice.old ≠ address ∧
        notice = ⟨number, name, notice.old, address⟩ := by
  unfold redefinition?
  cases symbols.find? name with
  | none => simp
  | some old =>
    simp only [Option.ite_none_left_eq_some, Option.some.injEq]
    constructor
    · rintro ⟨moved, rfl⟩
      exact ⟨rfl, moved, rfl⟩
    · rintro ⟨rfl, moved, same⟩
      exact ⟨moved, same.symm⟩

namespace Line

/-- A line that defines a label again behind an instruction.  The lines in front of it are parted at
the nearest one with the same label. -/
structure Redefines (lines front : List Line) (earlier : Line) (between : List Line) (line : Line)
    (name : List Char) : Prop where
  split : ∃ after, lines = front ++ earlier :: between ++ line :: after
  first : earlier.statement = .label name
  again : line.statement = .label name
  nearest : ∀ other ∈ between, other.statement ≠ .label name
  moved : ∃ other ∈ between, other.isInstruction = true

theorem rebinding?_eq_some_iff {symbols : SymbolTable} {address : Int} {line : Line}
    {notice : Redefinition} :
    line.rebinding? symbols address = some notice ↔
      line.statement = .label notice.name ∧ symbols.find? notice.name = some notice.old ∧
        notice.old ≠ address ∧ notice.line = line.number ∧ notice.new = address := by
  cases statement : line.statement with
  | label name =>
    simp only [rebinding?, statement, Layout.redefinition?_eq_some_iff]
    constructor
    · rintro ⟨found, moved, same⟩
      rw [same]
      exact ⟨rfl, found, moved, rfl, rfl⟩
    · rintro ⟨same, found, moved, number, new⟩
      cases same
      refine ⟨found, moved, ?_⟩
      rw [← number, ← new]
  | _ => simp [rebinding?, statement]

theorem instructionCount_ne_iff {earlier : Line} {name : List Char}
    (defines : earlier.statement = .label name) (front between : List Line) :
    instructionCount front ≠ instructionCount (front ++ earlier :: between) ↔
      ∃ other ∈ between, other.isInstruction = true := by
  have other : instructionCount [earlier] = 0 := by
    simp [instructionCount, isInstruction, defines]
  rw [instructionCount_append, instructionCount_cons earlier between, other,
    ← List.countP_pos_iff]
  unfold instructionCount
  omega

end Line

namespace Layout

theorem getElem?_placed_scan (symbols : SymbolTable) (address : Int) (before after : List Line)
    (line : Line) :
    (scan symbols address (before ++ line :: after)).placed[before.length]? =
      some ⟨line, line.boundAt? (address + 2 * instructionCount before)⟩ := by
  induction before generalizing symbols address with
  | nil => simp [placed_scan_cons, instructionCount]
  | cons head before ih =>
    rw [List.cons_append, placed_scan_cons, List.length_cons, List.getElem?_cons_succ, ih,
      Line.add_size_add_count]

theorem mem_redefinitions_scan {symbols : SymbolTable} {address : Int} {lines : List Line}
    {notice : Redefinition} :
    notice ∈ (scan symbols address lines).redefinitions ↔
      ∃ before line after, lines = before ++ line :: after ∧
        line.rebinding? (scan symbols address before).symbols
          (address + 2 * instructionCount before) = some notice := by
  constructor
  · intro member
    induction lines generalizing symbols address with
    | nil => simp [scan_nil] at member
    | cons line lines ih =>
      rw [redefinitions_scan_cons, List.mem_append, Option.mem_toList] at member
      rcases member with here | later
      · refine ⟨[], line, lines, rfl, ?_⟩
        simpa [scan_nil, instructionCount] using here
      · obtain ⟨before, other, after, rfl, found⟩ := ih later
        refine ⟨line :: before, other, after, rfl, ?_⟩
        rw [symbols_scan_cons, ← Line.add_size_add_count]
        exact found
  · rintro ⟨before, line, after, rfl, found⟩
    rw [redefinitions_scan_append, redefinitions_scan_cons, found]
    simp

theorem lines_redefinitions_sublist (symbols : SymbolTable) (address : Int) (lines : List Line) :
    ((scan symbols address lines).redefinitions.map (·.line)).Sublist (lines.map (·.number)) := by
  induction lines generalizing symbols address with
  | nil => exact List.Sublist.slnil
  | cons line lines ih =>
    have rest := ih (line.bind symbols address) (address + line.size)
    rw [redefinitions_scan_cons, List.map_append, List.map_cons]
    cases found : line.rebinding? symbols address with
    | none => exact rest.cons line.number
    | some notice =>
      obtain ⟨-, -, -, number, -⟩ := Line.rebinding?_eq_some_iff.mp found
      rw [Option.toList_some, List.map_singleton, List.singleton_append, number]
      exact rest.cons_cons line.number

theorem mem_redefinitions_iff {base : Int} {lines : List Line} {notice : Redefinition} :
    notice ∈ (ofLines base lines).redefinitions ↔
      ∃ front earlier between line, Line.Redefines lines front earlier between line notice.name ∧
        notice.line = line.number ∧ notice.old = base + 2 * instructionCount front ∧
        notice.new = base + 2 * instructionCount (front ++ earlier :: between) := by
  rw [ofLines, mem_redefinitions_scan]
  constructor
  · rintro ⟨before, line, after, rfl, found⟩
    obtain ⟨again, bound, apart, number, new⟩ := Line.rebinding?_eq_some_iff.mp found
    -- What the table holds at this point is the address of the nearest definition.
    obtain ⟨front, earlier, between, rfl, first, nearest, old⟩ := find?_ofLines_iff.mp bound
    have moved := (Line.instructionCount_ne_iff first front between).mp (by omega)
    exact ⟨front, earlier, between, line, ⟨⟨after, rfl⟩, first, again, nearest, moved⟩, number,
      old, new⟩
  · rintro ⟨front, earlier, between, line, redefines, number, old, new⟩
    obtain ⟨after, rfl⟩ := redefines.split
    have apart := (Line.instructionCount_ne_iff redefines.first front between).mpr redefines.moved
    refine ⟨front ++ earlier :: between, line, after, rfl, ?_⟩
    rw [Line.rebinding?_eq_some_iff]
    refine ⟨redefines.again, ?_, by omega, number, new⟩
    exact find?_ofLines_iff.mpr
      ⟨front, earlier, between, rfl, redefines.first, redefines.nearest, old⟩

end Layout

namespace Emission

theorem redefinitions_ofLines (symbols : SymbolTable) (address : Int) (lines : List Line) :
    (ofLines symbols address lines).1.filterMap Event.redefinition? = [] := by
  rw [List.filterMap_eq_nil_iff]
  apply forall_mem_log
  · intro notice
    rfl
  · intro address word text
    rfl

end Emission

namespace Assembly

private theorem redefinitions_opening (base : Int) (layout : Layout) :
    (opening base layout).filterMap Event.redefinition? = layout.redefinitions := by
  simp [opening, Event.redefinition?, List.filterMap_map, Function.comp_def]

private theorem redefinitions_closing (base : Int) (symbols : SymbolTable)
    (emissions : List Emission) :
    (closing base symbols emissions).filterMap Event.redefinition? = [] := by
  unfold closing
  simp only [List.filterMap_append, List.filterMap_map, List.filterMap_cons, Event.redefinition?]
  split <;> simp [Function.comp_def, Event.redefinition?]

end Assembly

theorem redefinitions_log_assemble (base : Int) (source : List Char) :
    (assemble base source).log.filterMap Event.redefinition? =
      (Layout.ofLines base (Line.ofSource source)).redefinitions := by
  have second := Emission.redefinitions_ofLines (Layout.ofLines base (Line.ofSource source)).symbols
    base (Line.ofSource source)
  unfold assemble Assembly.ofLayout
  simp only
  rcases run : Emission.ofLines (Layout.ofLines base (Line.ofSource source)).symbols base
    (Line.ofSource source) with ⟨log, fault | emissions⟩
  · rw [run] at second
    rw [List.filterMap_append, Assembly.redefinitions_opening, second, List.append_nil]
  · rw [run] at second
    rw [List.filterMap_append, List.filterMap_append, Assembly.redefinitions_opening, second,
      Assembly.redefinitions_closing, List.append_nil, List.append_nil]

/-- What the scan of a source tells of its labels.  Its table is the one that a session is left with,
and holds the names that lines define, each once.  Each such line keeps the address that it had, and
the notices are those of the lines that define a label again behind an instruction. -/
structure LabelsTold (base : Int) (source : List Char) (layout : Layout) : Prop where
  left : ((Session.start base).assemble source).2.symbols = symbolsOf base source
  scanned : layout.symbols = symbolsOf base source
  names : ∀ name, name ∈ (symbolsOf base source).names ↔
    ∃ line ∈ Line.ofSource source, line.statement = .label name
  once : (symbolsOf base source).names.Nodup
  bound : ∀ before line after name, Line.ofSource source = before ++ line :: after →
    line.statement = .label name →
      layout.placed[before.length]? = some ⟨line, some (base + 2 * instructionCount before)⟩
  logged : (assemble base source).log.filterMap Event.redefinition? = layout.redefinitions
  ordered : (layout.redefinitions.map (·.line)).Pairwise (· < ·)
  redefined : ∀ notice, notice ∈ layout.redefinitions ↔
    ∃ front earlier between line,
      Line.Redefines (Line.ofSource source) front earlier between line notice.name ∧
      notice.line = line.number ∧ notice.old = base + 2 * instructionCount front ∧
      notice.new = base + 2 * instructionCount (front ++ earlier :: between)

theorem mem_names_symbolsOf {base : Int} {source name : List Char} :
    name ∈ (symbolsOf base source).names ↔
      ∃ line ∈ Line.ofSource source, line.statement = .label name := by
  rw [SymbolTable.mem_names_iff]
  constructor
  · rintro ⟨address, found⟩
    obtain ⟨before, line, after, split, defines, -⟩ := find?_symbolsOf_iff.mp found
    refine ⟨line, ?_, defines⟩
    rw [split]
    exact List.mem_append_right before List.mem_cons_self
  · rintro ⟨line, member, defines⟩
    rcases Line.undefined_or_last name (Line.ofSource source) with
      undefined | ⟨before, last, after, split, binds, later⟩
    · exact absurd defines (undefined line member)
    · exact ⟨_, find?_symbolsOf_iff.mpr ⟨before, last, after, split, binds, later, rfl⟩⟩

theorem SymbolTable.nodup_names (table : SymbolTable) : table.names.Nodup := by
  have increasing : table.names.Pairwise (· < ·) := List.pairwise_map.mpr table.increasing
  apply increasing.imp
  rintro name other less rfl
  exact List.lt_irrefl name less

/-- The scan of any source, accepted or not, tells exactly where its labels are bound again. -/
theorem labels_told (base : Int) (source : List Char) :
    LabelsTold base source (Layout.ofLines base (Line.ofSource source)) where
  left := by
    rw [Session.assemble_eq]
    change (assemble base source).layout.symbols = _
    rw [layout_assemble]
    rfl
  scanned := rfl
  names := fun name => mem_names_symbolsOf
  once := SymbolTable.nodup_names _
  bound := by
    intro before line after name split defines
    rw [split, Layout.ofLines, Layout.getElem?_placed_scan]
    simp only [Line.boundAt?, defines]
  logged := redefinitions_log_assemble base source
  ordered := by
    have increasing := Line.number_lt_of_numbered 1 ((source.splitOn '\n').map Line.content)
    exact (List.pairwise_map.mpr increasing).sublist
      (Layout.lines_redefinitions_sublist ∅ base (Line.ofSource source))
  redefined := fun notice => Layout.mem_redefinitions_iff

/-- `A`, `CLS`, `a:`, `B`, `A`, `FOO 1`, `CLS`, `B`, `A`: line five stays where line three is, the word
that is refused takes no room, and line nine is compared with line five. -/
theorem labels_told_refused :
    let source := ['A', '\n', 'C', 'L', 'S', '\n', 'a', ':', '\n', 'B', '\n', 'A', '\n', 'F', 'O',
      'O', ' ', '1', '\n', 'C', 'L', 'S', '\n', 'B', '\n', 'A']
    let layout := Layout.ofLines 0x200 (Line.ofSource source)
    (assemble 0x200 source).bytes =
        .error (.unknownMnemonic ['F', 'O', 'O'] ⟨6, ['F', 'O', 'O', ' ', '1']⟩) ∧
      ((Session.start 0x200).assemble source).2.symbols.find? ['A'] = some 0x204 ∧
      layout.redefinitions = [⟨3, ['A'], 0x200, 0x202⟩, ⟨8, ['B'], 0x202, 0x204⟩,
        ⟨9, ['A'], 0x202, 0x204⟩] ∧
      ∃ front earlier between line,
        Line.Redefines (Line.ofSource source) front earlier between line ['A'] ∧
        line.number = 9 ∧ 0x202 = 0x200 + 2 * (instructionCount front : Int) := by
  intro source layout
  have told := labels_told 0x200 source
  have notices : layout.redefinitions = [⟨3, ['A'], 0x200, 0x202⟩, ⟨8, ['B'], 0x202, 0x204⟩,
    ⟨9, ['A'], 0x202, 0x204⟩] := rfl
  refine ⟨rfl, ?_, notices, ?_⟩
  · rw [told.left]
    rfl
  · have last : ⟨9, ['A'], 0x202, 0x204⟩ ∈ layout.redefinitions := by simp [notices]
    obtain ⟨front, earlier, between, line, redefines, number, old, -⟩ :=
      (told.redefined _).mp last
    exact ⟨front, earlier, between, line, redefines, number.symm, old⟩

end ChipEight
