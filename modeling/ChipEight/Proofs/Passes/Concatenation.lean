import ChipEight.Proofs.Passes.LineWords

set_option autoImplicit false

/-!
Concatenation.  Two sources that define no common label are assembled one behind the other as if
each stood alone: the bytes follow each other, and the tables of labels are put together.
-/

namespace ChipEight

open Line (instructionCount definitions)

structure SymbolTable.DisjointUnion (whole left right : SymbolTable) : Prop where
  disjoint : ∀ name, left.find? name = none ∨ right.find? name = none
  found : ∀ name, whole.find? name = (left.find? name).or (right.find? name)

namespace SymbolTable.DisjointUnion

variable {whole left right : SymbolTable}

theorem extends_left (union : DisjointUnion whole left right) (name : List Char) (address : Int)
    (bound : left.find? name = some address) : whole.find? name = some address := by
  rw [union.found, bound]
  rfl

theorem extends_right (union : DisjointUnion whole left right) (name : List Char) (address : Int)
    (bound : right.find? name = some address) : whole.find? name = some address := by
  have absent : left.find? name = none := by
    rcases union.disjoint name with absent | absent
    · exact absent
    · rw [absent] at bound
      cases bound
  rw [union.found, absent, bound]
  rfl

end SymbolTable.DisjointUnion

namespace Line

theorem statements_numbered (number : Nat) (texts : List (List Char)) :
    (numbered number texts).map (·.statement) = texts.map Statement.read := by
  induction texts generalizing number with
  | nil => rfl
  | cons text texts ih =>
    rw [numbered, List.map_cons, List.map_cons, ih]
    rfl

theorem numbered_append (number : Nat) (front back : List (List Char)) :
    numbered number (front ++ back) =
      numbered number front ++ numbered (number + front.length) back := by
  induction front generalizing number with
  | nil => rfl
  | cons text front ih =>
    have further : number + 1 + front.length = number + (text :: front).length := by
      rw [List.length_cons]
      omega
    rw [List.cons_append, numbered, ih, numbered, further, List.cons_append]

theorem ofSource_append (front back : List Char) :
    ∃ moved, ofSource (front ++ '\n' :: back) = ofSource front ++ moved ∧
      moved.map (·.statement) = (ofSource back).map (·.statement) := by
  refine ⟨numbered (1 + ((front.splitOn '\n').map content).length)
    ((back.splitOn '\n').map content), ?_, ?_⟩
  · rw [ofSource, List.splitOn_append_cons_self, List.map_append, numbered_append, ofSource]
  · rw [statements_numbered, ofSource, statements_numbered]

theorem words_of_extends {symbols more : SymbolTable}
    (kept : ∀ name address, symbols.find? name = some address → more.find? name = some address)
    {lines moved : List Line} (same : moved.map (·.statement) = lines.map (·.statement))
    (faultless : ∀ line ∈ lines, line.fault? symbols = none) :
    (∀ line ∈ moved, line.fault? more = none) ∧
      moved.filterMap (word? more) = lines.filterMap (word? symbols) := by
  induction lines generalizing moved with
  | nil =>
    rw [List.map_nil, List.map_eq_nil_iff] at same
    subst same
    simp
  | cons line lines ih =>
    cases moved with
    | nil => simp at same
    | cons head moved =>
      rw [List.map_cons, List.map_cons, List.cons.injEq] at same
      have first := word?_of_extends same.1 kept (faultless line List.mem_cons_self)
      have rest := ih same.2 fun later member => faultless later (List.mem_cons_of_mem line member)
      refine ⟨?_, ?_⟩
      · intro other member
        rcases List.mem_cons.mp member with rfl | member
        · exact first.1
        · exact rest.1 other member
      · rw [List.filterMap_cons, List.filterMap_cons, first.2, rest.2]

end Line

namespace Layout

theorem symbols_scan_congr {lines moved : List Line}
    (same : moved.map (·.statement) = lines.map (·.statement)) (symbols : SymbolTable)
    (address : Int) :
    (scan symbols address moved).symbols = (scan symbols address lines).symbols := by
  induction lines generalizing moved symbols address with
  | nil =>
    rw [List.map_nil, List.map_eq_nil_iff] at same
    rw [same]
  | cons line lines ih =>
    cases moved with
    | nil => simp at same
    | cons head moved =>
      rw [List.map_cons, List.map_cons, List.cons.injEq] at same
      have bound : head.bind symbols address = line.bind symbols address := by
        simp only [Line.bind, same.1]
      have holds : head.isInstruction = line.isInstruction := by
        simp only [Line.isInstruction, same.1]
      have size : head.size = line.size := by
        simp only [Line.size, holds]
      rw [symbols_scan_cons, symbols_scan_cons, ih same.2, bound, size]

theorem find?_scan_eq_or (symbols : SymbolTable) (address : Int) (lines : List Line)
    (name : List Char) :
    (scan symbols address lines).symbols.find? name =
      ((scan ∅ address lines).symbols.find? name).or (symbols.find? name) := by
  rcases Line.undefined_or_last name lines with
    undefined | ⟨before, line, after, rfl, defines, last⟩
  · rw [find?_scan_of_undefined undefined, find?_scan_of_undefined undefined]
    rfl
  · rw [find?_scan_of_last defines last, find?_scan_of_last defines last]
    rfl

end Layout

theorem find?_symbolsOf_append (base : Int) (front back name : List Char) :
    (symbolsOf base (front ++ '\n' :: back)).find? name =
      ((symbolsOf (base + 2 * instructionCount (Line.ofSource front)) back).find? name).or
        ((symbolsOf base front).find? name) := by
  obtain ⟨moved, split, same⟩ := Line.ofSource_append front back
  unfold symbolsOf Layout.ofLines
  rw [split, Layout.symbols_scan_append, Layout.symbols_scan_congr same, Layout.find?_scan_eq_or]

theorem mem_definitions_of_find? {base : Int} {source name : List Char} {address : Int}
    (found : (symbolsOf base source).find? name = some address) :
    name ∈ definitions (Line.ofSource source) := by
  obtain ⟨before, line, after, split, defines, -⟩ := find?_symbolsOf_iff.mp found
  rw [Line.mem_definitions, split]
  exact ⟨line, List.mem_append_right _ List.mem_cons_self, defines⟩

theorem symbolsOf_append (base : Int) {front back : List Char}
    (apart : ∀ name ∈ definitions (Line.ofSource front),
      name ∉ definitions (Line.ofSource back)) :
    SymbolTable.DisjointUnion (symbolsOf base (front ++ '\n' :: back)) (symbolsOf base front)
      (symbolsOf (base + 2 * instructionCount (Line.ofSource front)) back) := by
  have disjoint : ∀ name, (symbolsOf base front).find? name = none ∨
      (symbolsOf (base + 2 * instructionCount (Line.ofSource front)) back).find? name = none := by
    intro name
    cases first : (symbolsOf base front).find? name with
    | none => exact Or.inl rfl
    | some address =>
      right
      cases second :
          (symbolsOf (base + 2 * instructionCount (Line.ofSource front)) back).find? name with
      | none => rfl
      | some other =>
        exact absurd (mem_definitions_of_find? second) (apart name (mem_definitions_of_find? first))
  refine ⟨disjoint, ?_⟩
  intro name
  rw [find?_symbolsOf_append]
  rcases disjoint name with absent | absent <;> simp [absent]

/-- Two accepted sources without a common label are accepted in a row, and come to their bytes in a
row and to their labels together. -/
theorem assemble_append {base : Int} {front back : List Char} {first second : List UInt8}
    (before : (assemble base front).bytes = .ok first)
    (behind : (assemble (base + first.length) back).bytes = .ok second)
    (apart : ∀ name ∈ definitions (Line.ofSource front),
      name ∉ definitions (Line.ofSource back)) :
    (assemble base (front ++ '\n' :: back)).bytes = .ok (first ++ second) ∧
      SymbolTable.DisjointUnion (assemble base (front ++ '\n' :: back)).layout.symbols
        (assemble base front).layout.symbols
        (assemble (base + first.length) back).layout.symbols := by
  obtain ⟨clear, rfl⟩ := bytes_eq_ok_iff_words.mp before
  have length : ((((Line.ofSource front).filterMap
      (Line.word? (symbolsOf base front))).flatMap bigEndian).length : Int) =
        2 * instructionCount (Line.ofSource front) := by
    rw [length_flatMap_bigEndian, Line.length_words clear]
    push_cast
    rfl
  rw [length] at behind ⊢
  obtain ⟨fine, rfl⟩ := bytes_eq_ok_iff_words.mp behind
  simp only [layout_assemble]
  have union := symbolsOf_append base apart
  refine ⟨?_, union⟩
  obtain ⟨moved, split, same⟩ := Line.ofSource_append front back
  have left := Line.words_of_extends union.extends_left rfl clear
  have right := Line.words_of_extends union.extends_right same fine
  refine bytes_eq_ok_iff_words.mpr ⟨?_, ?_⟩
  · intro line member
    rw [split, List.mem_append] at member
    rcases member with member | member
    · exact left.1 line member
    · exact right.1 line member
  · rw [split, List.filterMap_append, List.flatMap_append, left.2, right.2]

/-- `A`, `JP A` in front of `JP B1`, `B1:`, with a carriage return at the seam. -/
theorem assemble_append_carriage_return :
    let front := ['A', '\n', 'J', 'P', ' ', 'A', '\r']
    let back := ['J', 'P', ' ', 'B', '1', '\n', 'B', '1', ':']
    (assemble 0x200 front).bytes = .ok [0x12, 0x00] ∧
      (assemble (0x200 + 2) back).bytes = .ok [0x12, 0x04] ∧
      (assemble 0x200 (front ++ '\n' :: back)).bytes = .ok [0x12, 0x00, 0x12, 0x04] ∧
      SymbolTable.DisjointUnion (assemble 0x200 (front ++ '\n' :: back)).layout.symbols
        (assemble 0x200 front).layout.symbols (assemble (0x200 + 2) back).layout.symbols := by
  intro front back
  have before : (assemble 0x200 front).bytes = .ok [0x12, 0x00] := rfl
  have behind : (assemble (0x200 + 2) back).bytes = .ok [0x12, 0x04] := rfl
  obtain ⟨bytes, union⟩ := assemble_append before behind (by decide)
  exact ⟨before, behind, bytes, union⟩

end ChipEight
