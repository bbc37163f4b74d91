import ChipEight.Line

set_option autoImplicit false

/-!
The lines of a source: they are numbered from one, and those that hold an instruction are counted.
-/

namespace ChipEight.Line

def instructionCount (lines : List Line) : Nat :=
  lines.countP isInstruction

def definitions (lines : List Line) : List (List Char) :=
  lines.filterMap fun line => match line.statement with
    | .label name => some name
    | _ => none

theorem mem_definitions {name : List Char} {lines : List Line} :
    name ∈ definitions lines ↔ ∃ line ∈ lines, line.statement = .label name := by
  rw [definitions, List.mem_filterMap]
  constructor
  · rintro ⟨line, member, found⟩
    refine ⟨line, member, ?_⟩
    split at found
    · rename_i statement
      cases found
      exact statement
    · cases found
  · rintro ⟨line, member, statement⟩
    exact ⟨line, member, by simp only [statement]⟩

theorem instructionCount_append (xs ys : List Line) :
    instructionCount (xs ++ ys) = instructionCount xs + instructionCount ys :=
  List.countP_append

theorem instructionCount_cons (line : Line) (lines : List Line) :
    instructionCount (line :: lines) = instructionCount [line] + instructionCount lines :=
  instructionCount_append [line] lines

theorem not_mem_of_mem_splitOn {c : Char} {text piece : List Char}
    (member : piece ∈ text.splitOn c) : c ∉ piece := by
  induction text generalizing piece with
  | nil =>
    rw [List.splitOn_nil, List.mem_singleton] at member
    simp [member]
  | cons d text ih =>
    rw [List.splitOn_cons_eq_if_modifyHead] at member
    obtain ⟨first, rest, split⟩ := List.exists_cons_of_ne_nil (List.splitOn_ne_nil c text)
    rw [split] at member ih
    have front := ih List.mem_cons_self
    split at member
    · rcases List.mem_cons.mp member with rfl | member
      · simp
      · exact ih member
    · rename_i other
      rw [List.modifyHead_cons] at member
      rcases List.mem_cons.mp member with rfl | member
      · rw [List.mem_cons, not_or]
        refine ⟨?_, front⟩
        rintro rfl
        simp at other
      · exact ih (List.mem_cons_of_mem first member)

private theorem getElem?_numbered (number : Nat) (texts : List (List Char)) (k : Nat) :
    (numbered number texts)[k]? = texts[k]?.map (ofText (number + k)) := by
  induction texts generalizing number k with
  | nil => simp [numbered]
  | cons text texts ih =>
    cases k with
    | zero => simp [numbered]
    | succ k =>
      rw [numbered, List.getElem?_cons_succ, ih, List.getElem?_cons_succ, Nat.add_assoc,
        Nat.add_comm 1 k]

theorem getElem?_ofSource (source : List Char) (k : Nat) :
    (ofSource source)[k]? =
      (source.splitOn '\n')[k]?.map fun raw => ofText (k + 1) (content raw) := by
  rw [ofSource, getElem?_numbered, List.getElem?_map, Option.map_map, Nat.add_comm 1 k]
  rfl

theorem of_mem_ofSource {source : List Char} {line : Line} (member : line ∈ ofSource source) :
    line.statement = Statement.read line.text ∧ '\n' ∉ line.text := by
  obtain ⟨k, stands⟩ := List.mem_iff_getElem?.mp member
  rw [getElem?_ofSource] at stands
  obtain ⟨raw, found, rfl⟩ := Option.map_eq_some_iff.mp stands
  refine ⟨rfl, ?_⟩
  have clear := not_mem_of_mem_splitOn (List.mem_of_getElem? found)
  change '\n' ∉ content raw
  unfold content
  split
  · exact fun inside => clear (List.dropLast_subset raw inside)
  · exact clear

theorem number_lt_of_numbered (number : Nat) (texts : List (List Char)) :
    (numbered number texts).Pairwise (fun a b => a.number < b.number) := by
  rw [List.pairwise_iff_getElem]
  intro i j hi hj less
  have left := getElem?_numbered number texts i
  have right := getElem?_numbered number texts j
  rw [List.getElem?_eq_getElem hi] at left
  rw [List.getElem?_eq_getElem hj] at right
  obtain ⟨_, -, first⟩ := Option.map_eq_some_iff.mp left.symm
  obtain ⟨_, -, second⟩ := Option.map_eq_some_iff.mp right.symm
  rw [← first, ← second]
  change number + i < number + j
  omega

theorem undefined_or_last (name : List Char) (lines : List Line) :
    (∀ line ∈ lines, line.statement ≠ .label name) ∨
      ∃ before line after, lines = before ++ line :: after ∧ line.statement = .label name ∧
        ∀ later ∈ after, later.statement ≠ .label name := by
  induction lines with
  | nil =>
    left
    simp
  | cons head lines ih =>
    rcases ih with undefined | ⟨before, line, after, rfl, defines, last⟩
    · by_cases defines : head.statement = .label name
      · exact Or.inr ⟨[], head, lines, rfl, defines, undefined⟩
      · left
        intro line member
        rcases List.mem_cons.mp member with rfl | member
        · exact defines
        · exact undefined line member
    · exact Or.inr ⟨head :: before, line, after, rfl, defines, last⟩

end ChipEight.Line
