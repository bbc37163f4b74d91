import ChipEight.Line

set_option autoImplicit false

/-!
Two rules for the ends of lines.  A text file may end its lines with a carriage return, a line feed
or both; a source knows the line feed, and a carriage return before it.  Where every carriage return
has its line feed, the two rules give the same lines.
-/

namespace ChipEight

open Text

namespace Text.Newline

/-- A text file by its lines, which hold neither carriage returns nor line feeds. -/
inductive Lines : List Char → List (List Char) → Prop where
  | last {line : List Char} (whole : '\r' ∉ line ∧ '\n' ∉ line) : Lines line [line]
  | feed {line rest : List Char} {lines : List (List Char)} (whole : '\r' ∉ line ∧ '\n' ∉ line)
      (more : Lines rest lines) : Lines (line ++ '\n' :: rest) (line :: lines)
  | pair {line rest : List Char} {lines : List (List Char)} (whole : '\r' ∉ line ∧ '\n' ∉ line)
      (more : Lines rest lines) : Lines (line ++ '\r' :: '\n' :: rest) (line :: lines)
  | lone {line rest : List Char} {lines : List (List Char)} (whole : '\r' ∉ line ∧ '\n' ∉ line)
      (alone : rest.head? ≠ some '\n') (more : Lines rest lines) :
      Lines (line ++ '\r' :: rest) (line :: lines)

/-- The text of a file with a line feed between its lines, and no other line end. -/
structure Translated (source text : List Char) : Prop where
  lines : Lines source (text.splitOn '\n')
  clear : '\r' ∉ text

def Paired (text : List Char) : Prop :=
  ∀ front back, text = front ++ '\r' :: back → back.head? = some '\n'

private theorem Paired.tail {c : Char} {text : List Char} (paired : Paired (c :: text)) :
    Paired text := by
  intro front back split
  apply paired (c :: front) back
  rw [split, List.cons_append]

section Translation

variable {source text : List Char}

theorem return_not_mem_unified (source : List Char) : '\r' ∉ unified source := by
  fun_induction unified source with
  | case1 => simp
  | case2 rest ih => simp [ih]
  | case3 c rest _ ih =>
    split
    · simp [ih]
    · rename_i other
      simp [ih, Ne.symm other]

theorem unified_append {line : List Char} (whole : '\r' ∉ line) (rest : List Char) :
    unified (line ++ rest) = line ++ unified rest := by
  induction line with
  | nil => rfl
  | cons c line ih =>
    rw [List.mem_cons, not_or] at whole
    rw [List.cons_append, List.cons_append, ← ih whole.2, unified, if_neg (Ne.symm whole.1)]
    rintro _ rfl
    exact absurd rfl whole.1

theorem unified_return {rest : List Char} (alone : rest.head? ≠ some '\n') :
    unified ('\r' :: rest) = '\n' :: unified rest := by
  rw [unified, if_pos rfl]
  rintro _ - rfl
  exact alone rfl

private theorem Lines.cons {c : Char} {lines : List (List Char)} (inside : c ≠ '\r' ∧ c ≠ '\n')
    (given : Lines source lines) : Lines (c :: source) (lines.modifyHead (List.cons c)) := by
  have joins : ∀ {line : List Char}, '\r' ∉ line ∧ '\n' ∉ line →
      '\r' ∉ c :: line ∧ '\n' ∉ c :: line := by
    intro line whole
    simp [inside.1.symm, inside.2.symm, whole.1, whole.2]
  cases given with
  | last whole => exact .last (joins whole)
  | feed whole more => exact .feed (joins whole) more
  | pair whole more => exact .pair (joins whole) more
  | lone whole alone more => exact .lone (joins whole) alone more

theorem lines_unified (source : List Char) : Lines source ((unified source).splitOn '\n') := by
  have nothing : '\r' ∉ ([] : List Char) ∧ '\n' ∉ ([] : List Char) := by simp
  fun_induction unified source with
  | case1 => exact .last nothing
  | case2 rest ih =>
    rw [List.splitOn_cons_eq_if_modifyHead, if_pos (by rfl)]
    exact .pair nothing ih
  | case3 c rest single ih =>
    rw [List.splitOn_cons_eq_if_modifyHead]
    by_cases returns : c = '\r'
    · subst returns
      have alone : rest.head? ≠ some '\n' := by
        intro follows
        obtain ⟨back, rfl⟩ := List.head?_eq_some_iff.mp follows
        exact single back rfl rfl
      exact .lone nothing alone ih
    · rw [if_neg returns]
      by_cases feeds : c = '\n'
      · subst feeds
        exact .feed nothing ih
      · rw [if_neg (by simpa using feeds)]
        exact ih.cons ⟨returns, feeds⟩

private theorem Lines.eq_splitOn {lines : List (List Char)} (given : Lines source lines) :
    lines = (unified source).splitOn '\n' := by
  induction given with
  | last whole =>
    rw [unified_of_not_mem whole.1, List.splitOn_eq_singleton whole.2]
  | feed whole more ih =>
    rw [unified_append whole.1, unified, ite_self,
      List.splitOn_append_cons_self_of_not_mem whole.2, ← ih]
    rintro _ impossible
    cases impossible
  | pair whole more ih =>
    rw [unified_append whole.1, unified, List.splitOn_append_cons_self_of_not_mem whole.2, ← ih]
  | lone whole alone more ih =>
    rw [unified_append whole.1, unified_return alone,
      List.splitOn_append_cons_self_of_not_mem whole.2, ← ih]

theorem translated_iff : Translated source text ↔ text = unified source := by
  constructor
  · intro given
    have joined : ['\n'].intercalate (text.splitOn '\n') = text := List.intercalate_splitOn '\n'
    rw [← joined, given.lines.eq_splitOn, List.intercalate_splitOn]
  · rintro rfl
    exact ⟨lines_unified source, return_not_mem_unified source⟩

end Translation

end Text.Newline

open Text.Newline (unified Paired)

namespace Line

private theorem content_cons {c : Char} (other : c ≠ '\r') (raw : List Char) :
    content (c :: raw) = c :: content raw := by
  cases raw with
  | nil => simp [content, other]
  | cons d raw =>
    unfold content
    rw [List.getLast?_cons_cons, List.dropLast_cons_cons]
    split <;> rfl

private theorem map_content_modifyHead {c : Char} (other : c ≠ '\r') (raws : List (List Char)) :
    (raws.modifyHead (List.cons c)).map content = (raws.map content).modifyHead (List.cons c) := by
  cases raws with
  | nil => rfl
  | cons raw raws => simp [content_cons other]

private theorem contents_unified {text : List Char} (paired : Paired text) :
    ((unified text).splitOn '\n').map content = (text.splitOn '\n').map content := by
  fun_induction unified text with
  | case1 => rfl
  | case2 rest ih =>
    -- The pair ends an empty line on both sides, once its carriage return is dropped.
    have same := ih paired.tail.tail
    simp [List.splitOn_cons_eq_if_modifyHead, same, content]
  | case3 c rest single ih =>
    have same := ih paired.tail
    have other : c ≠ '\r' := by
      rintro rfl
      have follows := paired [] rest rfl
      cases rest with
      | nil => cases follows
      | cons d rest =>
        cases follows
        exact single rest rfl rfl
    rw [if_neg other, List.splitOn_cons_eq_if_modifyHead, List.splitOn_cons_eq_if_modifyHead]
    split
    · rw [List.map_cons, List.map_cons, same]
    · rw [map_content_modifyHead other, map_content_modifyHead other, same]

theorem ofSource_unified {text : List Char} (paired : Paired text) :
    ofSource (unified text) = ofSource text := by
  rw [ofSource, contents_unified paired, ofSource]

end Line

end ChipEight
