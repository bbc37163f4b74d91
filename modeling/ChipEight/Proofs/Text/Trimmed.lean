import Mathlib.Data.List.DropRight
import ChipEight.Text.Basic

set_option autoImplicit false

/-!
Texts without blanks around them, and the first word of a text.
-/

namespace ChipEight.Text

namespace Blank

def Trimmed (text : List Char) : Prop :=
  (∀ c, text.head? = some c → isBlank c = false) ∧ ∀ c, text.getLast? = some c → isBlank c = false

/-- A text as its first word, which is not empty, and what follows the blanks behind it. -/
structure Opens (text head rest : List Char) : Prop where
  nonempty : head ≠ []
  word : ∀ c ∈ head, isBlank c = false
  start : ∀ c, rest.head? = some c → isBlank c = false
  split : ∃ gap, text = head ++ gap ++ rest ∧ (∀ c ∈ gap, isBlank c = true) ∧
    (gap = [] → rest = [])

private theorem head?_trimStart {text : List Char} {c : Char}
    (h : (trimStart text).head? = some c) : isBlank c = false := by
  have first := List.head?_dropWhile_not isBlank text
  rw [trimStart] at h
  simpa [h] using first

private theorem getLast?_trimEnd {text : List Char} {c : Char}
    (h : (trimEnd text).getLast? = some c) : isBlank c = false := by
  have last := List.head?_dropWhile_not isBlank text.reverse
  rw [trimEnd, List.getLast?_reverse] at h
  simpa [h] using last

theorem trimmed_trim (text : List Char) : Trimmed (trim text) := by
  refine ⟨?_, fun c => getLast?_trimEnd⟩
  intro c h
  obtain ⟨tail, whole⟩ : trimEnd (trimStart text) <+: trimStart text :=
    List.rdropWhile_prefix isBlank _
  have first : (trimStart text).head? = some c := by
    rw [← whole, List.head?_append]
    change ((trim text).head?.or tail.head?) = some c
    rw [h]
    rfl
  exact head?_trimStart first

theorem trim_of_trimmed {text : List Char} (trimmed : Trimmed text) : trim text = text := by
  have start : trimStart text = text := by
    cases text with
    | nil => rfl
    | cons c text => simp [trimStart, trimmed.1 c rfl]
  have stop : trimEnd text = text := by
    apply (List.rdropWhile_eq_self_iff).mpr
    intro nonempty
    rw [trimmed.2 _ (List.getLast?_eq_getLast_of_ne_nil nonempty)]
    simp
  rw [trim, start, stop]

theorem trim_eq_nil_iff {text : List Char} : trim text = [] ↔ ∀ c ∈ text, isBlank c = true := by
  have stop : trim text = [] ↔ ∀ c ∈ trimStart text, isBlank c = true :=
    List.rdropWhile_eq_nil_iff
  rw [stop]
  constructor
  · intro blank c member
    rw [← List.takeWhile_append_dropWhile (p := isBlank) (l := text)] at member
    rcases List.mem_append.mp member with before | behind
    · exact List.mem_takeWhile_imp before
    · exact blank c behind
  · intro blank c member
    exact blank c (List.dropWhile_subset isBlank member)

theorem mem_of_mem_trim {c : Char} {text : List Char} (member : c ∈ trim text) : c ∈ text := by
  have kept : trim text <+: trimStart text := List.rdropWhile_prefix isBlank _
  exact List.dropWhile_subset isBlank (kept.subset member)

theorem trim_pad {before behind : List Char} (left : ∀ c ∈ before, isBlank c = true)
    (right : ∀ c ∈ behind, isBlank c = true) (text : List Char) :
    trim (before ++ text ++ behind) = trim text := by
  have stop : ∀ inner, trimEnd (inner ++ behind) = trimEnd inner := by
    intro inner
    rw [trimEnd, List.reverse_append, List.dropWhile_append_of_pos]
    · rfl
    · simpa using right
  rw [trim, trimStart, List.append_assoc, List.dropWhile_append_of_pos left, List.dropWhile_append]
  split
  · rename_i blank
    -- A text of blanks alone vanishes together with those behind it.
    have empty : trim text = [] := by
      rw [trim, trimStart, List.isEmpty_iff.mp blank]
      rfl
    have none : List.dropWhile isBlank behind = [] := List.dropWhile_eq_nil_iff.mpr right
    rw [empty, none]
    rfl
  · rw [stop]
    rfl

section kinds

variable {p : Char → Bool} {text : List Char}

theorem exists_cut (p : Char → Bool) (text : List Char) :
    ∃ before behind, text = before ++ (text.dropWhile p).rdropWhile p ++ behind ∧
      (∀ c ∈ before, p c = true) ∧ ∀ c ∈ behind, p c = true := by
  have front := List.takeWhile_append_dropWhile (p := p) (l := text)
  have back := List.takeWhile_append_dropWhile (p := p) (l := (text.dropWhile p).reverse)
  refine ⟨text.takeWhile p, ((text.dropWhile p).reverse.takeWhile p).reverse, ?_, ?_, ?_⟩
  · rw [List.rdropWhile, List.append_assoc, ← List.reverse_append, back, List.reverse_reverse]
    exact front.symm
  · intro c member
    exact List.mem_takeWhile_imp member
  · intro c member
    exact List.mem_takeWhile_imp (List.mem_reverse.mp member)

theorem mem_of_not_cut {c : Char} (member : c ∈ text) (other : p c = false) :
    c ∈ (text.dropWhile p).rdropWhile p := by
  obtain ⟨before, behind, whole, left, right⟩ := exists_cut p text
  rw [whole, List.mem_append, List.mem_append] at member
  rcases member with (inside | inside) | inside
  · simp [left c inside] at other
  · exact inside
  · simp [right c inside] at other

theorem eq_of_not_cut (other : ∀ c ∈ text, p c = false) :
    (text.dropWhile p).rdropWhile p = text := by
  have start : text.dropWhile p = text := by
    cases text with
    | nil => rfl
    | cons c text => simp [other c List.mem_cons_self]
  rw [start, List.rdropWhile_eq_self_iff]
  intro nonempty
  simp [other _ (List.getLast_mem nonempty)]

end kinds

theorem exists_pad (text : List Char) :
    ∃ before behind, text = before ++ trim text ++ behind ∧ (∀ c ∈ before, isBlank c = true) ∧
      ∀ c ∈ behind, isBlank c = true :=
  exists_cut isBlank text

theorem mem_trim {c : Char} {text : List Char} (member : c ∈ text) (solid : isBlank c = false) :
    c ∈ trim text :=
  mem_of_not_cut member solid

theorem head?_trim {c : Char} (solid : isBlank c = false) (rest : List Char) :
    (trim (c :: rest)).head? = some c := by
  obtain ⟨tail, whole⟩ : trim (c :: rest) <+: trimStart (c :: rest) :=
    List.rdropWhile_prefix isBlank _
  have start : trimStart (c :: rest) = c :: rest := by simp [trimStart, solid]
  cases front : trim (c :: rest) with
  | nil =>
    have member := mem_trim (List.mem_cons_self (l := rest)) solid
    rw [front] at member
    cases member
  | cons d kept =>
    rw [front, start, List.cons_append, List.cons.injEq] at whole
    rw [List.head?_cons, whole.1]

theorem firstWord_of_opens {text head rest : List Char} (opens : Opens text head rest) :
    firstWord text = (head, rest) := by
  obtain ⟨gap, rfl, blank, closed⟩ := opens.split
  have word : ∀ c ∈ head, (!isBlank c) = true := by
    intro c member
    simp [opens.word c member]
  have behind : (gap ++ rest).takeWhile (!isBlank ·) = [] ∧
      (gap ++ rest).dropWhile (!isBlank ·) = gap ++ rest := by
    cases gap with
    | nil => simp [closed rfl]
    | cons c gap => simp [blank c List.mem_cons_self]
  have trimmed : trimStart (gap ++ rest) = rest := by
    rw [trimStart, List.dropWhile_append_of_pos blank]
    cases rest with
    | nil => rfl
    | cons c rest => simp [opens.start c rfl]
  rw [firstWord, List.append_assoc, List.takeWhile_append_of_pos word,
    List.dropWhile_append_of_pos word, behind.1, behind.2, trimmed, List.append_nil]

theorem opens_firstWord {c : Char} {text : List Char} (start : isBlank c = false) :
    Opens (c :: text) (firstWord (c :: text)).1 (firstWord (c :: text)).2 := by
  have halves := List.takeWhile_append_dropWhile (p := (!isBlank ·)) (l := c :: text)
  have rest := List.takeWhile_append_dropWhile (p := isBlank)
    (l := (c :: text).dropWhile (!isBlank ·))
  refine ⟨by simp [firstWord, start], ?_, fun d => head?_trimStart,
    ((c :: text).dropWhile (!isBlank ·)).takeWhile isBlank, ?_, ?_, ?_⟩
  · intro d member
    simpa using List.mem_takeWhile_imp member
  · rw [firstWord, List.append_assoc, trimStart, rest, halves]
  · intro d member
    exact List.mem_takeWhile_imp member
  · intro empty
    -- Behind a word there is either a blank or nothing.
    cases behind : (c :: text).dropWhile (!isBlank ·) with
    | nil => simp [firstWord, behind, trimStart]
    | cons d more =>
      have first := List.head?_dropWhile_not (!isBlank ·) (c :: text)
      rw [behind] at first empty
      simp at first
      simp [first] at empty

end Blank

end ChipEight.Text
