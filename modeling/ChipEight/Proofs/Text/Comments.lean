import ChipEight.Proofs.Text.Capitals
import ChipEight.Text.Basic

set_option autoImplicit false

/-!
Comments and the texts around them.  Cutting a comment leaves none, it goes past any text that brings
no slash, and it comes to the same before and after upper-casing.
-/

namespace ChipEight.Comment

open Text.UpperCase

theorem cut_append_of_not_mem {front : List Char} (clear : '/' ∉ front) (text : List Char) :
    cut (front ++ text) = front ++ cut text := by
  induction front with
  | nil => rfl
  | cons c front ih =>
    rw [List.mem_cons, not_or] at clear
    rw [List.cons_append, cut_cons_of_ne (Ne.symm clear.1), ih clear.2]
    rfl

theorem cut_of_not_mem {text : List Char} (clear : '/' ∉ text) : cut text = text := by
  have whole := cut_append_of_not_mem clear []
  rwa [cut_nil, List.append_nil] at whole

theorem head?_cut {text : List Char} {c : Char} (first : (cut text).head? = some c) :
    text.head? = some c := by
  obtain ⟨comment, whole⟩ := exists_comment text
  rw [whole, List.head?_append, first]
  rfl

@[simp] theorem cut_cut (text : List Char) : cut (cut text) = cut text := by
  fun_induction cut text with
  | case1 => rfl
  | case2 => rfl
  | case3 c rest single ih =>
    by_cases slash : c = '/'
    · subst slash
      rw [cut_slash, ih]
      intro first
      have next := head?_cut first
      cases rest with
      | nil => cases next
      | cons d rest =>
        cases next
        exact single rest rfl rfl
    · rw [cut_cons_of_ne slash, ih]

theorem cut_cons_eq_self_iff {c : Char} {text : List Char} :
    cut (c :: text) = c :: text ↔ cut text = text ∧ (c = '/' → text.head? ≠ some '/') := by
  by_cases slash : c = '/'
  · subst slash
    by_cases pair : text.head? = some '/'
    · obtain ⟨rest, rfl⟩ := List.head?_eq_some_iff.mp pair
      simp [cut]
    · simp [cut_slash pair, pair]
  · simp [cut_cons_of_ne slash, slash]

theorem cut_front {front back : List Char} (free : cut (front ++ back) = front ++ back) :
    cut front = front := by
  induction front with
  | nil => rfl
  | cons c front ih =>
    rw [List.cons_append, cut_cons_eq_self_iff] at free
    refine cut_cons_eq_self_iff.mpr ⟨ih free.1, ?_⟩
    intro slash pair
    apply free.2 slash
    rw [List.head?_append, pair]
    rfl

theorem cut_back {front back : List Char} (free : cut (front ++ back) = front ++ back) :
    cut back = back := by
  induction front with
  | nil => exact free
  | cons c front ih =>
    rw [List.cons_append, cut_cons_eq_self_iff] at free
    exact ih free.1

theorem cut_of_infix {part text : List Char} (inside : part <:+: text) (free : cut text = text) :
    cut part = part := by
  obtain ⟨front, back, rfl⟩ := inside
  exact cut_back (cut_front free)

theorem cut_eq_self_iff {text : List Char} : cut text = text ↔ ¬ ['/', '/'] <:+: text := by
  constructor
  · intro free pair
    cases cut_of_infix pair free
  · intro clear
    induction text with
    | nil => rfl
    | cons c text ih =>
      rw [List.infix_cons_iff, not_or] at clear
      refine cut_cons_eq_self_iff.mpr ⟨ih clear.2, ?_⟩
      rintro rfl second
      obtain ⟨rest, rfl⟩ := List.head?_eq_some_iff.mp second
      exact clear.1 ⟨rest, rfl⟩

theorem cut_append_cons {front : List Char} (free : cut front = front) {c : Char} (other : c ≠ '/')
    (text : List Char) : cut (front ++ c :: text) = front ++ c :: cut text := by
  induction front with
  | nil => exact cut_cons_of_ne other text
  | cons d front ih =>
    obtain ⟨rest, single⟩ := cut_cons_eq_self_iff.mp free
    by_cases slash : d = '/'
    · subst slash
      rw [List.cons_append, cut_slash, ih rest]
      · rfl
      · cases front with
        | nil => simpa using other
        | cons e front => exact single rfl
    · rw [List.cons_append, cut_cons_of_ne slash, ih rest]
      rfl

theorem cut_append_eq_or {back : List Char} (clear : '/' ∉ back) (front : List Char) :
    cut (front ++ back) = cut front ∨ cut (front ++ back) = cut front ++ back := by
  fun_induction cut front with
  | case1 => exact Or.inr (cut_of_not_mem clear)
  | case2 rest => exact Or.inl rfl
  | case3 c rest single ih =>
    have head : cut (c :: (rest ++ back)) = c :: cut (rest ++ back) := by
      by_cases slash : c = '/'
      · subst slash
        apply cut_slash
        cases rest with
        | nil =>
          intro first
          exact clear (List.mem_of_head? first)
        | cons d rest =>
          intro first
          cases first
          exact single rest rfl rfl
      · exact cut_cons_of_ne slash _
    rw [List.cons_append, head]
    rcases ih with same | same
    · left
      rw [same]
    · right
      rw [same, List.cons_append]

/-- A slash is its own upper case and that of nothing else, so comments start in the same places. -/
theorem cut_upper (text : List Char) : cut (upper text) = upper (cut text) := by
  have slash : upperChar '/' = ['/'] := upperChar_of_low (by decide)
  fun_induction cut text with
  | case1 => rfl
  | case2 rest =>
    rw [upper_cons, upper_cons, slash]
    rfl
  | case3 c rest single ih =>
    rw [upper_cons, upper_cons]
    by_cases same : c = '/'
    · subst same
      rw [slash, List.singleton_append, List.singleton_append, cut_slash, ih]
      intro first
      cases rest with
      | nil => cases first
      | cons d rest =>
        rw [upper_cons, List.head?_append_of_ne_nil _ (upperChar_ne_nil d)] at first
        have inside := (mem_upperChar_iff (by decide)).mp (List.mem_of_head? first)
        subst inside
        exact single rest rfl rfl
    · rw [cut_append_of_not_mem, ih]
      rw [mem_upperChar_iff (by decide)]
      exact same

theorem cut_of_cut_upper {text : List Char} (free : cut (upper text) = upper text) :
    cut text = text := by
  obtain ⟨comment, whole⟩ := exists_comment text
  have parts : upper text = upper (cut text) ++ upper comment := by
    rw [← upper_append, ← whole]
  rw [cut_upper, parts, List.self_eq_append_right, upper_eq_nil_iff] at free
  rw [free, List.append_nil] at whole
  exact whole.symm

end ChipEight.Comment
