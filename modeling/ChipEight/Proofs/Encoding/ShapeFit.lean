import Mathlib.Data.List.Forall2
import ChipEight.Proofs.Encoding.Spelling
import ChipEight.Proofs.Passes.LineWords

set_option autoImplicit false

/-!
Which form fits given operands.  Blanks behind the last given operand and behind the last required
pattern count for nothing; what is left has to match one for one.  No two forms of a mnemonic agree
so far, hence the order in which they are tried does not matter.
-/

namespace ChipEight

open Text
open Text.Blank (isBlank)
open Catalog (forms)

private theorem rdropWhile_cons {α : Type} (p : α → Bool) (a : α) (rest : List α) :
    (a :: rest).rdropWhile p =
      if rest.rdropWhile p = [] ∧ p a = true then [] else a :: rest.rdropWhile p := by
  rw [List.rdropWhile, List.reverse_cons, List.dropWhile_append]
  cases behind : rest.reverse.dropWhile p with
  | nil => cases kept : p a <;> simp [List.rdropWhile, behind, kept]
  | cons b more => simp [List.rdropWhile, behind]

namespace Operand

def given (operands : List Operand) : List Operand :=
  operands.rdropWhile fun operand => decide (operand = blank)

theorem given_cons (operand : Operand) (operands : List Operand) :
    given (operand :: operands) =
      if given operands = [] ∧ operand = blank then [] else operand :: given operands := by
  simp only [given, rdropWhile_cons, decide_eq_true_eq]
  congr

theorem given_eq_nil_iff {operands : List Operand} :
    given operands = [] ↔ ∀ operand ∈ operands, operand = blank := by
  simp [given, List.rdropWhile_eq_nil_iff]

theorem given_append_blanks (operands : List Operand) {blanks : List Operand}
    (empty : ∀ operand ∈ blanks, operand = blank) : given (operands ++ blanks) = given operands := by
  rw [given, List.rdropWhile, List.reverse_append, List.dropWhile_append_of_pos]
  · rfl
  · simpa using empty

theorem given_given (operands : List Operand) : given (given operands) = given operands :=
  List.rdropWhile_idempotent _ operands

theorem headD_given (operands : List Operand) :
    (given operands).headD blank = operands.headD blank := by
  cases operands with
  | nil => rfl
  | cons operand operands =>
    rw [given_cons]
    split
    · rename_i empty
      exact empty.2.symm
    · rfl

theorem tail_given (operands : List Operand) : (given operands).tail = given operands.tail := by
  cases operands with
  | nil => rfl
  | cons operand operands =>
    rw [given_cons]
    split
    · rename_i empty
      exact empty.1.symm
    · rfl

end Operand

namespace Pattern

open Operand (given given_cons headD_given tail_given)

def required (shape : List Pattern) : List Pattern :=
  shape.rdropWhile fun pattern => decide (pattern = blank)

def Match (shape : List Pattern) (operands : List Operand) : Prop :=
  List.Forall₂ (fun pattern operand => pattern.accepts operand = true) shape operands

theorem required_cons (pattern : Pattern) (shape : List Pattern) :
    required (pattern :: shape) =
      if required shape = [] ∧ pattern = blank then [] else pattern :: required shape := by
  simp only [required, rdropWhile_cons, decide_eq_true_eq]
  congr

theorem acceptsAll_iff_match {shape : List Pattern} {operands : List Operand} :
    acceptsAll shape operands = true ↔ Match shape operands := by
  unfold Match
  induction shape generalizing operands with
  | nil => cases operands <;> simp [acceptsAll]
  | cons pattern shape ih => cases operands <;> simp [acceptsAll, ih]

theorem eq_blank_iff {pattern : Pattern} {operand : Operand}
    (accepted : pattern.accepts operand = true) : pattern = blank ↔ operand = .blank := by
  cases pattern <;> cases operand <;> simp [accepts] at accepted ⊢

theorem match_cons_iff {pattern : Pattern} {shape : List Pattern} {operand : Operand}
    {operands : List Operand} :
    Match (required (pattern :: shape)) (given (operand :: operands)) ↔
      pattern.accepts operand = true ∧ Match (required shape) (given operands) := by
  unfold Match
  rw [required_cons, given_cons]
  constructor
  · intro matched
    split at matched <;> split at matched
    · rename_i left right
      rw [left.1, right.1, left.2, right.2]
      exact ⟨rfl, .nil⟩
    · cases matched
    · cases matched
    · exact List.forall₂_cons.mp matched
  · rintro ⟨accepted, matched⟩
    have ends : required shape = [] ↔ given operands = [] := by
      rw [← List.length_eq_zero_iff, ← List.length_eq_zero_iff, matched.length_eq]
    have both : (required shape = [] ∧ pattern = blank) ↔
        (given operands = [] ∧ operand = .blank) :=
      and_congr ends (eq_blank_iff accepted)
    split
    · rename_i empty
      rw [if_pos (both.mp empty)]
      exact .nil
    · rename_i full
      rw [if_neg (mt both.mpr full)]
      exact .cons accepted matched

theorem all_blank_iff {operands : List Operand} :
    operands.all blank.accepts = true ↔ given operands = [] := by
  rw [List.all_eq_true, Operand.given_eq_nil_iff]
  refine forall₂_congr fun operand _ => ⟨eq_blank_of_accepts, ?_⟩
  rintro rfl
  rfl

theorem isSome_fit?_iff {shape : List Pattern} {operands : List Operand} :
    (fit? shape operands).isSome = true ↔ Match (required shape) (given operands) := by
  induction shape generalizing operands with
  | nil =>
    have none : required [] = [] := rfl
    rw [fit?, Match, none, List.forall₂_nil_left_iff, ← all_blank_iff]
    cases operands.all blank.accepts <;> simp
  | cons pattern shape ih =>
    -- A missing operand is a blank one.
    have padded : given operands = given (operands.headD .blank :: operands.tail) := by
      cases operands <;> rfl
    rw [padded, match_cons_iff, ← ih, fit?]
    cases pattern.accepts (operands.headD .blank) <;> simp

theorem fit?_given (shape : List Pattern) (operands : List Operand) :
    fit? shape (given operands) = fit? shape operands := by
  induction shape generalizing operands with
  | nil =>
    have same : (given operands).all blank.accepts = operands.all blank.accepts := by
      rw [Bool.eq_iff_iff, all_blank_iff, all_blank_iff, Operand.given_given]
    rw [fit?, fit?, same]
  | cons pattern shape ih => rw [fit?, fit?, headD_given, tail_given, ih]

end Pattern

namespace Form

open Operand (given)
open Pattern (Match required)

def fits (form : Form) (operands : List Operand) : Bool :=
  (form.accept? operands).isSome

theorem accept?_given (form : Form) (operands : List Operand) :
    form.accept? (given operands) = form.accept? operands := by
  cases form <;> simp only [accept?, Pattern.fit?_given]

theorem accept?_congr {operands others : List Operand} (same : given operands = given others)
    (form : Form) : form.accept? operands = form.accept? others := by
  rw [← accept?_given, same, accept?_given]

theorem fits_iff {form : Form} {operands : List Operand} :
    form.fits operands = true ↔ Match (required form.shape) (given operands) := by
  have shown : form.fits operands = (Pattern.fit? form.shape operands).isSome := by
    cases form <;> simp [fits, accept?, shape]
  rw [shown, Pattern.isSome_fit?_iff]

end Form

namespace Catalog

open Operand (given)
open Pattern (Match required)

private theorem required_clash (mnemonic : Mnemonic) :
    (forms mnemonic).Pairwise fun a b => Pattern.clashAll (required a.shape) (required b.shape) := by
  cases mnemonic <;> decide

private theorem required_full (mnemonic : Mnemonic) :
    ∀ form ∈ forms mnemonic, Pattern.blank ∉ required form.shape := by
  cases mnemonic <;> decide

theorem length_fitting_le (mnemonic : Mnemonic) (operands : List Operand) :
    ((forms mnemonic).filter (·.fits operands)).length ≤ 1 := by
  have apart := (required_clash mnemonic).filter (·.fits operands)
  have fitting : ∀ form ∈ (forms mnemonic).filter (·.fits operands),
      Pattern.acceptsAll (required form.shape) (given operands) = true := by
    intro form member
    exact Pattern.acceptsAll_iff_match.mpr (Form.fits_iff.mp (List.mem_filter.mp member).2)
  match found : (forms mnemonic).filter (·.fits operands) with
  | [] => simp [found]
  | [_] => simp [found]
  | first :: second :: _ =>
    rw [found] at apart fitting
    have clash := (List.pairwise_cons.mp apart).1 second (by simp)
    rw [Pattern.clashAll_eq_false (fitting first (by simp)) (fitting second (by simp)) rfl] at clash
    cases clash

theorem findSome?_accept?_of_perm {mnemonic : Mnemonic} {others : List Form}
    (same : others.Perm (forms mnemonic)) (operands : List Operand) :
    others.findSome? (·.accept? operands) = (forms mnemonic).findSome? (·.accept? operands) := by
  have few : ((forms mnemonic).filterMap (·.accept? operands)).length ≤ 1 := by
    rw [List.length_filterMap_eq_countP, List.countP_eq_length_filter]
    exact length_fitting_le mnemonic operands
  have results := same.filterMap (·.accept? operands)
  rw [← List.head?_filterMap, ← List.head?_filterMap]
  match found : (forms mnemonic).filterMap (·.accept? operands) with
  | [] =>
    rw [found] at results
    rw [results.eq_nil, found]
  | [result] =>
    rw [found] at results
    rw [results.eq_singleton, found]
  | _ :: _ :: _ =>
    rw [found] at few
    simp at few

end Catalog

namespace Operand

/-- The operands between the commas of a text, with nothing trimmed before they are read. -/
private def pieces (text : List Char) : List Operand :=
  (text.splitOn ',').map read

private theorem pieces_append (front back : List Char) :
    pieces (front ++ ',' :: back) = pieces front ++ pieces back := by
  rw [pieces, List.splitOn_append_cons_self, List.map_append]
  rfl

private theorem pieces_of_not_mem {text : List Char} (clear : ',' ∉ text) :
    pieces text = [read text] := by
  rw [pieces, List.splitOn_eq_singleton clear]
  rfl

private theorem read_pad {before behind : List Char} (left : ∀ c ∈ before, isBlank c = true)
    (right : ∀ c ∈ behind, isBlank c = true) (text : List Char) :
    read (before ++ text ++ behind) = read text := by
  rw [read, Blank.trim_pad left right, read]

private theorem comma_not_mem {blanks : List Char} (blank : ∀ c ∈ blanks, isBlank c = true) :
    ',' ∉ blanks := by
  intro member
  have comma := blank ',' member
  revert comma
  decide

private theorem pieces_pad_left {before : List Char} (left : ∀ c ∈ before, isBlank c = true)
    (text : List Char) : pieces (before ++ text) = pieces text := by
  have padded : ∀ first, read (before ++ first) = read first := by
    intro first
    simpa using read_pad left (List.forall_mem_nil _) first
  by_cases comma : ',' ∈ text
  · obtain ⟨first, rest, rfl, clear⟩ := List.eq_append_cons_of_mem comma
    have front : ',' ∉ before ++ first := by simp [comma_not_mem left, clear]
    rw [← List.append_assoc, pieces_append, pieces_append, pieces_of_not_mem front,
      pieces_of_not_mem clear, padded]
  · have front : ',' ∉ before ++ text := by simp [comma_not_mem left, comma]
    rw [pieces_of_not_mem front, pieces_of_not_mem comma, padded]

private theorem pieces_pad_right {behind : List Char} (right : ∀ c ∈ behind, isBlank c = true)
    (text : List Char) : pieces (text ++ behind) = pieces text := by
  have padded : ∀ last, read (last ++ behind) = read last := by
    intro last
    simpa using read_pad (List.forall_mem_nil _) right last
  by_cases comma : ',' ∈ text
  · obtain ⟨last, front, whole, clear⟩ := List.eq_append_cons_of_mem (List.mem_reverse.mpr comma)
    have split : text = front.reverse ++ ',' :: last.reverse := by
      rw [← List.reverse_reverse text, whole]
      simp
    have end_clear : ',' ∉ last.reverse := by simpa using clear
    have back : ',' ∉ last.reverse ++ behind := by simp [comma_not_mem right, clear]
    rw [split, List.append_assoc, List.cons_append, pieces_append, pieces_append,
      pieces_of_not_mem back, pieces_of_not_mem end_clear, padded]
  · have back : ',' ∉ text ++ behind := by simp [comma_not_mem right, comma]
    rw [pieces_of_not_mem back, pieces_of_not_mem comma, padded]

private theorem given_readList (arguments : List Char) :
    given (readList arguments) = given (pieces (Comment.cut arguments)) := by
  obtain ⟨before, behind, whole, left, right⟩ := Blank.exists_pad (Comment.cut arguments)
  have same : pieces (Comment.cut arguments) = pieces (Blank.trim (Comment.cut arguments)) := by
    conv_lhs => rw [whole]
    rw [pieces_pad_right right, pieces_pad_left left]
  rw [same]
  unfold readList
  split
  · rename_i empty
    rw [empty]
    rfl
  · rfl

private theorem pieces_blank {tail : List Char} (idle : ∀ c ∈ tail, c = ',' ∨ isBlank c = true) :
    ∀ operand ∈ pieces tail, operand = blank := by
  induction tail with
  | nil => exact List.forall_mem_singleton.mpr rfl
  | cons c tail ih =>
    have rest := ih fun d member => idle d (List.mem_cons_of_mem c member)
    rcases idle c List.mem_cons_self with rfl | space
    · have first : pieces (',' :: tail) = blank :: pieces tail := pieces_append [] tail
      rw [first]
      exact List.forall_mem_cons.mpr ⟨rfl, rest⟩
    · have same : pieces (c :: tail) = pieces tail :=
        pieces_pad_left (List.forall_mem_singleton.mpr space) tail
      rwa [same]

private theorem given_pieces_append (text : List Char) {tail : List Char}
    (idle : ∀ c ∈ tail, c = ',' ∨ isBlank c = true) :
    given (pieces (text ++ tail)) = given (pieces text) := by
  induction tail generalizing text with
  | nil => rw [List.append_nil]
  | cons c tail ih =>
    have rest := fun d member => idle d (List.mem_cons_of_mem c member)
    rcases idle c List.mem_cons_self with rfl | space
    · rw [pieces_append, given_append_blanks _ (pieces_blank rest)]
    · rw [List.append_cons, ih (text ++ [c]) rest,
        pieces_pad_right (List.forall_mem_singleton.mpr space)]

theorem given_readList_append (arguments : List Char) {tail : List Char}
    (idle : ∀ c ∈ tail, c = ',' ∨ isBlank c = true) :
    given (readList (arguments ++ tail)) = given (readList arguments) := by
  have slash : '/' ∉ tail := by
    intro member
    rcases idle '/' member with comma | space
    · cases comma
    · revert space
      decide
  rw [given_readList, given_readList]
  rcases Comment.cut_append_eq_or slash arguments with same | same
  · rw [same]
  · rw [same, given_pieces_append _ idle]

end Operand

namespace Instruction

/-- The instruction that a mnemonic makes with an argument text, where the forms of a mnemonic are
tried in the order of another catalog. -/
def parseIn (catalog : Mnemonic → List Form) (name arguments : List Char) (position : Position) :
    Except Fault Instruction :=
  match Mnemonic.read? name with
  | some mnemonic =>
    match (catalog mnemonic).findSome? (·.accept? (Operand.readList arguments)) with
    | some operands => .ok ⟨mnemonic.spelling, operands, position⟩
    | none =>
      let line := Blank.trim position.text
      .error (.unsupportedOperands mnemonic.spelling (if line.isEmpty then arguments else line)
        position)
  | none => .error (.unknownMnemonic name position)

theorem parseIn_forms (name arguments : List Char) (position : Position) :
    parseIn forms name arguments position = parse name arguments position := rfl

theorem parseIn_of_perm {catalog : Mnemonic → List Form}
    (same : ∀ mnemonic, (catalog mnemonic).Perm (forms mnemonic)) (name arguments : List Char)
    (position : Position) : parseIn catalog name arguments position = parse name arguments position := by
  rw [← parseIn_forms]
  unfold parseIn
  cases Mnemonic.read? name with
  | none => rfl
  | some mnemonic => simp only [Catalog.findSome?_accept?_of_perm (same mnemonic)]

theorem parse_append_eq_ok_iff {name arguments tail : List Char} {position : Position}
    {instruction : Instruction} (idle : ∀ c ∈ tail, c = ',' ∨ isBlank c = true) :
    parse name (arguments ++ tail) position = .ok instruction ↔
      parse name arguments position = .ok instruction := by
  have same := Form.accept?_congr (Operand.given_readList_append arguments idle)
  unfold parse
  cases Mnemonic.read? name with
  | none => rfl
  | some mnemonic => simp only [ofMnemonic_eq_ok_iff, same]

end Instruction

/-- How the forms of a mnemonic fit operands: at most one does, blanks behind the last given operand
do not count, and what is given matches one for one what the form requires, so that no blank before
another operand is passed over. -/
structure Catalog.FitExactly (mnemonic : Mnemonic) (operands : List Operand) : Prop where
  unique : ((forms mnemonic).filter (·.fits operands)).length ≤ 1
  given : ∀ others, Operand.given others = Operand.given operands →
    ∀ form ∈ forms mnemonic, form.accept? others = form.accept? operands
  matched : ∀ form ∈ forms mnemonic,
    form.fits operands = true ↔ Pattern.Match (Pattern.required form.shape) (Operand.given operands)
  gapless : .blank ∈ Operand.given operands → ∀ form ∈ forms mnemonic, form.fits operands = false

/-- Forms fit operands exactly.  Hence commas and blanks behind the arguments are ignored, and an
instruction is read as the same whatever the order in which the forms are tried. -/
theorem forms_fit_exactly :
    (∀ mnemonic operands, Catalog.FitExactly mnemonic operands) ∧
      (∀ name arguments tail position instruction, (∀ c ∈ tail, c = ',' ∨ isBlank c = true) →
        (Instruction.parse name (arguments ++ tail) position = .ok instruction ↔
          Instruction.parse name arguments position = .ok instruction)) ∧
      ∀ catalog : Mnemonic → List Form, (∀ mnemonic, (catalog mnemonic).Perm (forms mnemonic)) →
        ∀ name arguments position,
          Instruction.parseIn catalog name arguments position =
            Instruction.parse name arguments position := by
  refine ⟨?_, ?_, ?_⟩
  · intro mnemonic operands
    refine ⟨Catalog.length_fitting_le mnemonic operands, ?_, fun form _ => Form.fits_iff, ?_⟩
    · intro others same form _
      exact Form.accept?_congr same form
    · intro gap form listed
      rw [Bool.eq_false_iff]
      intro fits
      have accepted := Pattern.acceptsAll_iff_match.mpr (Form.fits_iff.mp fits)
      exact Pattern.not_mem_blank_of_acceptsAll (Catalog.required_full mnemonic form listed)
        accepted gap
  · intro name arguments tail position instruction idle
    exact Instruction.parse_append_eq_ok_iff idle
  · intro catalog same name arguments position
    exact Instruction.parseIn_of_perm same name arguments position

/-- `rand va ,,` with the short form tried first, and `JP V0,,A` with a place left out. -/
theorem forms_fit_exactly_reversed :
    (forms .rnd).reverse ≠ forms .rnd ∧
      Instruction.parseIn (fun mnemonic => (forms mnemonic).reverse) ['r', 'a', 'n', 'd']
          ['v', 'a', ' ', ',', ','] {} =
        .ok ⟨['R', 'N', 'D'], [.register 0xA, .immediate 0xFF], {}⟩ ∧
      ∀ form ∈ forms .jp, form.fits (Operand.readList ['V', '0', ',', ',', 'A']) = false := by
  obtain ⟨exact, trailing, reordered⟩ := forms_fit_exactly
  refine ⟨by decide, ?_, (exact _ _).gapless (by decide)⟩
  have plain : Instruction.parse ['r', 'a', 'n', 'd'] ['v', 'a'] {} =
      .ok ⟨['R', 'N', 'D'], [.register 0xA, .immediate 0xFF], {}⟩ := rfl
  have same := reordered (fun mnemonic => (forms mnemonic).reverse) (fun _ => List.reverse_perm _)
  have idle : ∀ c ∈ [' ', ',', ','], c = ',' ∨ isBlank c = true := by
    intro c member
    simp only [List.mem_cons, List.not_mem_nil, or_false] at member
    rcases member with rfl | rfl | rfl <;> decide
  rw [same]
  exact (trailing _ ['v', 'a'] _ _ _ idle).mpr plain

end ChipEight
