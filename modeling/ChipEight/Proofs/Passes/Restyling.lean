import ChipEight.Proofs.Passes.Acceptance
import ChipEight.Proofs.Passes.LineGists

set_option autoImplicit false

/-!
The style of a source: its case, its comments, the blanks around its lines, the way its lines end and
the lines that are empty.  None of it carries meaning, so a source may be restyled step by step
without any effect on the outcome but for the numbers of the lines.
-/

namespace ChipEight

open Text
open Text.Blank (isBlank)
open Text.UpperCase (upper)

namespace Statement

@[simp] theorem read_upper (line : List Char) : read (upper line) = read line := by
  rw [read, Comment.cut_upper, UpperCase.trim_upper, UpperCase.upper_upper, read]

@[simp] theorem read_cut (line : List Char) : read (Comment.cut line) = read line := by
  rw [read, Comment.cut_cut, read]

private theorem not_mem_slash {blanks : List Char} (blank : ∀ c ∈ blanks, isBlank c = true) :
    '/' ∉ blanks := by
  intro slash
  have impossible := blank _ slash
  revert impossible
  decide

theorem read_pad {before behind : List Char} (left : ∀ c ∈ before, isBlank c = true)
    (right : ∀ c ∈ behind, isBlank c = true) (line : List Char) :
    read (before ++ line ++ behind) = read line := by
  have none : ∀ c ∈ ([] : List Char), isBlank c = true := by simp
  rw [read, List.append_assoc, Comment.cut_append_of_not_mem (not_mem_slash left), read]
  -- The blanks behind the line are kept, or they are part of its comment.
  rcases Comment.cut_append_eq_or (not_mem_slash right) line with same | same
  · have trimmed := Blank.trim_pad left none (Comment.cut line)
    rw [List.append_nil] at trimmed
    rw [same, trimmed]
  · have trimmed := Blank.trim_pad left right (Comment.cut line)
    rw [List.append_assoc] at trimmed
    rw [same, trimmed]

theorem read_append_blank {behind : List Char} (blank : ∀ c ∈ behind, isBlank c = true)
    (line : List Char) : read (line ++ behind) = read line := by
  have none : ∀ c ∈ ([] : List Char), isBlank c = true := by simp
  exact read_pad none blank line

theorem read_of_empty {line : List Char} (empty : Blank.trim (Comment.cut line) = []) :
    read line = .blank := by
  rw [read, empty]
  rfl

theorem read_content (raw : List Char) : read (Line.content raw) = read raw := by
  unfold Line.content
  split
  · rename_i last
    have whole := List.dropLast_append_getLast? '\r' last
    have blank : ∀ c ∈ ['\r'], isBlank c = true := List.forall_mem_singleton.mpr rfl
    conv_rhs => rw [← whole]
    exact (read_append_blank blank raw.dropLast).symm
  · rfl

end Statement

namespace Line

def gistsFrom : Nat → List Statement → List (Nat × Statement)
  | _, [] => []
  | number, statement :: statements =>
    if statement = .blank then gistsFrom (number + 1) statements
    else (number, statement) :: gistsFrom (number + 1) statements

theorem gists_numbered (number : Nat) (raws : List (List Char)) :
    gists (numbered number (raws.map content)) = gistsFrom number (raws.map Statement.read) := by
  induction raws generalizing number with
  | nil => rfl
  | cons raw raws ih =>
    have statement : (ofText number (content raw)).statement = Statement.read raw :=
      Statement.read_content raw
    rw [List.map_cons, List.map_cons, numbered, gistsFrom, ← ih]
    by_cases blank : Statement.read raw = .blank
    · rw [if_pos blank, gists, told_cons_of_blank (statement.trans blank)]
      rfl
    · rw [if_neg blank, gists, told_cons_of_ne (by rwa [statement]), List.map_cons, statement]
      rfl

theorem gists_ofSource (source : List Char) :
    gists (ofSource source) = gistsFrom 1 ((source.splitOn '\n').map Statement.read) :=
  gists_numbered 1 _

theorem gists_intercalate {raws : List (List Char)} (clear : ∀ raw ∈ raws, '\n' ∉ raw) :
    gists (ofSource (['\n'].intercalate raws)) = gistsFrom 1 (raws.map Statement.read) := by
  by_cases empty : raws = []
  · subst empty
    rfl
  · rw [gists_ofSource, List.splitOn_intercalate _ clear empty]

theorem gistsFrom_append (number : Nat) (front back : List Statement) :
    gistsFrom number (front ++ back) =
      gistsFrom number front ++ gistsFrom (number + front.length) back := by
  induction front generalizing number with
  | nil => rfl
  | cons statement front ih =>
    have further : number + 1 + front.length = number + (statement :: front).length := by
      rw [List.length_cons]
      omega
    rw [List.cons_append, gistsFrom, gistsFrom, ih, further]
    split <;> rfl

theorem map_gistsFrom {move : Nat → Nat} {number other : Nat} {statements : List Statement}
    (shift : ∀ i < statements.length, move (number + i) = other + i) :
    (gistsFrom number statements).map (Prod.map move id) = gistsFrom other statements := by
  induction statements generalizing number other with
  | nil => rfl
  | cons statement statements ih =>
    have first : move number = other := shift 0 (by simp)
    have rest : (gistsFrom (number + 1) statements).map (Prod.map move id) =
        gistsFrom (other + 1) statements := by
      apply ih
      intro i less
      have later := shift (i + 1) (by simpa using less)
      have left : number + 1 + i = number + (i + 1) := by omega
      rw [left, later]
      omega
    rw [gistsFrom, gistsFrom]
    split
    · exact rest
    · rw [List.map_cons, rest, Prod.map_apply, first]
      rfl

end Line

def withReturns (source : List Char) : List Char :=
  source.flatMap fun c => if c = '\n' then ['\r', '\n'] else [c]

/-- One change of style, with what it does to the numbers of lines.  A line may be taken with or
without the carriage return that ends it. -/
inductive Restyle : (Nat → Nat) → List Char → List Char → Prop where
  | capitals (source : List Char) : Restyle id source (upper source)
  | uncomment {source line ending : List Char} {front back : List (List Char)}
      (lines : source.splitOn '\n' = front ++ (line ++ ending) :: back)
      (ends : ending = [] ∨ ending = ['\r']) :
      Restyle id source (['\n'].intercalate (front ++ (Comment.cut line ++ ending) :: back))
  | pad {source before line behind ending : List Char} {front back : List (List Char)}
      (lines : source.splitOn '\n' = front ++ (line ++ ending) :: back)
      (ends : ending = [] ∨ ending = ['\r'])
      (blank : ∀ c ∈ before ++ behind, isBlank c = true ∧ c ≠ '\n') :
      Restyle id source
        (['\n'].intercalate (front ++ (before ++ line ++ behind ++ ending) :: back))
  | returns (source : List Char) : Restyle id source (withReturns source)
  | insert {source line : List Char} {front back : List (List Char)}
      (lines : source.splitOn '\n' = front ++ back) (single : '\n' ∉ line)
      (empty : Blank.trim (Comment.cut line) = []) :
      Restyle (fun n => if n ≤ front.length then n else n + 1) source
        (['\n'].intercalate (front ++ line :: back))
  | delete {source line : List Char} {front back : List (List Char)}
      (lines : source.splitOn '\n' = front ++ line :: back)
      (empty : Blank.trim (Comment.cut line) = []) :
      Restyle (fun n => if n ≤ front.length then n else n - 1) source
        (['\n'].intercalate (front ++ back))

inductive Restyled : (Nat → Nat) → List Char → List Char → Prop where
  | refl (source : List Char) : Restyled id source source
  | step {move shift : Nat → Nat} {source middle target : List Char}
      (before : Restyled move source middle) (last : Restyle shift middle target) :
      Restyled (shift ∘ move) source target

theorem splitOn_withReturns (source : List Char) :
    List.Forall₂ (fun line longer => longer = line ∨ longer = line ++ ['\r'])
      (source.splitOn '\n') ((withReturns source).splitOn '\n') := by
  induction source with
  | nil => exact .cons (Or.inl rfl) .nil
  | cons c source ih =>
    by_cases newline : c = '\n'
    · subst newline
      have text : withReturns ('\n' :: source) = '\r' :: '\n' :: withReturns source := rfl
      rw [text, List.splitOn_cons_eq_if_modifyHead, List.splitOn_cons_eq_if_modifyHead,
        List.splitOn_cons_eq_if_modifyHead]
      exact .cons (Or.inr rfl) ih
    · have other : (c == '\n') = false := by simpa using newline
      have text : withReturns (c :: source) = c :: withReturns source := by
        simp [withReturns, newline]
      rw [text, List.splitOn_cons_eq_if_modifyHead, List.splitOn_cons_eq_if_modifyHead, other]
      revert ih
      generalize source.splitOn '\n' = lines, (withReturns source).splitOn '\n' = longer
      intro ih
      cases ih with
      | nil => exact .nil
      | cons first rest =>
        refine .cons ?_ rest
        rcases first with rfl | rfl
        · exact Or.inl rfl
        · exact Or.inr rfl

theorem read_withReturns (source : List Char) :
    ((withReturns source).splitOn '\n').map Statement.read =
      (source.splitOn '\n').map Statement.read := by
  have blank : ∀ c ∈ ['\r'], isBlank c = true := List.forall_mem_singleton.mpr rfl
  have pairs := splitOn_withReturns source
  revert pairs
  generalize source.splitOn '\n' = lines, (withReturns source).splitOn '\n' = longer
  intro pairs
  induction pairs with
  | nil => rfl
  | cons first _ ih =>
    rw [List.map_cons, List.map_cons, ih]
    rcases first with rfl | rfl
    · rfl
    · rw [Statement.read_append_blank blank]

section Step

variable {source : List Char} {front back : List (List Char)}

private theorem isBlank_of_ending {ending : List Char} (ends : ending = [] ∨ ending = ['\r']) :
    ∀ c ∈ ending, isBlank c = true := by
  rcases ends with rfl | rfl
  · simp
  · exact List.forall_mem_singleton.mpr rfl

private theorem single_of_lines {raws : List (List Char)} (lines : source.splitOn '\n' = raws) :
    ∀ raw ∈ raws, '\n' ∉ raw := by
  intro raw member
  rw [← lines] at member
  exact Line.not_mem_of_mem_splitOn member

private theorem gists_replace {old new : List Char}
    (lines : source.splitOn '\n' = front ++ old :: back) (single : '\n' ∉ new)
    (same : Statement.read new = Statement.read old) :
    Line.gists (Line.ofSource (['\n'].intercalate (front ++ new :: back))) =
      Line.gists (Line.ofSource source) := by
  have clear : ∀ raw ∈ front ++ new :: back, '\n' ∉ raw := by
    have all := single_of_lines lines
    rw [List.forall_mem_append, List.forall_mem_cons] at all ⊢
    exact ⟨all.1, single, all.2.2⟩
  rw [Line.gists_intercalate clear, Line.gists_ofSource, lines, List.map_append, List.map_append,
    List.map_cons, List.map_cons, same]

private theorem gistsFrom_blank (front back : List Statement) :
    Line.gistsFrom 1 (front ++ .blank :: back) =
      Line.gistsFrom 1 front ++ Line.gistsFrom (1 + front.length + 1) back := by
  rw [Line.gistsFrom_append, Line.gistsFrom, if_pos rfl]

private theorem map_gistsFrom_append {move : Nat → Nat} {number other : Nat}
    {front back : List Statement} (low : ∀ n ≤ front.length, move n = n)
    (high : ∀ i, move (number + i) = other + i) :
    (Line.gistsFrom 1 front ++ Line.gistsFrom number back).map (Prod.map move id) =
      Line.gistsFrom 1 front ++ Line.gistsFrom other back := by
  have first : (Line.gistsFrom 1 front).map (Prod.map move id) = Line.gistsFrom 1 front := by
    apply Line.map_gistsFrom
    intro i less
    exact low (1 + i) (by omega)
  have second : (Line.gistsFrom number back).map (Prod.map move id) = Line.gistsFrom other back :=
    Line.map_gistsFrom fun i _ => high i
  rw [List.map_append, first, second]

end Step

theorem gists_of_restyle {shift : Nat → Nat} {source target : List Char}
    (step : Restyle shift source target) :
    Line.gists (Line.ofSource target) =
      (Line.gists (Line.ofSource source)).map (Prod.map shift id) := by
  have still : ∀ gists : List (Nat × Statement), gists.map (Prod.map id id) = gists := by
    simp
  cases step with
  | capitals =>
    have same : Statement.read ∘ upper = Statement.read := funext Statement.read_upper
    rw [still, Line.gists_ofSource, Line.gists_ofSource, UpperCase.splitOn_upper (by decide),
      List.map_map, same]
  | @uncomment _ line ending front back lines ends =>
    have blank := isBlank_of_ending ends
    have old : '\n' ∉ line ++ ending := single_of_lines lines _ (by simp)
    rw [List.mem_append, not_or] at old
    rw [still]
    apply gists_replace lines
    · rw [List.mem_append, not_or]
      exact ⟨fun inside => old.1 (Line.mem_cut inside), old.2⟩
    · rw [Statement.read_append_blank blank, Statement.read_cut, Statement.read_append_blank blank]
  | @pad _ before line behind ending front back lines ends blank =>
    have closing := isBlank_of_ending ends
    have old : '\n' ∉ line ++ ending := single_of_lines lines _ (by simp)
    rw [List.mem_append, not_or] at old
    rw [List.forall_mem_append] at blank
    rw [still]
    apply gists_replace lines
    · simp only [List.mem_append, not_or]
      exact ⟨⟨⟨fun inside => (blank.1 _ inside).2 rfl, old.1⟩,
        fun inside => (blank.2 _ inside).2 rfl⟩, old.2⟩
    · rw [Statement.read_append_blank closing, Statement.read_append_blank closing,
        Statement.read_pad (fun c member => (blank.1 c member).1)
          (fun c member => (blank.2 c member).1)]
  | returns => rw [still, Line.gists_ofSource, Line.gists_ofSource, read_withReturns]
  | @insert _ line front back lines single empty =>
    have all := single_of_lines lines
    have clear : ∀ raw ∈ front ++ line :: back, '\n' ∉ raw := by
      rw [List.forall_mem_append] at all
      rw [List.forall_mem_append, List.forall_mem_cons]
      exact ⟨all.1, single, all.2⟩
    rw [Line.gists_intercalate clear, Line.gists_ofSource, lines, List.map_append, List.map_append,
      List.map_cons, Statement.read_of_empty empty, gistsFrom_blank, Line.gistsFrom_append,
      List.length_map, map_gistsFrom_append]
    · intro n less
      rw [List.length_map] at less
      exact if_pos less
    · intro i
      rw [if_neg (by omega)]
      omega
  | @delete _ line front back lines empty =>
    have all := single_of_lines lines
    have clear : ∀ raw ∈ front ++ back, '\n' ∉ raw := by
      rw [List.forall_mem_append, List.forall_mem_cons] at all
      rw [List.forall_mem_append]
      exact ⟨all.1, all.2.2⟩
    rw [Line.gists_intercalate clear, Line.gists_ofSource, lines, List.map_append, List.map_append,
      List.map_cons, Statement.read_of_empty empty, gistsFrom_blank, Line.gistsFrom_append,
      List.length_map, map_gistsFrom_append]
    · intro n less
      rw [List.length_map] at less
      exact if_pos less
    · intro i
      rw [if_neg (by omega)]
      omega

theorem gists_of_restyled {move : Nat → Nat} {source target : List Char}
    (restyled : Restyled move source target) :
    Line.gists (Line.ofSource target) =
      (Line.gists (Line.ofSource source)).map (Prod.map move id) := by
  induction restyled with
  | refl source => simp
  | step before last ih =>
    rw [gists_of_restyle last, ih, List.map_map, Prod.map_comp_map]
    rfl

/-- Style carries no meaning: however a source is restyled, it has the same labels, and it comes to
the same bytes or is refused for the same fault in the line that answers to the faulty one. -/
theorem assemble_restyled {move : Nat → Nat} {source target : List Char}
    (restyled : Restyled move source target) (base : Int) :
    SameOutcome move (assemble base source) (assemble base target) :=
  sameOutcome_of_gists (gists_of_restyled restyled) base

/-- A line that is a sharp s, and `jp q`: a comment is put in front and emptied again, the first line
padded, and the text capitalized with carriage returns; the label is then missed in line three. -/
theorem assemble_restyled_sharp_s :
    let source := ['ß', '\n', 'j', 'p', ' ', 'q']
    let target := ['\r', '\n', ' ', 'S', 'S', '\t', '\r', '\n', 'J', 'P', ' ', 'Q']
    let fault := Fault.undefinedLabel ['Q'] ⟨2, ['j', 'p', ' ', 'q']⟩
    (∃ move, Restyled move source target ∧ move 2 = 3 ∧
      SameOutcome move (assemble 0x200 source) (assemble 0x200 target)) ∧
    (assemble 0x200 source).bytes = .error fault ∧
      ∃ other, (assemble 0x200 target).bytes = .error other ∧
        other.outline id = .undefinedLabel ['Q'] ⟨3, []⟩ := by
  intro source target fault
  have commented : Restyle (fun n => if n ≤ 0 then n else n + 1) source
      ['/', '/', '!', '\n', 'ß', '\n', 'j', 'p', ' ', 'q'] :=
    @Restyle.insert source ['/', '/', '!'] [] [['ß'], ['j', 'p', ' ', 'q']] rfl (by decide) rfl
  have padded : Restyle id ['/', '/', '!', '\n', 'ß', '\n', 'j', 'p', ' ', 'q']
      ['/', '/', '!', '\n', ' ', 'ß', '\t', '\n', 'j', 'p', ' ', 'q'] :=
    @Restyle.pad _ [' '] ['ß'] ['\t'] [] [['/', '/', '!']] [['j', 'p', ' ', 'q']] rfl (Or.inl rfl)
      (List.forall_mem_cons.mpr ⟨by decide, List.forall_mem_singleton.mpr (by decide)⟩)
  have returned : Restyle id ['/', '/', '!', '\n', ' ', 'ß', '\t', '\n', 'j', 'p', ' ', 'q']
      ['/', '/', '!', '\r', '\n', ' ', 'ß', '\t', '\r', '\n', 'j', 'p', ' ', 'q'] := .returns _
  have uncommented : Restyle id
      ['/', '/', '!', '\r', '\n', ' ', 'ß', '\t', '\r', '\n', 'j', 'p', ' ', 'q']
      ['\r', '\n', ' ', 'ß', '\t', '\r', '\n', 'j', 'p', ' ', 'q'] :=
    @Restyle.uncomment _ ['/', '/', '!'] ['\r'] [] [[' ', 'ß', '\t', '\r'], ['j', 'p', ' ', 'q']]
      rfl (Or.inr rfl)
  have capital : Restyle id ['\r', '\n', ' ', 'ß', '\t', '\r', '\n', 'j', 'p', ' ', 'q'] target :=
    .capitals _
  have restyled := ((((Restyled.refl source).step commented).step padded).step returned).step
    uncommented |>.step capital
  have same := assemble_restyled restyled 0x200
  have refused : (assemble 0x200 source).bytes = .error fault := rfl
  obtain ⟨other, found, outlines⟩ := same.refused fault refused
  exact ⟨⟨_, restyled, rfl, same⟩, refused, other, found, outlines⟩

end ChipEight
