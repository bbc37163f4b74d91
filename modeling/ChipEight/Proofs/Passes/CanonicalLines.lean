import ChipEight.Proofs.Passes.LabelNames

set_option autoImplicit false

/-!
Canonical lines.  What a line says can be written as a line again: a label with a colon behind it,
or a word with its arguments behind one space.  Such a line says the same as the line it was made
of, so that reading and writing a line changes its text at most once.
-/

namespace ChipEight

open Text
open Text.Blank (isBlank Trimmed Opens)
open Text.UpperCase (upper)

namespace Statement

def label? : Statement → Option (List Char)
  | label name => some name
  | _ => none

def head? : Statement → Option (List Char)
  | instruction mnemonic _ => some mnemonic.spelling
  | unknown head _ => some head
  | _ => none

def arguments : Statement → List Char
  | instruction _ arguments => arguments
  | unknown _ arguments => arguments
  | _ => []

theorem label?_eq_some_iff {statement : Statement} {name : List Char} :
    statement.label? = some name ↔ statement = label name := by
  cases statement <;> simp [label?]

def canonical (statement : Statement) : List Char :=
  match statement.label?, statement.head? with
  | some name, _ => name ++ [':']
  | none, some head => head ++ [' '] ++ statement.arguments
  | none, none => []

end Statement

structure Text.CapitalWord (text : List Char) : Prop extends Single text where
  capital : upper text = text

theorem Text.Blank.Opens.infix_head {text head rest : List Char} (opens : Opens text head rest) :
    head <:+: text := by
  obtain ⟨gap, whole, -, -⟩ := opens.split
  exact ⟨[], gap ++ rest, by rw [whole, List.nil_append, List.append_assoc]⟩

theorem Text.Blank.Opens.infix_rest {text head rest : List Char} (opens : Opens text head rest) :
    rest <:+: text := by
  obtain ⟨gap, whole, -, -⟩ := opens.split
  exact ⟨head ++ gap, [], by rw [whole, List.append_nil]⟩

namespace Mnemonic

def names : List (List Char) :=
  all.map spelling ++ aliases.map Prod.fst

theorem upper_mem_names {word : List Char} {mnemonic : Mnemonic}
    (known : read? word = some mnemonic) : upper word ∈ names := by
  rw [read?, Option.or_eq_some_iff] at known
  rcases known with spelt | ⟨-, renamed⟩
  · rw [ofSpelling?, List.find?_eq_some_iff_append] at spelt
    have same : mnemonic.spelling = upper word := by simpa using spelt.1
    rw [← same]
    exact List.mem_append_left _ (List.mem_map_of_mem (mem_all mnemonic))
  · obtain ⟨before, after, listed, -⟩ := List.lookup_eq_some_iff.mp renamed
    have entry : (upper word, mnemonic) ∈ aliases := by simp [listed]
    exact List.mem_append_right _ (List.mem_map_of_mem entry)

theorem read?_of_colon {word : List Char} (colon : ':' ∈ word) : read? word = none := by
  have clear : names.all (fun name => !name.contains ':') = true := by decide
  cases known : read? word with
  | none => rfl
  | some mnemonic =>
    have free := List.all_eq_true.mp clear _ (upper_mem_names known)
    have inside := (UpperCase.mem_upper_iff (by decide)).mpr colon
    simp [inside] at free

theorem capitalWord_spelling (mnemonic : Mnemonic) : CapitalWord mnemonic.spelling := by
  obtain ⟨nonempty, solid, capital⟩ := Instruction.mnemonic_tight mnemonic
  exact ⟨⟨nonempty, fun c member => (solid c member).1, (tight_of_solid nonempty solid).free⟩,
    capital⟩

end Mnemonic

namespace Line

theorem upper_of_infix {part text : List Char} (inside : part <:+: essence text) :
    upper part = part := by
  apply UpperCase.upper_of_settled
  intro c member
  obtain ⟨d, -, brought⟩ := List.mem_flatMap.mp (inside.subset member)
  exact UpperCase.upperChar_of_mem brought

theorem essence_of_infix {part text : List Char} (inside : part <:+: essence text)
    (trimmed : Trimmed part) : essence part = part := by
  rw [essence, Comment.cut_of_infix inside (cut_essence text), Blank.trim_of_trimmed trimmed,
    upper_of_infix inside]

theorem capitalWord_of_infix {part text : List Char} (inside : part <:+: essence text)
    (nonempty : part ≠ []) (unparted : ∀ c ∈ part, isBlank c = false) : CapitalWord part :=
  ⟨⟨nonempty, unparted, Comment.cut_of_infix inside (cut_essence text)⟩, upper_of_infix inside⟩

theorem newline_mem_of_essence {text : List Char} (inside : '\n' ∈ essence text) : '\n' ∈ text := by
  rw [essence, UpperCase.mem_upper_iff (by decide)] at inside
  exact mem_cut (Blank.mem_of_mem_trim inside)

theorem opens_append {head rest : List Char} (word : CapitalWord head)
    (settled : essence rest = rest) :
    Opens (essence (head ++ [' '] ++ rest)) head rest := by
  have free : Comment.cut rest = rest := settled ▸ cut_essence rest
  have trimmed : Trimmed rest := settled ▸ trimmed_essence rest
  have inside : rest <:+: essence rest := settled.symm ▸ List.infix_rfl
  have kept : essence (head ++ [' '] ++ rest) = Blank.trim (head ++ [' '] ++ rest) := by
    have space : upper [' '] = [' '] := by decide
    have whole : Comment.cut (head ++ [' '] ++ rest) = head ++ [' '] ++ rest := by
      rw [List.append_assoc, List.singleton_append, Comment.cut_append_cons word.free (by decide),
        free]
    rw [essence, whole, ← UpperCase.trim_upper, UpperCase.upper_append, UpperCase.upper_append,
      word.capital, space, upper_of_infix inside]
  have blank : ∀ c ∈ [' '], isBlank c = true := List.forall_mem_singleton.mpr rfl
  rw [kept]
  by_cases empty : rest = []
  · -- The space goes with the blanks around the line.
    subst empty
    have alone := Blank.trim_pad (List.forall_mem_nil _) blank head
    rw [List.nil_append, Blank.trim_of_trimmed word.tight.trimmed] at alone
    rw [List.append_nil, alone]
    exact opens_word word.nonempty word.unparted
  · have tight := word.tight.append ⟨empty, trimmed, free⟩ (by simp) (by decide : '/' ∉ [' '])
    rw [Blank.trim_of_trimmed tight.trimmed]
    exact ⟨word.nonempty, word.unparted, trimmed.1, [' '], rfl, blank, by simp⟩

theorem capitalWord_append_colon {name : List Char} (word : CapitalWord name) :
    CapitalWord (name ++ [':']) := by
  have colon : upper [':'] = [':'] := by decide
  refine ⟨⟨by simp, ?_, ?_⟩, ?_⟩
  · exact List.forall_mem_append.mpr ⟨word.unparted, List.forall_mem_singleton.mpr rfl⟩
  · exact Comment.cut_append_cons word.free (by decide) []
  · rw [UpperCase.upper_append, word.capital, colon]

theorem read_append_colon {name : List Char} (word : CapitalWord name) :
    Statement.read (name ++ [':']) = .label name := by
  have whole := capitalWord_append_colon word
  have opens : Opens (essence (name ++ [':'])) (name ++ [':']) [] := by
    rw [essence_of_tight whole.tight, whole.capital]
    exact opens_word whole.nonempty whole.unparted
  have named : Statement.labelName (name ++ [':']) = name := by
    rw [Statement.labelName, if_pos List.getLast?_concat, List.dropLast_concat]
  have more : ¬ (([] : List Char) ≠ [] ∨ name ++ [':'] = [':']) := by simp [word.nonempty]
  rw [read_of_opens opens, Mnemonic.read?_of_colon (by simp)]
  change (if _ then _ else _) = _
  rw [if_neg more, named]

end Line

namespace Statement

/-- A statement that a line can make: its words are in upper case and its arguments are trimmed and
without a comment, and a word that is no mnemonic does not stand alone unless it is a colon. -/
def Normal : Statement → Prop
  | blank => True
  | label name => CapitalWord name
  | instruction _ arguments => Line.essence arguments = arguments
  | unknown head arguments => CapitalWord head ∧ Line.essence arguments = arguments ∧
      Mnemonic.read? head = none ∧ (arguments ≠ [] ∨ head = [':'])

theorem normal_read (text : List Char) :
    (read text).Normal ∧ (read text).arguments <:+: Line.essence text := by
  by_cases empty : Line.essence text = []
  · have nothing : read text = .blank := by
      change ofText (Line.essence text) = .blank
      rw [empty]
      rfl
    rw [nothing]
    exact ⟨trivial, List.nil_infix⟩
  obtain ⟨head, rest, opens⟩ := Line.exists_opens empty
  have said := Line.read_of_opens opens
  have trimmed : Trimmed rest := Line.trim_arguments opens ▸ Blank.trimmed_trim rest
  have settled := Line.essence_of_infix opens.infix_rest trimmed
  cases known : Mnemonic.read? head with
  | some mnemonic =>
    rw [known] at said
    rw [said]
    exact ⟨settled, opens.infix_rest⟩
  | none =>
    rw [known] at said
    by_cases more : rest ≠ [] ∨ head = [':']
    · have word := Line.capitalWord_of_infix opens.infix_head opens.nonempty opens.word
      rw [said, if_pos more]
      exact ⟨⟨word, settled, known, more⟩, opens.infix_rest⟩
    · have defines : read text = .label (labelName head) := said.trans (if_neg more)
      have inside := (Line.isInfix_labelName head).trans opens.infix_head
      rw [defines]
      exact ⟨⟨Line.single_of_label defines, Line.upper_of_infix inside⟩, List.nil_infix⟩

theorem Normal.read_canonical {statement : Statement} (normal : statement.Normal) :
    read statement.canonical = statement := by
  cases statement with
  | blank => rfl
  | label name => exact Line.read_append_colon normal
  | instruction mnemonic arguments =>
    have opens := Line.opens_append mnemonic.capitalWord_spelling normal
    have said := Line.read_of_opens opens
    rw [Mnemonic.read?_spelling] at said
    exact said
  | unknown head arguments =>
    obtain ⟨word, settled, other, more⟩ := normal
    have said := Line.read_of_opens (Line.opens_append word settled)
    rw [other] at said
    exact said.trans (if_pos more)

example : (read ['r', 'a', 'n', 'd', '\t', 'v', '1']).canonical = ['R', 'N', 'D', ' ', 'V', '1'] ∧
    (read [':']).canonical = [':', ' '] := by
  decide

theorem newline_not_mem_canonical {statement : Statement} (normal : statement.Normal)
    (clear : '\n' ∉ statement.arguments) : '\n' ∉ statement.canonical := by
  have within : ∀ {word : List Char}, CapitalWord word → '\n' ∉ word := by
    intro word capital member
    cases capital.unparted _ member
  have behind : ∀ {head : List Char}, CapitalWord head →
      '\n' ∉ head ++ [' '] ++ statement.arguments := by
    intro head capital
    simp [within capital, clear]
  cases statement with
  | blank => exact List.not_mem_nil
  | label name =>
    change '\n' ∉ name ++ [':']
    simp [within normal]
  | instruction mnemonic arguments => exact behind mnemonic.capitalWord_spelling
  | unknown head arguments => exact behind normal.1

theorem label?_eq_none_or_head?_eq_none (statement : Statement) :
    statement.label? = none ∨ statement.head? = none := by
  cases statement with
  | label name => exact Or.inr rfl
  | _ => exact Or.inl rfl

end Statement

theorem Line.statement_ofText (number : Nat) (text : List Char) :
    (ofText number text).statement = Statement.read text := rfl

theorem Line.isInstruction_iff_mnemonic {line : Line} (normal : line.statement.Normal) :
    line.isInstruction = true ↔
      ∃ head, line.statement.head? = some head ∧ (Mnemonic.read? head).isSome = true := by
  unfold isInstruction
  cases said : line.statement with
  | instruction mnemonic arguments => simp [Statement.head?]
  | unknown head arguments =>
    rw [said] at normal
    simp [Statement.head?, normal.2.2.1]
  | _ => simp [Statement.head?]

/-- A line that can be replaced by its canonical line: that is one line, which says the same under
any number.  The line does not both define a label and start with a word, it holds an instruction
exactly if that word is a mnemonic, and a label that it defines is one word without a comment in
it. -/
structure Line.Rewritable (line : Line) : Prop where
  statement : ∀ number, (ofText number line.statement.canonical).statement = line.statement
  kind : ∀ number, (ofText number line.statement.canonical).isInstruction = line.isInstruction
  newline : '\n' ∉ line.text → '\n' ∉ line.statement.canonical
  mnemonic : line.isInstruction = true ↔
    ∃ head, line.statement.head? = some head ∧ (Mnemonic.read? head).isSome = true
  apart : line.statement.label? = none ∨ line.statement.head? = none
  name : ∀ name, line.statement.label? = some name →
    name ≠ [] ∧ (∀ c ∈ name, isBlank c = false) ∧ ¬ ['/', '/'] <:+: name

/-- Every line can be replaced by its canonical line. -/
theorem canonical_line_says_same (number : Nat) (text : List Char) :
    (Line.ofText number text).Rewritable := by
  obtain ⟨normal, inside⟩ := Statement.normal_read text
  rw [← Line.statement_ofText number text] at normal inside
  have again : ∀ other,
      (Line.ofText other (Line.ofText number text).statement.canonical).statement =
        (Line.ofText number text).statement := by
    intro other
    rw [Line.statement_ofText other, normal.read_canonical]
  refine ⟨again, ?_, ?_, Line.isInstruction_iff_mnemonic normal,
    Statement.label?_eq_none_or_head?_eq_none _, ?_⟩
  · intro other
    simp only [Line.isInstruction, again other]
  · intro clear
    apply Statement.newline_not_mem_canonical normal
    intro member
    exact clear (Line.newline_mem_of_essence (inside.subset member))
  · intro name defines
    rw [Statement.label?_eq_some_iff, Line.statement_ofText] at defines
    have single := Line.single_of_label defines
    exact ⟨single.nonempty, single.unparted, Comment.cut_eq_self_iff.mp single.free⟩

/-- The line ` cls/ß:: // a` defines the label `CLS/SS:`, and so does `CLS/SS::`. -/
theorem canonical_line_says_same_colons :
    let text := [' ', 'c', 'l', 's', '/', 'ß', ':', ':', ' ', '/', '/', ' ', 'a']
    let name := ['C', 'L', 'S', '/', 'S', 'S', ':']
    Statement.read text = .label name ∧ (Statement.label name).canonical = name ++ [':'] ∧
      Statement.read (name ++ [':']) = .label name ∧ ¬ ['/', '/'] <:+: name := by
  intro text name
  have said : Statement.read text = .label name := by decide
  have written := canonical_line_says_same 1 text
  have again := written.statement 2
  rw [Line.statement_ofText, Line.statement_ofText, said] at again
  have defines : (Line.ofText 1 text).statement.label? = some name := by
    rw [Line.statement_ofText, said]
    rfl
  have clear := (written.name name defines).2.2
  exact ⟨said, rfl, again, clear⟩

end ChipEight
