import ChipEight.Session
import ChipEight.Proofs.Passes.LineCode

set_option autoImplicit false

/-!
Sessions forget.  Whatever was asked before, a source is answered as in a new session with the same
base address, and it leaves the same labels, bytes and listing behind; these stay until the next
source.  After a refused source there are no bytes, and the listing shows none.
-/

namespace ChipEight

namespace Listing

open Text

/-- A listing of lines without the bytes of any: each row has an address or nothing in front, then
an empty column, then the line. -/
def Wordless (lines : List Line) (text : List Char) : Prop :=
  ∃ rows, text = ['\n'].intercalate (header ++ rows) ∧
    ∀ shown ∈ rows, ∃ line ∈ lines, ∃ column,
      (column = gap 6 ∨ ∃ n, column = address n) ∧
        shown = row column (gap 5) (Blank.trim line.text)

theorem wordless_text (placed : List Placed) :
    Wordless (placed.map (·.line)) (text [] placed) := by
  refine ⟨rows [] placed, rfl, ?_⟩
  intro shown member
  obtain ⟨entry, listed, found⟩ := List.mem_filterMap.mp member
  refine ⟨entry.line, List.mem_map_of_mem listed, ?_⟩
  simp only [row?, List.find?_nil] at found
  cases bound : entry.address? with
  | some n =>
    rw [bound] at found
    exact ⟨address n, Or.inr ⟨n, rfl⟩, (Option.some.inj found).symm⟩
  | none =>
    simp only [bound] at found
    split at found
    · cases found
    · exact ⟨gap 6, Or.inl rfl, (Option.some.inj found).symm⟩

end Listing

namespace Session

structure ShowsSame (left right : Session) : Prop where
  symbols : left.symbols = right.symbols
  binary : left.binary = right.binary
  listing : left.listing = right.listing

theorem ShowsSame.refl (session : Session) : ShowsSame session session :=
  ⟨rfl, rfl, rfl⟩

theorem ShowsSame.trans {left middle right : Session} (first : ShowsSame left middle)
    (second : ShowsSame middle right) : ShowsSame left right :=
  ⟨first.symbols.trans second.symbols, first.binary.trans second.binary,
    first.listing.trans second.listing⟩

def Command.source? : Command → Option (List Char)
  | assemble source => some source
  | _ => none

def Command.base? : Command → Option Int
  | rebase base => some base
  | _ => none

def ofAssembly (base : Int) (assembly : Assembly) : Session where
  base := base
  symbols := assembly.layout.symbols
  binary := match assembly.bytes with
    | .ok bytes => bytes
    | .error _ => []
  placed := assembly.layout.placed
  emissions := assembly.emissions

section Stages

variable (session : Session) (source : List Char)

private theorem lines_load : (session.load source).lines = Line.ofSource source := by
  simp [load, lines, Function.comp_def]

private theorem layOut_load :
    (session.load source).layOut =
      (Assembly.opening session.base (Layout.ofLines session.base (Line.ofSource source)),
        ⟨session.base, symbolsOf session.base source, [],
          (Layout.ofLines session.base (Line.ofSource source)).placed, []⟩) := by
  rw [layOut, lines_load]
  rfl

/-- The stages of a session come to one run over the source, which reads nothing of the session but
its base address. -/
theorem assemble_eq :
    session.assemble source =
      let assembly := ChipEight.assemble session.base source
      (⟨assembly.log, assembly.bytes⟩, ofAssembly session.base assembly) := by
  have kept : ((Layout.ofLines session.base (Line.ofSource source)).placed.map (·.line)) =
      Line.ofSource source :=
    Layout.lines_placed_scan ∅ session.base (Line.ofSource source)
  rw [assemble, layOut_load]
  simp only [emit, lines, kept, ChipEight.assemble, Assembly.ofLayout, symbolsOf]
  -- Both sides now run the second pass over the same lines.
  obtain ⟨log, result⟩ := Emission.ofLines
    (Layout.ofLines session.base (Line.ofSource source)).symbols session.base (Line.ofSource source)
  cases result with
  | error fault => rfl
  | ok emissions => rfl

end Stages

section Steps

variable (session : Session) (source : List Char)

private theorem perform_assemble :
    session.perform (.assemble source) = (start session.base).perform (.assemble source) := by
  have fresh : (start session.base).base = session.base := rfl
  simp only [perform, assemble_eq, fresh]

private theorem base_perform (command : Command) :
    (session.perform command).2.base = command.base?.getD session.base := by
  cases command with
  | assemble source => simp [perform, assemble_eq, ofAssembly, Command.base?]
  | list => rfl
  | rebase base => rfl

private theorem perform_showsSame {command : Command} (quiet : command.source? = none) :
    ShowsSame (session.perform command).2 session := by
  cases command with
  | assemble source => cases quiet
  | list => exact .refl session
  | rebase base => exact ⟨rfl, rfl, rfl⟩

end Steps

section Runs

variable (session : Session)

theorem after_cons (command : Command) (commands : List Command) :
    session.after (command :: commands) = (session.perform command).2.after commands := rfl

theorem after_append (before later : List Command) :
    session.after (before ++ later) = (session.after before).after later :=
  List.foldl_append

theorem base_after (commands : List Command) :
    (session.after commands).base =
      (commands.filterMap Command.base?).getLast?.getD session.base := by
  induction commands generalizing session with
  | nil => rfl
  | cons command commands ih =>
    rw [after_cons, ih, base_perform]
    cases set : command.base? with
    | none => rw [List.filterMap_cons_none set, Option.getD_none]
    | some base =>
      rw [List.filterMap_cons_some set, List.getLast?_cons, Option.getD_some, Option.getD_some]

theorem after_showsSame {commands : List Command}
    (quiet : ∀ command ∈ commands, command.source? = none) :
    ShowsSame (session.after commands) session := by
  induction commands generalizing session with
  | nil => exact .refl session
  | cons command commands ih =>
    rw [after_cons]
    have rest := ih (session.perform command).2
      fun later member => quiet later (List.mem_cons_of_mem command member)
    exact rest.trans (session.perform_showsSame (quiet command List.mem_cons_self))

end Runs

structure Refused (base : Int) (source : List Char) (session : Session) : Prop where
  binary : session.binary = []
  symbols : session.symbols = symbolsOf base source
  listing : Listing.Wordless (Line.ofSource source) session.listing

private theorem refused_ofAssembly {base : Int} {source : List Char} {fault : Fault}
    (failed : (ChipEight.assemble base source).bytes = .error fault) :
    Refused base source (ofAssembly base (ChipEight.assemble base source)) where
  binary := by
    simp only [ofAssembly, failed]
  symbols := by
    simp only [ofAssembly, layout_assemble, symbolsOf]
  listing := by
    have silent : (ChipEight.assemble base source).emissions = [] := by
      unfold Assembly.bytes at failed
      unfold Assembly.emissions
      cases result : (ChipEight.assemble base source).result with
      | error other => rfl
      | ok emissions =>
        rw [result] at failed
        cases failed
    have lines : (ChipEight.assemble base source).layout.placed.map (·.line) =
        Line.ofSource source := by
      rw [layout_assemble]
      exact Layout.lines_placed_scan ∅ base (Line.ofSource source)
    rw [listing, ofAssembly, silent, ← lines]
    exact Listing.wordless_text _

private theorem Refused.of_showsSame {base : Int} {source : List Char} {left right : Session}
    (refused : Refused base source right) (same : ShowsSame left right) :
    Refused base source left :=
  ⟨same.binary.trans refused.binary, same.symbols.trans refused.symbols,
    same.listing ▸ refused.listing⟩

structure Forgets (base : Int) (commands : List Command) (session : Session) : Prop where
  inForce : session.base = (commands.filterMap Command.base?).getLast?.getD base
  answers : ∀ source, (session.perform (.assemble source)).1 =
    ((start session.base).perform (.assemble source)).1
  leaves : ∀ source, ShowsSame (session.perform (.assemble source)).2
    ((start session.base).perform (.assemble source)).2
  quiet : ∀ command, command.source? = none → ShowsSame (session.perform command).2 session
  refused : ∀ before source later, commands = before ++ .assemble source :: later →
    (∀ command ∈ later, command.source? = none) →
      ∀ fault, (((start base).after before).assemble source).1.bytes = .error fault →
        Refused ((start base).after before).base source session

/-- No source is treated by what came before it but the base address. -/
theorem after_forgets (base : Int) (commands : List Command) :
    Forgets base commands ((start base).after commands) where
  inForce := base_after (start base) commands
  answers := by
    intro source
    rw [perform_assemble]
  leaves := by
    intro source
    rw [perform_assemble]
    exact .refl _
  quiet := by
    intro command quiet
    exact perform_showsSame _ quiet
  refused := by
    rintro before source later rfl quiet fault failed
    rw [assemble_eq] at failed
    have kept := after_showsSame
      (((start base).after before).perform (.assemble source)).2 quiet
    rw [after_append, after_cons]
    refine Refused.of_showsSame ?_ kept
    rw [perform, assemble_eq]
    exact refused_ofAssembly failed

/-- `CLS` is assembled, then `L1:` and `JP X1` is refused at another base address; the session keeps
the label at that address and nothing of `CLS`. -/
theorem after_forgets_refused :
    let source := ['L', '1', ':', '\n', 'J', 'P', ' ', 'X', '1']
    let before := [.assemble ['C', 'L', 'S'], .rebase 0x300]
    let session := (start defaultBase).after (before ++ .assemble source :: [.list, .rebase 0])
    ((start defaultBase).after before).binary = [0x00, 0xE0] ∧ session.binary = [] ∧
      session.symbols.find? ['L', '1'] = some 0x300 ∧
      Listing.Wordless (Line.ofSource source) session.listing := by
  intro source before session
  have refused := (after_forgets defaultBase _).refused before source [.list, .rebase 0] rfl
    (by decide) (.undefinedLabel ['X', '1'] ⟨2, ['J', 'P', ' ', 'X', '1']⟩) rfl
  refine ⟨rfl, refused.binary, ?_, refused.listing⟩
  rw [refused.symbols]
  rfl

end Session

end ChipEight
