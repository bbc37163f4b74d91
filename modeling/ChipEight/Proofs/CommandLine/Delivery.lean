import ChipEight.Proofs.CommandLine.Courses
import ChipEight.Proofs.Passes.LineEnds

set_option autoImplicit false

/-!
What a run that ends well delivers: the bytes or the listing that a new session makes of the text of
the input, in the output file or on the standard output.  Line ends are read by the rule for text
files, which makes no difference if every carriage return has its line feed.
-/

namespace ChipEight

open Text
open Text.Newline (unified Paired Translated)

theorem assemble_unified {source : List Char} (paired : Paired source) (base : Int) :
    assemble base (unified source) = assemble base source := by
  rw [assemble, Line.ofSource_unified paired, assemble]

namespace Disk

structure LastName (path front name : List Char) : Prop where
  whole : path = front ++ name
  slashed : front = [] ∨ front.getLast? = some '/'
  single : '/' ∉ name

/-- The last name of a path ends in a full stop and a suffix that has none, behind a stem that is
more than full stops. -/
def HasSuffix (path suffix : List Char) : Prop :=
  ∃ front stem, LastName path front (stem ++ '.' :: suffix) ∧ (∃ c ∈ stem, c ≠ '.') ∧ '.' ∉ suffix

section Extension

variable {path front name stem suffix : List Char}

private theorem exists_last_mem {mark : Char} {text : List Char} (member : mark ∈ text) :
    ∃ front back, text = front ++ mark :: back ∧ mark ∉ back := by
  obtain ⟨back, front, split, clear⟩ :=
    List.eq_append_cons_of_mem (List.mem_reverse.mpr member)
  refine ⟨front.reverse, back.reverse, ?_, by simpa using clear⟩
  rw [← List.reverse_reverse text, split]
  simp

private theorem exists_lastName (path : List Char) : ∃ front name, LastName path front name := by
  by_cases member : '/' ∈ path
  · obtain ⟨front, name, rfl, single⟩ := exists_last_mem member
    exact ⟨front ++ ['/'], name, by simp, .inr (by simp), single⟩
  · exact ⟨[], path, rfl, .inl rfl, member⟩

private theorem LastName.splitOn (last : LastName path front name) :
    (path.splitOn '/').getLast?.getD [] = name := by
  obtain ⟨rfl, slashed, single⟩ := last
  rcases slashed with rfl | ends
  · rw [List.nil_append, List.splitOn_eq_singleton single]
    rfl
  · obtain ⟨above, rfl⟩ := List.getLast?_eq_some_iff.mp ends
    rw [List.append_assoc, List.singleton_append, List.splitOn_append_cons_self,
      List.splitOn_eq_singleton single, List.getLast?_concat]
    rfl

private theorem after_last_stop (stopless : '.' ∉ suffix) :
    ((stem ++ '.' :: suffix).reverse.takeWhile (· != '.')).reverse = suffix := by
  have all : ∀ c ∈ suffix.reverse, (c != '.') = true := by
    intro c member
    rw [bne_iff_ne]
    rintro rfl
    exact stopless (List.mem_reverse.mp member)
  rw [List.reverse_append, List.reverse_cons, List.append_assoc, List.takeWhile_append_of_pos all,
    List.singleton_append, List.takeWhile_cons_of_neg (by decide), List.append_nil,
    List.reverse_reverse]

theorem extension_eq_cons_iff : extension path = '.' :: suffix ↔ HasSuffix path suffix := by
  constructor
  · intro ending
    obtain ⟨front, name, last⟩ := exists_lastName path
    rw [extension, last.splitOn] at ending
    split at ending
    · rename_i dotted
      obtain ⟨stem, back, split, stopless⟩ := exists_last_mem (by simpa using dotted)
      rw [split, after_last_stop stopless] at ending
      cases ending
      have parts := List.takeWhile_append_dropWhile (p := (· == '.')) (l := name)
      rw [split, ← List.append_assoc] at parts
      refine ⟨front, name.takeWhile (· == '.') ++ stem, by rw [parts]; exact last, ?_, stopless⟩
      -- The leading full stops are gone, so the stem starts with another character.
      have starts := List.head?_dropWhile_not (· == '.') name
      rw [split] at starts
      cases stem with
      | nil => simp at starts
      | cons c stem => exact ⟨c, by simp, by simpa using starts⟩
    · cases ending
  · rintro ⟨front, stem, last, ⟨c, member, other⟩, stopless⟩
    have left : (stem.dropWhile (· == '.')).isEmpty = false := by
      rw [List.isEmpty_eq_false_iff, Ne, List.dropWhile_eq_nil_iff]
      intro stops
      exact other (by simpa using stops c member)
    rw [extension, last.splitOn, List.dropWhile_append, left, if_neg Bool.false_ne_true,
      after_last_stop stopless, if_pos (by simp)]

private theorem extension_cases (path : List Char) :
    extension path = [] ∨ ∃ suffix, extension path = '.' :: suffix := by
  unfold extension
  dsimp only
  split
  · exact .inr ⟨_, rfl⟩
  · exact .inl rfl

theorem lower_extension_eq_iff : (extension path).map Char.toLower = ".lst".toList ↔
    ∃ suffix, HasSuffix path suffix ∧ suffix.map Char.toLower = ['l', 's', 't'] := by
  have marked : ".lst".toList = ['.', 'l', 's', 't'] := by decide
  have stop : Char.toLower '.' = '.' := by decide
  rw [marked]
  constructor
  · intro lower
    rcases extension_cases path with none | ⟨suffix, some⟩
    · rw [none] at lower
      cases lower
    · rw [some, List.map_cons, stop, List.cons.injEq] at lower
      exact ⟨suffix, extension_eq_cons_iff.mp some, lower.2⟩
  · rintro ⟨suffix, has, lower⟩
    rw [extension_eq_cons_iff.mpr has, List.map_cons, stop, lower]

end Extension

end Disk

namespace CommandLine

namespace Request

/-- A listing is asked for, or no format is and the last name of the output ends in `.lst`, in
capitals or not. -/
def Lists (request : Request) : Prop :=
  request.format? = some .listing ∨ request.format? = none ∧
    ∃ path suffix, request.output = some path ∧ Disk.HasSuffix path suffix ∧
      suffix.map Char.toLower = ['l', 's', 't']

theorem format_eq_listing_iff {request : Request} :
    request.format = .listing ↔ request.Lists := by
  unfold format Lists
  cases request.format? with
  | some format => simp
  | none =>
    cases named : request.outputPath? with
    | none =>
      have empty := given_eq_none_iff.mp named
      simp only [reduceCtorEq, false_or, true_and, false_iff]
      rintro ⟨path, suffix, given, ⟨front, stem, last, -⟩, -⟩
      rw [given, Option.getD_some] at empty
      rw [empty] at last
      simpa using last.whole
    | some path =>
      have given := (given_eq_some_iff.mp named).1
      simp only [reduceCtorEq, false_or, true_and, given, Option.some.injEq,
        exists_and_left, exists_eq_left', ← Disk.lower_extension_eq_iff]
      split <;> simp_all

end Request

/-- The tree that a run reads its input from: the first line of its log is in the log file, behind
what the file held, and all other files are as they were. -/
structure Begun (request : Request) (clock : Clock) (before after : Disk) : Prop where
  silent : request.logFile.getD [] = [] → Disk.Keeps [] before after
  logged : ∀ file, request.logFile = some file → file ≠ [] →
    Disk.Keeps [Log.placeOf before file] before after ∧
      after.file? (Log.placeOf before file) =
        some ((before.file? (Log.placeOf before file)).getD [] ++
          Utf8.encode (Event.entry (clock 0) (.logOpened (Disk.Path.ofText file).text)).toList)

/-- The output of a request for a text at a base address: a binary is in the file that is named, or
else in `a.c8`, and nothing is printed; a listing, with a line end behind it, is in the file that is
named, or else printed. -/
structure Delivered (request : Request) (base : Int) (text : List Char) (transcript : Transcript) :
    Prop where
  binary : ¬ request.Lists → ∃ binary, (assemble base text).bytes = .ok binary ∧
    (∀ path, request.output = some path → path ≠ [] → transcript.disk.read path = .ok binary) ∧
    (request.output.getD [] = [] → transcript.disk.read ['a', '.', 'c', '8'] = .ok binary) ∧
    transcript.stdout = ""
  file : request.Lists → ∀ path, request.output = some path → path ≠ [] →
    transcript.disk.read path =
      .ok (Utf8.encode (((Session.start base).assemble text).2.listing ++ ['\n'])) ∧
    transcript.stdout = ""
  printed : request.Lists → request.output.getD [] = [] →
    transcript.stdout =
      String.ofList (((Session.start base).assemble text).2.listing ++ ['\n'])

section Outputs

variable {request : Request} {base : Int} {text : List Char} {transcript : Transcript}

private theorem format_of_not_lists (other : ¬ request.Lists) : request.format = .binary := by
  cases format : request.format with
  | binary => rfl
  | listing => exact absurd (Request.format_eq_listing_iff.mp format) other

private theorem product_of_binary {binary : List UInt8} (format : request.format = .binary)
    (done : (assemble base text).bytes = .ok binary) : request.product base text = binary := by
  have same : (Session.start base).base = base := rfl
  simp only [Request.product, format, Session.assemble_eq, Session.ofAssembly, same, done]

private theorem delivered_of_written {binary : List UInt8} {path : List Char}
    (done : (assemble base text).bytes = .ok binary) (named : request.destination? = some path)
    (holds : transcript.disk.read path = .ok (request.product base text))
    (silent : transcript.stdout = "") : Delivered request base text transcript where
  binary := by
    intro other
    have format := format_of_not_lists other
    have default : request.outputPath?.getD defaultOutput.toList = path := by
      simpa only [Request.destination?, format, Option.some.injEq] using named
    rw [product_of_binary format done] at holds
    refine ⟨binary, done, ?_, ?_, silent⟩
    · intro chosen given nonempty
      have named : request.outputPath? = some chosen :=
        Request.given_eq_some_iff.mpr ⟨given, nonempty⟩
      rw [named, Option.getD_some] at default
      rw [default]
      exact holds
    · intro empty
      have nowhere : request.outputPath? = none := Request.given_eq_none_iff.mpr empty
      have plain : defaultOutput.toList = ['a', '.', 'c', '8'] := by decide
      rw [nowhere, Option.getD_none, plain] at default
      rw [default]
      exact holds
  file := by
    intro lists other given nonempty
    have format := Request.format_eq_listing_iff.mpr lists
    have same : request.outputPath? = some path := by
      simpa only [Request.destination?, format] using named
    cases (Request.given_eq_some_iff.mp same).1.symm.trans given
    simp only [Request.product, format, Request.listing] at holds
    exact ⟨holds, silent⟩
  printed := by
    intro lists empty
    have format := Request.format_eq_listing_iff.mpr lists
    have nowhere : request.outputPath? = none := Request.given_eq_none_iff.mpr empty
    simp only [Request.destination?, format, nowhere] at named
    cases named

private theorem delivered_of_printed (format : request.format = .listing)
    (nowhere : request.destination? = none)
    (shown : transcript.stdout = String.ofList (Request.listing base text)) :
    Delivered request base text transcript where
  binary := fun other => absurd (Request.format_eq_listing_iff.mp format) other
  file := by
    intro _ path given nonempty
    have named : request.outputPath? = some path :=
      Request.given_eq_some_iff.mpr ⟨given, nonempty⟩
    simp only [Request.destination?, format, named] at nowhere
    cases nowhere
  printed := fun _ _ => shown

private theorem Delivered.of_paired {source : List Char}
    (delivered : Delivered request base (unified source) transcript) (paired : Paired source) :
    Delivered request base source transcript := by
  have same : (Session.start base).assemble (unified source) =
      (Session.start base).assemble source := by
    rw [Session.assemble_eq, Session.assemble_eq, assemble_unified paired]
  obtain ⟨binary, file, printed⟩ := delivered
  rw [assemble_unified paired] at binary
  rw [same] at file printed
  exact ⟨binary, file, printed⟩

end Outputs

namespace Host

variable {host : Host} {clock : Clock} {arguments : List (List Char)} {request : Request}

theorem begun_of_opens (opens : (host.setUp clock request).refusal? = none) :
    Begun request clock host.disk (host.setUp clock request).disk := by
  have ready := ready_of_opens opens
  constructor
  · intro empty
    have absent : request.logPath? = none := Request.given_eq_none_iff.mpr empty
    have keeps := ready.keeps
    rw [absent] at keeps
    exact keeps
  · intro file given nonempty
    have named : request.logPath? = some file := Request.given_eq_some_iff.mpr ⟨given, nonempty⟩
    have keeps := ready.keeps
    rw [named] at keeps
    refine ⟨keeps, ?_⟩
    rw [ready.lines file named, Log.lines_singleton, Log.opening]

theorem opens_of_exit_zero (parsed : Request.parse arguments = .ok request)
    (ended : (host.run clock arguments).2.ending = .exit 0) :
    (host.setUp clock request).refusal? = none := by
  cases closed : (host.setUp clock request).refusal? with
  | none => rfl
  | some refusal =>
    rw [run_of_refusal parsed closed] at ended
    cases ended

private theorem exists_delivered (parsed : Request.parse arguments = .ok request)
    (ended : (host.run clock arguments).2.ending = .exit 0) :
    ∃ base text, request.program? (host.setUp clock request).disk = some (base, text) ∧
      Delivered request base text (host.run clock arguments).2 := by
  obtain ⟨events, -, course⟩ := course_run parsed (opens_of_exit_zero parsed ended)
  generalize made : (host.run clock arguments).2 = transcript at course ended ⊢
  obtain ⟨ending, stdout, stderr, all, disk⟩ := transcript
  dsimp only at ended course
  -- Only the two courses with an output end with status zero.
  cases course with
  | stopped cause =>
    cases cause <;> cases ended
  | refused given failed => cases ended
  | printed given done format nowhere =>
    exact ⟨_, _, given, delivered_of_printed format nowhere rfl⟩
  | written given done named free =>
    exact ⟨_, _, given, delivered_of_written done named (Disk.read_put _ free) rfl⟩
  | unwritten given done named closed =>
    split at ended <;> cases ended

/-- A run that ends well has made of its input what the assembler makes of the text: the text is read
when the log has its first line, and the base address is the origin or the target's.  The same holds
of the text as it stands in the file if its carriage returns are paired. -/
theorem run_delivers_assembly (parsed : Request.parse arguments = .ok request)
    (ended : (host.run clock arguments).2.ending = .exit 0) :
    Begun request clock host.disk (host.setUp clock request).disk ∧
      ∃ target base source text, request.Gives (host.setUp clock request).disk target base source ∧
        Translated source text ∧
        Delivered request base text (host.run clock arguments).2 ∧
        (Paired source → Delivered request base source (host.run clock arguments).2) := by
  refine ⟨begun_of_opens (opens_of_exit_zero parsed ended), ?_⟩
  obtain ⟨base, text, given, delivered⟩ := exists_delivered parsed ended
  obtain ⟨target, source, gives, rfl⟩ := Request.program?_eq_some_iff.mp given
  exact ⟨target, base, source, unified source, gives, Newline.translated_iff.mpr rfl, delivered,
    delivered.of_paired⟩

private theorem text_eq_of_read {disk : Disk} {target : Target} {base : Int}
    {source text held : List Char} (gives : request.Gives disk target base source)
    (translated : Translated source text) (read : disk.read request.input = .ok (Utf8.encode held)) :
    text = unified held := by
  obtain ⟨bytes, found, decoded⟩ := gives.input
  cases read.symm.trans found
  rw [Utf8.decode?_encode] at decoded
  cases decoded
  exact Newline.translated_iff.mp translated

/-- `A`, `JP A //` with a carriage return between them and the log in the input itself, whose first
line ends up in the remark: as bytes, since a format is named; as a listing, by the name of the
output; and, without a log and at an origin of its own, as a listing that is printed. -/
theorem run_delivers_assembly_log_in_input :
    let now : Clock := fun _ => "now"
    let source := ['A', '\r', 'J', 'P', ' ', 'A', ' ', '/', '/']
    let host : Host := { disk :=
      ⟨[([['w']], .directory), ([['w'], ['p']], .file (Utf8.encode source))], [['w']]⟩ }
    let log := ['-', '-', 'l', 'o', 'g', '-', 'f', 'i', 'l', 'e', '=', 'p']
    let format := ['-', '-', 'f', 'o', 'r', 'm', 'a', 't', '=']
    let bytes := [['p'], ['-', 'o', 'o', '.', 'l', 's', 't'], format ++ ['b', 'i', 'n'], log]
    let listed := [['p'], ['-', 'o', 'o', '.', 'L', 'S', 'T'],
      ['-', '-', 't', 'a', 'r', 'g', 'e', 't', '=', 'e', 't', 'i', '6', '6', '0'], log]
    let printed := [['p'], format ++ ['l', 'i', 's', 't', 'i', 'n', 'g'],
      ['-', '-', 'o', 'r', 'g', '=', '$', '3', '0', '0']]
    let rule := "------------------------------------------------------------\n"
    ((host.run now bytes).2.ending = .exit 0 ∧
      (host.run now bytes).2.disk.read ['o', '.', 'l', 's', 't'] = .ok [0x12, 0x00] ∧
      (host.run now bytes).2.stdout = "") ∧
    ((host.run now listed).2.ending = .exit 0 ∧
      (host.run now listed).2.disk.read ['o', '.', 'L', 'S', 'T'] = .ok (Utf8.encode
        ("  ADDR  BYTES  SOURCE\n" ++ rule ++ "0x0600         A\n" ++
          "0x0600  16 00  JP A //now | DEBUG   | chip8asm | Log file: p\n").toList) ∧
      (host.run now listed).2.stdout = "") ∧
    (host.run now printed).2.ending = .exit 0 ∧
      (host.run now printed).2.stdout =
        "  ADDR  BYTES  SOURCE\n" ++ rule ++ "0x0300         A\n0x0300  13 00  JP A //\n" := by
  intro now source host log format bytes listed printed rule
  let logged := source ++ "now | DEBUG   | chip8asm | Log file: p\n".toList
  refine ⟨?_, ?_, ?_⟩
  · let request : Request :=
      { input := ['p'], output := some ['o', '.', 'l', 's', 't'], format? := some .binary,
        logFile := some ['p'] }
    have parsed : Request.parse bytes = .ok request := rfl
    have read : (host.setUp now request).disk.read ['p'] = .ok (Utf8.encode logged) := by
      decide +kernel
    have ended : (host.run now bytes).2.ending = .exit 0 := by decide +kernel
    obtain ⟨-, target, base, _, text, gives, translated, delivered, -⟩ :=
      run_delivers_assembly parsed ended
    cases text_eq_of_read gives translated read
    cases gives.named
    cases gives.default rfl
    obtain ⟨binary, done, written, -, silent⟩ := delivered.binary (by
      rintro (impossible | ⟨impossible, -⟩) <;> cases impossible)
    have word : (assemble 0x200 (unified logged)).bytes = .ok [0x12, 0x00] := by decide +kernel
    cases word.symm.trans done
    exact ⟨ended, written _ rfl (by decide), silent⟩
  · let request : Request :=
      { input := ['p'], output := some ['o', '.', 'L', 'S', 'T'], target? := some .eti660,
        logFile := some ['p'] }
    have parsed : Request.parse listed = .ok request := rfl
    have read : (host.setUp now request).disk.read ['p'] = .ok (Utf8.encode logged) := by
      decide +kernel
    have ended : (host.run now listed).2.ending = .exit 0 := by decide +kernel
    obtain ⟨-, target, base, _, text, gives, translated, delivered, -⟩ :=
      run_delivers_assembly parsed ended
    cases text_eq_of_read gives translated read
    cases gives.named
    cases gives.default rfl
    have lists : request.Lists := by
      have last : Disk.LastName ['o', '.', 'L', 'S', 'T'] [] (['o'] ++ '.' :: ['L', 'S', 'T']) :=
        ⟨rfl, .inl rfl, by decide⟩
      exact .inr ⟨rfl, _, ['L', 'S', 'T'], rfl,
        ⟨[], ['o'], last, ⟨'o', by decide, by decide⟩, by decide⟩, by decide⟩
    obtain ⟨written, silent⟩ := delivered.file lists _ rfl (by decide)
    refine ⟨ended, written.trans (congrArg _ ?_), silent⟩
    decide +kernel
  · let request : Request :=
      { input := ['p'], format? := some .listing, origin := some ['$', '3', '0', '0'] }
    have parsed : Request.parse printed = .ok request := rfl
    have ended : (host.run now printed).2.ending = .exit 0 := by decide +kernel
    obtain ⟨-, target, base, _, text, gives, translated, delivered, -⟩ :=
      run_delivers_assembly parsed ended
    have read : host.disk.read ['p'] = .ok (Utf8.encode source) := rfl
    cases text_eq_of_read gives translated read
    have origin : Origin.read? ['$', '3', '0', '0'] = some 0x300 := by decide
    cases origin.symm.trans (gives.origin _ rfl (by decide))
    refine ⟨ended, (delivered.printed (.inl rfl) rfl).trans ?_⟩
    decide +kernel

end Host

end CommandLine

end ChipEight
