import ChipEight.Proofs.CommandLine.UntouchedFiles
import ChipEight.Proofs.Passes.LineEnds

set_option autoImplicit false

/-!
Logs over runs in a row.  Each run adds the lines of all its events to its own log file, shows those
that are important enough, and sends none of them to the log file of another run, whatever sinks the
runs before it have left behind.
-/

namespace ChipEight.CommandLine

open Disk (Location Keeps)
open Text
open Text.Newline (unified Translated)

def Request.records (request : Request) (disk : Disk) : List Event :=
  request.logPath?.toList.map Log.opening ++ request.reports disk

/-- The events of a request with a log file: the first tells its path, and the others are those of
the assembler on the text of the input, if there is a text and a base address for it. -/
structure Emitted (request : Request) (disk : Disk) (file : List Char) (events : List Event) :
    Prop where
  first : events.head? = some (.logOpened (Disk.Path.ofText file).text)
  assembled : ∀ target base source text, request.Gives disk target base source →
    Translated source text → events.tail = (assemble base text).log
  nothing : (∀ target base source, ¬ request.Gives disk target base source) → events.tail = []

def Request.consoleRank (request : Request) : Nat :=
  match request.quiet, request.verbose with
  | true, _ => 40
  | false, 0 => 30
  | false, 1 => 20
  | false, _ => 10

/-- What a run with a log file does with its events: the file has a line for each of them behind what
it held, with the time of the event, unless the output was written over it; the console shows those
that reach its rank. -/
structure Served (host : Host) (clock : Clock) (arguments : List (List Char)) (request : Request)
    (file : List Char) (events : List Event) : Prop where
  emitted : Emitted request (host.setUp clock request).disk file events
  lines : ((host.run clock arguments).2.ending = .exit 0 →
      Log.placeOf host.disk file ∉ outputPlaces host.disk arguments) →
    (host.run clock arguments).1.disk.file? (Log.placeOf host.disk file) =
      some ((host.disk.file? (Log.placeOf host.disk file)).getD [] ++ Utf8.encode
        ((events.mapIdx fun number event => event.entry (clock number)).flatMap String.toList))
  console : (host.run clock arguments).2.events =
    events.filter fun event => request.consoleRank ≤ event.heading.2

/-- The output of a run at a place: the bytes that its request calls for, and nothing else. -/
def Outputs (host : Host) (clock : Clock) (arguments : List (List Char)) (place : Location) : Prop :=
  place ∈ outputPlaces host.disk arguments ∧ ∃ request base text,
    Request.parse arguments = .ok request ∧
      request.program? (host.setUp clock request).disk = some (base, text) ∧
      (host.run clock arguments).1.disk.file? place = some (request.product base text)

/-- Logs over runs in a row: every run with a log file is served; a file that is not the log file of
a run is left as it was by it, or holds its output; and a file that later runs do not name stays as
it was through all of them. -/
structure LogsApart (host : Host) (runs : List (Clock × List (List Char))) : Prop where
  served : ∀ earlier clock arguments later, runs = earlier ++ (clock, arguments) :: later →
    ∀ request file, Request.parse arguments = .ok request →
      request.logFile = some file → file ≠ [] →
      ((host.after earlier).setUp clock request).refusal? = none →
        ∃ events, Served (host.after earlier) clock arguments request file events
  foreign : ∀ earlier clock arguments later, runs = earlier ++ (clock, arguments) :: later →
    ∀ place, place ∉ logPlaces host.disk arguments →
      ((host.after earlier).run clock arguments).1.disk.file? place =
          (host.after earlier).disk.file? place ∨
        Outputs (host.after earlier) clock arguments place
  lasting : ∀ earlier later, runs = earlier ++ later →
    ∀ place, (∀ entry ∈ later, place ∉ logPlaces host.disk entry.2 ∧
        place ∉ outputPlaces host.disk entry.2) →
      (host.after runs).disk.file? place = (host.after earlier).disk.file? place

namespace Request

variable {request : Request} {file : List Char}

theorem records_of_logPath (named : request.logPath? = some file) (disk : Disk) :
    request.records disk = Log.opening file :: request.reports disk := by
  rw [records, named]
  rfl

theorem emitted_records (named : request.logPath? = some file) (disk : Disk) :
    Emitted request disk file (request.records disk) := by
  rw [records_of_logPath named]
  refine ⟨rfl, ?_, ?_⟩
  · intro target base source text gives translated
    have given : request.program? disk = some (base, text) :=
      program?_eq_some_iff.mpr ⟨target, source, gives, Newline.translated_iff.mp translated⟩
    exact reports_of_program given
  · intro absent
    apply reports_of_none
    rw [Option.eq_none_iff_forall_ne_some]
    rintro ⟨base, text⟩ given
    obtain ⟨target, source, gives, -⟩ := program?_eq_some_iff.mp given
    exact absent target base source gives

theorem threshold_eq_consoleRank (request : Request) :
    request.threshold = request.consoleRank := by
  unfold threshold Verbosity.threshold consoleRank
  cases request.quiet with
  | true => rfl
  | false =>
    match request.verbose with
    | 0 => rfl
    | 1 => rfl
    | more + 2 =>
      have neither : ((more + 2 : Nat) : Int) ≠ 0 ∧ ((more + 2 : Nat) : Int) ≠ 1 := by omega
      rw [if_neg Bool.false_ne_true, if_neg neither.1, if_neg neither.2]
      rfl

end Request

namespace Host

variable {host : Host} {clock : Clock} {arguments : List (List Char)} {request : Request}

section OneRun

private theorem events_run (parsed : Request.parse arguments = .ok request)
    (opens : (host.setUp clock request).refusal? = none) :
    (host.run clock arguments).2.events =
      Verbosity.shown request.threshold (request.records (host.setUp clock request).disk) := by
  have ready := ready_of_opens opens
  obtain ⟨events, all, course⟩ := course_run parsed opens
  rw [all, course.events_eq, ready.events, ready.log, Log.shown_ofRun]
  exact (List.filter_append _ _).symm

private theorem file?_recorded {file : List Char} (named : request.logPath? = some file)
    (opens : (host.setUp clock request).refusal? = none) :
    (host.recorded clock request).file? (Log.placeOf host.disk file) =
      some ((host.disk.file? (Log.placeOf host.disk file)).getD [] ++
        Log.lines (clock.stamp (request.records (host.setUp clock request).disk))) := by
  have ready := ready_of_opens opens
  have place : request.logPath?.map (Log.placeOf host.disk) = some (Log.placeOf host.disk file) := by
    rw [named]
    rfl
  have begun := ready.lines file named
  rw [Request.records_of_logPath named, Clock.stamp_cons, ← List.singleton_append,
    Log.lines_append, ← List.append_assoc]
  exact (ready.recorded _).lines _ place _ begun

private theorem file?_run {file : List Char} (parsed : Request.parse arguments = .ok request)
    (named : request.logPath? = some file) (opens : (host.setUp clock request).refusal? = none)
    (apart : (host.run clock arguments).2.ending = .exit 0 →
      Log.placeOf host.disk file ∉ outputPlaces host.disk arguments) :
    (host.run clock arguments).2.disk.file? (Log.placeOf host.disk file) =
      some ((host.disk.file? (Log.placeOf host.disk file)).getD [] ++
        Log.lines (clock.stamp (request.records (host.setUp clock request).disk))) := by
  rw [← file?_recorded named opens]
  rcases disk_cases parsed opens with
    same | ⟨ended, base, text, path, place, -, destination, free, same⟩
  · rw [same]
  · have elsewhere : Log.placeOf host.disk file ∉ [place] := by
      have out := apart ended
      rw [outputPlaces_of_parse host.disk parsed, destination] at out
      rw [place_of_writable opens free]
      exact out
    have vacant := (Disk.writable_eq_ok_iff.mp free).2.2
    rw [same]
    exact (Disk.keeps_put _ vacant).file _ elsewhere

theorem served_run {file : List Char} (parsed : Request.parse arguments = .ok request)
    (named : request.logPath? = some file) (opens : (host.setUp clock request).refusal? = none) :
    Served host clock arguments request file
      (request.records (host.setUp clock request).disk) where
  emitted := Request.emitted_records named _
  lines := by
    intro apart
    rw [disk_run, ← Log.lines_stamp]
    exact file?_run parsed named opens apart
  console := by
    simp only [events_run parsed opens, Verbosity.shown, Request.threshold_eq_consoleRank,
      Event.rank_level]

theorem file?_run_of_foreign (host : Host) (clock : Clock) {place : Location}
    (foreign : place ∉ logPlaces host.disk arguments) :
    (host.run clock arguments).1.disk.file? place = host.disk.file? place ∨
      Outputs host clock arguments place := by
  unfold Outputs
  rw [disk_run]
  cases parsed : Request.parse arguments with
  | error stop =>
    left
    rw [run_of_stop parsed]
    cases stop <;> rfl
  | ok request =>
    cases closed : (host.setUp clock request).refusal? with
    | some refusal =>
      left
      rw [run_of_refusal parsed closed]
      exact (Log.keeps_setUp host.log [] closed).file place List.not_mem_nil
    | none =>
      rw [logPlaces_of_parse host.disk parsed] at foreign
      have kept := (keeps_recorded closed).file place foreign
      rcases disk_cases parsed closed with
        same | ⟨-, base, text, path, written, given, destination, free, same⟩
      · left
        rw [same, kept]
      · have vacant := (Disk.writable_eq_ok_iff.mp free).2.2
        rw [same]
        by_cases here : place = written
        · subst here
          refine .inr ⟨?_, request, base, text, rfl, given, Disk.file?_put_self _ vacant⟩
          rw [outputPlaces_of_parse host.disk parsed, destination, place_of_writable closed free]
          exact List.mem_singleton_self _
        · left
          have elsewhere : place ∉ [written] := List.not_mem_cons_of_ne_of_not_mem here
            List.not_mem_nil
          rw [(Disk.keeps_put _ vacant).file place elsewhere, kept]

end OneRun

section Runs

theorem after_append (host : Host) (runs more : List (Clock × List (List Char))) :
    host.after (runs ++ more) = (host.after runs).after more :=
  List.foldl_append

theorem after_invariant {P : Host → Prop} {runs : List (Clock × List (List Char))}
    (start : P host) (step : ∀ entry ∈ runs, ∀ host, P host → P (host.run entry.1 entry.2).1) :
    P (host.after runs) := by
  induction runs generalizing host with
  | nil => exact start
  | cons entry runs ih =>
    rw [List.forall_mem_cons] at step
    exact ih (step.1 host start) step.2

theorem here_run (host : Host) (clock : Clock) (arguments : List (List Char)) :
    (host.run clock arguments).1.disk.here = host.disk.here := by
  rw [disk_run]
  rcases keeps_run host clock arguments with keeps | ⟨-, keeps⟩
  · exact keeps.here
  · exact keeps.here

theorem here_after (host : Host) (runs : List (Clock × List (List Char))) :
    (host.after runs).disk.here = host.disk.here :=
  after_invariant (P := fun later => later.disk.here = host.disk.here) rfl
    fun entry _ later here => (here_run later entry.1 entry.2).trans here

private theorem places_of_here {before after : Disk} (here : after.here = before.here)
    (arguments : List (List Char)) : logPlaces after arguments = logPlaces before arguments ∧
      outputPlaces after arguments = outputPlaces before arguments := by
  have output : after.placeOf = before.placeOf := funext (Disk.placeOf_of_here here)
  have log : Log.placeOf after = Log.placeOf before := by
    funext file
    rw [Log.placeOf, output, Disk.absolute_of_here here, Log.placeOf]
  rw [logPlaces, logPlaces, outputPlaces, outputPlaces, log, output]
  exact ⟨rfl, rfl⟩

theorem file?_after_of_unnamed (host : Host) {place : Location}
    {runs : List (Clock × List (List Char))}
    (unnamed : ∀ entry ∈ runs, place ∉ logPlaces host.disk entry.2 ∧
      place ∉ outputPlaces host.disk entry.2) :
    (host.after runs).disk.file? place = host.disk.file? place := by
  suffices kept : (host.after runs).disk.here = host.disk.here ∧
      (host.after runs).disk.file? place = host.disk.file? place from kept.2
  apply after_invariant (P := fun later => later.disk.here = host.disk.here ∧
    later.disk.file? place = host.disk.file? place) ⟨rfl, rfl⟩
  rintro entry member later ⟨here, same⟩
  obtain ⟨log, output⟩ := places_of_here here entry.2
  refine ⟨(here_run later entry.1 entry.2).trans here, ?_⟩
  have apart := unnamed entry member
  rw [← log, ← output] at apart
  rcases file?_run_of_foreign later entry.1 apart.1 with left | written
  · exact left.trans same
  · exact absurd written.1 apart.2

end Runs

/-- However many runs there are and however they end, the events of each go to its own log file and
to the console, and to no file of another run. -/
theorem runs_log_apart (host : Host) (runs : List (Clock × List (List Char))) :
    LogsApart host runs where
  served := by
    intro earlier clock arguments later _ request file parsed given nonempty opens
    have named : request.logPath? = some file := Request.given_eq_some_iff.mpr ⟨given, nonempty⟩
    exact ⟨_, served_run parsed named opens⟩
  foreign := by
    intro earlier clock arguments later _ place foreign
    obtain ⟨log, -⟩ := places_of_here (here_after host earlier) arguments
    rw [← log] at foreign
    exact file?_run_of_foreign (host.after earlier) clock foreign
  lasting := by
    rintro earlier later rfl place unnamed
    rw [after_append]
    apply file?_after_of_unnamed
    intro entry member
    obtain ⟨log, output⟩ := places_of_here (here_after host earlier) entry.2
    rw [log, output]
    exact unnamed entry member

private theorem served_plainly {earlier : List (Clock × List (List Char))}
    {entry : Clock × List (List Char)} {file : List Char} (place : Location) (source : List Char)
    (events : List Event)
    (emitted : .logOpened (Disk.Path.ofText file).text :: (assemble 0x200 (unified source)).log =
      events)
    (served : ∃ events, Served (host.after earlier) entry.1 entry.2 request file events)
    (read : ((host.after earlier).setUp entry.1 request).disk.read request.input =
      .ok (Utf8.encode source))
    (target : request.target? = some .chip8) (origin : request.origin = none)
    (located : Log.placeOf (host.after earlier).disk file = place)
    (apart : place ∉ outputPlaces (host.after earlier).disk entry.2) :
    (host.after (earlier ++ [entry])).disk.file? place =
        some (((host.after earlier).disk.file? place).getD [] ++ Utf8.encode
          ((events.mapIdx fun number event => event.entry (entry.1 number)).flatMap
            String.toList)) ∧
      ((host.after earlier).run entry.1 entry.2).2.events =
        events.filter fun event => request.consoleRank ≤ event.heading.2 := by
  obtain ⟨found, served⟩ := served
  have gives : request.Gives ((host.after earlier).setUp entry.1 request).disk .chip8 0x200
      source := by
    refine ⟨⟨_, read, Utf8.decode?_encode source⟩, target, ?_, fun _ => rfl⟩
    rw [origin]
    intro text impossible
    cases impossible
  have same : found = events := by
    obtain ⟨tail, rfl⟩ := List.head?_eq_some_iff.mp served.emitted.first
    have rest := served.emitted.assembled _ _ _ _ gives (Newline.translated_iff.mpr rfl)
    rw [List.tail_cons] at rest
    rw [rest, emitted]
  subst same located
  rw [after_append]
  exact ⟨served.lines fun _ => apart, served.console⟩

/-- A lone label in four runs: one that shows warnings, with the log file `l`; one that cannot make
its log file; one that shows errors only, with the log file `m`; and one that shows everything, with
the log file `l` again. -/
theorem runs_log_apart_four :
    let host : Host := { disk :=
      ⟨[([['w']], .directory), ([['w'], ['p']], .file (Utf8.encode ['A']))], [['w']]⟩ }
    let clock (day : String) : Clock := fun number => day ++ toString number
    let option := ['-', '-', 'l', 'o', 'g', '-', 'f', 'i', 'l', 'e', '=']
    let first := (clock "mon ", [['p'], ['-', 'v'], option ++ ['l']])
    let second := (clock "tue ", [['p'], option ++ ['p', '/', 'l']])
    let third := (clock "wed ", [['p'], ['-', 'q'], option ++ ['m']])
    let fourth := (clock "thu ", [['p'], ['-', 'v', 'v'], option ++ ['l']])
    let lines (day file : String) : List UInt8 := Utf8.encode
      ([day ++ "0 | DEBUG   | chip8asm | Log file: " ++ file ++ "\n",
        day ++ "1 | DEBUG   | chip8asm.assembler | Pass 1: 1 labels, 0 instructions\n",
        day ++ "2 | WARNING | chip8asm.assembler | Label 'A' is never referenced\n",
        day ++ "3 | DEBUG   | chip8asm.assembler | Pass 2: emitted 0 bytes\n"].flatMap String.toList)
    (host.run first.1 first.2).2.events = [.unreferenced ['A']] ∧
      ((host.after [first]).run second.1 second.2).2.ending = .crash (.file .alreadyExists) ∧
      ((host.after [first, second]).run third.1 third.2).2.events = [] ∧
      ((host.after [first, second, third]).run fourth.1 fourth.2).2.events =
        [.logOpened ['l'], .laidOut 1 0, .unreferenced ['A'], .finished 0] ∧
      (host.after [first, second, third, fourth]).disk.file? [['w'], ['l']] =
        some (lines "mon " "l" ++ lines "thu " "l") ∧
      (host.after [first, second, third, fourth]).disk.file? [['w'], ['m']] =
        some (lines "wed " "m") := by
  intro host clock option first second third fourth lines
  let events (file : Char) : List Event :=
    [.logOpened [file], .laidOut 1 0, .unreferenced ['A'], .finished 0]
  have written : ∀ day times file name, times = clock day →
      (file, name) = ('l', "l") ∨ (file, name) = ('m', "m") →
      Utf8.encode (((events file).mapIdx fun number event =>
        event.entry (times number)).flatMap String.toList) = lines day name := by
    have numbers : Nat.repr 0 = "0" ∧ Nat.repr 1 = "1" ∧ Nat.repr 2 = "2" ∧ Nat.repr 3 = "3" := by
      decide
    have messages : Event.message (.logOpened ['l']) = "Log file: l" ∧
        Event.message (.logOpened ['m']) = "Log file: m" ∧
        Event.message (.laidOut 1 0) = "Pass 1: 1 labels, 0 instructions" ∧
        Event.message (.unreferenced ['A']) = "Label 'A' is never referenced" ∧
        Event.message (.finished 0) = "Pass 2: emitted 0 bytes" := by decide
    rintro day _ _ _ rfl (⟨rfl, rfl⟩ | ⟨rfl, rfl⟩)
    all_goals
      refine congrArg Utf8.encode (congrArg (List.flatMap String.toList) ?_)
      simp [events, clock, Event.entry, Event.heading, numbers, messages, String.append_assoc]
  have three := host.runs_log_apart [first, second, third]
  have four := host.runs_log_apart [first, second, third, fourth]
  obtain ⟨begun, warned⟩ := served_plainly [['w'], ['l']] ['A'] (events 'l') (by decide +kernel)
    (three.served [] first.1 first.2 [second, third] rfl
      { input := ['p'], verbose := 1, logFile := some ['l'] } ['l'] rfl rfl (by decide)
      (by decide +kernel))
    (by decide +kernel) rfl rfl (by decide +kernel) (by decide +kernel)
  obtain ⟨elsewhere, silent⟩ := served_plainly [['w'], ['m']] ['A'] (events 'm')
    (by decide +kernel)
    (three.served [first, second] third.1 third.2 [] rfl
      { input := ['p'], quiet := true, logFile := some ['m'] } ['m'] rfl rfl (by decide)
      (by decide +kernel))
    (by decide +kernel) rfl rfl (by decide +kernel) (by decide +kernel)
  obtain ⟨again, told⟩ := served_plainly [['w'], ['l']] ['A'] (events 'l') (by decide +kernel)
    (four.served [first, second, third] fourth.1 fourth.2 [] rfl
      { input := ['p'], verbose := 2, logFile := some ['l'] } ['l'] rfl rfl (by decide)
      (by decide +kernel))
    (by decide +kernel) rfl rfl (by decide +kernel) (by decide +kernel)
  have kept := three.lasting [first] [second, third] rfl [['w'], ['l']] (by decide +kernel)
  have left := four.lasting [first, second, third] [fourth] rfl [['w'], ['m']] (by decide +kernel)
  have fresh : (host.after []).disk.file? [['w'], ['l']] = none ∧
      (host.after [first, second]).disk.file? [['w'], ['m']] = none := by decide +kernel
  rw [fresh.1, List.nil_append, Option.getD_none, List.nil_append,
    written "mon " first.1 'l' "l" rfl (.inl rfl)] at begun
  rw [fresh.2, Option.getD_none, List.nil_append,
    written "wed " third.1 'm' "m" rfl (.inr rfl)] at elsewhere
  rw [kept, begun, Option.getD_some, written "thu " fourth.1 'l' "l" rfl (.inl rfl)] at again
  exact ⟨warned.trans (by decide), by decide +kernel, silent.trans (by decide),
    told.trans (by decide), again, left.trans elsewhere⟩

end Host

end ChipEight.CommandLine
