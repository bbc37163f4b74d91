import ChipEight.CommandLine.Run
import ChipEight.Proofs.CommandLine.Sinks
import ChipEight.Proofs.Passes.Acceptance
import ChipEight.Proofs.Session.History

set_option autoImplicit false

/-!
The courses that a run can take.  A run stops before it has anything to assemble, or its source is
refused, or it ends with its output: printed, written to a file, or refused there.
-/

namespace ChipEight

open Text

theorem exists_position_of_refused {base : Int} {source : List Char} {fault : Fault}
    (refused : (assemble base source).bytes = .error fault) :
    ∃ position, fault.position? = some position := by
  obtain ⟨line, member, faulty⟩ :=
    List.exists_of_findSome?_eq_some (bytes_assemble_eq_error_iff.mp refused)
  have same : line = Line.ofText line.number line.text := by
    rw [Line.ofText, ← (Line.of_mem_ofSource member).1]
  rw [same] at faulty
  refine ⟨⟨line.number, line.text⟩, ?_⟩
  cases Line.fault?_eq_some_iff.mp faulty <;> rfl

namespace CommandLine

namespace Request

section Given

variable {text? : Option (List Char)}

theorem given_eq_some_iff {text : List Char} :
    text?.filter (!·.isEmpty) = some text ↔ text? = some text ∧ text ≠ [] := by
  simp [Option.filter_eq_some_iff]

theorem given_eq_none_iff : text?.filter (!·.isEmpty) = none ↔ text?.getD [] = [] := by
  cases text? <;> simp [Option.filter]

end Given

/-- The path of the file that a request writes; a listing that names none is printed. -/
def destination? (request : Request) : Option (List Char) :=
  match request.format with
  | .listing => request.outputPath?
  | .binary => some (request.outputPath?.getD defaultOutput.toList)

/-- The base address and the text that a request gives to the assembler, unless something is
missing. -/
def program? (request : Request) (disk : Disk) : Option (Int × List Char) :=
  match disk.read request.input with
  | .error _ => none
  | .ok bytes =>
    (Utf8.decode? bytes).bind fun source =>
      request.target?.bind fun target =>
        (request.base? target).map (·, Newline.unified source)

/-- What a request finds on a tree: the text of its input, and the base address, which is the origin
if one is given and else that of the target. -/
structure Gives (request : Request) (disk : Disk) (target : Target) (base : Int)
    (source : List Char) : Prop where
  input : ∃ bytes, disk.read request.input = .ok bytes ∧ Utf8.decode? bytes = some source
  named : request.target? = some target
  origin : ∀ text, request.origin = some text → text ≠ [] → Origin.read? text = some base
  default : request.origin.getD [] = [] → base = target.origin

private theorem base?_eq_some_iff {request : Request} {target : Target} {base : Int} :
    request.base? target = some base ↔
      (∀ text, request.origin = some text → text ≠ [] → Origin.read? text = some base) ∧
        (request.origin.getD [] = [] → base = target.origin) := by
  unfold base?
  cases request.origin with
  | none => simp [eq_comm]
  | some text =>
    by_cases empty : text = []
    · subst empty
      simp [Option.filter, eq_comm]
    · simp [Option.filter, empty]

theorem program?_eq_some_iff {request : Request} {disk : Disk} {base : Int} {text : List Char} :
    request.program? disk = some (base, text) ↔
      ∃ target source, request.Gives disk target base source ∧ text = Newline.unified source := by
  constructor
  · intro given
    unfold program? at given
    split at given
    · cases given
    · rename_i bytes read
      obtain ⟨source, decoded, given⟩ := Option.bind_eq_some_iff.mp given
      obtain ⟨target, named, given⟩ := Option.bind_eq_some_iff.mp given
      obtain ⟨found, based, ⟨rfl, rfl⟩⟩ := Option.map_eq_some_iff.mp given
      obtain ⟨origin, default⟩ := base?_eq_some_iff.mp based
      exact ⟨target, source, ⟨⟨bytes, read, decoded⟩, named, origin, default⟩, rfl⟩
  · rintro ⟨target, source, gives, rfl⟩
    obtain ⟨bytes, read, decoded⟩ := gives.input
    have based := base?_eq_some_iff.mpr ⟨gives.origin, gives.default⟩
    simp only [program?, read, decoded, gives.named, based, Option.bind_some, Option.map_some]

def reports (request : Request) (disk : Disk) : List Event :=
  match request.program? disk with
  | some (base, text) => (assemble base text).log
  | none => []

theorem reports_of_program {request : Request} {disk : Disk} {base : Int} {text : List Char}
    (given : request.program? disk = some (base, text)) :
    request.reports disk = (assemble base text).log := by
  rw [reports, given]

theorem reports_of_none {request : Request} {disk : Disk}
    (absent : request.program? disk = none) : request.reports disk = [] := by
  rw [reports, absent]

def listing (base : Int) (text : List Char) : List Char :=
  ((Session.start base).assemble text).2.listing ++ ['\n']

/-- The bytes that a request writes: those of a new session that assembled the text, or its
listing. -/
def product (request : Request) (base : Int) (text : List Char) : List UInt8 :=
  match request.format with
  | .listing => Utf8.encode (listing base text)
  | .binary => ((Session.start base).assemble text).2.binary

end Request

namespace Run

inductive Stopped (request : Request) (disk : Disk) : Ending → Prop where
  | nullPath (refused : disk.read request.input = .error .nullCharacter) :
      Stopped request disk (.crash (.file .nullCharacter))
  | unreadable {refusal : Disk.Refusal} (refused : disk.read request.input = .error refusal)
      (other : refusal ≠ .nullCharacter) : Stopped request disk (.exit 1)
  | notText {bytes : List UInt8} (read : disk.read request.input = .ok bytes)
      (invalid : Utf8.decode? bytes = none) : Stopped request disk (.crash .notText)
  | noTarget {bytes : List UInt8} {source : List Char}
      (read : disk.read request.input = .ok bytes) (decoded : Utf8.decode? bytes = some source)
      (absent : request.target? = none) : Stopped request disk (.crash .noTarget)
  | noBase {bytes : List UInt8} {source : List Char} {target : Target}
      (read : disk.read request.input = .ok bytes) (decoded : Utf8.decode? bytes = some source)
      (given : request.target? = some target) (invalid : request.base? target = none) :
      Stopped request disk (.exit 1)

theorem Stopped.program?_eq_none {request : Request} {disk : Disk} {ending : Ending}
    (stopped : Stopped request disk ending) : request.program? disk = none := by
  cases stopped with
  | nullPath refused => simp only [Request.program?, refused]
  | unreadable refused => simp only [Request.program?, refused]
  | notText read invalid => simp only [Request.program?, read, invalid, Option.bind_none]
  | noTarget read decoded absent =>
    simp only [Request.program?, read, decoded, absent, Option.bind_some, Option.bind_none]
  | noBase read decoded given invalid =>
    simp only [Request.program?, read, decoded, given, invalid, Option.bind_some, Option.map_none]

/-- What a run does once its log is set up: how it ends, what it prints and shows, and the tree that
it leaves.  Its output comes last, on the tree with all events in the log. -/
inductive Course (clock : Clock) (log : Log) (request : Request) (disk : Disk) :
    Ending → String → List Event → Disk → Prop where
  | stopped {ending : Ending} (cause : Stopped request disk ending) :
      Course clock log request disk ending "" [] disk
  | refused {base : Int} {text : List Char} {fault : Fault}
      (given : request.program? disk = some (base, text))
      (failed : (assemble base text).bytes = .error fault) :
      Course clock log request disk (.exit 1) "" (log.shown (assemble base text).log)
        (log.record disk (clock.stamp (assemble base text).log))
  | printed {base : Int} {text : List Char} {binary : List UInt8}
      (given : request.program? disk = some (base, text))
      (done : (assemble base text).bytes = .ok binary) (format : request.format = .listing)
      (nowhere : request.destination? = none) :
      Course clock log request disk (.exit 0) (String.ofList (Request.listing base text))
        (log.shown (assemble base text).log) (log.record disk (clock.stamp (assemble base text).log))
  | written {base : Int} {text : List Char} {binary : List UInt8} {path : List Char}
      {place : Disk.Location} (given : request.program? disk = some (base, text))
      (done : (assemble base text).bytes = .ok binary) (named : request.destination? = some path)
      (opens : (log.record disk (clock.stamp (assemble base text).log)).writable path = .ok place) :
      Course clock log request disk (.exit 0) "" (log.shown (assemble base text).log)
        ((log.record disk (clock.stamp (assemble base text).log)).put place
          (.file (request.product base text)))
  | unwritten {base : Int} {text : List Char} {binary : List UInt8} {path : List Char}
      {refusal : Disk.Refusal} (given : request.program? disk = some (base, text))
      (done : (assemble base text).bytes = .ok binary) (named : request.destination? = some path)
      (closed : (log.record disk (clock.stamp (assemble base text).log)).writable path =
        .error refusal) :
      Course clock log request disk (.exit (if refusal = .nullCharacter then 2 else 1)) ""
        (log.shown (assemble base text).log) (log.record disk (clock.stamp (assemble base text).log))

section Output

variable (request : Request) (disk : Disk)

private theorem deliver_of_writable {path : List Char} {place : Disk.Location}
    (opens : disk.writable path = .ok place) (bytes : List UInt8) (receipt : String) :
    deliver request disk path bytes receipt =
      { ending := .exit 0, stderr := receipt, disk := disk.put place (.file bytes) } := by
  have written : disk.write path bytes = .ok (disk.put place (.file bytes)) := by
    rw [Disk.write, opens]
  rw [deliver, written]

private theorem deliver_of_refused {path : List Char} {refusal : Disk.Refusal}
    (closed : disk.writable path = .error refusal) (bytes : List UInt8) (receipt : String) :
    ∃ stderr, deliver request disk path bytes receipt =
      { ending := .exit (if refusal = .nullCharacter then 2 else 1), stderr, disk } := by
  have unwritten : disk.write path bytes = .error refusal := by
    rw [Disk.write, closed]
  rw [deliver, unwritten]
  cases refusal <;> exact ⟨_, rfl⟩

private theorem output_of_error {assembly : Assembly} {fault : Fault} {position : Position}
    (failed : assembly.result = .error fault) (stands : fault.position? = some position) :
    output request disk assembly =
      .failed disk 1 ("Assembler error: " ++ fault.message) := by
  simp only [output, failed, stands, Option.isSome_some, if_true]

private theorem output_of_ok {base : Int} {text : List Char} {binary : List UInt8}
    (done : (assemble base text).bytes = .ok binary) :
    output request disk (assemble base text) =
      match request.destination? with
      | some path => deliver request disk path (request.product base text)
          (match request.format with
          | .listing => ""
          | .binary => receipt request path (request.product base text).length)
      | none => { ending := .exit 0, stdout := String.ofList (Request.listing base text), disk } := by
  obtain ⟨emissions, found, rfl⟩ : ∃ emissions, (assemble base text).result = .ok emissions ∧
      Emission.image emissions = binary := by
    unfold Assembly.bytes at done
    cases result : (assemble base text).result with
    | error fault =>
      rw [result] at done
      cases done
    | ok emissions =>
      rw [result] at done
      exact ⟨emissions, rfl, Except.ok.inj done⟩
  have kept : (assemble base text).emissions = emissions := by
    unfold Assembly.emissions
    rw [found]
  simp only [output, found, Request.destination?, Request.product, Request.listing,
    Session.assemble_eq, Session.ofAssembly, Session.listing, Session.start, kept, done]
  cases request.format with
  | listing =>
    cases request.outputPath? with
    | none => rfl
    | some path => rfl
  | binary => rfl

end Output

section Perform

variable (clock : Clock) (log : Log) (request : Request) (disk : Disk)

private theorem program?_cases :
    (∃ ending stderr, Stopped request disk ending ∧
      perform clock log request disk = { ending, stderr, disk }) ∨
    ∃ base text stderr, request.program? disk = some (base, text) ∧
      perform clock log request disk =
        ((output request (log.record disk (clock.stamp (assemble base text).log))
          (assemble base text)).behind stderr).after (log.shown (assemble base text).log) := by
  unfold perform
  cases read : disk.read request.input with
  | error refusal =>
    left
    cases refusal with
    | nullCharacter => exact ⟨_, "", .nullPath read, rfl⟩
    | notFound => exact ⟨_, _, .unreadable read (by simp), rfl⟩
    | alreadyExists => exact ⟨_, _, .unreadable read (by simp), rfl⟩
    | notDirectory => exact ⟨_, _, .unreadable read (by simp), rfl⟩
    | isDirectory => exact ⟨_, _, .unreadable read (by simp), rfl⟩
    | nameTooLong => exact ⟨_, _, .unreadable read (by simp), rfl⟩
  | ok bytes =>
    cases decoded : Utf8.decode? bytes with
    | none => exact .inl ⟨_, "", .notText read decoded, by simp only [decoded]⟩
    | some source =>
      cases given : request.target? with
      | none => exact .inl ⟨_, "", .noTarget read decoded given, by simp only [decoded]⟩
      | some target =>
        cases found : request.base? target with
        | none =>
          obtain ⟨stderr, ended⟩ : ∃ stderr,
              build clock log request target disk source = { ending := .exit 1, stderr, disk } := by
            rw [build, found]
            exact ⟨_, rfl⟩
          exact .inl ⟨_, stderr, .noBase read decoded given found, by simp only [decoded, ended]⟩
        | some base =>
          refine .inr ⟨base, Newline.unified source, banner request target base, ?_, ?_⟩
          · simp only [Request.program?, read, decoded, given, found, Option.bind_some,
              Option.map_some]
          · simp only [decoded, build, found]

theorem course_perform :
    Course clock log request disk (perform clock log request disk).ending
      (perform clock log request disk).stdout (perform clock log request disk).events
      (perform clock log request disk).disk := by
  rcases program?_cases clock log request disk with
    ⟨ending, stderr, cause, same⟩ | ⟨base, text, stderr, given, same⟩
  · rw [same]
    exact .stopped cause
  · rw [same]
    cases outcome : (assemble base text).bytes with
    | error fault =>
      obtain ⟨position, stands⟩ := exists_position_of_refused outcome
      have failed : (assemble base text).result = .error fault := by
        unfold Assembly.bytes at outcome
        cases result : (assemble base text).result with
        | error other =>
          rw [result] at outcome
          cases outcome
          rfl
        | ok emissions =>
          rw [result] at outcome
          cases outcome
      rw [output_of_error request _ failed stands]
      simpa only [Transcript.after, Transcript.behind, Transcript.failed, List.append_nil] using
        Course.refused given outcome
    | ok binary =>
      rw [output_of_ok request _ outcome]
      cases named : request.destination? with
      | none =>
        have format : request.format = .listing := by
          unfold Request.destination? at named
          cases format : request.format with
          | listing => rfl
          | binary =>
            rw [format] at named
            cases named
        simpa only [Transcript.after, Transcript.behind, List.append_nil] using
          Course.printed given outcome format named
      | some path =>
        dsimp only
        cases free : (log.record disk (clock.stamp (assemble base text).log)).writable path with
        | ok place =>
          rw [deliver_of_writable request _ free]
          simpa only [Transcript.after, Transcript.behind, List.append_nil] using
            Course.written given outcome named free
        | error refusal =>
          obtain ⟨stderr, refused⟩ := deliver_of_refused request _ free
            (request.product base text) (match request.format with
              | .listing => ""
              | .binary => receipt request path (request.product base text).length)
          rw [refused]
          simpa only [Transcript.after, Transcript.behind, List.append_nil] using
            Course.unwritten given outcome named free

end Perform

section Traces

variable {clock : Clock} {log : Log} {request : Request} {disk after : Disk} {ending : Ending}
  {stdout : String} {events : List Event}

theorem Course.events_eq (course : Course clock log request disk ending stdout events after) :
    events = log.shown (request.reports disk) := by
  cases course with
  | stopped cause =>
    rw [Request.reports_of_none cause.program?_eq_none]
    rfl
  | refused given failed => rw [Request.reports_of_program given]
  | printed given done format nowhere => rw [Request.reports_of_program given]
  | written given done named opens => rw [Request.reports_of_program given]
  | unwritten given done named closed => rw [Request.reports_of_program given]

theorem Course.disk_cases (course : Course clock log request disk ending stdout events after) :
    after = log.record disk (clock.stamp (request.reports disk)) ∨
      ending = .exit 0 ∧ ∃ base text path place,
        request.program? disk = some (base, text) ∧ request.destination? = some path ∧
        (log.record disk (clock.stamp (request.reports disk))).writable path = .ok place ∧
        after = (log.record disk (clock.stamp (request.reports disk))).put place
          (.file (request.product base text)) := by
  cases course with
  | stopped cause =>
    left
    rw [Request.reports_of_none cause.program?_eq_none]
    rfl
  | refused given failed => exact .inl (by rw [Request.reports_of_program given])
  | printed given done format nowhere => exact .inl (by rw [Request.reports_of_program given])
  | unwritten given done named closed => exact .inl (by rw [Request.reports_of_program given])
  | written given done named opens =>
    rw [Request.reports_of_program given]
    exact .inr ⟨rfl, _, _, _, _, given, named, opens, rfl⟩

end Traces

end Run

namespace Host

variable {host : Host} {clock : Clock} {arguments : List (List Char)} {request : Request}

theorem run_of_stop {stop : Stop} (refused : Request.parse arguments = .error stop) :
    host.run clock arguments = (host, Run.refuse host.disk stop) := by
  rw [run, refused]

theorem run_of_refusal {refusal : Disk.Refusal} (parsed : Request.parse arguments = .ok request)
    (closed : (host.setUp clock request).refusal? = some refusal) :
    host.run clock arguments =
      (⟨(host.setUp clock request).log, (host.setUp clock request).disk⟩,
        { ending := .crash (.file refusal), disk := (host.setUp clock request).disk }) := by
  simp only [run, parsed, execute, closed]

theorem run_of_ready (parsed : Request.parse arguments = .ok request)
    (opens : (host.setUp clock request).refusal? = none) :
    host.run clock arguments =
      let transcript := (Run.perform clock.rest (host.setUp clock request).log request
        (host.setUp clock request).disk).after (host.setUp clock request).events
      (⟨(host.setUp clock request).log, transcript.disk⟩, transcript) := by
  simp only [run, parsed, execute, opens]

theorem ready_of_opens (opens : (host.setUp clock request).refusal? = none) :
    Log.Ready (clock 0) host.disk request.threshold request.logPath? (host.setUp clock request) :=
  Log.ready_setUp host.log opens

theorem course_run (parsed : Request.parse arguments = .ok request)
    (opens : (host.setUp clock request).refusal? = none) :
    ∃ events, (host.run clock arguments).2.events = (host.setUp clock request).events ++ events ∧
      Run.Course clock.rest (host.setUp clock request).log request (host.setUp clock request).disk
        (host.run clock arguments).2.ending (host.run clock arguments).2.stdout events
        (host.run clock arguments).2.disk := by
  rw [run_of_ready parsed opens]
  exact ⟨_, rfl, Run.course_perform clock.rest _ request _⟩

/-- The tree with all events of a request in the log, before anything is written. -/
def recorded (host : Host) (clock : Clock) (request : Request) : Disk :=
  (host.setUp clock request).log.record (host.setUp clock request).disk
    (clock.rest.stamp (request.reports (host.setUp clock request).disk))

theorem disk_cases (parsed : Request.parse arguments = .ok request)
    (opens : (host.setUp clock request).refusal? = none) :
    (host.run clock arguments).2.disk = host.recorded clock request ∨
      (host.run clock arguments).2.ending = .exit 0 ∧ ∃ base text path place,
        request.program? (host.setUp clock request).disk = some (base, text) ∧
        request.destination? = some path ∧
        (host.recorded clock request).writable path = .ok place ∧
        (host.run clock arguments).2.disk =
          (host.recorded clock request).put place (.file (request.product base text)) := by
  obtain ⟨events, -, course⟩ := course_run parsed opens
  exact course.disk_cases

theorem disk_run (host : Host) (clock : Clock) (arguments : List (List Char)) :
    (host.run clock arguments).1.disk = (host.run clock arguments).2.disk := by
  cases parsed : Request.parse arguments with
  | error stop =>
    rw [run_of_stop parsed]
    cases stop <;> rfl
  | ok request =>
    cases closed : (host.setUp clock request).refusal? with
    | some refusal => rw [run_of_refusal parsed closed]
    | none => rw [run_of_ready parsed closed]

end Host

end CommandLine

end ChipEight
