import ChipEight.Proofs.CommandLine.Courses

set_option autoImplicit false

/-!
The status that a run exits with.  It is zero if the input is read, its origin is a number, its text
is assembled and its output is opened; two if only a null character in the path of the output is in
the way; and else one.  A target that was left empty is not answered for.
-/

namespace ChipEight.CommandLine

open Text
open Text.Newline (unified)

/-- The input of a request is read from a tree, its base address is known, and its text is
assembled. -/
def Request.Builds (request : Request) (disk : Disk) : Prop :=
  ∃ target base source binary, request.Gives disk target base source ∧
    (assemble base (unified source)).bytes = .ok binary

def Request.Opens (request : Request) (disk : Disk) : Prop :=
  ∀ path, request.destination? = some path → ∃ place, disk.writable path = .ok place

def Request.HasNull (request : Request) : Prop :=
  ∃ path, request.destination? = some path ∧ Char.ofNat 0 ∈ path

structure StatusIs (request : Request) (disk : Disk) (ending : Ending) : Prop where
  zero : ending = .exit 0 ↔ request.Builds disk ∧ request.Opens disk
  two : ending = .exit 2 ↔ request.Builds disk ∧ request.HasNull
  one : ¬ (request.Builds disk ∧ request.Opens disk) →
    ¬ (request.Builds disk ∧ request.HasNull) → ending = .exit 1

section Statuses

variable {request : Request} {disk : Disk} {base : Int} {text : List Char}

private theorem builds_iff : request.Builds disk ↔
    ∃ base text binary, request.program? disk = some (base, text) ∧
      (assemble base text).bytes = .ok binary := by
  constructor
  · rintro ⟨target, base, source, binary, gives, done⟩
    exact ⟨base, unified source, binary,
      Request.program?_eq_some_iff.mpr ⟨target, source, gives, rfl⟩, done⟩
  · rintro ⟨base, text, binary, given, done⟩
    obtain ⟨target, source, gives, rfl⟩ := Request.program?_eq_some_iff.mp given
    exact ⟨target, base, source, binary, gives, done⟩

private theorem target?_ne_none (given : request.program? disk = some (base, text)) :
    request.target? ≠ none := by
  intro absent
  obtain ⟨target, source, gives, -⟩ := Request.program?_eq_some_iff.mp given
  have named := gives.named
  rw [absent] at named
  cases named

private theorem statusIs_of_not_builds (unbuilt : ¬ request.Builds disk) :
    StatusIs request disk (.exit 1) where
  zero := iff_of_false (by simp) (fun both => unbuilt both.1)
  two := iff_of_false (by simp) (fun both => unbuilt both.1)
  one := fun _ _ => rfl

private theorem not_hasNull_of_opens (opens : request.Opens disk) : ¬ request.HasNull := by
  rintro ⟨path, named, null⟩
  obtain ⟨place, free⟩ := opens path named
  exact Disk.not_mem_of_writable free null

private theorem statusIs_of_opens (builds : request.Builds disk) (opens : request.Opens disk) :
    StatusIs request disk (.exit 0) where
  zero := iff_of_true rfl ⟨builds, opens⟩
  two := iff_of_false (by simp) (fun both => not_hasNull_of_opens opens both.2)
  one := fun failed => absurd ⟨builds, opens⟩ failed

private theorem statusIs_of_closed {path : List Char} {refusal : Disk.Refusal}
    (builds : request.Builds disk) (named : request.destination? = some path)
    (closed : ∀ place, disk.writable path ≠ .ok place)
    (null : refusal = .nullCharacter ↔ Char.ofNat 0 ∈ path) :
    StatusIs request disk (.exit (if refusal = .nullCharacter then 2 else 1)) := by
  have shut : ¬ request.Opens disk := by
    intro opens
    obtain ⟨place, free⟩ := opens path named
    exact closed place free
  have here : request.HasNull ↔ refusal = .nullCharacter := by
    rw [null]
    constructor
    · rintro ⟨other, same, inside⟩
      cases named.symm.trans same
      exact inside
    · intro inside
      exact ⟨path, named, inside⟩
  by_cases nullPath : refusal = .nullCharacter
  · rw [if_pos nullPath]
    exact ⟨iff_of_false (by simp) (fun both => shut both.2),
      iff_of_true rfl ⟨builds, here.mpr nullPath⟩,
      fun _ other => absurd ⟨builds, here.mpr nullPath⟩ other⟩
  · rw [if_neg nullPath]
    exact ⟨iff_of_false (by simp) (fun both => shut both.2),
      iff_of_false (by simp) (fun both => nullPath (here.mp both.2)), fun _ _ => rfl⟩

end Statuses

/-- How a run ends on a tree, by its target: with the status that its request calls for, or, if the
target was left empty, without one as soon as the input is read. -/
structure Ends (request : Request) (disk : Disk) (ending : Ending) : Prop where
  targeted : request.target? ≠ none → StatusIs request disk ending
  untargeted : request.target? = none → ending =
    match disk.read request.input with
    | .ok _ => .crash .noTarget
    | .error _ => .exit 1

private theorem ends_of_program {request : Request} {disk : Disk} {base : Int} {text : List Char}
    {ending : Ending} (given : request.program? disk = some (base, text))
    (status : StatusIs request disk ending) : Ends request disk ending :=
  ⟨fun _ => status, fun absent => absurd absent (target?_ne_none given)⟩

private theorem ends_of_stopped {request : Request} {disk : Disk} {ending : Ending}
    (clear : Char.ofNat 0 ∉ request.input)
    (valid : ∀ bytes, disk.read request.input = .ok bytes →
      ∃ source, Utf8.decode? bytes = some source)
    (cause : Run.Stopped request disk ending) : Ends request disk ending := by
  have unbuilt : ¬ request.Builds disk := by
    rw [builds_iff]
    rintro ⟨base, text, binary, given, -⟩
    rw [cause.program?_eq_none] at given
    cases given
  cases cause with
  | nullPath refused => exact absurd rfl (Disk.read_ne_null clear refused)
  | unreadable refused other =>
    refine ⟨fun _ => statusIs_of_not_builds unbuilt, fun _ => ?_⟩
    rw [refused]
  | notText read invalid =>
    obtain ⟨source, decoded⟩ := valid _ read
    rw [invalid] at decoded
    cases decoded
  | noTarget read decoded absent =>
    refine ⟨fun named => absurd absent named, fun _ => ?_⟩
    rw [read]
  | noBase read decoded given invalid =>
    refine ⟨fun _ => statusIs_of_not_builds unbuilt, fun absent => ?_⟩
    rw [given] at absent
    cases absent

namespace Host

variable {host : Host} {clock : Clock} {arguments : List (List Char)} {request : Request}

/-- A run whose log is set up and whose input is a text under a path without null characters exits
with the status that its request calls for, unless its target was left empty. -/
theorem run_exits_with_status (parsed : Request.parse arguments = .ok request)
    (opens : (host.setUp clock request).refusal? = none) (clear : Char.ofNat 0 ∉ request.input)
    (valid : ∀ bytes, (host.setUp clock request).disk.read request.input = .ok bytes →
      ∃ source, Utf8.decode? bytes = some source) :
    Ends request (host.setUp clock request).disk (host.run clock arguments).2.ending := by
  obtain ⟨events, -, course⟩ := course_run parsed opens
  have ready := ready_of_opens opens
  generalize (host.run clock arguments).2.ending = ending,
    (host.run clock arguments).2.stdout = stdout, (host.run clock arguments).2.disk = after at course ⊢
  cases course with
  | stopped cause => exact ends_of_stopped clear valid cause
  | refused given failed =>
    refine ends_of_program given (statusIs_of_not_builds ?_)
    rw [builds_iff]
    rintro ⟨base, text, binary, same, done⟩
    rw [given] at same
    cases same
    rw [failed] at done
    cases done
  | printed given done format nowhere =>
    have builds := builds_iff.mpr ⟨_, _, _, given, done⟩
    refine ends_of_program given (statusIs_of_opens builds ?_)
    intro path named
    rw [nowhere] at named
    cases named
  | @written base text binary path place given done named free =>
    have builds := builds_iff.mpr ⟨_, _, _, given, done⟩
    refine ends_of_program given (statusIs_of_opens builds ?_)
    intro other given
    cases named.symm.trans given
    -- The log adds to a file, so what opens after its lines were added opened before.
    have same := (ready.recorded (clock.rest.stamp (assemble base text).log)).directories
    exact ⟨place, same.symm.writable free⟩
  | @unwritten base text binary path refusal given done named closed =>
    have builds := builds_iff.mpr ⟨_, _, _, given, done⟩
    refine ends_of_program given
      (statusIs_of_closed builds named ?_ (Disk.writable_eq_null_iff closed))
    intro place free
    have same := (ready.recorded (clock.rest.stamp (assemble base text).log)).directories
    have again := same.writable free
    rw [closed] at again
    cases again

/-- `CLS` is assembled, and then the path of its output is `o` with a null character. -/
theorem run_exits_with_status_null :
    let now : Clock := fun _ => "now"
    let host : Host := { disk := ⟨[([['w']], .directory),
      ([['w'], ['p']], .file (Utf8.encode ['C', 'L', 'S']))], [['w']]⟩ }
    let arguments := [['p'], ['-', 'o', 'o', Char.ofNat 0]]
    let request : Request := { input := ['p'], output := some ['o', Char.ofNat 0] }
    Request.parse arguments = .ok request ∧ (host.setUp now request).refusal? = none ∧
      request.Builds (host.setUp now request).disk ∧ request.HasNull ∧
      (host.run now arguments).2.ending = .exit 2 := by
  intro now host arguments request
  have parsed : Request.parse arguments = .ok request := rfl
  have ends : Ends request (host.setUp now request).disk (host.run now arguments).2.ending := by
    refine run_exits_with_status parsed rfl (by decide) ?_
    rintro _ ⟨rfl⟩
    exact ⟨['C', 'L', 'S'], rfl⟩
  have gives : request.Gives (host.setUp now request).disk .chip8 0x200 ['C', 'L', 'S'] := by
    refine ⟨⟨_, rfl, rfl⟩, rfl, ?_, fun _ => rfl⟩
    intro text impossible
    cases impossible
  have builds : request.Builds (host.setUp now request).disk :=
    ⟨.chip8, 0x200, ['C', 'L', 'S'], [0x00, 0xE0], gives, rfl⟩
  have null : request.HasNull := ⟨['o', Char.ofNat 0], rfl, by decide⟩
  exact ⟨parsed, rfl, builds, null, (ends.targeted (by decide)).two.mpr ⟨builds, null⟩⟩

/-- `CLS` is read, has the same bytes at every target's address and its output opens, but
`--target=--` leaves no target. -/
theorem run_crashes_without_target :
    let now : Clock := fun _ => "now"
    let host : Host := { disk := ⟨[([['w']], .directory),
      ([['w'], ['p']], .file (Utf8.encode ['C', 'L', 'S']))], [['w']]⟩ }
    let arguments := [['p'], ['-', '-', 't', 'a', 'r', 'g', 'e', 't', '=', '-', '-']]
    let request : Request := { input := ['p'], target? := none }
    Request.parse arguments = .ok request ∧ (host.setUp now request).refusal? = none ∧
      Char.ofNat 0 ∉ request.input ∧
      (host.setUp now request).disk.read request.input = .ok (Utf8.encode ['C', 'L', 'S']) ∧
      Utf8.decode? (Utf8.encode ['C', 'L', 'S']) = some ['C', 'L', 'S'] ∧ request.origin = none ∧
      (∀ target : Target, (assemble target.origin ['C', 'L', 'S']).bytes = .ok [0x00, 0xE0]) ∧
      request.Opens (host.setUp now request).disk ∧
      (host.run now arguments).2.ending = .crash .noTarget := by
  refine ⟨rfl, rfl, by decide, rfl, rfl, rfl, ?_, ?_, rfl⟩
  · rintro (_ | _) <;> rfl
  · rintro _ ⟨rfl⟩
    exact ⟨[['w'], ['a', '.', 'c', '8']], rfl⟩

end Host

end ChipEight.CommandLine
