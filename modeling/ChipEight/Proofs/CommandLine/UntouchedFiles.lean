import ChipEight.Proofs.CommandLine.Courses

set_option autoImplicit false

/-!
The files that a run leaves alone.  A run that does not end well changes its log file at most; one
that does changes its output file as well, unless its listing was printed.
-/

namespace ChipEight.CommandLine

open Disk (Location Keeps)

def logPlaces (disk : Disk) (arguments : List (List Char)) : List Location :=
  match Request.parse arguments with
  | .error _ => []
  | .ok request => (request.logPath?.map (Log.placeOf disk)).toList

/-- The place of the output file that arguments lead to, unless their listing is printed. -/
def outputPlaces (disk : Disk) (arguments : List (List Char)) : List Location :=
  match Request.parse arguments with
  | .error _ => []
  | .ok request => (request.destination?.map disk.placeOf).toList

namespace Host

variable {host : Host} {clock : Clock} {arguments : List (List Char)} {request : Request}

theorem logPlaces_of_parse (disk : Disk) (parsed : Request.parse arguments = .ok request) :
    logPlaces disk arguments = (request.logPath?.map (Log.placeOf disk)).toList := by
  rw [logPlaces, parsed]

theorem outputPlaces_of_parse (disk : Disk) (parsed : Request.parse arguments = .ok request) :
    outputPlaces disk arguments = (request.destination?.map disk.placeOf).toList := by
  rw [outputPlaces, parsed]

theorem keeps_recorded (opens : (host.setUp clock request).refusal? = none) :
    Keeps (request.logPath?.map (Log.placeOf host.disk)).toList host.disk
      (host.recorded clock request) :=
  (ready_of_opens opens).keeps.trans ((ready_of_opens opens).recorded _).keeps

theorem place_of_writable (opens : (host.setUp clock request).refusal? = none)
    {path : List Char} {place : Location}
    (free : (host.recorded clock request).writable path = .ok place) :
    place = host.disk.placeOf path := by
  rw [Disk.eq_placeOf_of_locate (Disk.writable_eq_ok_iff.mp free).2.1,
    Disk.placeOf_of_here (keeps_recorded opens).here]

private theorem keeps_run_of_ready (parsed : Request.parse arguments = .ok request)
    (opens : (host.setUp clock request).refusal? = none) :
    Keeps (logPlaces host.disk arguments) host.disk (host.run clock arguments).2.disk ∨
      (host.run clock arguments).2.ending = .exit 0 ∧
        Keeps (logPlaces host.disk arguments ++ outputPlaces host.disk arguments) host.disk
          (host.run clock arguments).2.disk := by
  rw [logPlaces_of_parse host.disk parsed, outputPlaces_of_parse host.disk parsed]
  rcases disk_cases parsed opens with
    same | ⟨ended, base, text, path, place, -, named, free, same⟩
  · left
    rw [same]
    exact keeps_recorded opens
  · right
    refine ⟨ended, ?_⟩
    have touched : (request.destination?.map host.disk.placeOf).toList = [place] := by
      rw [named, place_of_writable opens free]
      rfl
    have vacant := (Disk.writable_eq_ok_iff.mp free).2.2
    have output := Disk.keeps_put (request.product base text) vacant
    rw [same, touched]
    exact ((keeps_recorded opens).mono (List.subset_append_left _ _)).trans
      (output.mono (List.subset_append_right _ _))

theorem keeps_run (host : Host) (clock : Clock) (arguments : List (List Char)) :
    Keeps (logPlaces host.disk arguments) host.disk (host.run clock arguments).2.disk ∨
      (host.run clock arguments).2.ending = .exit 0 ∧
        Keeps (logPlaces host.disk arguments ++ outputPlaces host.disk arguments) host.disk
          (host.run clock arguments).2.disk := by
  cases parsed : Request.parse arguments with
  | error stop =>
    left
    rw [run_of_stop parsed]
    cases stop <;> exact .refl _ host.disk
  | ok request =>
    cases closed : (host.setUp clock request).refusal? with
    | none => exact keeps_run_of_ready parsed closed
    | some refusal =>
      left
      rw [run_of_refusal parsed closed]
      exact Log.keeps_setUp host.log _ closed

/-- A run that fails leaves all files but its log as they were, and makes no other; a run that ends
well may change its output file besides. -/
theorem run_spares_other_files (host : Host) (clock : Clock) (arguments : List (List Char)) :
    ((host.run clock arguments).2.ending ≠ .exit 0 →
      Keeps (logPlaces host.disk arguments) host.disk (host.run clock arguments).2.disk) ∧
    ((host.run clock arguments).2.ending = .exit 0 →
      Keeps (logPlaces host.disk arguments ++ outputPlaces host.disk arguments) host.disk
        (host.run clock arguments).2.disk) := by
  rcases keeps_run host clock arguments with keeps | ⟨ended, keeps⟩
  · exact ⟨fun _ => keeps, fun _ => keeps.mono (List.subset_append_left _ _)⟩
  · exact ⟨fun failed => absurd ended failed, fun _ => keeps⟩

/-- `JP X` is refused and leaves the file that was to be the output; `CLS` is assembled, and its
output is also its log. -/
theorem run_spares_other_files_refused :
    let now : Clock := fun _ => "now"
    let host : Host := { disk := ⟨[([['w']], .directory), ([['w'], ['o']], .file [7]),
      ([['w'], ['p']], .file (Text.Utf8.encode ['J', 'P', ' ', 'X'])),
      ([['w'], ['q']], .file (Text.Utf8.encode ['C', 'L', 'S']))], [['w']]⟩ }
    let option := ['-', '-', 'l', 'o', 'g', '-', 'f', 'i', 'l', 'e', '=']
    let refused := [['p'], ['-', 'o', 'o'], option ++ ['d', '/', 'l']]
    let accepted := [['q'], ['-', 'o', 'o'], option ++ ['o']]
    ((host.run now refused).2.ending = .exit 1 ∧
      Keeps [[['w'], ['d'], ['l']]] host.disk (host.run now refused).2.disk) ∧
    (host.run now accepted).2.ending = .exit 0 ∧
      Keeps [[['w'], ['o']], [['w'], ['o']]] host.disk (host.run now accepted).2.disk := by
  intro now host option refused accepted
  have failed : (host.run now refused).2.ending = .exit 1 := by decide +kernel
  have done : (host.run now accepted).2.ending = .exit 0 := by decide +kernel
  have log : logPlaces host.disk refused = [[['w'], ['d'], ['l']]] := by decide +kernel
  have both : logPlaces host.disk accepted ++ outputPlaces host.disk accepted =
      [[['w'], ['o']], [['w'], ['o']]] := by decide +kernel
  have spared := (host.run_spares_other_files now refused).1 (by rw [failed]; decide)
  have written := (host.run_spares_other_files now accepted).2 done
  rw [log] at spared
  rw [both] at written
  exact ⟨⟨failed, spared⟩, done, written⟩

end Host

end ChipEight.CommandLine
