import ChipEight.CommandLine.Log
import ChipEight.Proofs.Disk.Places

set_option autoImplicit false

/-!
The sinks of a log that is set up.  Whatever sinks it had, it keeps none of them: it has a console,
and a file if one is named.  Every event goes to the file, behind what the file held, and to the
console if its rank is high enough; no other file gets anything.
-/

namespace ChipEight

namespace Event

/-- What a log file shows between the time and the message of an event, the level left-justified to
seven characters and the channel; and the rank of the level. -/
def heading : Event → String × Nat
  | logOpened _ => ("DEBUG   | chip8asm", 10)
  | laidOut _ _ | encoded _ _ _ | finished _ => ("DEBUG   | chip8asm.assembler", 10)
  | redefined _ | unreferenced _ | overrun _ => ("WARNING | chip8asm.assembler", 30)
  | truncated _ => ("WARNING | chip8asm.instructions", 30)

def entry (time : String) (event : Event) : String :=
  time ++ " | " ++ event.heading.1 ++ " | " ++ event.message ++ "\n"

theorem rank_level (event : Event) : event.level.rank = event.heading.2 := by
  cases event <;> rfl

private theorem toList_heading (event : Event) :
    event.heading.1.toList = event.level.name.toList ++
      (List.replicate (CommandLine.Log.levelWidth - event.level.name.length) ' ' ++
        (" | ".toList ++ event.channel.name.toList)) := by
  cases event <;> simp only [heading, level, channel, Level.name, Channel.name] <;> decide

theorem line_eq_entry (time : String) (event : Event) :
    CommandLine.Log.line ⟨time, event⟩ = (event.entry time).toList := by
  simp only [CommandLine.Log.line, entry, String.toList_append, toList_heading, List.append_assoc]

end Event

namespace CommandLine.Log

open Disk (Location Path Keeps SameDirectories)

def ofRun (threshold : Nat) (place? : Option Location) : Log :=
  ⟨{ threshold } :: place?.toList.map fun place =>
    { threshold := Level.debug.rank, place? := some place }⟩

def placeOf (disk : Disk) (file : List Char) : Location :=
  disk.placeOf (disk.absolute (Path.ofText file))

theorem clear_eq (log : Log) : log.clear = {} := by
  obtain ⟨sinks⟩ := log
  rw [clear]
  induction sinks with
  | nil => rfl
  | cons sink sinks ih =>
    have first : remove ⟨sink :: sinks⟩ sink = ⟨sinks⟩ := by
      rw [remove, List.erase_cons_head]
    rw [List.foldl_cons, first, ih]

section Recording

variable {place? : Option Location} {place : Location} {disk : Disk}

theorem lines_append (records more : List Record) :
    lines (records ++ more) = lines records ++ lines more := by
  rw [lines, List.flatMap_append, Text.Utf8.encode_append, lines, lines]

theorem lines_nil : lines [] = [] := by
  have halves := lines_append [] []
  rw [List.append_nil] at halves
  exact List.append_right_eq_self.mp halves.symm

theorem lines_singleton (time : String) (event : Event) :
    lines [⟨time, event⟩] = Text.Utf8.encode (event.entry time).toList := by
  rw [lines, List.flatMap_singleton, event.line_eq_entry]

theorem lines_stamp (clock : Clock) (events : List Event) :
    lines (clock.stamp events) = Text.Utf8.encode
      ((events.mapIdx fun number event => event.entry (clock number)).flatMap String.toList) := by
  induction events generalizing clock with
  | nil => rfl
  | cons event events ih =>
    rw [Clock.stamp_cons, ← List.singleton_append, lines_append, lines_singleton, ih,
      List.mapIdx_cons, List.flatMap_cons, Text.Utf8.encode_append]
    rfl

theorem debug_rank_le (level : Level) : Level.debug.rank ≤ level.rank := by
  cases level <;> decide

theorem record_cons (log : Log) (disk : Disk) (record : Record) (records : List Record) :
    log.record disk (record :: records) = log.record (log.record disk [record]) records := rfl

theorem record_ofRun_none (threshold : Nat) (disk : Disk) (records : List Record) :
    (ofRun threshold none).record disk records = disk := by
  induction records with
  | nil => rfl
  | cons record records ih =>
    rw [record_cons]
    exact ih

private theorem record_ofRun_singleton (threshold : Nat) (place : Location) (disk : Disk)
    (record : Record) :
    (ofRun threshold (some place)).record disk [record] = disk.append place (lines [record]) := by
  simp [Log.record, ofRun, Sink.write, debug_rank_le]

/-- What the records of a run change on a tree where its file stands: the file gets their lines, and
nothing else. -/
structure Recorded (place? : Option Location) (records : List Record) (before after : Disk) :
    Prop where
  keeps : Keeps place?.toList before after
  directories : SameDirectories before after
  lines : ∀ place, place? = some place → ∀ old, before.file? place = some old →
    after.file? place = some (old ++ lines records)

private theorem recorded_refl (place? : Option Location) (disk : Disk) :
    Recorded place? [] disk disk where
  keeps := .refl _ disk
  directories := ⟨rfl, fun _ => Iff.rfl⟩
  lines := by
    intro place _ old stands
    rw [lines_nil, List.append_nil]
    exact stands

private theorem recorded_singleton (threshold : Nat) (record : Record) {old : List UInt8}
    (stands : disk.file? place = some old) :
    Recorded (some place) [record] disk
      ((ofRun threshold (some place)).record disk [record]) := by
  have vacant := Disk.at?_ne_of_file? stands
  rw [record_ofRun_singleton, Disk.append_eq_put, stands]
  refine ⟨Disk.keeps_put _ vacant, Disk.sameDirectories_put _ vacant, ?_⟩
  rintro _ ⟨rfl⟩ other held
  rw [stands] at held
  cases held
  exact Disk.file?_put_self _ vacant

private theorem Recorded.trans {records more : List Record} {before middle after : Disk}
    (first : Recorded place? records before middle) (second : Recorded place? more middle after) :
    Recorded place? (records ++ more) before after where
  keeps := first.keeps.trans second.keeps
  directories := by
    refine ⟨second.directories.here.trans first.directories.here, ?_⟩
    intro other
    rw [second.directories.directory, first.directories.directory]
  lines := by
    intro place named old stands
    have half := first.lines place named old stands
    rw [lines_append, ← List.append_assoc]
    exact second.lines place named _ half

theorem recorded_record (threshold : Nat) (records : List Record)
    (stands : ∀ place, place? = some place → ∃ old, disk.file? place = some old) :
    Recorded place? records disk ((ofRun threshold place?).record disk records) := by
  cases place? with
  | none =>
    rw [record_ofRun_none]
    have same := recorded_refl none disk
    exact ⟨same.keeps, same.directories, fun place impossible => nomatch impossible⟩
  | some place =>
    -- The file is there before each record, so each record finds it and adds to it.
    obtain ⟨old, held⟩ := stands place rfl
    clear stands
    induction records generalizing disk old with
    | nil => exact recorded_refl (some place) disk
    | cons record records ih =>
      rw [record_cons]
      have first := recorded_singleton threshold record held
      exact first.trans (ih _ (first.lines place rfl old held))

theorem shown_ofRun (threshold : Nat) (place? : Option Location) (events : List Event) :
    (ofRun threshold place?).shown events = Verbosity.shown threshold events := by
  have files : ∀ event, (place?.toList.map fun place =>
      ({ threshold := Level.debug.rank, place? := some place } : Sink)).flatMap (Sink.shown event) =
        [] := by
    intro event
    cases place? <;> rfl
  induction events with
  | nil => rfl
  | cons event events ih =>
    have split : Verbosity.shown threshold (event :: events) =
        Verbosity.shown threshold [event] ++ Verbosity.shown threshold events :=
      List.filter_append [event] events
    rw [split, ← ih, shown, List.flatMap_cons]
    congr 1
    rw [ofRun, List.flatMap_cons, files, List.append_nil]
    rfl

end Recording

section SettingUp

variable {time : String} {disk : Disk} {threshold : Nat} {file? : Option (List Char)}

/-- What a log is like after it was set up on a tree: it has the sinks of one run, the console has
shown the first event of its file and the file holds its line, and nothing else was touched. -/
structure Ready (time : String) (disk : Disk) (threshold : Nat) (file? : Option (List Char))
    (setup : Setup) : Prop where
  log : setup.log = ofRun threshold (file?.map (placeOf disk))
  events : setup.events = Verbosity.shown threshold (file?.toList.map opening)
  keeps : Keeps (file?.map (placeOf disk)).toList disk setup.disk
  lines : ∀ file, file? = some file → setup.disk.file? (placeOf disk file) =
    some ((disk.file? (placeOf disk file)).getD [] ++ lines [⟨time, opening file⟩])

private theorem openFile_eq_ok {file : List Char} {made : Disk} {place : Location}
    (opens : openFile disk file = (made, .ok place)) :
    place = placeOf disk file ∧ Keeps [place] disk made ∧
      made.file? place = some ((disk.file? place).getD []) := by
  rw [openFile] at opens
  have keeps := fun touched => Disk.keeps_ensureDirectories touched disk (Path.ofText file).root
    (Path.ofText file).parent.names.reverse
  split at opens
  · cases opens
  · rename_i between done
    rw [done] at keeps
    dsimp only at keeps opens
    split at opens
    · cases opens
    · rename_i found free
      cases opens
      obtain ⟨-, located, vacant⟩ := Disk.writable_eq_ok_iff.mp free
      have named : place = placeOf disk file := by
        rw [Disk.eq_placeOf_of_locate located, Disk.placeOf_of_here (keeps []).here,
          Disk.absolute_of_here (keeps []).here, placeOf]
      have same := (keeps []).file place List.not_mem_nil
      rw [Disk.append_eq_put, List.append_nil, same]
      exact ⟨named, (keeps [place]).trans (Disk.keeps_put _ vacant),
        Disk.file?_put_self _ vacant⟩

private theorem keeps_openFile {file : List Char} {made : Disk} {refusal : Disk.Refusal}
    (touched : List Location) (refused : openFile disk file = (made, .error refusal)) :
    Keeps touched disk made := by
  rw [openFile] at refused
  have keeps := Disk.keeps_ensureDirectories touched disk (Path.ofText file).root
    (Path.ofText file).parent.names.reverse
  split at refused
  · rename_i between other done
    rw [done] at keeps
    cases refused
    exact keeps
  · rename_i between done
    rw [done] at keeps
    dsimp only at keeps refused
    split at refused
    · cases refused
      exact keeps
    · cases refused

theorem ready_setUp (log : Log)
    (opens : (log.setUp time disk threshold file?).refusal? = none) :
    Ready time disk threshold file? (log.setUp time disk threshold file?) := by
  have console : log.clear.add { threshold } = ofRun threshold none := by
    rw [clear_eq]
    rfl
  unfold setUp at opens ⊢
  rw [console] at opens ⊢
  cases file? with
  | none => exact ⟨rfl, rfl, .refl _ disk, fun file impossible => nomatch impossible⟩
  | some file =>
    dsimp only at opens ⊢
    split at opens
    · cases opens
    · rename_i made place opened
      obtain ⟨named, keeps, held⟩ := openFile_eq_ok opened
      have both : (ofRun threshold none).add
          { threshold := Level.debug.rank, place? := some place } =
            ofRun threshold (some place) := rfl
      rw [both]
      have stands : ∀ other, some place = some other → ∃ old, made.file? other = some old := by
        rintro _ ⟨rfl⟩
        exact ⟨_, held⟩
      have recorded := recorded_record threshold [⟨time, opening file⟩] stands
      subst named
      refine ⟨rfl, ?_, keeps.trans recorded.keeps, ?_⟩
      · exact shown_ofRun threshold _ _
      · rintro _ ⟨rfl⟩
        exact recorded.lines _ rfl _ held

theorem Ready.recorded {setup : Setup} (ready : Ready time disk threshold file? setup)
    (records : List Record) :
    Recorded (file?.map (placeOf disk)) records setup.disk
      (setup.log.record setup.disk records) := by
  rw [ready.log]
  apply recorded_record
  intro place named
  obtain ⟨file, given, rfl⟩ := Option.map_eq_some_iff.mp named
  exact ⟨_, ready.lines file given⟩

theorem keeps_setUp (log : Log) (touched : List Location) {refusal : Disk.Refusal}
    (refused : (log.setUp time disk threshold file?).refusal? = some refusal) :
    Keeps touched disk (log.setUp time disk threshold file?).disk := by
  unfold setUp at refused ⊢
  cases file? with
  | none => cases refused
  | some file =>
    dsimp only at refused ⊢
    split at refused
    · rename_i made other stopped
      exact keeps_openFile touched stopped
    · cases refused

end SettingUp

end CommandLine.Log

end ChipEight
