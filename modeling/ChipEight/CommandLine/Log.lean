import ChipEight.Disk
import ChipEight.Event
import ChipEight.Text.Basic

set_option autoImplicit false

/-!
Logs: every event goes to each sink of a log, the console or a file, and is stamped with its time
when it does.  One log serves all runs on a host, and each run sets it up anew.
-/

namespace ChipEight.CommandLine.Verbosity

/-- The least rank of an event that is shown: errors only, warnings, information, or everything. -/
def threshold (verbose : Int) (quiet : Bool) : Nat :=
  if quiet then 40
  else if verbose = 0 then 30
  else if verbose = 1 then 20
  else 10

def shown (threshold : Nat) (events : List Event) : List Event :=
  events.filter fun event => threshold ≤ event.level.rank

end ChipEight.CommandLine.Verbosity

namespace ChipEight.CommandLine

open Text

/-- The times of the events of a run, by their number. -/
abbrev Clock := Nat → String

structure Record where
  time : String
  event : Event
deriving DecidableEq

namespace Clock

def rest (clock : Clock) : Clock := fun number => clock (number + 1)

def stamp (clock : Clock) (events : List Event) : List Record :=
  events.mapIdx fun number event => ⟨clock number, event⟩

theorem stamp_cons (clock : Clock) (event : Event) (events : List Event) :
    clock.stamp (event :: events) = ⟨clock 0, event⟩ :: clock.rest.stamp events :=
  List.mapIdx_cons

end Clock

/-- A way out for the events from a rank on: the file at a place, or the console. -/
structure Sink where
  threshold : Nat
  place? : Option Disk.Location := none
deriving DecidableEq

/-- Sinks, in the order in which they take an event. -/
structure Log where
  sinks : List Sink := []
deriving DecidableEq

namespace Log

def levelWidth : Nat := 7

def line (record : Record) : List Char :=
  let level := record.event.level.name
  (record.time ++ " | " ++ level).toList ++ List.replicate (levelWidth - level.length) ' ' ++
    (" | " ++ record.event.channel.name ++ " | " ++ record.event.message ++ "\n").toList

def lines (records : List Record) : List UInt8 :=
  Utf8.encode (records.flatMap line)

end Log

namespace Sink

/-- The tree after a record went to the sink; a file gets a line behind what it held before. -/
def write (record : Record) (disk : Disk) (sink : Sink) : Disk :=
  match sink.place? with
  | some place =>
    if sink.threshold ≤ record.event.level.rank then disk.append place (Log.lines [record])
    else disk
  | none => disk

def shown (event : Event) (sink : Sink) : List Event :=
  match sink.place? with
  | some _ => []
  | none => Verbosity.shown sink.threshold [event]

end Sink

namespace Log

def record (log : Log) (disk : Disk) (records : List Record) : Disk :=
  records.foldl (fun disk record => log.sinks.foldl (Sink.write record) disk) disk

def shown (log : Log) (events : List Event) : List Event :=
  events.flatMap fun event => log.sinks.flatMap (Sink.shown event)

def add (log : Log) (sink : Sink) : Log :=
  ⟨log.sinks ++ [sink]⟩

def remove (log : Log) (sink : Sink) : Log :=
  ⟨log.sinks.erase sink⟩

def clear (log : Log) : Log :=
  log.sinks.foldl remove log

def opening (file : List Char) : Event :=
  .logOpened (Disk.Path.ofText file).text

/-- The place of a log file that is opened for more lines: the directories above it are made, and it
must not be one itself. -/
def openFile (disk : Disk) (file : List Char) : Disk × Except Disk.Refusal Disk.Location :=
  let path := Disk.Path.ofText file
  match disk.ensureDirectories path.root path.parent.names.reverse with
  | (made, some refusal) => (made, .error refusal)
  | (made, none) =>
    match made.writable (made.absolute path) with
    | .error refusal => (made, .error refusal)
    | .ok place => (made.append place [], .ok place)

structure Setup where
  log : Log
  disk : Disk
  events : List Event := []
  refusal? : Option Disk.Refusal := none

/-- Sets a log up for a run: the sinks of earlier runs go, then a console comes, then the file if
one is named.  A refused file leaves the console. -/
def setUp (log : Log) (time : String) (disk : Disk) (threshold : Nat) (file? : Option (List Char)) :
    Setup :=
  let console := log.clear.add { threshold }
  match file? with
  | none => { log := console, disk }
  | some file =>
    match openFile disk file with
    | (made, .error refusal) => { log := console, disk := made, refusal? := some refusal }
    | (made, .ok place) =>
      let both := console.add { threshold := Level.debug.rank, place? := some place }
      { log := both
        disk := both.record made [⟨time, opening file⟩]
        events := both.shown [opening file] }

end Log

end ChipEight.CommandLine
