import ChipEight.CommandLine.Run
import Std.Time

set_option autoImplicit false

/-!
The program: it takes a picture of the files that its arguments name, runs on the picture, and
writes back what has changed.
-/

namespace ChipEight.Main

open ChipEight.CommandLine

def pathOf (location : Disk.Location) : String :=
  "/" ++ String.intercalate "/" (location.map String.ofList)

def probe (location : Disk.Location) : IO (Option Disk.Entry) := do
  let path := (← IO.currentDir) / pathOf location
  if ← path.isDir then
    return some .directory
  else if ← path.pathExists then
    return some (.file (← IO.FS.readBinFile path).data.toList)
  else
    return none

/-- The part of the real tree that a run may look at. -/
def picture (arguments : List (List Char)) : IO Disk := do
  let here := Disk.Path.namesOf (← IO.currentDir).toString.toList
  let empty : Disk := ⟨[], here⟩
  let paths := match Request.parse arguments with
    | .ok request => Run.paths request
    | .error _ => []
  let places := empty.route (pathOf here).toList
  let named := paths.flatMap fun path =>
    empty.lexical (Disk.Path.ofText path) :: empty.route path
  let add (disk : Disk) (location : Disk.Location) : IO Disk := do
    match ← probe location with
    | some entry => return disk.put location entry
    | none => return disk
  (places ++ named).foldlM add empty

/-- Writes back what a run has changed, directories before what lies in them. -/
def restore (before after : Disk) : IO Unit := do
  for (location, entry) in after.entries.reverse do
    if before.at? location != some entry then
      match entry with
      | .directory => IO.FS.createDirAll (pathOf location)
      | .file bytes => IO.FS.writeBinFile (pathOf location) ⟨bytes.toArray⟩

def status : Ending → IO UInt32
  | .exit status => return UInt32.ofNat status
  | .crash (.file refusal) => do
    IO.eprintln refusal.description
    return 1
  | .crash .notText => do
    IO.eprintln "the source is not valid UTF-8"
    return 1
  | .crash .noTarget => do
    IO.eprintln "no target is given"
    return 1

end ChipEight.Main

open ChipEight ChipEight.CommandLine in
def main (arguments : List String) : IO UInt32 := do
  let words := arguments.map String.toList
  let before ← Main.picture words
  let time := (← Std.Time.PlainDateTime.now).format "uuuu-MM-dd HH:mm:ss"
  -- The picture is worked on in one go, within one tick of the clock.
  let transcript := Run.run (fun _ => time) before words
  Main.restore before transcript.disk
  for event in transcript.events do
    IO.eprintln s!"{event.level.name} {event.message}"
  IO.print transcript.stdout
  IO.eprint transcript.stderr
  Main.status transcript.ending
