import ChipEight.CommandLine.Request
import ChipEight.Assembly

set_option autoImplicit false

/-!
Runs of the command line on a tree of files, one after the other on a host: what a run prints,
what it shows of its events, how it ends, and the log and the tree that it leaves.
-/

namespace ChipEight.CommandLine

open Text

/-- What a run does not answer for and lets through. -/
inductive Crash where
  | file (refusal : Disk.Refusal)
  | notText
  /-- The target was left empty. -/
  | noTarget
deriving DecidableEq

inductive Ending where
  | exit (status : Nat)
  | crash (crash : Crash)
deriving DecidableEq

structure Transcript where
  ending : Ending
  stdout : String := ""
  stderr : String := ""
  events : List Event := []
  disk : Disk

namespace Transcript

def after (transcript : Transcript) (events : List Event) : Transcript :=
  { transcript with events := events ++ transcript.events }

def behind (transcript : Transcript) (text : String) : Transcript :=
  { transcript with stderr := text ++ transcript.stderr }

def failed (disk : Disk) (status : Nat) (line : String) : Transcript :=
  { ending := .exit status, stderr := line ++ "\n", disk }

end Transcript

namespace Run

private def shown (text : List Char) : String := String.ofList text

/-- The line that stands for the trace of an internal error. -/
def traceLine : String := "<traceback>\n"

/-- What a talkative run tells before it assembles. -/
def banner (request : Request) (target : Target) (base : Int) : String :=
  if request.verbose = 0 then ""
  else
    "[c8asm] Input:  " ++ shown request.input ++ "\n" ++
    s!"[c8asm] Target: {target.name} - {target.description}\n" ++
    "[c8asm] ORG:    0x" ++ shown (Hexadecimal.padded 3 base) ++ "\n"

def receipt (request : Request) (path : List Char) (size : Nat) : String :=
  if request.verbose = 0 then ""
  else
    "[c8asm] Output: " ++ shown path ++ s!" ({size} bytes, {size / instructionSize} instructions)\n"

/-- An error that is not the source's. -/
def internal (request : Request) (disk : Disk) (message : String) : Transcript :=
  { ending := .exit 2
    stderr := "Internal assembler error: " ++ message ++ "\n" ++
      if request.verbose = 0 then "" else traceLine
    disk }

def deliver (request : Request) (disk : Disk) (path : List Char) (bytes : List UInt8)
    (receipt : String) : Transcript :=
  match disk.write path bytes with
  | .ok written => { ending := .exit 0, stderr := receipt, disk := written }
  | .error .nullCharacter => internal request disk (Disk.Refusal.message .nullCharacter path)
  | .error refusal => .failed disk 1 ("Error writing output: " ++ refusal.message path)

def output (request : Request) (disk : Disk) (assembly : Assembly) : Transcript :=
  match assembly.result with
  | .error fault =>
    if fault.position?.isSome then .failed disk 1 ("Assembler error: " ++ fault.message)
    else internal request disk fault.message
  | .ok emissions =>
    match request.format with
    | .listing =>
      let listing := Listing.text emissions assembly.layout.placed ++ ['\n']
      match request.outputPath? with
      | some path => deliver request disk path (Utf8.encode listing) ""
      | none => { ending := .exit 0, stdout := shown listing, disk }
    | .binary =>
      let bytes := Emission.image emissions
      let path := request.outputPath?.getD defaultOutput.toList
      deliver request disk path bytes (receipt request path bytes.length)

def build (clock : Clock) (log : Log) (request : Request) (target : Target) (disk : Disk)
    (source : List Char) : Transcript :=
  match request.base? target with
  | none => .failed disk 1 ("Error: invalid --org value: " ++ shown (request.origin.getD []))
  | some base =>
    let assembly := assemble base (Newline.unified source)
    ((output request (log.record disk (clock.stamp assembly.log)) assembly).behind
      (banner request target base)).after (log.shown assembly.log)

/-- Reads the source, then looks up the target and builds the source for it. -/
def perform (clock : Clock) (log : Log) (request : Request) (disk : Disk) : Transcript :=
  match disk.read request.input with
  | .error .nullCharacter => { ending := .crash (.file .nullCharacter), disk }
  | .error .notFound => .failed disk 1 ("Error: File not found: " ++ shown request.input)
  | .error refusal =>
    .failed disk 1 ("Error reading " ++ shown request.input ++ ": " ++
      refusal.message request.input)
  | .ok bytes =>
    match Utf8.decode? bytes with
    | none => { ending := .crash .notText, disk }
    | some source =>
      match request.target? with
      | none => { ending := .crash .noTarget, disk }
      | some target => build clock log request target disk source

def paths (request : Request) : List (List Char) :=
  request.input :: request.outputPath?.getD defaultOutput.toList :: request.logPath?.toList

def refuse (disk : Disk) : Stop → Transcript
  | .help => { ending := .exit 0, stdout := help, disk }
  | .version => { ending := .exit 0, stdout := versionLine, disk }
  | .misuse misuse => .failed disk 2 (usage ++ "c8asm: error: " ++ misuse.message)

end Run

/-- What runs one after the other share: the log, and the tree of files. -/
structure Host where
  log : Log := {}
  disk : Disk

namespace Host

/-- The log of a host after it was set up for a request; the first time is for the first event of a
log file. -/
def setUp (host : Host) (clock : Clock) (request : Request) : Log.Setup :=
  host.log.setUp (clock 0) host.disk request.threshold request.logPath?

def execute (host : Host) (clock : Clock) (request : Request) : Host × Transcript :=
  let setup := host.setUp clock request
  match setup.refusal? with
  | some refusal =>
    (⟨setup.log, setup.disk⟩, { ending := .crash (.file refusal), disk := setup.disk })
  | none =>
    let transcript := (Run.perform clock.rest setup.log request setup.disk).after setup.events
    (⟨setup.log, transcript.disk⟩, transcript)

def run (host : Host) (clock : Clock) (arguments : List (List Char)) : Host × Transcript :=
  match Request.parse arguments with
  | .error stop => (host, Run.refuse host.disk stop)
  | .ok request => host.execute clock request

def after (host : Host) (runs : List (Clock × List (List Char))) : Host :=
  runs.foldl (fun host entry => (host.run entry.1 entry.2).1) host

end Host

/-- Runs the program with arguments on a tree of files, with a log that has no sink yet. -/
def Run.run (clock : Clock) (disk : Disk) (arguments : List (List Char)) : Transcript :=
  (Host.run { disk } clock arguments).2

end ChipEight.CommandLine
