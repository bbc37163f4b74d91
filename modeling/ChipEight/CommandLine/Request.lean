import ChipEight.CommandLine.Log
import ChipEight.CommandLine.Word
import ChipEight.Target

set_option autoImplicit false

/-!
Requests: what a run is asked to do, and what follows from it for the output's format, the base
address and the events that are shown.  A request is read from arguments, from left to right: the
first word that is no option and no option's value is the input; of an option given twice, the last
value counts.
-/

namespace ChipEight.CommandLine

inductive Format where
  | binary
  | listing
deriving DecidableEq

namespace Format

def all : List Format := [binary, listing]

def name : Format → String
  | binary => "bin"
  | listing => "listing"

def ofName? (name : String) : Option Format :=
  all.find? (·.name == name)

end Format

structure Request where
  input : List Char
  output : Option (List Char) := none
  format? : Option Format := none
  target? : Option Target := some .chip8
  origin : Option (List Char) := none
  verbose : Nat := 0
  quiet : Bool := false
  logFile : Option (List Char) := none
deriving DecidableEq

namespace Request

/-- The path of the output, if one is named; an empty one counts as none. -/
def outputPath? (request : Request) : Option (List Char) :=
  request.output.filter (!·.isEmpty)

def logPath? (request : Request) : Option (List Char) :=
  request.logFile.filter (!·.isEmpty)

/-- The format that is asked for, else a listing if the output's extension tells so. -/
def format (request : Request) : Format :=
  match request.format? with
  | some format => format
  | none =>
    match request.outputPath? with
    | some path =>
      if (Disk.extension path).map Char.toLower = ".lst".toList then .listing else .binary
    | none => .binary

/-- The base address: the origin if one is given, else the target's; `none` if it is no number. -/
def base? (request : Request) (target : Target) : Option Int :=
  match request.origin.filter (!·.isEmpty) with
  | some text => Origin.read? text
  | none => some target.origin

def threshold (request : Request) : Nat :=
  Verbosity.threshold request.verbose request.quiet

end Request

inductive Stop where
  | help
  | version
  | misuse (misuse : Misuse)
deriving DecidableEq

structure Draft where
  input : Option (List Char) := none
  request : Request := { input := [] }
  extras : List (List Char) := []
deriving DecidableEq

namespace Draft

def takeBare (draft : Draft) (text : List Char) : Draft :=
  match draft.input with
  | none => { draft with input := some text }
  | some _ => { draft with extras := draft.extras ++ [text] }

def takeExtra (draft : Draft) (text : List Char) : Draft :=
  { draft with extras := draft.extras ++ [text] }

/-- The draft with one setting; an option left empty goes back to having no value. -/
def apply (draft : Draft) (setting : Setting) : Except Stop Draft :=
  let request := draft.request
  let value? := setting.value?
  match setting.switch with
  | .help => .error .help
  | .version => .error .version
  | .verbose => .ok { draft with request := { request with verbose := request.verbose + 1 } }
  | .quiet => .ok { draft with request := { request with quiet := true } }
  | .output => .ok { draft with request := { request with output := value? } }
  | .origin => .ok { draft with request := { request with origin := value? } }
  | .logFile => .ok { draft with request := { request with logFile := value? } }
  | .format =>
    match value? with
    | none => .ok { draft with request := { request with format? := none } }
    | some value =>
      match Format.ofName? (String.ofList value) with
      | some format => .ok { draft with request := { request with format? := some format } }
      | none => .error (.misuse (.invalidChoice .format value (Format.all.map Format.name)))
  | .target =>
    match value? with
    | none => .ok { draft with request := { request with target? := none } }
    | some value =>
      match Target.ofName? (String.ofList value) with
      | some target => .ok { draft with request := { request with target? := some target } }
      | none => .error (.misuse (.invalidChoice .target value (Target.all.map Target.name)))

def applyAll (draft : Draft) : List Setting → Except Stop Draft
  | [] => .ok draft
  | setting :: settings =>
    match draft.apply setting with
    | .error stop => .error stop
    | .ok changed => changed.applyAll settings

/-- Reads words from left to right.  A divider beside the input is dropped. -/
def readWords (draft : Draft) : List Word → Except Stop Draft
  | [] => .ok draft
  | .bare text :: .divider :: rest =>
    if draft.input.isNone then (draft.takeBare text).readWords rest
    else ((draft.takeBare text).takeExtra ['-', '-']).readWords rest
  | .bare text :: rest => (draft.takeBare text).readWords rest
  | .divider :: .bare text :: rest =>
    if draft.input.isNone then (draft.takeBare text).readWords rest
    else ((draft.takeExtra ['-', '-']).takeBare text).readWords rest
  | .divider :: rest => (draft.takeExtra ['-', '-']).readWords rest
  | .unknown text :: rest => (draft.takeExtra text).readWords rest
  | .option switch attached :: rest =>
    match Bundle.ofOption switch attached with
    | .error misuse => .error (.misuse misuse)
    | .ok bundle =>
      match bundle.waiting with
      | none =>
        match draft.applyAll bundle.settings with
        | .error stop => .error stop
        | .ok changed => changed.readWords rest
      | some waiting =>
        match rest with
        | .bare value :: rest =>
          match draft.applyAll (bundle.settings ++ [.ofValue waiting value]) with
          | .error stop => .error stop
          | .ok changed => changed.readWords rest
        | _ => .error (.misuse (.missingValue waiting))

def finish (draft : Draft) : Except Stop Request :=
  match draft.input, draft.extras with
  | none, _ => .error (.misuse .missingInput)
  | some input, [] => .ok { draft.request with input }
  | some _, extras => .error (.misuse (.unrecognized extras))

end Draft

def Request.parse (arguments : List (List Char)) : Except Stop Request :=
  match Word.classifyAll arguments with
  | .error misuse => .error (.misuse misuse)
  | .ok words =>
    match Draft.readWords {} words with
    | .error stop => .error stop
    | .ok draft => draft.finish

end ChipEight.CommandLine
