import ChipEight.Assembly

set_option autoImplicit false

/-!
Sessions: sources assembled one after the other, where the base address may change in between and
the last source can be listed at any time.  A source passes through stages that each write a part of
the session: its lines are loaded, its labels bound, its words emitted, its bytes kept.  A refused
source stops in between, so the session keeps its labels and lines but no word and no byte.
-/

namespace ChipEight

/-- The base address for the next source, and what is known of the last one. -/
structure Session where
  base : Int
  symbols : SymbolTable
  binary : List UInt8
  placed : List Placed
  emissions : List Emission

structure Report where
  log : List Event
  bytes : Except Fault (List UInt8)

namespace Session

def start (base : Int) : Session :=
  ⟨base, ∅, [], [], []⟩

def lines (session : Session) : List Line :=
  session.placed.map (·.line)

/-- The session with the lines of another source, of which nothing else is known yet. -/
def load (session : Session) (source : List Char) : Session :=
  { session with
    symbols := ∅
    binary := []
    placed := (Line.ofSource source).map (⟨·, none⟩)
    emissions := [] }

def layOut (session : Session) : List Event × Session :=
  let layout := Layout.ofLines session.base session.lines
  (Assembly.opening session.base layout,
    { session with symbols := layout.symbols, placed := layout.placed })

/-- The session with the words of its lines, after what they report.  A refused line leaves the
session as it is. -/
def emit (session : Session) : List Event × Except Fault (List UInt8) × Session :=
  match Emission.ofLines session.symbols session.base session.lines with
  | (log, .error fault) => (log, .error fault, session)
  | (log, .ok emissions) =>
    (log ++ Assembly.closing session.base session.symbols emissions,
      .ok (Emission.image emissions), { session with emissions })

/-- Assembles a source at the session's base address.  The bytes are kept last. -/
def assemble (session : Session) (source : List Char) : Report × Session :=
  let (opening, bound) := (session.load source).layOut
  match bound.emit with
  | (log, .error fault, stopped) => (⟨opening ++ log, .error fault⟩, stopped)
  | (log, .ok bytes, finished) => (⟨opening ++ log, .ok bytes⟩, { finished with binary := bytes })

def listing (session : Session) : List Char :=
  Listing.text session.emissions session.placed

def rebase (session : Session) (base : Int) : Session :=
  { session with base }

inductive Command where
  | assemble (source : List Char)
  | list
  | rebase (base : Int)
deriving DecidableEq

inductive Answer where
  | assembled (report : Report)
  | listed (text : List Char)
  | rebased

def perform (session : Session) : Command → Answer × Session
  | .assemble source =>
    let (report, next) := session.assemble source
    (.assembled report, next)
  | .list => (.listed session.listing, session)
  | .rebase base => (.rebased, session.rebase base)

def after (session : Session) (commands : List Command) : Session :=
  commands.foldl (fun session command => (session.perform command).2) session

end Session

end ChipEight
