import ChipEight.Disk.Path

set_option autoImplicit false

/-!
A tree of directories and files with a current directory: reading, writing, appending, and making
directories by path, each with the reasons why it may be refused.
-/

namespace ChipEight

namespace Disk

/-- A place in the tree: the names from the root down to it. -/
abbrev Location := List Name

inductive Entry where
  | directory
  | file (bytes : List UInt8)
deriving DecidableEq

end Disk

/-- Files and directories by place, and the current directory.  The root is always there. -/
structure Disk where
  entries : List (Disk.Location × Disk.Entry)
  here : Disk.Location

namespace Disk

def nameLimit : Nat := 255

/-- The bytes that a whole path must stay below. -/
def pathLimit : Nat := 4096

def at? (disk : Disk) (location : Location) : Option Entry :=
  if location.isEmpty then some .directory else disk.entries.lookup location

def put (disk : Disk) (location : Location) (entry : Entry) : Disk :=
  { disk with
    entries := (location, entry) :: disk.entries.filter (·.1 != location) }

private def byteLength (text : List Char) : Nat :=
  (String.ofList text).utf8ByteSize

def requireDirectory (disk : Disk) (location : Location) : Except Refusal Unit :=
  match disk.at? location with
  | some .directory => .ok ()
  | some (.file _) => .error .notDirectory
  | none => .error .notFound

def next (location : Location) (name : Name) : Location :=
  if name = Name.self then location
  else if name = Name.above then location.dropLast
  else location ++ [name]

/-- The place that names lead to; all but the last must lead to directories. -/
def walk (disk : Disk) : Location → List Name → Except Refusal Location
  | location, [] => .ok location
  | location, name :: names =>
    match disk.requireDirectory location with
    | .error refusal => .error refusal
    | .ok _ =>
      if nameLimit < byteLength name then .error .nameTooLong
      else disk.walk (next location name) names

/-- Refuses a text that is no path at all. -/
def requirePath (path : List Char) : Except Refusal Unit :=
  if path.contains (Char.ofNat 0) then .error .nullCharacter
  else if path.isEmpty then .error .notFound
  else if pathLimit ≤ byteLength path then .error .nameTooLong
  else .ok ()

def startOf (disk : Disk) (path : List Char) : Location :=
  if Path.isAbsolute path then [] else disk.here

def locate (disk : Disk) (path : List Char) : Except Refusal Location :=
  match requirePath path with
  | .error refusal => .error refusal
  | .ok _ => disk.walk (disk.startOf path) (Path.namesOf path)

def requireParent (disk : Disk) (path : List Char) : Except Refusal Unit :=
  match requirePath path with
  | .error refusal => .error refusal
  | .ok _ =>
    match disk.walk (disk.startOf path) (Path.namesOf path).dropLast with
    | .error refusal => .error refusal
    | .ok parent => disk.requireDirectory parent

def isDirectory (disk : Disk) (path : List Char) : Bool :=
  match disk.locate path with
  | .ok location => disk.at? location == some .directory
  | .error _ => false

def read (disk : Disk) (path : List Char) : Except Refusal (List UInt8) :=
  match disk.locate path with
  | .error refusal => .error refusal
  | .ok location =>
    match disk.at? location with
    | none => .error .notFound
    | some .directory => .error .isDirectory
    | some (.file bytes) =>
      if Path.endsInSlash path then .error .notDirectory else .ok bytes

/-- The place of the file that a path opens for writing.  A slash at the end asks for a directory,
whatever its last name is. -/
def writable (disk : Disk) (path : List Char) : Except Refusal Location :=
  if Path.endsInSlash path then
    match disk.requireParent path with
    | .error refusal => .error refusal
    | .ok _ => .error .isDirectory
  else
    match disk.locate path with
    | .error refusal => .error refusal
    | .ok location =>
      if disk.at? location == some .directory then .error .isDirectory else .ok location

def write (disk : Disk) (path : List Char) (bytes : List UInt8) : Except Refusal Disk :=
  match disk.writable path with
  | .error refusal => .error refusal
  | .ok location => .ok (disk.put location (.file bytes))

/-- The tree with bytes added to the file at a place, which need not be there yet. -/
def append (disk : Disk) (location : Location) (bytes : List UInt8) : Disk :=
  match disk.at? location with
  | some (.file old) => disk.put location (.file (old ++ bytes))
  | _ => disk.put location (.file bytes)

def makeDirectory (disk : Disk) (path : List Char) : Except Refusal Disk :=
  match disk.locate path with
  | .error refusal => .error refusal
  | .ok location =>
    match disk.at? location with
    | some _ => .error .alreadyExists
    | none => .ok (disk.put location .directory)

def ensureDirectory (disk : Disk) (path : List Char) : Except Refusal Disk :=
  match disk.makeDirectory path with
  | .ok made => .ok made
  | .error refusal =>
    if refusal ≠ .notFound ∧ refusal ≠ .nullCharacter ∧ disk.isDirectory path then .ok disk
    else .error refusal

/-- Makes all directories of a path, whose names are given from the last to the first: what is
missing above a directory is made before it, and stays even if the directory is then refused. -/
def ensureDirectories (disk : Disk) (root : List Char) : List Name → Disk × Option Refusal
  | [] => (disk, none)
  | name :: above =>
    let path := Path.text ⟨root, (name :: above).reverse⟩
    match disk.ensureDirectory path with
    | .ok made => (made, none)
    | .error .notFound =>
      match disk.ensureDirectories root above with
      | (made, some refusal) => (made, some refusal)
      | (made, none) =>
        match made.ensureDirectory path with
        | .ok done => (done, none)
        | .error refusal => (made, some refusal)
    | .error refusal => (disk, some refusal)

/-- The place of a path by its names alone: a double dot takes back the name before it. -/
def lexical (disk : Disk) (path : Path) : Location :=
  path.names.foldl next (if path.root.isEmpty then disk.here else [])

def absolute (disk : Disk) (path : Path) : List Char :=
  '/' :: ['/'].intercalate (disk.lexical path)

/-- The places that a path leads through from the current directory, itself included. -/
def route (disk : Disk) (path : List Char) : List Location :=
  let start := disk.startOf path
  (Path.namesOf path).foldl (fun places name => next (places.headD start) name :: places) [start]

theorem at?_put_self (disk : Disk) {location : Location} (entry : Entry) (h : location ≠ []) :
    (disk.put location entry).at? location = some entry := by
  simp [at?, put, h]

theorem at?_put_of_ne (disk : Disk) {location other : Location} (entry : Entry)
    (h : other ≠ location) : (disk.put location entry).at? other = disk.at? other := by
  have kept : ∀ entries : List (Location × Entry),
      (entries.filter (·.1 != location)).lookup other = entries.lookup other := by
    intro entries
    induction entries with
    | nil => rfl
    | cons head rest ih =>
      obtain ⟨place, old⟩ := head
      by_cases same : place = location
      · subst same
        simp [List.lookup_cons, beq_eq_false_iff_ne.mpr h, ih]
      · simp [List.lookup_cons, same, ih]
  simp [at?, put, List.lookup_cons, beq_eq_false_iff_ne.mpr h, kept]

end Disk

end ChipEight
