import ChipEight.Text.Quoted

set_option autoImplicit false

/-!
Paths as text and as names, where slashes part the names and a path may start at the root; and why a
path is refused.
-/

namespace ChipEight.Disk

open Text

abbrev Name := List Char

def Name.self : Name := ['.']

def Name.above : Name := ['.', '.']

/-- A tidied path: the slashes in front of it, and its names without empty ones and single dots. -/
structure Path where
  root : List Char
  names : List Name
deriving DecidableEq

namespace Path

def namesOf (text : List Char) : List Name :=
  (text.splitOn '/').filter (!·.isEmpty)

def isAbsolute (text : List Char) : Bool :=
  text.head? == some '/'

def endsInSlash (text : List Char) : Bool :=
  text.getLast? == some '/'

/-- The slashes in front of a path that matter: exactly two are kept, all others count as one. -/
def rootOf (text : List Char) : List Char :=
  match (text.takeWhile (· == '/')).length with
  | 0 => []
  | 2 => ['/', '/']
  | _ => ['/']

def ofText (text : List Char) : Path :=
  ⟨rootOf text, (namesOf text).filter (· != Name.self)⟩

/-- The text of a path; the empty path is a single dot. -/
def text (path : Path) : List Char :=
  if path.root.isEmpty && path.names.isEmpty then Name.self
  else path.root ++ ['/'].intercalate path.names

def parent (path : Path) : Path :=
  { path with names := path.names.dropLast }

end Path

/-- The part of a path's last name from its last dot on; dots in front of a name do not count. -/
def extension (text : List Char) : List Char :=
  let name := ((text.splitOn '/').getLast?.getD []).dropWhile (· == '.')
  if name.contains '.' then '.' :: (name.reverse.takeWhile (· != '.')).reverse else []

inductive Refusal where
  | nullCharacter
  | notFound
  | alreadyExists
  | notDirectory
  | isDirectory
  | nameTooLong
deriving DecidableEq

namespace Refusal

/-- The number of the error, zero where there is none. -/
def code : Refusal → Nat
  | nullCharacter => 0
  | notFound => 2
  | alreadyExists => 17
  | notDirectory => 20
  | isDirectory => 21
  | nameTooLong => 36

def description : Refusal → String
  | nullCharacter => "embedded null byte"
  | notFound => "No such file or directory"
  | alreadyExists => "File exists"
  | notDirectory => "Not a directory"
  | isDirectory => "Is a directory"
  | nameTooLong => "File name too long"

def message (refusal : Refusal) (path : List Char) : String :=
  match refusal with
  | nullCharacter => refusal.description
  | _ =>
    s!"[Errno {refusal.code}] {refusal.description}: " ++ String.ofList (Quoted.quoted path)

end Refusal

end ChipEight.Disk
