import ChipEight.Text.UpperCase

set_option autoImplicit false

/-!
Mnemonics of the instruction set, their spellings, and the reading of one in any case or under
another accepted name.
-/

namespace ChipEight

open Text

inductive Mnemonic where
  | cls | ret
  | jp | call
  | se | sne | skp | sknp
  | ld
  | or | and | xor | sub | subn
  | add
  | shr | shl
  | rnd
  | drw
deriving DecidableEq

namespace Mnemonic

def all : List Mnemonic :=
  [cls, ret, jp, call, se, sne, skp, sknp, ld, or, and, xor, sub, subn, add, shr, shl, rnd, drw]

def spelling : Mnemonic → List Char
  | cls => ['C', 'L', 'S']
  | ret => ['R', 'E', 'T']
  | jp => ['J', 'P']
  | call => ['C', 'A', 'L', 'L']
  | se => ['S', 'E']
  | sne => ['S', 'N', 'E']
  | skp => ['S', 'K', 'P']
  | sknp => ['S', 'K', 'N', 'P']
  | ld => ['L', 'D']
  | or => ['O', 'R']
  | and => ['A', 'N', 'D']
  | xor => ['X', 'O', 'R']
  | sub => ['S', 'U', 'B']
  | subn => ['S', 'U', 'B', 'N']
  | add => ['A', 'D', 'D']
  | shr => ['S', 'H', 'R']
  | shl => ['S', 'H', 'L']
  | rnd => ['R', 'N', 'D']
  | drw => ['D', 'R', 'W']

/-- Other names that are accepted, and what each stands for. -/
def aliases : List (List Char × Mnemonic) :=
  [(['R', 'A', 'N', 'D'], rnd)]

def ofSpelling? (text : List Char) : Option Mnemonic :=
  all.find? (·.spelling == text)

/-- The mnemonic that a token names, in any case and under any accepted name. -/
def read? (token : List Char) : Option Mnemonic :=
  let word := UpperCase.upper token
  (ofSpelling? word).or (aliases.lookup word)

/-- A token in upper case, with an accepted name replaced by the spelling that it stands for. -/
def canonical (token : List Char) : List Char :=
  let word := UpperCase.upper token
  ((aliases.lookup word).map spelling).getD word

theorem mem_all (m : Mnemonic) : m ∈ all := by
  cases m <;> decide

@[simp] theorem ofSpelling?_spelling (m : Mnemonic) : ofSpelling? m.spelling = some m := by
  cases m <;> decide

@[simp] theorem read?_spelling (m : Mnemonic) : read? m.spelling = some m := by
  cases m <;> decide

theorem spelling_injective {m k : Mnemonic} (h : m.spelling = k.spelling) : m = k := by
  have := ofSpelling?_spelling m
  rw [h, ofSpelling?_spelling] at this
  exact (Option.some.inj this).symm

end Mnemonic

end ChipEight
