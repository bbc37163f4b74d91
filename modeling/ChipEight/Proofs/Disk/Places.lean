import ChipEight.Disk

set_option autoImplicit false

/-!
What operations on a tree of files leave as it was.  A file that is written changes one place, the
place that its path leads to, and can be read there again; new directories change no file.
-/

namespace ChipEight.Disk

def file? (disk : Disk) (place : Location) : Option (List UInt8) :=
  match disk.at? place with
  | some (.file bytes) => some bytes
  | _ => none

/-- The place that a path leads to, whatever stands on the way. -/
def placeOf (disk : Disk) (path : List Char) : Location :=
  (Path.namesOf path).foldl next (disk.startOf path)

/-- What a change of a tree leaves as it was: the current directory, all directories, and the files
at all places but those that are touched. -/
structure Keeps (touched : List Location) (before after : Disk) : Prop where
  here : after.here = before.here
  directory : ∀ place, before.at? place = some .directory → after.at? place = some .directory
  file : ∀ place, place ∉ touched → after.file? place = before.file? place

structure SameDirectories (before after : Disk) : Prop where
  here : after.here = before.here
  directory : ∀ place, after.at? place = some .directory ↔ before.at? place = some .directory

theorem placeOf_of_here {before after : Disk} (here : after.here = before.here) (path : List Char) :
    after.placeOf path = before.placeOf path := by
  rw [placeOf, placeOf, startOf, startOf, here]

theorem absolute_of_here {before after : Disk} (here : after.here = before.here) (path : Path) :
    after.absolute path = before.absolute path := by
  rw [absolute, absolute, lexical, lexical, here]

namespace Keeps

variable {touched more : List Location} {before middle after : Disk}

theorem refl (touched : List Location) (disk : Disk) : Keeps touched disk disk :=
  ⟨rfl, fun _ stands => stands, fun _ _ => rfl⟩

theorem mono (keeps : Keeps touched before after) (subset : touched ⊆ more) :
    Keeps more before after :=
  ⟨keeps.here, keeps.directory, fun place apart => keeps.file place fun inside =>
    apart (subset inside)⟩

theorem trans (first : Keeps touched before middle) (second : Keeps touched middle after) :
    Keeps touched before after where
  here := second.here.trans first.here
  directory := fun place stands => second.directory place (first.directory place stands)
  file := fun place apart => (second.file place apart).trans (first.file place apart)

end Keeps

section Files

variable {disk : Disk} {place : Location}

/-- Only the root is there in any case, so a place without a directory has a name. -/
theorem ne_nil_of_at? (vacant : disk.at? place ≠ some .directory) : place ≠ [] := by
  rintro rfl
  exact vacant rfl

theorem file?_put_self (bytes : List UInt8) (vacant : disk.at? place ≠ some .directory) :
    (disk.put place (.file bytes)).file? place = some bytes := by
  rw [file?, at?_put_self disk _ (ne_nil_of_at? vacant)]

theorem at?_ne_of_file? {bytes : List UInt8} (stands : disk.file? place = some bytes) :
    disk.at? place ≠ some .directory := by
  intro directory
  rw [file?, directory] at stands
  cases stands

theorem sameDirectories_put (bytes : List UInt8) (vacant : disk.at? place ≠ some .directory) :
    SameDirectories disk (disk.put place (.file bytes)) where
  here := rfl
  directory := by
    intro other
    by_cases same : other = place
    · subst same
      rw [at?_put_self disk _ (ne_nil_of_at? vacant)]
      constructor
      · intro impossible
        cases impossible
      · intro stands
        exact absurd stands vacant
    · rw [at?_put_of_ne disk _ same]

theorem keeps_put (bytes : List UInt8) (vacant : disk.at? place ≠ some .directory) :
    Keeps [place] disk (disk.put place (.file bytes)) where
  here := rfl
  directory := fun other => ((sameDirectories_put bytes vacant).directory other).mpr
  file := by
    intro other apart
    rw [file?, at?_put_of_ne disk _ (List.ne_of_not_mem_cons apart), file?]

theorem append_eq_put (disk : Disk) (place : Location) (bytes : List UInt8) :
    disk.append place bytes = disk.put place (.file ((disk.file? place).getD [] ++ bytes)) := by
  cases stands : disk.at? place with
  | none => simp [append, file?, stands]
  | some entry =>
    cases entry with
    | directory => simp [append, file?, stands]
    | file old => simp [append, file?, stands]

end Files

section Paths

variable {disk before after : Disk} {path : List Char} {place : Location}

theorem eq_of_walk {start : Location} {names : List Name}
    (walked : disk.walk start names = .ok place) : place = names.foldl next start := by
  induction names generalizing start with
  | nil => exact (Except.ok.inj walked).symm
  | cons name names ih =>
    rw [walk] at walked
    split at walked
    · cases walked
    · split at walked
      · cases walked
      · exact ih walked

theorem eq_placeOf_of_locate (located : disk.locate path = .ok place) :
    place = disk.placeOf path := by
  rw [locate] at located
  split at located
  · cases located
  · exact eq_of_walk located

theorem writable_eq_ok_iff : disk.writable path = .ok place ↔
    Path.endsInSlash path = false ∧ disk.locate path = .ok place ∧
      disk.at? place ≠ some .directory := by
  unfold writable
  cases Path.endsInSlash path with
  | true =>
    cases disk.requireParent path <;> simp
  | false =>
    cases disk.locate path with
    | error refusal => simp
    | ok found =>
      by_cases directory : disk.at? found = some .directory
      · simp only [directory, beq_self_eq_true, if_true]
        constructor
        · intro impossible
          cases impossible
        · rintro ⟨-, ⟨rfl⟩, vacant⟩
          exact absurd directory vacant
      · simp only [beq_eq_false_iff_ne.mpr directory]
        constructor
        · rintro ⟨rfl⟩
          exact ⟨trivial, rfl, directory⟩
        · rintro ⟨-, ⟨rfl⟩, -⟩
          rfl

/-- A walk looks at nothing but directories, so it succeeds wherever there are no fewer of them. -/
theorem walk_of_directories
    (directories : ∀ other, before.at? other = some .directory → after.at? other = some .directory)
    {start : Location} {names : List Name} (walked : before.walk start names = .ok place) :
    after.walk start names = .ok place := by
  induction names generalizing start with
  | nil => exact walked
  | cons name names ih =>
    rw [walk] at walked ⊢
    unfold requireDirectory at walked ⊢
    cases stands : before.at? start with
    | none =>
      rw [stands] at walked
      cases walked
    | some entry =>
      rw [stands] at walked
      cases entry with
      | file bytes => cases walked
      | directory =>
        rw [directories start stands]
        dsimp only at walked ⊢
        split at walked
        · cases walked
        · rename_i short
          rw [if_neg short]
          exact ih walked

theorem locate_of_directories (here : after.here = before.here)
    (directories : ∀ other, before.at? other = some .directory → after.at? other = some .directory)
    (located : before.locate path = .ok place) : after.locate path = .ok place := by
  rw [locate] at located ⊢
  split at located
  · cases located
  · rw [startOf, here]
    exact walk_of_directories directories located

theorem SameDirectories.symm (same : SameDirectories before after) :
    SameDirectories after before :=
  ⟨same.here.symm, fun place => (same.directory place).symm⟩

theorem SameDirectories.writable (same : SameDirectories before after)
    (opens : before.writable path = .ok place) : after.writable path = .ok place := by
  rw [writable_eq_ok_iff] at opens ⊢
  obtain ⟨plain, located, vacant⟩ := opens
  refine ⟨plain, ?_, fun stands => vacant ((same.directory place).mp stands)⟩
  exact locate_of_directories same.here (fun other => (same.directory other).mpr) located

theorem read_put (bytes : List UInt8) (opens : disk.writable path = .ok place) :
    (disk.put place (.file bytes)).read path = .ok bytes := by
  obtain ⟨plain, located, vacant⟩ := writable_eq_ok_iff.mp opens
  have same := sameDirectories_put bytes vacant
  have again := locate_of_directories same.here (fun other => (same.directory other).mpr) located
  simp only [read, again, at?_put_self disk _ (ne_nil_of_at? vacant), plain]
  rfl

end Paths

section NullCharacters

variable {disk : Disk} {path : List Char}

private theorem requireDirectory_ne_null {place : Location} {refusal : Refusal}
    (refused : disk.requireDirectory place = .error refusal) : refusal ≠ .nullCharacter := by
  unfold requireDirectory at refused
  split at refused
  · cases refused
  · cases refused
    simp
  · cases refused
    simp

private theorem walk_ne_null {start : Location} {names : List Name} {refusal : Refusal}
    (refused : disk.walk start names = .error refusal) : refusal ≠ .nullCharacter := by
  induction names generalizing start with
  | nil => cases refused
  | cons name names ih =>
    rw [walk] at refused
    split at refused
    · rename_i other required
      cases refused
      exact requireDirectory_ne_null required
    · split at refused
      · cases refused
        simp
      · exact ih refused

private theorem requirePath_eq_null_iff {refusal : Refusal}
    (refused : requirePath path = .error refusal) :
    refusal = .nullCharacter ↔ Char.ofNat 0 ∈ path := by
  unfold requirePath at refused
  by_cases null : Char.ofNat 0 ∈ path
  · rw [if_pos (List.contains_iff_mem.mpr null)] at refused
    cases refused
    simp [null]
  · rw [if_neg (mt List.contains_iff_mem.mp null)] at refused
    split at refused
    · cases refused
      simp [null]
    · split at refused
      · cases refused
        simp [null]
      · cases refused

private theorem not_mem_of_requirePath {done : Unit} (accepted : requirePath path = .ok done) :
    Char.ofNat 0 ∉ path := by
  intro null
  rw [requirePath, if_pos (List.contains_iff_mem.mpr null)] at accepted
  cases accepted

private theorem locate_eq_null_iff {refusal : Refusal}
    (refused : disk.locate path = .error refusal) :
    refusal = .nullCharacter ↔ Char.ofNat 0 ∈ path := by
  rw [locate] at refused
  split at refused
  · rename_i other required
    cases refused
    exact requirePath_eq_null_iff required
  · rename_i accepted
    exact iff_of_false (walk_ne_null refused) (not_mem_of_requirePath accepted)

private theorem requireParent_eq_null_iff {refusal : Refusal}
    (refused : disk.requireParent path = .error refusal) :
    refusal = .nullCharacter ↔ Char.ofNat 0 ∈ path := by
  rw [requireParent] at refused
  split at refused
  · rename_i other required
    cases refused
    exact requirePath_eq_null_iff required
  · rename_i accepted
    have clear := not_mem_of_requirePath accepted
    split at refused
    · rename_i other walked
      cases refused
      exact iff_of_false (walk_ne_null walked) clear
    · exact iff_of_false (requireDirectory_ne_null refused) clear

private theorem not_mem_of_locate {place : Location} (located : disk.locate path = .ok place) :
    Char.ofNat 0 ∉ path := by
  rw [locate] at located
  split at located
  · cases located
  · rename_i accepted
    exact not_mem_of_requirePath accepted

theorem writable_eq_null_iff {refusal : Refusal} (refused : disk.writable path = .error refusal) :
    refusal = .nullCharacter ↔ Char.ofNat 0 ∈ path := by
  unfold writable at refused
  split at refused
  · split at refused
    · rename_i other required
      cases refused
      exact requireParent_eq_null_iff required
    · rename_i accepted
      cases refused
      refine iff_of_false (by simp) ?_
      rw [requireParent] at accepted
      split at accepted
      · cases accepted
      · rename_i path
        exact not_mem_of_requirePath path
  · split at refused
    · rename_i other located
      cases refused
      exact locate_eq_null_iff located
    · rename_i place located
      split at refused
      · cases refused
        exact iff_of_false (by simp) (not_mem_of_locate located)
      · cases refused

theorem not_mem_of_writable {place : Location} (opens : disk.writable path = .ok place) :
    Char.ofNat 0 ∉ path :=
  not_mem_of_locate (writable_eq_ok_iff.mp opens).2.1

theorem read_ne_null (clear : Char.ofNat 0 ∉ path) {refusal : Refusal}
    (refused : disk.read path = .error refusal) : refusal ≠ .nullCharacter := by
  unfold read at refused
  split at refused
  · rename_i other located
    cases refused
    exact fun null => clear ((locate_eq_null_iff located).mp null)
  · split at refused
    · cases refused
      simp
    · cases refused
      simp
    · split at refused
      · cases refused
        simp
      · cases refused

end NullCharacters

section Directories

variable {disk made : Disk} {path : List Char}

private theorem keeps_makeDirectory (touched : List Location)
    (done : disk.makeDirectory path = .ok made) : Keeps touched disk made := by
  unfold makeDirectory at done
  split at done
  · cases done
  · rename_i place located
    split at done
    · cases done
    · rename_i vacant
      cases done
      have named : place ≠ [] := by
        rintro rfl
        cases vacant
      refine ⟨rfl, ?_, ?_⟩
      · intro other stands
        by_cases same : other = place
        · rw [same]
          exact at?_put_self disk _ named
        · rw [at?_put_of_ne disk _ same]
          exact stands
      · intro other _
        by_cases same : other = place
        · subst same
          rw [file?, at?_put_self disk _ named, file?, vacant]
        · rw [file?, at?_put_of_ne disk _ same, file?]

private theorem keeps_ensureDirectory (touched : List Location)
    (done : disk.ensureDirectory path = .ok made) : Keeps touched disk made := by
  unfold ensureDirectory at done
  split at done
  · rename_i fresh making
    cases done
    exact keeps_makeDirectory touched making
  · split at done
    · cases done
      exact .refl touched disk
    · cases done

theorem keeps_ensureDirectories (touched : List Location) (disk : Disk) (root : List Char)
    (names : List Name) : Keeps touched disk (disk.ensureDirectories root names).1 := by
  induction names with
  | nil => exact .refl touched disk
  | cons name above ih =>
    rw [ensureDirectories]
    split
    · rename_i made done
      exact keeps_ensureDirectory touched done
    · split
      · rename_i made refusal stopped
        rw [stopped] at ih
        exact ih
      · rename_i made done
        rw [done] at ih
        split
        · rename_i last finished
          exact ih.trans (keeps_ensureDirectory touched finished)
        · exact ih
    · exact .refl touched disk

end Directories

end ChipEight.Disk
