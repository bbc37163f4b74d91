set_option autoImplicit false

/-!
Symbol tables: label names with their addresses, each name once and the names in order of their
code points.  The last address bound to a name is the one that is found.
-/

namespace ChipEight

/-- Addresses by label name. -/
structure SymbolTable where
  entries : List (List Char × Int)
  increasing : entries.Pairwise (fun a b => a.1 < b.1)

namespace SymbolTable

def empty : SymbolTable := ⟨[], List.Pairwise.nil⟩

instance : EmptyCollection SymbolTable := ⟨empty⟩

instance : Inhabited SymbolTable := ⟨empty⟩

def find? (table : SymbolTable) (name : List Char) : Option Int :=
  table.entries.lookup name

def names (table : SymbolTable) : List (List Char) :=
  table.entries.map (·.1)

def size (table : SymbolTable) : Nat :=
  table.entries.length

/-- A pair put in its place among pairs, instead of one with the same name. -/
private def place (name : List Char) (address : Int) :
    List (List Char × Int) → List (List Char × Int)
  | [] => [(name, address)]
  | (other, old) :: rest =>
    if name < other then (name, address) :: (other, old) :: rest
    else if name = other then (name, address) :: rest
    else (other, old) :: place name address rest

private theorem mem_place {name : List Char} {address : Int} {entries : List (List Char × Int)}
    {entry : List Char × Int} (h : entry ∈ place name address entries) :
    entry = (name, address) ∨ entry ∈ entries := by
  induction entries with
  | nil => simpa [place] using h
  | cons head rest ih =>
    obtain ⟨other, old⟩ := head
    rw [place] at h
    split at h
    · simpa using h
    · split at h
      · rcases List.mem_cons.mp h with h | h
        · exact Or.inl h
        · exact Or.inr (List.mem_cons_of_mem _ h)
      · rcases List.mem_cons.mp h with h | h
        · exact Or.inr (h ▸ List.mem_cons_self)
        · exact (ih h).imp id (List.mem_cons_of_mem _)

private theorem pairwise_place (name : List Char) (address : Int)
    {entries : List (List Char × Int)} (h : entries.Pairwise (fun a b => a.1 < b.1)) :
    (place name address entries).Pairwise (fun a b => a.1 < b.1) := by
  induction entries with
  | nil => exact List.pairwise_singleton _ _
  | cons head rest ih =>
    obtain ⟨other, old⟩ := head
    obtain ⟨before, ordered⟩ := List.pairwise_cons.mp h
    rw [place]
    split
    · rename_i less
      refine List.pairwise_cons.mpr ⟨fun entry member => ?_, h⟩
      rcases List.mem_cons.mp member with rfl | member
      · exact less
      · exact List.lt_trans less (before entry member)
    · split
      · rename_i same
        subst same
        exact List.pairwise_cons.mpr ⟨before, ordered⟩
      · rename_i notLess notSame
        refine List.pairwise_cons.mpr ⟨fun entry member => ?_, ih ordered⟩
        rcases mem_place member with rfl | member
        · exact Std.lt_of_le_of_ne (Std.not_lt.mp notLess) (Ne.symm notSame)
        · exact before entry member

def insert (table : SymbolTable) (name : List Char) (address : Int) : SymbolTable :=
  ⟨place name address table.entries, pairwise_place name address table.increasing⟩

private theorem lookup_place_self (name : List Char) (address : Int)
    (entries : List (List Char × Int)) :
    (place name address entries).lookup name = some address := by
  induction entries with
  | nil => simp [place]
  | cons head rest ih =>
    obtain ⟨other, old⟩ := head
    rw [place]
    split
    · simp
    · split
      · simp
      · rename_i notSame
        simp [List.lookup_cons, beq_eq_false_iff_ne.mpr notSame, ih]

private theorem lookup_place_of_ne {name other : List Char} (h : other ≠ name) (address : Int)
    (entries : List (List Char × Int)) :
    (place name address entries).lookup other = entries.lookup other := by
  induction entries with
  | nil => simp [place, List.lookup_cons, beq_eq_false_iff_ne.mpr h]
  | cons head rest ih =>
    obtain ⟨first, old⟩ := head
    rw [place]
    split
    · simp [List.lookup_cons, beq_eq_false_iff_ne.mpr h]
    · split
      · rename_i same
        simp [List.lookup_cons, ← same, beq_eq_false_iff_ne.mpr h]
      · simp [List.lookup_cons, ih]

@[simp] theorem find?_insert_self (table : SymbolTable) (name : List Char) (address : Int) :
    (table.insert name address).find? name = some address :=
  lookup_place_self name address table.entries

theorem find?_insert_of_ne (table : SymbolTable) {name other : List Char} (h : other ≠ name)
    (address : Int) : (table.insert name address).find? other = table.find? other :=
  lookup_place_of_ne h address table.entries

/-- The table of a list of bindings, of which a later one wins. -/
def ofList (bindings : List (List Char × Int)) : SymbolTable :=
  bindings.foldl (fun table binding => table.insert binding.1 binding.2) empty

end SymbolTable

end ChipEight
