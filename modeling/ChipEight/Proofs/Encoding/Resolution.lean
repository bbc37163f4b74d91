import ChipEight.Proofs.Encoding.WordForms

set_option autoImplicit false

/-!
Resolution as a simultaneous replacement: it fails at the first label without an address, else each
label becomes its address in its place and nothing else changes.  Neither a second resolution nor
further names change what it gives.
-/

namespace ChipEight

theorem SymbolTable.none_missing_iff {symbols : SymbolTable} {names : List (List Char)} :
    names.find? (fun name => (symbols.find? name).isNone) = none ↔
      ∀ name ∈ names, (symbols.find? name).isSome = true := by
  simp [List.find?_eq_none, Option.isSome_iff_ne_none]

namespace Operand

def substitute (symbols : SymbolTable) : Operand → Operand
  | label name => immediate ((symbols.find? name).getD 0)
  | operand => operand

theorem resolveAll_eq (symbols : SymbolTable) (operands : List Operand) :
    resolveAll symbols operands =
      match (operands.filterMap label?).find? (fun name => (symbols.find? name).isNone) with
      | some name => .error name
      | none => .ok (operands.map (substitute symbols)) := by
  induction operands with
  | nil => rfl
  | cons operand operands ih =>
    cases operand with
    | label name =>
      rw [resolveAll]
      cases address : symbols.find? name with
      | none => simp [label?, address]
      | some value =>
        simp only [ih, List.filterMap_cons, label?, List.find?_cons, address,
          Option.isNone_some, List.map_cons, substitute, Option.getD_some]
        cases (operands.filterMap label?).find? (fun name => (symbols.find? name).isNone) <;> rfl
    | _ =>
      simp only [resolveAll, ih, List.filterMap_cons, label?, List.map_cons, substitute]
      cases (operands.filterMap label?).find? (fun name => (symbols.find? name).isNone) <;> rfl

theorem substitute_of_unlabelled {operand : Operand} (unlabelled : operand.label? = none)
    (symbols : SymbolTable) : operand.substitute symbols = operand := by
  cases operand with
  | label name => cases unlabelled
  | _ => rfl

theorem map_substitute_congr {symbols others : SymbolTable} {operands : List Operand}
    (same : ∀ name ∈ operands.filterMap label?, others.find? name = symbols.find? name) :
    operands.map (substitute others) = operands.map (substitute symbols) := by
  apply List.map_congr_left
  intro operand member
  cases labelled : operand.label? with
  | none => rw [substitute_of_unlabelled labelled, substitute_of_unlabelled labelled]
  | some name =>
    have listed : name ∈ operands.filterMap label? :=
      List.mem_filterMap.mpr ⟨operand, member, labelled⟩
    rw [label?_eq_some_iff] at labelled
    rw [labelled, substitute, substitute, same name listed]

theorem label?_substitute (symbols : SymbolTable) (operand : Operand) :
    (operand.substitute symbols).label? = none := by
  cases operand <;> rfl

end Operand

private theorem Pattern.accepts_substitute {p : Pattern} {operand : Operand}
    (symbols : SymbolTable) (h : p.accepts operand = true) :
    p.accepts (operand.substitute symbols) = true := by
  cases operand with
  | label name =>
    cases p <;> simp [accepts, Operand.substitute] at h ⊢
  | _ => exact h

theorem Pattern.acceptsAll_substitute {ps : List Pattern} {operands : List Operand}
    (symbols : SymbolTable) (h : acceptsAll ps operands = true) :
    acceptsAll ps (operands.map (Operand.substitute symbols)) = true := by
  induction ps generalizing operands with
  | nil =>
    cases operands with
    | nil => rfl
    | cons operand operands => simp [acceptsAll] at h
  | cons p ps ih =>
    cases operands with
    | nil => simp [acceptsAll] at h
    | cons operand operands =>
      simp only [acceptsAll, Bool.and_eq_true] at h
      rw [List.map_cons, acceptsAll, accepts_substitute symbols h.1, ih h.2]
      rfl

namespace Instruction

theorem resolve_eq_ok_iff {instruction resolved : Instruction} {symbols : SymbolTable} :
    instruction.resolve symbols = .ok resolved ↔
      (∀ name ∈ instruction.labels, (symbols.find? name).isSome = true) ∧
        resolved =
          { instruction with operands := instruction.operands.map (Operand.substitute symbols) } := by
  rw [resolve, Operand.resolveAll_eq]
  cases missing : (instruction.operands.filterMap Operand.label?).find?
      (fun name => (symbols.find? name).isNone) with
  | some name =>
    have absent := List.find?_some missing
    have member := List.mem_of_find?_eq_some missing
    simp only [reduceCtorEq, false_iff, not_and]
    intro defined
    have present := defined name member
    rw [Option.isNone_iff_eq_none] at absent
    simp [absent] at present
  | none =>
    have defined : ∀ name ∈ instruction.labels, (symbols.find? name).isSome = true := by
      intro name member
      have present := List.find?_eq_none.mp missing name member
      simpa [Option.isSome_iff_ne_none] using present
    simp only [Except.ok.injEq]
    constructor
    · intro same
      exact ⟨defined, same.symm⟩
    · intro both
      exact both.2.symm

theorem resolve_eq_error_iff {instruction : Instruction} {symbols : SymbolTable} {fault : Fault} :
    instruction.resolve symbols = .error fault ↔
      ∃ name, instruction.labels.find? (fun name => (symbols.find? name).isNone) = some name ∧
        fault = .undefinedLabel name instruction.position := by
  rw [resolve, Operand.resolveAll_eq, labels]
  cases missing : (instruction.operands.filterMap Operand.label?).find?
      (fun name => (symbols.find? name).isNone) with
  | some name => simp [eq_comm]
  | none => simp

theorem labels_of_resolve {instruction resolved : Instruction} {symbols : SymbolTable}
    (h : instruction.resolve symbols = .ok resolved) : resolved.labels = [] := by
  obtain ⟨-, rfl⟩ := resolve_eq_ok_iff.mp h
  simp only [labels, List.filterMap_map, List.filterMap_eq_nil_iff]
  intro operand _
  exact operand.label?_substitute symbols

theorem mem_labels_iff {instruction : Instruction} {name : List Char} :
    name ∈ instruction.labels ↔ .label name ∈ instruction.operands := by
  simp only [labels, List.mem_filterMap, Operand.label?_eq_some_iff, exists_eq_right]

theorem find?_missing_iff {instruction : Instruction} {symbols : SymbolTable} {name : List Char} :
    instruction.labels.find? (fun name => (symbols.find? name).isNone) = some name ↔
      ∃ front back, instruction.operands = front ++ .label name :: back ∧
        (∀ earlier, .label earlier ∈ front → (symbols.find? earlier).isSome = true) ∧
        symbols.find? name = none := by
  rw [List.find?_eq_some_iff_append]
  constructor
  · rintro ⟨absent, before, behind, split, present⟩
    obtain ⟨front, rest, operands, labelled, others⟩ := List.filterMap_eq_append_iff.mp split
    obtain ⟨gap, operand, back, rfl, unlabelled, named, -⟩ := List.filterMap_eq_cons_iff.mp others
    rw [Operand.label?_eq_some_iff] at named
    refine ⟨front ++ gap, back, ?_, ?_, Option.isNone_iff_eq_none.mp absent⟩
    · rw [operands, named, List.append_assoc]
    · intro earlier member
      rcases List.mem_append.mp member with inFront | inGap
      · have listed : earlier ∈ before := by
          rw [← labelled]
          exact List.mem_filterMap.mpr ⟨.label earlier, inFront, rfl⟩
        simpa using present earlier listed
      · cases unlabelled _ inGap
  · rintro ⟨front, back, operands, present, absent⟩
    refine ⟨by simp [absent], front.filterMap Operand.label?, back.filterMap Operand.label?, ?_, ?_⟩
    · rw [labels, operands, List.filterMap_append]
      rfl
    · intro earlier member
      obtain ⟨operand, inFront, named⟩ := List.mem_filterMap.mp member
      rw [Operand.label?_eq_some_iff] at named
      subst named
      simpa using present earlier inFront

/-- An instruction with an address in the place of each label, and all else as it was. -/
structure Replaced (symbols : SymbolTable) (instruction resolved : Instruction) : Prop where
  unlabelled : resolved.labels = []
  mnemonic : resolved.mnemonic = instruction.mnemonic
  position : resolved.position = instruction.position
  length : resolved.operands.length = instruction.operands.length
  label : ∀ (k : Nat) (name : List Char), instruction.operands[k]? = some (.label name) →
    ∃ address, symbols.find? name = some address ∧
      resolved.operands[k]? = some (.immediate address)
  other : ∀ (k : Nat) (operand : Operand), instruction.operands[k]? = some operand →
    operand.label? = none → resolved.operands[k]? = some operand

theorem replaced_of_resolve {instruction resolved : Instruction} {symbols : SymbolTable}
    (resolves : instruction.resolve symbols = .ok resolved) :
    Replaced symbols instruction resolved := by
  obtain ⟨defined, same⟩ := resolve_eq_ok_iff.mp resolves
  have unlabelled := labels_of_resolve resolves
  subst same
  refine ⟨unlabelled, rfl, rfl, List.length_map _, ?_, ?_⟩
  · intro k name given
    obtain ⟨address, found⟩ := Option.isSome_iff_exists.mp
      (defined name (mem_labels_iff.mpr (List.mem_of_getElem? given)))
    refine ⟨address, found, ?_⟩
    simp only [List.getElem?_map, given, Option.map_some, Operand.substitute, found,
      Option.getD_some]
  · intro k operand given plain
    simp only [List.getElem?_map, given, Option.map_some,
      Operand.substitute_of_unlabelled plain symbols]

theorem resolve_of_unlabelled {instruction : Instruction} (unlabelled : instruction.labels = [])
    (symbols : SymbolTable) : instruction.resolve symbols = .ok instruction := by
  apply resolve_eq_ok_iff.mpr
  have same : instruction.operands.map (Operand.substitute symbols) = instruction.operands := by
    conv_rhs => rw [← List.map_id instruction.operands]
    apply List.map_congr_left
    intro operand member
    exact Operand.substitute_of_unlabelled
      (List.filterMap_eq_nil_iff.mp unlabelled operand member) symbols
  rw [unlabelled, same]
  exact ⟨by simp, rfl⟩

theorem resolve_of_extends {instruction resolved : Instruction} {symbols more : SymbolTable}
    (kept : ∀ name address, symbols.find? name = some address → more.find? name = some address)
    (resolves : instruction.resolve symbols = .ok resolved) :
    instruction.resolve more = .ok resolved := by
  obtain ⟨defined, rfl⟩ := resolve_eq_ok_iff.mp resolves
  have same : ∀ name ∈ instruction.labels, more.find? name = symbols.find? name := by
    intro name member
    obtain ⟨address, found⟩ := Option.isSome_iff_exists.mp (defined name member)
    rw [found, kept name address found]
  apply resolve_eq_ok_iff.mpr
  refine ⟨?_, by rw [Operand.map_substitute_congr same]⟩
  intro name member
  rw [same name member]
  exact defined name member

/-- What resolving an instruction comes to under each table: it fails at the first label that has no
address, and else replaces all labels in their places; nothing is left to resolve in the result, and
further names do not change it. -/
structure ResolvesInPlace (instruction : Instruction) : Prop where
  succeeds : ∀ symbols, (∃ resolved, instruction.resolve symbols = .ok resolved) ↔
    ∀ name, .label name ∈ instruction.operands → (symbols.find? name).isSome = true
  fails : ∀ symbols fault, instruction.resolve symbols = .error fault ↔
    ∃ front name back, instruction.operands = front ++ .label name :: back ∧
      (∀ earlier, .label earlier ∈ front → (symbols.find? earlier).isSome = true) ∧
      symbols.find? name = none ∧ fault = .undefinedLabel name instruction.position
  replaced : ∀ symbols resolved, instruction.resolve symbols = .ok resolved →
    Replaced symbols instruction resolved
  again : ∀ symbols resolved, instruction.resolve symbols = .ok resolved →
    ∀ others, resolved.resolve others = .ok resolved
  extended : ∀ symbols more resolved, instruction.resolve symbols = .ok resolved →
    (∀ name address, symbols.find? name = some address → more.find? name = some address) →
      instruction.resolve more = .ok resolved

/-- Every instruction, whatever its operands, is resolved in place or not at all. -/
theorem resolves_in_place (instruction : Instruction) : ResolvesInPlace instruction where
  succeeds := by
    intro symbols
    simp only [resolve_eq_ok_iff, exists_and_left, exists_eq, and_true, mem_labels_iff]
  fails := by
    intro symbols fault
    rw [resolve_eq_error_iff]
    simp only [find?_missing_iff]
    constructor
    · rintro ⟨name, ⟨front, back, operands, present, absent⟩, rfl⟩
      exact ⟨front, name, back, operands, present, absent, rfl⟩
    · rintro ⟨front, name, back, operands, present, absent, rfl⟩
      exact ⟨name, ⟨front, back, operands, present, absent⟩, rfl⟩
  replaced := fun _ _ => replaced_of_resolve
  again := fun _ _ resolves => resolve_of_unlabelled (labels_of_resolve resolves)
  extended := fun _ _ _ resolves kept => resolve_of_extends kept resolves

/-- A row of operands that no form takes, with one label twice: the second name is missing under one
table, and under another all three labels are replaced, one of them by an address below zero. -/
theorem resolves_in_place_twice :
    let instruction : Instruction :=
      ⟨['X'], [.label ['B'], .register 300, .label ['A'], .label ['B']], ⟨-7, ['x']⟩⟩
    let resolved : Instruction :=
      ⟨['X'], [.immediate 0x1005, .register 300, .immediate (-2), .immediate 0x1005], ⟨-7, ['x']⟩⟩
    let symbols := SymbolTable.ofList [(['A'], -2), (['B'], 0x1005)]
    let fewer := SymbolTable.ofList [(['B'], 0x1005)]
    instruction.resolve fewer = .error (.undefinedLabel ['A'] ⟨-7, ['x']⟩) ∧
      instruction.resolve symbols = .ok resolved ∧ Replaced symbols instruction resolved ∧
      resolved.resolve fewer = .ok resolved := by
  intro instruction resolved symbols fewer
  have inPlace := resolves_in_place instruction
  have resolves : instruction.resolve symbols = .ok resolved := rfl
  refine ⟨?_, resolves, inPlace.replaced symbols resolved resolves,
    inPlace.again symbols resolved resolves fewer⟩
  apply (inPlace.fails fewer _).mpr
  refine ⟨[.label ['B'], .register 300], ['A'], [.label ['B']], rfl, ?_, rfl, rfl⟩
  intro earlier member
  simp only [List.mem_cons, Operand.label.injEq, reduceCtorEq, List.not_mem_nil, or_false] at member
  subst member
  rfl

end Instruction

end ChipEight
