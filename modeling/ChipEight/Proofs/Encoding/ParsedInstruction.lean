import ChipEight.Proofs.Encoding.Resolution

set_option autoImplicit false

/-!
Instructions that were read from text.  Reading leaves operands that one word of the mnemonic takes,
resolving replaces each label by a number in the same place, and encoding packs the numbers of that
same word; so encoding a resolved instruction never fails.
-/

namespace ChipEight

open Catalog (words)

namespace Catalog

def Takes (mnemonic : Mnemonic) (word : Nat × List Slot) (operands : List Operand) : Prop :=
  word ∈ words mnemonic ∧ Pattern.acceptsAll (Slot.shape word.2) operands = true

theorem Takes.unique {mnemonic : Mnemonic} {a b : Nat × List Slot} {as bs : List Operand}
    (left : Takes mnemonic a as) (right : Takes mnemonic b bs)
    (same : as.map Operand.kind = bs.map Operand.kind) : a = b := by
  have clash := List.pairwise_iff_getElem.mp (words_clash mnemonic)
  obtain ⟨i, hi, rfl⟩ := List.getElem_of_mem left.1
  obtain ⟨j, hj, rfl⟩ := List.getElem_of_mem right.1
  rcases Nat.lt_trichotomy i j with less | equal | greater
  · have apart := clash i j hi hj less
    rw [Pattern.clashAll_eq_false left.2 right.2 same] at apart
    cases apart
  · subst equal
    rfl
  · have apart := clash j i hj hi greater
    rw [Pattern.clashAll_eq_false right.2 left.2 same.symm] at apart
    cases apart

end Catalog

def Completion.target : Completion → List Pattern
  | sameRegister => [.register, .register]
  | fullMask => [.register, .immediate]

private theorem Completion.acceptsAll_complete (completion : Completion) {rest : List Pattern}
    {operands : List Operand}
    (h : Pattern.acceptsAll (.register :: rest) operands = true) :
    Pattern.acceptsAll completion.target (completion.complete operands) = true := by
  cases operands with
  | nil => simp [Pattern.acceptsAll] at h
  | cons first operands =>
    simp only [Pattern.acceptsAll, Bool.and_eq_true] at h
    cases completion with
    | sameRegister => simp [target, complete, Pattern.acceptsAll, h.1]
    | fullMask =>
      have constant : Pattern.immediate.accepts (.immediate 0xFF) = true := rfl
      simp [target, complete, Pattern.acceptsAll, h.1, constant]

namespace Catalog

def shorts (mnemonic : Mnemonic) : List (List Pattern × Completion) :=
  (forms mnemonic).filterMap fun form => match form with
    | .word _ _ => none
    | .short shape completion => some (shape, completion)

private theorem short_completes (mnemonic : Mnemonic) :
    ∀ short ∈ shorts mnemonic, short.1.head? = some .register ∧
      ∃ word ∈ words mnemonic, Slot.shape word.2 = short.2.target := by
  cases mnemonic <;> decide

theorem exists_takes_of_accept? {mnemonic : Mnemonic} {form : Form}
    {operands full : List Operand} (member : form ∈ forms mnemonic)
    (accepted : form.accept? operands = some full) : ∃ word, Takes mnemonic word full := by
  cases form with
  | word opcode slots =>
    exact ⟨(opcode, slots), mem_words.mpr member, Pattern.acceptsAll_of_fit? accepted⟩
  | short shape completion =>
    have brief : (shape, completion) ∈ shorts mnemonic :=
      List.mem_filterMap.mpr ⟨_, member, rfl⟩
    obtain ⟨head, word, listed, same⟩ := short_completes mnemonic _ brief
    simp only [Form.accept?, Option.map_eq_some_iff] at accepted
    obtain ⟨fitted, found, rfl⟩ := accepted
    refine ⟨word, listed, ?_⟩
    cases shape with
    | nil => simp at head
    | cons pattern rest =>
      simp only [List.head?_cons, Option.some.injEq] at head
      subst head
      rw [same]
      exact completion.acceptsAll_complete (Pattern.acceptsAll_of_fit? found)

end Catalog

namespace Catalog

theorem Takes.substitute {mnemonic : Mnemonic} {word : Nat × List Slot} {operands : List Operand}
    (taken : Takes mnemonic word operands) (symbols : SymbolTable) :
    Takes mnemonic word (operands.map (Operand.substitute symbols)) :=
  ⟨taken.1, Pattern.acceptsAll_substitute symbols taken.2⟩

theorem Takes.length_eq {mnemonic : Mnemonic} {word : Nat × List Slot} {operands : List Operand}
    (taken : Takes mnemonic word operands) : word.2.length = operands.length := by
  have lengths := Pattern.length_eq_of_acceptsAll taken.2
  simpa [Slot.shape] using lengths

theorem Takes.accepts {mnemonic : Mnemonic} {word : Nat × List Slot} {operands : List Operand}
    (taken : Takes mnemonic word operands) {k : Nat} {slot : Slot} {operand : Operand}
    (place : word.2[k]? = some slot) (given : operands[k]? = some operand) :
    slot.pattern.accepts operand = true := by
  apply Pattern.accepts_of_acceptsAll taken.2 (k := k) _ given
  simp [Slot.shape, place]

theorem Takes.exists_number {mnemonic : Mnemonic} {word : Nat × List Slot}
    {operands : List Operand} (taken : Takes mnemonic word operands)
    (unlabelled : operands.filterMap Operand.label? = []) {k : Nat} {slot : Slot} {field : Field}
    {operand : Operand} (place : word.2[k]? = some slot) (given : operands[k]? = some operand)
    (filled : slot.field? = some field) : ∃ value, operand.number? = some value := by
  have packed : slot.field?.isSome = true := by
    rw [filled]
    rfl
  have numeric : slot.pattern.Numeric :=
    (packed_iff_numeric mnemonic word taken.1 slot (List.mem_of_getElem? place)).mp packed
  rcases Operand.number_or_label numeric (taken.accepts place given) with known | ⟨name, rfl⟩
  · exact known
  · have absent := List.filterMap_eq_nil_iff.mp unlabelled _ (List.mem_of_getElem? given)
    simp [Operand.label?] at absent

theorem Takes.field_of_label {mnemonic : Mnemonic} {word : Nat × List Slot}
    {operands : List Operand} (taken : Takes mnemonic word operands) {k : Nat} {name : List Char}
    (given : operands[k]? = some (.label name)) :
    ∃ slot field, word.2[k]? = some slot ∧ slot.field? = some field := by
  have inside : k < word.2.length := by
    rw [taken.length_eq]
    exact (List.getElem?_eq_some_iff.mp given).1
  have place : word.2[k]? = some word.2[k] := List.getElem?_eq_getElem inside
  have immediate : word.2[k].pattern = .immediate := by
    have accepted := taken.accepts place given
    revert accepted
    cases word.2[k].pattern <;> simp [Pattern.accepts]
  have packed := (packed_iff_numeric mnemonic word taken.1 _ (List.getElem_mem inside)).mpr
    (Or.inr immediate)
  obtain ⟨field, filled⟩ := Option.isSome_iff_exists.mp packed
  exact ⟨word.2[k], field, place, filled⟩

theorem Takes.extract_eq {mnemonic : Mnemonic} {word : Nat × List Slot} {operands : List Operand}
    (taken : Takes mnemonic word operands) {k : Nat} {slot : Slot} {field : Field}
    {operand : Operand} {value : Int} (place : word.2[k]? = some slot)
    (given : operands[k]? = some operand) (filled : slot.field? = some field)
    (number : operand.number? = some value) :
    field.extract (Field.pack word.1 (Slot.packings word.2 operands)) = field.content value := by
  have inside : field ∈ Slot.fields word.2 :=
    List.mem_filterMap.mpr ⟨slot, List.mem_of_getElem? place, filled⟩
  apply Field.extract_pack (Slot.mem_packings place given filled number)
  · exact opcode_apart mnemonic word taken.1 field inside
  · have apart := (fields_apart mnemonic word taken.1).sublist
      (Slot.packings_fields_sublist word.2 operands)
    exact List.pairwise_map.mp apart

theorem Takes.length_labels_le {mnemonic : Mnemonic} {word : Nat × List Slot}
    {operands : List Operand} (taken : Takes mnemonic word operands) :
    (operands.filterMap Operand.label?).length ≤ 1 :=
  (Pattern.length_labels_le taken.2).trans (immediates_le mnemonic word taken.1)

end Catalog

private theorem Pattern.mem_of_fit? {shape : List Pattern} {operands fitted : List Operand}
    (found : fit? shape operands = some fitted) :
    ∀ operand ∈ fitted, operand ∈ operands ∨ operand = .blank := by
  induction shape generalizing operands fitted with
  | nil =>
    simp only [fit?, Option.ite_none_right_eq_some, Option.some.injEq] at found
    rw [← found.2]
    simp
  | cons pattern shape ih =>
    simp only [fit?, Option.ite_none_right_eq_some, Option.map_eq_some_iff] at found
    obtain ⟨-, rest, later, rfl⟩ := found
    intro operand member
    cases operands with
    | nil =>
      rcases List.mem_cons.mp member with rfl | member
      · exact Or.inr rfl
      · exact ih later operand member
    | cons head operands =>
      rcases List.mem_cons.mp member with rfl | member
      · exact Or.inl List.mem_cons_self
      · exact (ih later operand member).imp (List.mem_cons_of_mem head) id

private theorem Completion.forall_complete (completion : Completion) {p : Operand → Prop}
    (mask : p (.immediate 0xFF)) {operands : List Operand}
    (given : ∀ operand ∈ operands, p operand) :
    ∀ operand ∈ completion.complete operands, p operand := by
  cases operands with
  | nil => cases completion <;> simp [complete]
  | cons first operands =>
    have head := given first List.mem_cons_self
    cases completion <;> simp [complete, head, mask]

namespace Instruction

open Catalog (Takes)

private theorem findSome?_encoding? (forms : List Form) (operands : List Operand) :
    forms.findSome? (·.encoding? operands) =
      (forms.filterMap Form.word?).find?
        fun word => Pattern.acceptsAll (Slot.shape word.2) operands := by
  induction forms with
  | nil => rfl
  | cons form forms ih =>
    cases form with
    | short shape completion => exact ih
    | word opcode slots =>
      have encoding : (Form.word opcode slots).encoding? operands =
          if Pattern.acceptsAll (Slot.shape slots) operands = true then some (opcode, slots)
          else none := rfl
      change _ = ((opcode, slots) :: forms.filterMap Form.word?).find? _
      rw [List.findSome?_cons, encoding, ih, List.find?_cons]
      cases Pattern.acceptsAll (Slot.shape slots) operands <;> rfl

theorem encoding?_eq_some_iff {instruction : Instruction} {mnemonic : Mnemonic}
    (name : instruction.mnemonic = mnemonic.spelling) {word : Nat × List Slot} :
    instruction.encoding? = some word ↔ Takes mnemonic word instruction.operands := by
  let suits := fun word : Nat × List Slot =>
    Pattern.acceptsAll (Slot.shape word.2) instruction.operands
  have search : instruction.encoding? = (words mnemonic).find? suits := by
    rw [encoding?, name, Mnemonic.ofSpelling?_spelling]
    exact findSome?_encoding? (Catalog.forms mnemonic) instruction.operands
  have taken_of_found : ∀ {other : Nat × List Slot}, (words mnemonic).find? suits = some other →
      Takes mnemonic other instruction.operands := by
    intro other found
    have suited : suits other = true := List.find?_some found
    exact ⟨List.mem_of_find?_eq_some found, suited⟩
  rw [search]
  constructor
  · exact taken_of_found
  · intro taken
    cases found : (words mnemonic).find? suits with
    | none => exact absurd taken.2 (List.find?_eq_none.mp found word taken.1)
    | some other => rw [(taken_of_found found).unique taken rfl]

theorem parse_eq_ok {name arguments : List Char} {position : Position}
    {instruction : Instruction} (h : parse name arguments position = .ok instruction) :
    ∃ mnemonic, Mnemonic.read? name = some mnemonic ∧
      ofMnemonic mnemonic arguments position = .ok instruction := by
  unfold parse at h
  split at h
  · rename_i mnemonic known
    exact ⟨mnemonic, known, h⟩
  · cases h

theorem ofMnemonic_eq_ok {mnemonic : Mnemonic} {arguments : List Char} {position : Position}
    {instruction : Instruction}
    (h : ofMnemonic mnemonic arguments position = .ok instruction) :
    instruction.mnemonic = mnemonic.spelling ∧ instruction.position = position ∧
      ∃ word, Takes mnemonic word instruction.operands := by
  unfold ofMnemonic at h
  split at h
  · rename_i operands accepted
    cases h
    obtain ⟨form, member, fits⟩ := List.exists_of_findSome?_eq_some accepted
    exact ⟨rfl, rfl, Catalog.exists_takes_of_accept? member fits⟩
  · cases h

theorem forall_operands_of_ofMnemonic {mnemonic : Mnemonic} {arguments : List Char}
    {position : Position} {instruction : Instruction} {p : Operand → Prop}
    (parsed : ofMnemonic mnemonic arguments position = .ok instruction)
    (read : ∀ operand ∈ Operand.readList arguments, p operand) (blank : p .blank)
    (mask : p (.immediate 0xFF)) : ∀ operand ∈ instruction.operands, p operand := by
  have fits : ∀ {shape : List Pattern} {fitted : List Operand},
      Pattern.fit? shape (Operand.readList arguments) = some fitted →
        ∀ operand ∈ fitted, p operand := by
    intro shape fitted found operand member
    rcases Pattern.mem_of_fit? found operand member with given | rfl
    · exact read operand given
    · exact blank
  unfold ofMnemonic at parsed
  split at parsed
  · rename_i operands accepted
    cases parsed
    obtain ⟨form, -, fitting⟩ := List.exists_of_findSome?_eq_some accepted
    cases form with
    | word opcode slots => exact fits fitting
    | short shape completion =>
      simp only [Form.accept?, Option.map_eq_some_iff] at fitting
      obtain ⟨fitted, found, rfl⟩ := fitting
      exact completion.forall_complete mask (fits found)
  · cases parsed

theorem mnemonic_of_resolve {instruction resolved : Instruction} {symbols : SymbolTable}
    (h : instruction.resolve symbols = .ok resolved) :
    resolved.mnemonic = instruction.mnemonic := by
  rw [(resolve_eq_ok_iff.mp h).2]

theorem encoding?_of_resolve {mnemonic : Mnemonic} {instruction resolved : Instruction}
    {symbols : SymbolTable} {word : Nat × List Slot}
    (name : instruction.mnemonic = mnemonic.spelling)
    (taken : Takes mnemonic word instruction.operands)
    (h : instruction.resolve symbols = .ok resolved) :
    Takes mnemonic word resolved.operands ∧ resolved.encoding? = some word := by
  have still : Takes mnemonic word resolved.operands := by
    rw [(resolve_eq_ok_iff.mp h).2]
    exact taken.substitute symbols
  exact ⟨still, (encoding?_eq_some_iff ((mnemonic_of_resolve h).trans name)).mpr still⟩

theorem encode_of_resolve {mnemonic : Mnemonic} {instruction resolved : Instruction}
    {symbols : SymbolTable} {word : Nat × List Slot}
    (name : instruction.mnemonic = mnemonic.spelling)
    (taken : Takes mnemonic word instruction.operands)
    (h : instruction.resolve symbols = .ok resolved) :
    Takes mnemonic word resolved.operands ∧
      resolved.encode.2 = .ok (Field.pack word.1 (Slot.packings word.2 resolved.operands)) := by
  have unlabelled := labels_of_resolve h
  obtain ⟨still, found⟩ := encoding?_of_resolve name taken h
  refine ⟨still, ?_⟩
  rw [encode, unlabelled]
  simp only [found]

end Instruction

end ChipEight
