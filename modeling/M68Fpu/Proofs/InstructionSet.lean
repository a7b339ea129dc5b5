import M68Fpu.Bus.Sparse
import M68Fpu.Proofs.EncodingFault

/-!
# The documented instruction set

The encodings that the FPU documents, as a table of numbers (`Documented`), next to the decoders
that accept them. On a bus that refuses nothing a step completes on exactly these encodings, and
what it reports otherwise depends on nothing but the words of the encoding.

One kind of encoding is left out of the comparison: a move of no registers at all completes whatever
its address field says.
-/

namespace M68Fpu

/-! ## The table -/

/-- The codes of the predicates. -/
def conditionCodes : List UInt8 :=
  [0x00, 0x01, 0x0E, 0x0F, 0x12, 0x13, 0x14, 0x15, 0x1A, 0x1B, 0x1C, 0x1D]

/-- The codes of the operations. -/
def opmodeCodes : List UInt8 := [0x00, 0x04, 0x18, 0x1A, 0x20, 0x22, 0x23, 0x28, 0x38, 0x3A]

/-- The codes of the control registers. -/
def controlCodes : List UInt8 := [1, 2, 4]

/-- The widths of the formats that can be loaded, by code: the integers L, W and B and the real
numbers S and D. -/
def loadWidth : (code : Fin 8) → Option Width
  | 0 | 1 => some .long
  | 4 => some .word
  | 5 => some .quad
  | 6 => some .byte
  | _ => none

/-- The widths of the formats that can be stored, by code: L, S and D. -/
def storeWidth : (code : Fin 8) → Option Width
  | 0 | 1 => some .long
  | 5 => some .quad
  | _ => none

/-- Whether the mode and the register of an address field name an operand that an access of at most
64 bits may use. The word behind the instruction so far counts if it is an index. -/
def Legal (access : Access) (extension : UInt16) : (mode register : Fin 8) → Prop
  | 0, _ => access.width.bits ≤ 32
  | 1, _ => False
  | 2, _ | 3, _ | 4, _ | 5, _ => True
  | 6, _ => access.width.bits ≤ 32 ∧ bitField extension 8 1 = 0
  | 7, 1 => True
  | 7, 2 => access.direction = .read ∧ 32 ≤ access.width.bits
  | 7, 4 => access.direction = .read
  | 7, _ => False

/-- The documented commands: their opcode, the command word and the word behind it. -/
inductive DocumentedCommand (opcode second third : UInt16) : Prop
  /-- An operation on two registers, whatever the address field. -/
  | registerArithmetic (hclass : octalField second 13 = 0)
      (hopmode : byteField second 0 7 ∈ opmodeCodes)
  /-- An operation on an operand and a register. -/
  | memoryArithmetic (hclass : octalField second 13 = 2)
      (hopmode : byteField second 0 7 ∈ opmodeCodes) {width : Width}
      (hformat : loadWidth (octalField second 10) = some width)
      (hlegal : Legal ⟨width, .read⟩ third (octalField opcode 3) (octalField opcode 0))
  /-- A move of a register out of the FPU. -/
  | moveToMemory (hclass : octalField second 13 = 3) {width : Width}
      (hformat : storeWidth (octalField second 10) = some width)
      (hlegal : Legal ⟨width, .write⟩ third (octalField opcode 3) (octalField opcode 0))
  /-- A move to a control register. -/
  | loadControl (hclass : octalField second 13 = 4)
      (hselect : byteField second 10 3 ∈ controlCodes)
      (hlegal : Legal ⟨.long, .read⟩ third (octalField opcode 3) (octalField opcode 0))
  /-- A move from a control register. -/
  | storeControl (hclass : octalField second 13 = 5)
      (hselect : byteField second 10 3 ∈ controlCodes)
      (hlegal : Legal ⟨.long, .write⟩ third (octalField opcode 3) (octalField opcode 0))
  /-- A static list of registers, popped from `(An)+`. -/
  | loadMultiple (hclass : octalField second 13 = 6) (hmode : byteField second 11 2 = 2)
      (hplace : octalField opcode 3 = 3)
  /-- A static list of registers, pushed to `-(An)`. -/
  | storeMultiple (hclass : octalField second 13 = 7) (hmode : byteField second 11 2 = 0)
      (hplace : octalField opcode 3 = 4)

/-- The documented encodings. -/
inductive Documented (opcode second third : UInt16) : Prop
  /-- A conditional branch, with a displacement of 16 or 32 bits. -/
  | branch (hgroup : bitField opcode 8 8 = 0xF2)
      (hoperation : bitField opcode 6 2 = 2 ∨ bitField opcode 6 2 = 3)
      (hcondition : addressField opcode ∈ conditionCodes)
  | command (hgroup : bitField opcode 8 8 = 0xF2) (hoperation : bitField opcode 6 2 = 0)
      (hcommand : DocumentedCommand opcode second third)
  /-- A save of the internal state, whose index is the word behind the opcode. -/
  | saveFrame (hgroup : bitField opcode 8 8 = 0xF3) (hoperation : bitField opcode 6 2 = 0)
      (hlegal : Legal ⟨.long, .write⟩ second (octalField opcode 3) (octalField opcode 0))
  /-- A restore of the internal state. -/
  | restoreFrame (hgroup : bitField opcode 8 8 = 0xF3) (hoperation : bitField opcode 6 2 = 1)
      (hlegal : Legal ⟨.long, .read⟩ second (octalField opcode 3) (octalField opcode 0))

/-- Whether an encoding moves a list of no registers. -/
def MovesNothing (opcode second : UInt16) : Prop :=
  bitField opcode 8 8 = 0xF2 ∧ bitField opcode 6 2 = 0 ∧
    (bitField second 13 3 = 6 ∨ bitField second 13 3 = 7) ∧ byteField second 0 8 = 0

/-! ## The decoders against the table -/

theorem modeOf_addressField (opcode : UInt16) :
    EffectiveAddress.modeOf (addressField opcode) = octalField opcode 3 := by
  apply Fin.ext
  simp only [EffectiveAddress.modeOf, addressField, byteField, octalField, bitField,
    UInt8.toNat_ofNat', Nat.shiftRight_eq_div_pow, Nat.one_shiftLeft]
  omega

theorem registerOf_addressField (opcode : UInt16) :
    EffectiveAddress.registerOf (addressField opcode) = octalField opcode 0 := by
  apply Fin.ext
  simp only [EffectiveAddress.registerOf, addressField, byteField, octalField, bitField,
    UInt8.toNat_ofNat', Nat.shiftRight_eq_div_pow, Nat.one_shiftLeft]
  omega

theorem Index.decode_eq_none_iff (extension : UInt16) :
    Index.decode extension = none ↔ bitField extension 8 1 ≠ 0 := by
  have hlt : bitField extension 8 1 < 2 := bitField_lt extension 8 1
  unfold Index.decode
  by_cases h : bitField extension 8 1 = 1
  · simp [h]
  · have hzero : bitField extension 8 1 = 0 := by omega
    simp [hzero]

theorem Condition.decode_ne_none_iff (code : UInt8) :
    Condition.decode code ≠ none ↔ code ∈ conditionCodes := by
  unfold Condition.decode conditionCodes
  split <;> simp_all

theorem Opmode.decode_ne_none_iff (code : UInt8) :
    Opmode.decode code ≠ none ↔ code ∈ opmodeCodes := by
  unfold Opmode.decode opmodeCodes
  split <;> simp_all

theorem ControlRegister.decode_ne_none_iff (select : UInt8) :
    ControlRegister.decode select ≠ none ↔ select ∈ controlCodes := by
  unfold ControlRegister.decode controlCodes
  split <;> simp_all

theorem loadWidth_eq_some_iff {code : Fin 8} {width : Width} :
    loadWidth code = some width ↔
      ∃ format, (Format.decode code).loadFormat = .ok format ∧ format.width = width := by
  match code with
  | 0 | 1 | 2 | 3 | 4 | 5 | 6 | 7 =>
    simp [loadWidth, Format.decode, Format.loadFormat, LoadFormat.width]

theorem storeWidth_eq_some_iff {code : Fin 8} {width : Width} :
    storeWidth code = some width ↔
      ∃ format, (Format.decode code).storeFormat = .ok format ∧ format.width = width := by
  match code with
  | 0 | 1 | 2 | 3 | 4 | 5 | 6 | 7 =>
    simp [storeWidth, Format.decode, Format.storeFormat, StoreFormat.width]

theorem Access.rejection_of_decode {access : Access} {opcode : UInt16} {place : EffectiveAddress}
    (extension : UInt16) (hplace : EffectiveAddress.decode (addressField opcode) = some place) :
    access.rejection opcode extension = none ↔
      access.supports place = true ∧
        ((∃ n, place = .indexed n) → Index.decode extension ≠ none) := by
  unfold Access.rejection
  rw [hplace, Option.filter_some]
  cases hsupports : access.supports place with
  | false => simp
  | true => cases place <;> simp

theorem Access.rejection_of_decode_none {access : Access} {opcode : UInt16} (extension : UInt16)
    (hplace : EffectiveAddress.decode (addressField opcode) = none) :
    access.rejection opcode extension ≠ none := by
  unfold Access.rejection
  rw [hplace, Option.filter_none]
  nofun

/-- Operands of at most 64 bits. The cases are those of the address field: eight modes, and the
eight registers of the last one. -/
theorem Access.rejection_eq_none_iff {width : Width} (hwidth : width ≠ .extended)
    (direction : Direction) (opcode extension : UInt16) :
    Access.rejection ⟨width, direction⟩ opcode extension = none ↔
      Legal ⟨width, direction⟩ extension (octalField opcode 3) (octalField opcode 0) := by
  generalize hplace : EffectiveAddress.decode (addressField opcode) = place
  have hfields := hplace
  unfold EffectiveAddress.decode at hfields
  rw [modeOf_addressField, registerOf_addressField] at hfields
  generalize octalField opcode 3 = mode at hfields ⊢
  generalize octalField opcode 0 = register at hfields ⊢
  have hindex := Index.decode_eq_none_iff extension
  match mode, register with
  -- All the fields that name a place: the table is compared for each width and direction.
  | 0, _ | 1, _ | 2, _ | 3, _ | 4, _ | 5, _ | 6, _
  | 7, 0 | 7, 1 | 7, 2 | 7, 3 | 7, 4 =>
    subst hfields
    rw [Access.rejection_of_decode extension hplace]
    cases width <;> cases direction <;>
      simp_all [Access.supports, Legal, Width.bits, Width.bytes]
  | 7, 5 | 7, 6 | 7, 7 =>
    subst hfields
    exact iff_of_false (Access.rejection_of_decode_none extension hplace) id

theorem Access.rejection_long_eq_none_iff (direction : Direction) (opcode extension : UInt16) :
    Access.rejection ⟨.long, direction⟩ opcode extension = none ↔
      Legal ⟨.long, direction⟩ extension (octalField opcode 3) (octalField opcode 0) :=
  rejection_eq_none_iff (by decide) direction opcode extension

theorem Access.rejection_extended_eq_none_iff (direction : Direction) (opcode extension : UInt16) :
    Access.rejection ⟨.extended, direction⟩ opcode extension = none ↔
      octalField opcode 3 = (match direction with | .read => 3 | .write => 4) := by
  generalize hplace : EffectiveAddress.decode (addressField opcode) = place
  have hfields := hplace
  unfold EffectiveAddress.decode at hfields
  rw [modeOf_addressField, registerOf_addressField] at hfields
  generalize octalField opcode 3 = mode at hfields ⊢
  generalize octalField opcode 0 = register at hfields ⊢
  match mode, register with
  | 0, _ | 1, _ | 2, _ | 3, _ | 4, _ | 5, _ | 6, _
  | 7, 0 | 7, 1 | 7, 2 | 7, 3 | 7, 4 =>
    subst hfields
    rw [Access.rejection_of_decode extension hplace]
    cases direction <;> simp [Access.supports]
  | 7, 5 | 7, 6 | 7, 7 =>
    subst hfields
    refine iff_of_false (Access.rejection_of_decode_none extension hplace) ?_
    cases direction <;> decide

theorem listedBits_ne_nil {list : UInt8} (h : list ≠ 0) : listedBits list ≠ [] := by
  intro hnil
  have hclear := List.filter_eq_nil_iff.mp hnil
  have hlist := list.toNat_lt
  have hzero : list.toNat = 0 := by
    apply Nat.eq_of_testBit_eq
    intro i
    rw [Nat.zero_testBit]
    by_cases hi : i < 8
    -- The list knows the low eight bits, and a byte has no others.
    · simpa using hclear ⟨i, hi⟩ (List.mem_finRange _)
    · apply Nat.testBit_lt_two_pow
      exact Nat.lt_of_lt_of_le hlist (Nat.pow_le_pow_right (by decide) (Nat.le_of_not_lt hi))
  exact h (UInt8.toNat_inj.mp hzero)

/-! ## Accepted encodings -/

theorem OpcodeGroup.decode_eq_general_iff (opcode : UInt16) :
    decode opcode = .general ↔ bitField opcode 8 8 = 0xF2 := by
  unfold decode
  split <;> simp_all

theorem OpcodeGroup.decode_eq_stateFrame_iff (opcode : UInt16) :
    decode opcode = .stateFrame ↔ bitField opcode 8 8 = 0xF3 := by
  unfold decode
  split <;> simp_all

theorem GeneralOp.decode_eq_command_iff (opcode : UInt16) :
    decode opcode = some .command ↔ bitField opcode 6 2 = 0 := by
  unfold decode
  split <;> simp_all

theorem LoadFormat.width_ne_extended (format : LoadFormat) : format.width ≠ .extended := by
  cases format <;> decide

theorem StoreFormat.width_ne_extended (format : StoreFormat) : format.width ≠ .extended := by
  cases format <;> decide

namespace Command

variable {opcode extension : UInt16}

theorem rejection_arithmetic_eq_none_iff {source : CommandSource} {target : Fin 8} {code : UInt8} :
    (arithmetic source target code).rejection opcode extension = none ↔
      code ∈ opmodeCodes ∧ ∀ format, source = .memory format →
        ∃ loaded, format.loadFormat = .ok loaded ∧
          Legal ⟨loaded.width, .read⟩ extension (octalField opcode 3) (octalField opcode 0) := by
  rw [← Opmode.decode_ne_none_iff]
  cases hopmode : Opmode.decode code with
  | none => simp [rejection, hopmode]
  | some opmode =>
    cases source with
    | register => simp [rejection, hopmode]
    | memory format =>
      cases hformat : format.loadFormat with
      | error cause => simp [rejection, hopmode, hformat]
      | ok loaded =>
        simp [rejection, hopmode, hformat,
          Access.rejection_eq_none_iff loaded.width_ne_extended]

theorem rejection_moveToMemory_eq_none_iff {format : Format} {source : Fin 8} :
    (moveToMemory format source).rejection opcode extension = none ↔
      ∃ stored, format.storeFormat = .ok stored ∧
        Legal ⟨stored.width, .write⟩ extension (octalField opcode 3) (octalField opcode 0) := by
  cases hformat : format.storeFormat with
  | error cause => simp [rejection, hformat]
  | ok stored =>
    simp [rejection, hformat, Access.rejection_eq_none_iff stored.width_ne_extended]

theorem rejection_moveControl_eq_none_iff {toMemory : Bool} {select : UInt8} :
    (moveControl toMemory select).rejection opcode extension = none ↔
      select ∈ controlCodes ∧
        Legal ⟨.long, if toMemory then .write else .read⟩ extension (octalField opcode 3)
          (octalField opcode 0) := by
  rw [← ControlRegister.decode_ne_none_iff]
  cases hselect : ControlRegister.decode select with
  | none => simp [rejection, hselect]
  | some register => simp [rejection, hselect, Access.rejection_long_eq_none_iff]

/-- The address field counts because something is moved. -/
theorem rejection_moveMultiple_eq_none_iff {toMemory : Bool} {mode list : UInt8}
    (hlist : list ≠ 0) :
    (moveMultiple toMemory mode list).rejection opcode extension = none ↔
      mode = (if toMemory then 0 else 2) ∧ octalField opcode 3 = (if toMemory then 4 else 3) := by
  have hnil := listedBits_ne_nil hlist
  by_cases hmode : mode = if toMemory then 0 else 2
  · cases toMemory <;> simp_all [rejection, Access.rejection_extended_eq_none_iff]
  · simp [rejection, hmode]

/-- A command word is accepted if it is documented. -/
theorem rejection_of_documented {second third : UInt16}
    (h : DocumentedCommand opcode second third)
    (hlist : bitField second 13 3 = 6 ∨ bitField second 13 3 = 7 → byteField second 0 8 ≠ 0) :
    ∃ fields, decode second = some fields ∧ fields.rejection opcode third = none := by
  cases h with
  | registerArithmetic hclass hopmode =>
    refine ⟨_, by rw [decode, hclass], ?_⟩
    exact rejection_arithmetic_eq_none_iff.mpr ⟨hopmode, nofun⟩
  | memoryArithmetic hclass hopmode hformat hlegal =>
    obtain ⟨loaded, hloaded, rfl⟩ := loadWidth_eq_some_iff.mp hformat
    refine ⟨_, by rw [decode, hclass], ?_⟩
    refine rejection_arithmetic_eq_none_iff.mpr ⟨hopmode, ?_⟩
    rintro format heq
    cases heq
    exact ⟨loaded, hloaded, hlegal⟩
  | moveToMemory hclass hformat hlegal =>
    obtain ⟨stored, hstored, rfl⟩ := storeWidth_eq_some_iff.mp hformat
    refine ⟨_, by rw [decode, hclass], ?_⟩
    exact rejection_moveToMemory_eq_none_iff.mpr ⟨stored, hstored, hlegal⟩
  | loadControl hclass hselect hlegal =>
    refine ⟨_, by rw [decode, hclass], ?_⟩
    exact rejection_moveControl_eq_none_iff.mpr ⟨hselect, hlegal⟩
  | storeControl hclass hselect hlegal =>
    refine ⟨_, by rw [decode, hclass], ?_⟩
    exact rejection_moveControl_eq_none_iff.mpr ⟨hselect, hlegal⟩
  | loadMultiple hclass hmode hplace =>
    have hlisted := hlist (.inl (congrArg Fin.val hclass))
    refine ⟨_, by rw [decode, hclass], ?_⟩
    exact (rejection_moveMultiple_eq_none_iff hlisted).mpr ⟨hmode, hplace⟩
  | storeMultiple hclass hmode hplace =>
    have hlisted := hlist (.inr (congrArg Fin.val hclass))
    refine ⟨_, by rw [decode, hclass], ?_⟩
    exact (rejection_moveMultiple_eq_none_iff hlisted).mpr ⟨hmode, hplace⟩

/-- A command word is documented if it is accepted. The cases are those of the class. -/
theorem documented_of_rejection {second third : UInt16} {fields : Command}
    (hfields : decode second = some fields) (hnone : fields.rejection opcode third = none)
    (hlist : bitField second 13 3 = 6 ∨ bitField second 13 3 = 7 → byteField second 0 8 ≠ 0) :
    DocumentedCommand opcode second third := by
  unfold decode at hfields
  -- The eight classes but class 1, which has no commands.
  split at hfields <;> rename_i hclass <;> cases hfields
  · exact .registerArithmetic hclass (rejection_arithmetic_eq_none_iff.mp hnone).1
  · obtain ⟨hopmode, hsource⟩ := rejection_arithmetic_eq_none_iff.mp hnone
    obtain ⟨loaded, hloaded, hlegal⟩ := hsource _ rfl
    exact .memoryArithmetic hclass hopmode (loadWidth_eq_some_iff.mpr ⟨loaded, hloaded, rfl⟩) hlegal
  · obtain ⟨stored, hstored, hlegal⟩ := rejection_moveToMemory_eq_none_iff.mp hnone
    exact .moveToMemory hclass (storeWidth_eq_some_iff.mpr ⟨stored, hstored, rfl⟩) hlegal
  · obtain ⟨hselect, hlegal⟩ := rejection_moveControl_eq_none_iff.mp hnone
    exact .loadControl hclass hselect hlegal
  · obtain ⟨hselect, hlegal⟩ := rejection_moveControl_eq_none_iff.mp hnone
    exact .storeControl hclass hselect hlegal
  · have hlisted := hlist (.inl (congrArg Fin.val hclass))
    obtain ⟨hmode, hplace⟩ := (rejection_moveMultiple_eq_none_iff hlisted).mp hnone
    exact .loadMultiple hclass hmode hplace
  · have hlisted := hlist (.inr (congrArg Fin.val hclass))
    obtain ⟨hmode, hplace⟩ := (rejection_moveMultiple_eq_none_iff hlisted).mp hnone
    exact .storeMultiple hclass hmode hplace

end Command

section

variable {opcode second third : UInt16}

theorem stateFrameRejection_eq_none_iff :
    stateFrameRejection opcode second = none ↔
      (bitField opcode 6 2 = 0 ∧
        Legal ⟨.long, .write⟩ second (octalField opcode 3) (octalField opcode 0)) ∨
      (bitField opcode 6 2 = 1 ∧
        Legal ⟨.long, .read⟩ second (octalField opcode 3) (octalField opcode 0)) := by
  unfold stateFrameRejection StateFrameOp.decode
  match bitField opcode 6 2 with
  | 0 | 1 => simp [Access.rejection_long_eq_none_iff]
  | _ + 2 => simp

theorem branchRejection_eq_none_iff :
    branchRejection opcode = none ↔ addressField opcode ∈ conditionCodes := by
  rw [← Condition.decode_ne_none_iff]
  unfold branchRejection
  cases Condition.decode (addressField opcode) <;> simp

theorem commandRejection_eq_none_iff
    (hlist : bitField second 13 3 = 6 ∨ bitField second 13 3 = 7 → byteField second 0 8 ≠ 0) :
    commandRejection opcode second third = none ↔ DocumentedCommand opcode second third := by
  unfold commandRejection
  constructor
  · intro hnone
    cases hfields : Command.decode second with
    | none => rw [hfields] at hnone; cases hnone
    | some fields =>
      rw [hfields] at hnone
      exact Command.documented_of_rejection hfields hnone hlist
  · intro hdocumented
    obtain ⟨fields, hfields, hnone⟩ := Command.rejection_of_documented hdocumented hlist
    rw [hfields]
    exact hnone

/-- The cases are the four values of bits 6 and 7, of which one is no operation. -/
theorem generalRejection_eq_none_iff
    (hlist : bitField opcode 6 2 = 0 → bitField second 13 3 = 6 ∨ bitField second 13 3 = 7 →
      byteField second 0 8 ≠ 0) :
    generalRejection opcode second third = none ↔
      (bitField opcode 6 2 = 0 ∧ DocumentedCommand opcode second third) ∨
      ((bitField opcode 6 2 = 2 ∨ bitField opcode 6 2 = 3) ∧
        addressField opcode ∈ conditionCodes) := by
  unfold generalRejection GeneralOp.decode
  match hoperation : bitField opcode 6 2 with
  | 0 => simp [commandRejection_eq_none_iff (hlist hoperation)]
  | 1 => simp
  | 2 | 3 => simp [branchRejection_eq_none_iff]
  | _ + 4 => simp

theorem encodingFault_eq_none_iff (start : UInt32) (hmoves : ¬ MovesNothing opcode second) :
    encodingFault start opcode second third = none ↔ Documented opcode second third := by
  unfold encodingFault
  cases hdecode : OpcodeGroup.decode opcode with
  | general =>
    have hgroup := (OpcodeGroup.decode_eq_general_iff opcode).mp hdecode
    have hlist (hoperation : bitField opcode 6 2 = 0)
        (hclass : bitField second 13 3 = 6 ∨ bitField second 13 3 = 7) :
        byteField second 0 8 ≠ 0 :=
      fun hempty => hmoves ⟨hgroup, hoperation, hclass, hempty⟩
    dsimp only
    rw [Option.map_eq_none_iff, generalRejection_eq_none_iff hlist]
    constructor
    · rintro (⟨hoperation, hcommand⟩ | ⟨hoperation, hcondition⟩)
      · exact .command hgroup hoperation hcommand
      · exact .branch hgroup hoperation hcondition
    · intro h
      cases h with
      | branch _ hoperation hcondition => exact .inr ⟨hoperation, hcondition⟩
      | command _ hoperation hcommand => exact .inl ⟨hoperation, hcommand⟩
      | saveFrame hother | restoreFrame hother => rw [hgroup] at hother; cases hother
  | stateFrame =>
    have hgroup := (OpcodeGroup.decode_eq_stateFrame_iff opcode).mp hdecode
    dsimp only
    rw [Option.map_eq_none_iff, stateFrameRejection_eq_none_iff]
    constructor
    · rintro (⟨hoperation, hlegal⟩ | ⟨hoperation, hlegal⟩)
      · exact .saveFrame hgroup hoperation hlegal
      · exact .restoreFrame hgroup hoperation hlegal
    · intro h
      cases h with
      | branch hother | command hother => rw [hgroup] at hother; cases hother
      | saveFrame _ hoperation hlegal => exact .inl ⟨hoperation, hlegal⟩
      | restoreFrame _ hoperation hlegal => exact .inr ⟨hoperation, hlegal⟩
  | unassigned =>
    -- Every documented encoding begins with one of the two bytes of the FPU.
    have hgeneral (hgroup : bitField opcode 8 8 = 0xF2) : False := by
      rw [(OpcodeGroup.decode_eq_general_iff opcode).mpr hgroup] at hdecode
      cases hdecode
    have hframe (hgroup : bitField opcode 8 8 = 0xF3) : False := by
      rw [(OpcodeGroup.decode_eq_stateFrame_iff opcode).mpr hgroup] at hdecode
      cases hdecode
    refine iff_of_false nofun fun h => ?_
    cases h with
    | branch hgroup | command hgroup => exact hgeneral hgroup
    | saveFrame hgroup | restoreFrame hgroup => exact hframe hgroup

end

/-! ## Steps -/

/-- The same fault at another address. -/
def Fault.relocate (address : UInt32) : Fault → Fault
  | .busError => .busError
  | .illegalInstruction opcode => .illegalInstruction opcode
  | .decode cause _ => .decode cause address

theorem encodingFault_relocate (start other : UInt32) (opcode second third : UInt16) :
    encodingFault other opcode second third
      = (encodingFault start opcode second third).map (Fault.relocate other) := by
  unfold encodingFault
  split
  · cases generalRejection opcode second third <;> rfl
  · cases stateFrameRejection opcode second <;> rfl
  · rfl

namespace Machine

variable {β : Type} [Bus β]

/-- Three consecutive words at the program counter of a machine whose bus refuses nothing. -/
structure Reads (machine : Machine β) (opcode second third : UInt16) : Prop where
  bus : Bus.NeverRefuses machine.bus
  opcode : Bus.read16 machine.bus machine.cpu.pc = some opcode
  second : Bus.read16 machine.bus (machine.cpu.pc + 2) = some second
  third : Bus.read16 machine.bus (machine.cpu.pc + 4) = some third

/-- A step completes on exactly the documented encodings, and the fault in which it ends otherwise
is the same on every machine that reads the same words. -/
theorem documented_step {machine : Machine β} {opcode second third : UInt16}
    (h : machine.Reads opcode second third) :
    (∀ {γ : Type} [Bus γ] (other : Machine γ), other.Reads opcode second third →
      other.step.fault = machine.step.fault.map (Fault.relocate other.cpu.pc)) ∧
    (¬ MovesNothing opcode second →
      (machine.step.fault = none ↔ Documented opcode second third)) := by
  have hfault := step_fault_eq h.bus h.opcode h.second h.third
  constructor
  · intro γ _ other hother
    rw [step_fault_eq hother.bus hother.opcode hother.second hother.third, hfault]
    exact encodingFault_relocate _ _ _ _ _
  · intro hmoves
    rw [hfault]
    exact encodingFault_eq_none_iff _ hmoves

/-- A machine about to execute `FADD.L (16,A0,D1.L),FP1` in memory that refuses nothing. -/
def aboutToAddIndexed : Machine SparseMemory where
  cpu := { pc := 0x400 }
  bus := ByteAddressed.storeBytes {} 0x400 [0xF2, 0x30, 0x40, 0xA2, 0x18, 0x10]

/-- The encoding is documented, and the machine completes it. -/
theorem documented_step_indexed :
    Documented 0xF230 0x40A2 0x1810 ∧ aboutToAddIndexed.step.fault = none := by
  have hempty : ({} : SparseMemory).Open := rfl
  have hopen : aboutToAddIndexed.bus.Open := hempty.storeBytes _ _
  have hreads : aboutToAddIndexed.Reads 0xF230 0x40A2 0x1810 :=
    ⟨hopen.neverRefuses, by decide +kernel, by decide +kernel, by decide +kernel⟩
  have hdocumented : Documented 0xF230 0x40A2 0x1810 :=
    .command (by decide) (by decide)
      (.memoryArithmetic (by decide) (by decide)
        (show loadWidth (octalField 0x40A2 10) = some .long by decide)
        ⟨by decide, by decide⟩)
  have hmoves : ¬ MovesNothing 0xF230 0x40A2 := fun h => absurd h.2.2.1 (by decide)
  obtain ⟨-, hcompletes⟩ := documented_step hreads
  exact ⟨hdocumented, (hcompletes hmoves).mpr hdocumented⟩

end Machine

end M68Fpu
