import M68Fpu.Proofs.Step

/-!
# Encodings

What the words of an instruction say: the instruction itself (`Encodes`) and how many bytes of the
instruction stream it takes (`encodedLength`), both read off the opcode and, for a command, the word
behind it. An instruction that is fetched is encoded by its words and has taken as many bytes
(`Machine.encoded_fetch`).

Each fetch is followed on its own: what it yields, and how far it has moved ahead in the stream
(`InstructionStream.Ahead`).
-/

namespace M68Fpu

/-! ## Lengths -/

/-- The bytes of immediate data. A byte takes a whole word. -/
def Width.immediateBytes : Width → Nat
  | byte | word => 2
  | long => 4
  | quad | extended => 8

/-- The bytes that follow the words of an instruction for its operand. -/
def EffectiveAddress.extensionBytes (width : Width) : EffectiveAddress → Nat
  | displaced _ | indexed _ | pcDisplaced => 2
  | absoluteLong => 4
  | immediate => width.immediateBytes
  | _ => 0

/-- The width of the operands of a format. -/
def Format.width : Format → Width
  | byteInteger => .byte
  | wordInteger => .word
  | longInteger | single => .long
  | double => .quad
  | extended | packed | packedDynamic => .extended

/-- The bytes that follow for an operand of the address field. -/
def operandBytes (opcode : UInt16) (width : Width) : Nat :=
  match EffectiveAddress.decode (addressField opcode) with
  | some address => address.extensionBytes width
  | none => 0

/-- The bytes that follow a command word. Operations on registers and moves of register lists have no
operand. -/
def Command.operandBytes (opcode : UInt16) : Command → Nat
  | arithmetic (.memory format) _ _ | moveToMemory format _ => M68Fpu.operandBytes opcode format.width
  | moveControl _ _ => M68Fpu.operandBytes opcode .long
  | arithmetic (.register _) _ _ | moveMultiple _ _ _ => 0

/-- Whether an opcode is followed by a command word. -/
def IsCommand (opcode : UInt16) : Prop :=
  OpcodeGroup.decode opcode = .general ∧ GeneralOp.decode opcode = some .command

/-- The bytes of an instruction. The second word counts if it is a command word. -/
def encodedLength (opcode second : UInt16) : Nat :=
  match OpcodeGroup.decode opcode, GeneralOp.decode opcode with
  | .general, some .command => 4 + ((Command.decode second).map (Command.operandBytes opcode)).getD 0
  | .general, some .branchWord => 4
  | .general, some .branchLong => 6
  | .stateFrame, _ => 2 + operandBytes opcode .long
  | _, _ => 2

/-! ## Contents -/

/-- The places that a location stands for, whatever its extension words are. -/
inductive EffectiveAddress.Resolves : EffectiveAddress → Reference → Prop
  | indirect (n : Fin 8) : Resolves (.indirect n) (.indirect n)
  | postIncrement (n : Fin 8) : Resolves (.postIncrement n) (.postIncrement n)
  | preDecrement (n : Fin 8) : Resolves (.preDecrement n) (.preDecrement n)
  | displaced (n : Fin 8) (displacement : UInt32) :
      Resolves (.displaced n) (.displaced n displacement)
  | indexed (n : Fin 8) (index : Index) : Resolves (.indexed n) (.indexed n index)
  | pcDisplaced (address : UInt32) : Resolves .pcDisplaced (.absolute address)
  | absoluteLong (address : UInt32) : Resolves .absoluteLong (.absolute address)

/-- The source operands that a location stands for. -/
inductive EffectiveAddress.ReadsFrom : EffectiveAddress → Operand → Prop
  | dataRegister (n : Fin 8) : ReadsFrom (.dataRegister n) (.dataRegister n)
  | immediate (value : UInt64) : ReadsFrom .immediate (.immediate value)
  | memory {address : EffectiveAddress} {place : Reference} (h : address.Resolves place) :
      ReadsFrom address (.memory place)

/-- The destinations that a location stands for. -/
inductive EffectiveAddress.WritesTo : EffectiveAddress → Destination → Prop
  | dataRegister (n : Fin 8) : WritesTo (.dataRegister n) (.dataRegister n)
  | memory {address : EffectiveAddress} {place : Reference} (h : address.Resolves place) :
      WritesTo address (.memory place)

/-- The address field of an opcode names an operand. -/
def NamesOperand (opcode : UInt16) (operand : Operand) : Prop :=
  ∃ address, EffectiveAddress.decode (addressField opcode) = some address ∧
    address.ReadsFrom operand

def NamesDestination (opcode : UInt16) (destination : Destination) : Prop :=
  ∃ address, EffectiveAddress.decode (addressField opcode) = some address ∧
    address.WritesTo destination

/-- The instructions that a command stands for behind an opcode. -/
inductive Command.Encodes (opcode : UInt16) : Command → Instruction → Prop
  | registerArithmetic {n destination : Fin 8} {code : UInt8} {opmode : Opmode}
      (hopmode : Opmode.decode code = some opmode) :
      Encodes opcode (.arithmetic (.register n) destination code)
        (.arithmetic opmode (.register n) destination)
  | memoryArithmetic {format : Format} {destination : Fin 8} {code : UInt8} {opmode : Opmode}
      {loaded : LoadFormat} {operand : Operand} (hopmode : Opmode.decode code = some opmode)
      (hformat : format.loadFormat = .ok loaded) (hoperand : NamesOperand opcode operand) :
      Encodes opcode (.arithmetic (.memory format) destination code)
        (.arithmetic opmode (.operand loaded operand) destination)
  | store {format : Format} {source : Fin 8} {stored : StoreFormat} {destination : Destination}
      (hformat : format.storeFormat = .ok stored)
      (hdestination : NamesDestination opcode destination) :
      Encodes opcode (.moveToMemory format source) (.store stored source destination)
  | loadControl {select : UInt8} {register : ControlRegister} {source : Operand}
      (hregister : ControlRegister.decode select = some register)
      (hsource : NamesOperand opcode source) :
      Encodes opcode (.moveControl false select) (.loadControl register source)
  | storeControl {select : UInt8} {register : ControlRegister} {destination : Destination}
      (hregister : ControlRegister.decode select = some register)
      (hdestination : NamesDestination opcode destination) :
      Encodes opcode (.moveControl true select) (.storeControl register destination)
  | loadMultiple (mode list : UInt8) :
      Encodes opcode (.moveMultiple false mode list)
        (.loadMultiple (EffectiveAddress.registerOf (addressField opcode)) (loadedRegisters list))
  | storeMultiple (mode list : UInt8) :
      Encodes opcode (.moveMultiple true mode list)
        (.storeMultiple (EffectiveAddress.registerOf (addressField opcode)) (storedRegisters list))

/-- The instructions that an opcode and the word behind it stand for. -/
inductive Encodes (opcode second : UInt16) : Instruction → Prop
  | command {fields : Command} {instruction : Instruction} (hcommand : IsCommand opcode)
      (hfields : Command.decode second = some fields)
      (h : fields.Encodes opcode instruction) : Encodes opcode second instruction
  | branch {condition : Condition} (target : UInt32)
      (hgroup : OpcodeGroup.decode opcode = .general)
      (hcondition : Condition.decode (addressField opcode) = some condition) :
      Encodes opcode second (.branch condition target)
  | saveFrame {destination : Destination} (hgroup : OpcodeGroup.decode opcode = .stateFrame)
      (hoperation : StateFrameOp.decode opcode = some .save)
      (hdestination : NamesDestination opcode destination) :
      Encodes opcode second (.saveFrame destination)
  | restoreFrame {source : Operand} (hgroup : OpcodeGroup.decode opcode = .stateFrame)
      (hoperation : StateFrameOp.decode opcode = some .restore)
      (hsource : NamesOperand opcode source) : Encodes opcode second (.restoreFrame source)

/-! ## Moving ahead -/

namespace InstructionStream

/-- A stream behind `count` more bytes of the same instruction. -/
structure Ahead (count : Nat) (first last : InstructionStream) : Prop where
  ir_eq : last.ir = first.ir
  fetched_eq : fetchedBytes last.events = fetchedBytes first.events + count

theorem Ahead.refl (stream : InstructionStream) : Ahead 0 stream stream := ⟨rfl, rfl⟩

theorem Ahead.trans {first middle last : InstructionStream} {i j : Nat}
    (hfirst : Ahead i first middle) (hlast : Ahead j middle last) : Ahead (i + j) first last := by
  refine ⟨hlast.ir_eq.trans hfirst.ir_eq, ?_⟩
  rw [hlast.fetched_eq, hfirst.fetched_eq, Nat.add_assoc]

theorem ahead_afterWord (stream : InstructionStream) (value : UInt16) :
    Ahead 2 stream (stream.afterWord value) :=
  ⟨rfl, fetchedBytes_append _ _⟩

theorem ahead_afterLong (stream : InstructionStream) (value : UInt32) :
    Ahead 4 stream (stream.afterLong value) :=
  ⟨rfl, fetchedBytes_append _ _⟩

end InstructionStream

/-! ## Fetches -/

namespace Fetch

open InstructionStream (Ahead ahead_afterWord ahead_afterLong)

variable {β : Type} [Bus β] {bus : β} {stream last : InstructionStream}

/-! ### Operands -/

/-- What a fetch of a location yields, apart from immediate data, which are still to come. -/
def Locates (address : EffectiveAddress) : Location → Prop
  | .dataRegister n => address = .dataRegister n
  | .memory place => address.Resolves place
  | .immediate => address = .immediate

/-- The bytes that a location takes without its immediate data. -/
def locationBytes (width : Width) (address : EffectiveAddress) : Location → Nat
  | .immediate => 0
  | .dataRegister _ | .memory _ => address.extensionBytes width

theorem locate_ok {access : Access} {address : EffectiveAddress} {place : Location}
    (h : locate access address bus stream = .ok place last) :
    Locates address place ∧ Ahead (locationBytes access.width address place) stream last := by
  cases address with
  | dataRegister n => cases h; exact ⟨rfl, .refl _⟩
  | indirect n => cases h; exact ⟨.indirect n, .refl _⟩
  | postIncrement n => cases h; exact ⟨.postIncrement n, .refl _⟩
  | preDecrement n => cases h; exact ⟨.preDecrement n, .refl _⟩
  | displaced n =>
    obtain ⟨value, middle, hword, hpure⟩ := bind_eq_ok_iff.mp h
    obtain ⟨-, rfl⟩ := word_eq_ok_iff.mp hword
    cases hpure
    exact ⟨.displaced n _, ahead_afterWord _ _⟩
  | indexed n =>
    obtain ⟨value, middle, hword, hrest⟩ := bind_eq_ok_iff.mp h
    obtain ⟨index, _, hindex, hpure⟩ := bind_eq_ok_iff.mp hrest
    obtain ⟨-, rfl⟩ := word_eq_ok_iff.mp hword
    obtain ⟨-, rfl⟩ := require_eq_ok_iff.mp hindex
    cases hpure
    exact ⟨.indexed n _, ahead_afterWord _ _⟩
  | pcDisplaced =>
    obtain ⟨_, middle, hget, hrest⟩ := bind_eq_ok_iff.mp h
    obtain ⟨value, _, hword, hpure⟩ := bind_eq_ok_iff.mp hrest
    cases hget
    obtain ⟨-, rfl⟩ := word_eq_ok_iff.mp hword
    cases hpure
    exact ⟨.pcDisplaced _, ahead_afterWord _ _⟩
  | absoluteLong =>
    obtain ⟨high, _, hhigh, hrest⟩ := bind_eq_ok_iff.mp h
    obtain ⟨low, _, hlow, hpure⟩ := bind_eq_ok_iff.mp hrest
    obtain ⟨-, rfl⟩ := word_eq_ok_iff.mp hhigh
    obtain ⟨-, rfl⟩ := word_eq_ok_iff.mp hlow
    cases hpure
    exact ⟨.absoluteLong _, (ahead_afterWord _ _).trans (ahead_afterWord _ _)⟩
  | immediate => cases h; exact ⟨rfl, .refl _⟩
  | addressRegister | pcIndexed | absoluteShort =>
    obtain ⟨_, middle, hget, hreject⟩ := bind_eq_ok_iff.mp h
    cases hreject

theorem location_ok {access : Access} {place : Location}
    (h : location access bus stream = .ok place last) :
    ∃ address, EffectiveAddress.decode (addressField stream.ir) = some address ∧
      access.supports address = true ∧ Locates address place ∧
      Ahead (locationBytes access.width address place) stream last := by
  obtain ⟨_, _, hget, hrest⟩ := bind_eq_ok_iff.mp h
  obtain ⟨address, _, hrequire, hlocate⟩ := bind_eq_ok_iff.mp hrest
  cases hget
  obtain ⟨hfilter, rfl⟩ := require_eq_ok_iff.mp hrequire
  obtain ⟨hdecode, hsupports⟩ := Option.filter_eq_some_iff.mp hfilter
  exact ⟨address, hdecode, hsupports, locate_ok hlocate⟩

theorem immediate_ok {width : Width} {value : UInt64}
    (h : immediate width bus stream = .ok value last) : Ahead width.immediateBytes stream last := by
  cases width with
  | byte | word =>
    obtain ⟨_, _, hword, hpure⟩ := bind_eq_ok_iff.mp h
    obtain ⟨-, rfl⟩ := word_eq_ok_iff.mp hword
    cases hpure
    exact ahead_afterWord _ _
  | long =>
    obtain ⟨_, _, hlong, hpure⟩ := bind_eq_ok_iff.mp h
    obtain ⟨-, rfl⟩ := long_eq_ok_iff.mp hlong
    cases hpure
    exact ahead_afterLong _ _
  | quad | extended =>
    obtain ⟨_, _, hhigh, hrest⟩ := bind_eq_ok_iff.mp h
    obtain ⟨_, _, hlow, hpure⟩ := bind_eq_ok_iff.mp hrest
    obtain ⟨-, rfl⟩ := long_eq_ok_iff.mp hhigh
    obtain ⟨-, rfl⟩ := long_eq_ok_iff.mp hlow
    cases hpure
    exact (ahead_afterLong _ _).trans (ahead_afterLong _ _)

theorem operandBytes_of_decode {opcode : UInt16} {address : EffectiveAddress}
    (h : EffectiveAddress.decode (addressField opcode) = some address) (width : Width) :
    operandBytes opcode width = address.extensionBytes width := by
  unfold operandBytes
  rw [h]

theorem operand_ok {width : Width} {operand : Operand}
    (h : Fetch.operand width bus stream = .ok operand last) :
    NamesOperand stream.ir operand ∧ Ahead (operandBytes stream.ir width) stream last := by
  obtain ⟨place, middle, hlocation, hrest⟩ := bind_eq_ok_iff.mp h
  obtain ⟨address, hdecode, -, hlocates, hahead⟩ := location_ok hlocation
  rw [operandBytes_of_decode hdecode]
  cases place with
  | dataRegister n =>
    cases hrest
    obtain rfl : address = .dataRegister n := hlocates
    exact ⟨⟨_, hdecode, .dataRegister n⟩, hahead⟩
  | memory place =>
    cases hrest
    exact ⟨⟨_, hdecode, .memory hlocates⟩, hahead⟩
  | immediate =>
    obtain ⟨value, _, himmediate, hpure⟩ := bind_eq_ok_iff.mp hrest
    cases hpure
    obtain rfl : address = .immediate := hlocates
    have htotal := hahead.trans (immediate_ok himmediate)
    rw [show locationBytes _ EffectiveAddress.immediate .immediate = 0 from rfl,
      Nat.zero_add] at htotal
    exact ⟨⟨_, hdecode, .immediate value⟩, htotal⟩

theorem destination_ok {width : Width} {destination : Destination}
    (h : Fetch.destination width bus stream = .ok destination last) :
    NamesDestination stream.ir destination ∧ Ahead (operandBytes stream.ir width) stream last := by
  obtain ⟨place, middle, hlocation, hrest⟩ := bind_eq_ok_iff.mp h
  obtain ⟨address, hdecode, -, hlocates, hahead⟩ := location_ok hlocation
  rw [operandBytes_of_decode hdecode]
  cases place with
  | dataRegister n =>
    cases hrest
    obtain rfl : address = .dataRegister n := hlocates
    exact ⟨⟨_, hdecode, .dataRegister n⟩, hahead⟩
  | memory place =>
    cases hrest
    exact ⟨⟨_, hdecode, .memory hlocates⟩, hahead⟩
  | immediate =>
    obtain ⟨_, _, _, hreject⟩ := bind_eq_ok_iff.mp hrest
    cases hreject

/-! ### Commands -/

theorem width_of_loadFormat {format : Format} {loaded : LoadFormat}
    (h : format.loadFormat = .ok loaded) : format.width = loaded.width := by
  cases format <;> cases h <;> rfl

theorem width_of_storeFormat {format : Format} {stored : StoreFormat}
    (h : format.storeFormat = .ok stored) : format.width = stored.width := by
  cases format <;> cases h <;> rfl

/-- The places of extended slots have no extension words. -/
theorem extensionBytes_of_supports {direction : Direction} {address : EffectiveAddress}
    (h : Access.supports ⟨.extended, direction⟩ address = true) :
    address.extensionBytes .extended = 0 := by
  cases address <;> cases direction <;> first | rfl | cases h

theorem stack_ok {direction : Direction} {registers : List (Fin 8)} {base : Fin 8}
    (h : stack direction registers bus stream = .ok base last) :
    base = EffectiveAddress.registerOf (addressField stream.ir) ∧ Ahead 0 stream last := by
  cases registers with
  | nil => cases h; exact ⟨rfl, .refl _⟩
  | cons n rest =>
    obtain ⟨_, middle, hdiscard, hpure⟩ := bind_eq_ok_iff.mp h
    rw [discard_apply] at hdiscard
    cases hlocation : location ⟨.extended, direction⟩ bus stream with
    | error => rw [hlocation] at hdiscard; cases hdiscard
    | ok place between =>
      rw [hlocation] at hdiscard
      cases hdiscard
      obtain ⟨address, -, hsupports, -, hahead⟩ := location_ok hlocation
      have hzero : locationBytes .extended address place = 0 := by
        cases place with
        | immediate => rfl
        | dataRegister | memory => exact extensionBytes_of_supports hsupports
      cases hpure
      rw [hzero] at hahead
      rw [hahead.ir_eq]
      exact ⟨rfl, hahead⟩

theorem ofCommand_ok {fields : Command} {instruction : Instruction}
    (h : ofCommand fields bus stream = .ok instruction last) :
    fields.Encodes stream.ir instruction ∧ Ahead (fields.operandBytes stream.ir) stream last := by
  cases fields with
  | arithmetic source destination code =>
    obtain ⟨opmode, _, hrequire, hrest⟩ := bind_eq_ok_iff.mp h
    obtain ⟨hopmode, rfl⟩ := require_eq_ok_iff.mp hrequire
    cases source with
    | register n => cases hrest; exact ⟨.registerArithmetic hopmode, .refl _⟩
    | memory format =>
      obtain ⟨loaded, _, haccept, hloaded⟩ := bind_eq_ok_iff.mp hrest
      obtain ⟨hformat, rfl⟩ := accept_eq_ok_iff.mp haccept
      obtain ⟨operand, _, hoperand, hpure⟩ := bind_eq_ok_iff.mp hloaded
      cases hpure
      obtain ⟨hnames, hahead⟩ := operand_ok hoperand
      rw [← width_of_loadFormat hformat] at hahead
      exact ⟨.memoryArithmetic hopmode hformat hnames, hahead⟩
  | moveToMemory format source =>
    obtain ⟨stored, _, haccept, hrest⟩ := bind_eq_ok_iff.mp h
    obtain ⟨hformat, rfl⟩ := accept_eq_ok_iff.mp haccept
    obtain ⟨destination, _, hdestination, hpure⟩ := bind_eq_ok_iff.mp hrest
    cases hpure
    obtain ⟨hnames, hahead⟩ := destination_ok hdestination
    rw [← width_of_storeFormat hformat] at hahead
    exact ⟨.store hformat hnames, hahead⟩
  | moveControl toMemory select =>
    obtain ⟨register, _, hrequire, hrest⟩ := bind_eq_ok_iff.mp h
    obtain ⟨hregister, rfl⟩ := require_eq_ok_iff.mp hrequire
    cases toMemory with
    | true =>
      obtain ⟨destination, _, hdestination, hpure⟩ := bind_eq_ok_iff.mp hrest
      cases hpure
      obtain ⟨hnames, hahead⟩ := destination_ok hdestination
      exact ⟨.storeControl hregister hnames, hahead⟩
    | false =>
      obtain ⟨operand, _, hoperand, hpure⟩ := bind_eq_ok_iff.mp hrest
      cases hpure
      obtain ⟨hnames, hahead⟩ := operand_ok hoperand
      exact ⟨.loadControl hregister hnames, hahead⟩
  | moveMultiple toMemory mode list =>
    cases toMemory with
    | true =>
      by_cases hmode : mode = 0
      · subst hmode
        obtain ⟨base, _, hstack, hpure⟩ := bind_eq_ok_iff.mp h
        cases hpure
        obtain ⟨rfl, hahead⟩ := stack_ok hstack
        exact ⟨.storeMultiple 0 list, hahead⟩
      · simp only [ofCommand, moveMultiple, if_true, if_neg hmode] at h
        cases h
    | false =>
      by_cases hmode : mode = 2
      · subst hmode
        obtain ⟨base, _, hstack, hpure⟩ := bind_eq_ok_iff.mp h
        cases hpure
        obtain ⟨rfl, hahead⟩ := stack_ok hstack
        exact ⟨.loadMultiple 2 list, hahead⟩
      · simp only [ofCommand, moveMultiple, if_neg hmode] at h
        cases h

/-! ### Instructions -/

omit [Bus β] in
theorem branch_ok {displacement : Fetch β UInt32} {bytes : Nat} {instruction : Instruction}
    (hdisplacement : ∀ {stream last : InstructionStream} {value : UInt32},
      displacement bus stream = .ok value last → Ahead bytes stream last)
    (h : branch displacement bus stream = .ok instruction last) :
    (∃ condition target, Condition.decode (addressField stream.ir) = some condition ∧
      instruction = .branch condition target) ∧ Ahead bytes stream last := by
  obtain ⟨_, _, hget, hrest⟩ := bind_eq_ok_iff.mp h
  obtain ⟨condition, _, hrequire, hmoved⟩ := bind_eq_ok_iff.mp hrest
  cases hget
  obtain ⟨hcondition, rfl⟩ := require_eq_ok_iff.mp hrequire
  obtain ⟨_, _, hbase, hoffset⟩ := bind_eq_ok_iff.mp hmoved
  cases hbase
  obtain ⟨offset, _, hread, hpure⟩ := bind_eq_ok_iff.mp hoffset
  cases hpure
  exact ⟨⟨condition, _, hcondition, rfl⟩, hdisplacement hread⟩

/-- An instruction has been fetched behind its opcode, to its end. The second word counts only if it
is a command word. -/
def EndsBehind (opcode : UInt16) (bus : β) (stream last : InstructionStream)
    (instruction : Instruction) : Prop :=
  ∃ second bytes, (IsCommand opcode → Bus.read16 bus stream.pc = some second) ∧
    Encodes opcode second instruction ∧ encodedLength opcode second = 2 + bytes ∧
    Ahead bytes stream last

theorem command_ok {instruction : Instruction} (hcommand : IsCommand stream.ir)
    (h : command bus stream = .ok instruction last) :
    EndsBehind stream.ir bus stream last instruction := by
  obtain ⟨second, _, hword, hrest⟩ := bind_eq_ok_iff.mp h
  obtain ⟨fields, _, hrequire, hfetch⟩ := bind_eq_ok_iff.mp hrest
  obtain ⟨hread, rfl⟩ := word_eq_ok_iff.mp hword
  obtain ⟨hfields, rfl⟩ := require_eq_ok_iff.mp hrequire
  obtain ⟨hencodes, hahead⟩ := ofCommand_ok hfetch
  refine ⟨second, _, fun _ => hread, .command hcommand hfields hencodes, ?_,
    (ahead_afterWord _ _).trans hahead⟩
  simp only [encodedLength, hcommand.1, hcommand.2, hfields, Option.map_some, Option.getD_some]
  exact Nat.add_assoc 2 2 _

theorem general_ok {instruction : Instruction}
    (hgroup : OpcodeGroup.decode stream.ir = .general)
    (h : general bus stream = .ok instruction last) :
    EndsBehind stream.ir bus stream last instruction := by
  obtain ⟨_, _, hget, hrest⟩ := bind_eq_ok_iff.mp h
  obtain ⟨operation, _, hrequire, hbehind⟩ := bind_eq_ok_iff.mp hrest
  cases hget
  obtain ⟨hoperation, rfl⟩ := require_eq_ok_iff.mp hrequire
  cases operation with
  | command => exact command_ok ⟨hgroup, hoperation⟩ hbehind
  | branchWord =>
    obtain ⟨⟨condition, target, hcondition, rfl⟩, hahead⟩ := branch_ok (fun hread => by
      rw [map_eq_pure_bind] at hread
      obtain ⟨_, _, hword, hpure⟩ := bind_eq_ok_iff.mp hread
      obtain ⟨-, rfl⟩ := word_eq_ok_iff.mp hword
      cases hpure
      exact ahead_afterWord _ _) hbehind
    refine ⟨0, 2, fun hcommand => ?_, .branch target hgroup hcondition, ?_, hahead⟩
    · cases hoperation.symm.trans hcommand.2
    · simp only [encodedLength, hgroup, hoperation]
  | branchLong =>
    obtain ⟨⟨condition, target, hcondition, rfl⟩, hahead⟩ := branch_ok (fun hread => by
      obtain ⟨-, rfl⟩ := long_eq_ok_iff.mp hread
      exact ahead_afterLong _ _) hbehind
    refine ⟨0, 4, fun hcommand => ?_, .branch target hgroup hcondition, ?_, hahead⟩
    · cases hoperation.symm.trans hcommand.2
    · simp only [encodedLength, hgroup, hoperation]

theorem stateFrame_ok {instruction : Instruction}
    (hgroup : OpcodeGroup.decode stream.ir = .stateFrame)
    (h : stateFrame bus stream = .ok instruction last) :
    EndsBehind stream.ir bus stream last instruction := by
  obtain ⟨_, _, hget, hrest⟩ := bind_eq_ok_iff.mp h
  obtain ⟨operation, _, hrequire, hbehind⟩ := bind_eq_ok_iff.mp hrest
  cases hget
  obtain ⟨hoperation, rfl⟩ := require_eq_ok_iff.mp hrequire
  have hnone (hcommand : IsCommand stream.ir) : Bus.read16 bus stream.pc = some 0 := by
    cases hgroup.symm.trans hcommand.1
  have hlength : encodedLength stream.ir 0 = 2 + operandBytes stream.ir .long := by
    simp only [encodedLength, hgroup]
  cases operation with
  | save =>
    obtain ⟨destination, _, hdestination, hpure⟩ := bind_eq_ok_iff.mp hbehind
    cases hpure
    obtain ⟨hnames, hahead⟩ := destination_ok hdestination
    exact ⟨0, _, hnone, .saveFrame hgroup hoperation hnames, hlength, hahead⟩
  | restore =>
    obtain ⟨source, _, hsource, hpure⟩ := bind_eq_ok_iff.mp hbehind
    cases hpure
    obtain ⟨hnames, hahead⟩ := operand_ok hsource
    exact ⟨0, _, hnone, .restoreFrame hgroup hoperation hnames, hlength, hahead⟩

theorem rest_ok {opcode : UInt16} {instruction : Instruction} (hir : stream.ir = opcode)
    (h : rest opcode bus stream = .ok instruction last) :
    EndsBehind opcode bus stream last instruction := by
  subst hir
  unfold rest at h
  cases hgroup : OpcodeGroup.decode stream.ir with
  | general => rw [hgroup] at h; exact general_ok hgroup h
  | stateFrame => rw [hgroup] at h; exact stateFrame_ok hgroup h
  | unassigned => rw [hgroup] at h; cases h

end Fetch

/-! ## Machines -/

namespace Machine

open InstructionStream (Covers fetchedBytes)

variable {β : Type} [Bus β] {machine : Machine β} {instruction : Instruction}
  {stream : InstructionStream}

/-- Whether the words at the program counter are an opcode and, if it is followed by a command word,
that. -/
def HasWords (machine : Machine β) (opcode second : UInt16) : Prop :=
  Bus.read16 machine.bus machine.cpu.pc = some opcode ∧
    (IsCommand opcode → Bus.read16 machine.bus (machine.cpu.pc + 2) = some second)

/-- A fetched instruction is encoded by the words at the program counter and has been read to its
end. -/
theorem encoded_fetch (h : machine.fetch = .ok instruction stream) :
    ∃ opcode second, machine.HasWords opcode second ∧ Encodes opcode second instruction ∧
      fetchedBytes stream.events = encodedLength opcode second := by
  cases hread : Bus.read16 machine.bus machine.cpu.pc with
  | none =>
    have hfetch : machine.fetch = .error .busError _ := Fetch.instruction_of_refusal hread
    cases hfetch.symm.trans h
  | some opcode =>
    let behind := (machine.stream machine.cpu.pc).afterOpcode opcode
    have hfetch : machine.fetch = Fetch.rest opcode machine.bus behind :=
      Fetch.instruction_of_read hread
    have hir : behind.ir = opcode := rfl
    have htwo : fetchedBytes behind.events = 2 := rfl
    obtain ⟨second, bytes, hsecond, hencodes, hlength, hahead⟩ :=
      Fetch.rest_ok hir (hfetch.symm.trans h)
    refine ⟨opcode, second, ⟨hread, hsecond⟩, hencodes, ?_⟩
    rw [hahead.fetched_eq, hlength, htwo]

end Machine

end M68Fpu
