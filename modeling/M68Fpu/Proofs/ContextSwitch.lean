import M68Fpu.Proofs.RegisterList

/-!
# Saving and restoring the FPU

The whole state of the FPU takes eight registers and three control registers. Saved on the stack of
an address register, they take 108 bytes (`Contents.HoldsContext`): the instruction address register
lowest, the status and the control register above it, and the slots of FP7 up to FP0 on top.

Four commands save the state and four restore it, in the opposite order. Between them anything may
run, as long as the stack pointer comes back and the 108 bytes are as they were saved.
-/

namespace M68Fpu

open ByteMemory (contents)

/-! ## Moves of control registers -/

namespace ControlRegister

def select : ControlRegister → UInt8
  | fpiar => 1
  | fpsr => 2
  | fpcr => 4

@[simp] theorem decode_select (register : ControlRegister) :
    decode register.select = some register := by
  cases register <;> rfl

end ControlRegister

namespace Fetch

variable {β : Type} [Bus β] {n : Fin 8} {stream : InstructionStream}

theorem moveControl_push (bus : β) (register : ControlRegister)
    (hplace : EffectiveAddress.decode (addressField stream.ir) = some (.preDecrement n)) :
    moveControl true register.select bus stream
      = .ok (.storeControl register (.memory (.preDecrement n))) stream := by
  have hlocation : location ⟨.long, .write⟩ bus stream
      = .ok (.memory (.preDecrement n)) stream :=
    location_of_supported hplace rfl bus
  have hdestination : destination .long bus stream = .ok (.memory (.preDecrement n)) stream := by
    rw [destination, bind_apply, hlocation]
    rfl
  unfold moveControl
  rw [bind_apply, require_of_some register.decode_select]
  show (destination .long >>= _ : Fetch β Instruction) bus stream = _
  rw [bind_apply, hdestination]
  rfl

theorem moveControl_pop (bus : β) (register : ControlRegister)
    (hplace : EffectiveAddress.decode (addressField stream.ir) = some (.postIncrement n)) :
    moveControl false register.select bus stream
      = .ok (.loadControl register (.memory (.postIncrement n))) stream := by
  have hlocation : location ⟨.long, .read⟩ bus stream
      = .ok (.memory (.postIncrement n)) stream :=
    location_of_supported hplace rfl bus
  have hoperand : operand .long bus stream = .ok (.memory (.postIncrement n)) stream := by
    rw [operand, bind_apply, hlocation]
    rfl
  unfold moveControl
  rw [bind_apply, require_of_some register.decode_select]
  show (operand .long >>= _ : Fetch β Instruction) bus stream = _
  rw [bind_apply, hoperand]
  rfl

end Fetch

namespace Exec

variable {β : Type} [Bus β] [ByteMemory β] {machine last : Machine β}

/-- What pushing a control register does to the FPU, its stack and memory. -/
structure ControlPushed (base : Fin 8) (register : ControlRegister) (before after : Machine β) :
    Prop where
  address_eq : after.cpu.address
    = before.cpu.address.put base (before.cpu.address.get base - UInt32.ofNat 4)
  fp_eq : after.cpu.fp = before.cpu.fp
  control_eq (other : ControlRegister) : other.get after.cpu = other.get before.cpu
  contents_eq : contents after.bus = (contents before.bus).putLong
    (before.cpu.address.get base - UInt32.ofNat 4) (register.get before.cpu)

/-- What popping a control register does to the FPU, its stack and memory. -/
structure ControlPopped (base : Fin 8) (register : ControlRegister) (before after : Machine β) :
    Prop where
  address_eq : after.cpu.address
    = before.cpu.address.put base (before.cpu.address.get base + UInt32.ofNat 4)
  fp_eq : after.cpu.fp = before.cpu.fp
  control_eq : register.get after.cpu = (contents before.bus).long (before.cpu.address.get base)
  /-- The other control registers are as before. -/
  control_frame {other : ControlRegister} : other ≠ register →
    other.get after.cpu = other.get before.cpu
  bus_eq : after.bus = before.bus

theorem controlPushed_of_execute {base : Fin 8} {register : ControlRegister}
    (h : execute (.storeControl register (.memory (.preDecrement base))) machine
      = .ok () last) : ControlPushed base register machine last := by
  rw [execute, cpu_bind] at h
  obtain ⟨_, written, hwrite, hcharge⟩ := bind_eq_ok_iff.mp h
  rw [writeDestination, address_bind] at hwrite
  obtain ⟨bus, hlong, rfl⟩ := writeLong_eq_ok_iff.mp hwrite
  cases hcharge
  refine ⟨rfl, rfl, fun other => by cases other <;> rfl, ?_⟩
  show contents bus = _
  rw [ByteMemory.write32_eq hlong, UInt32.toUInt32_toUInt64]
  rfl

theorem controlPopped_of_execute {base : Fin 8} {register : ControlRegister}
    (h : execute (.loadControl register (.memory (.postIncrement base))) machine
      = .ok () last) : ControlPopped base register machine last := by
  obtain ⟨value, read, hread, hrest⟩ := bind_eq_ok_iff.mp h
  rw [readOperand, address_bind] at hread
  obtain ⟨long, _, hlong, hpure⟩ := bind_eq_ok_iff.mp hread
  obtain ⟨hanswer, rfl⟩ := readLong_eq_ok_iff.mp hlong
  cases hpure
  cases hrest
  have hvalue : long = (contents machine.bus).long (machine.cpu.address.get base) :=
    ByteMemory.read32_eq hanswer
  refine ⟨?_, ?_, ?_, fun {other} hother => ?_, ?_⟩
  · cases register <;> rfl
  · cases register <;> rfl
  · rw [← hvalue]
    cases register <;> exact UInt32.toUInt32_toUInt64 long
  · cases other <;> cases register <;> first | rfl | exact absurd rfl hother
  · cases register <;> rfl

end Exec

/-! ## Contexts in memory -/

/-- Whether memory holds, from an address on, the saved state of the FPU. -/
structure Contents.HoldsContext (contents : Contents) (base : UInt32) (cpu : Cpu) : Prop where
  fpiar_eq : contents.long base = cpu.fpiar
  fpsr_eq : contents.long (base + UInt32.ofNat 4) = cpu.fpsr
  fpcr_eq : contents.long (base + UInt32.ofNat 8) = cpu.fpcr
  /-- The registers lie in slots above the control registers, the last one lowest. -/
  fp_eq (n : Fin 8) : contents.quad (slotAbove (base + UInt32.ofNat 12) n.rev) = (cpu.fp.get n).bits

/-- The bytes of a saved state. -/
def contextBytes : Nat := 108

theorem Contents.HoldsContext.congr {first second : Contents} {base : UInt32} {cpu : Cpu}
    (h : first.HoldsContext base cpu)
    (hsame : ∀ address, Within base contextBytes address → first address = second address) :
    second.HoldsContext base cpu := by
  have hrange (offset count : Nat) (hend : offset + count ≤ contextBytes) (address : UInt32)
      (hwithin : Within (base + UInt32.ofNat offset) count address) :
      second address = first address :=
    (hsame address (within_of_within_offset offset hend (by decide) hwithin)).symm
  refine ⟨?_, ?_, ?_, fun n => ?_⟩
  · rw [← h.fpiar_eq]
    exact Contents.long_congr fun address hwithin => hrange 0 4 (by decide) address (by simpa)
  · rw [← h.fpsr_eq]
    exact Contents.long_congr (hrange 4 4 (by decide))
  · rw [← h.fpcr_eq]
    exact Contents.long_congr (hrange 8 4 (by decide))
  · rw [← h.fp_eq n, slotAbove, add_ofNat_add_ofNat]
    refine Contents.quad_congr (hrange _ 8 ?_)
    have hn := n.rev.isLt
    simp only [contextBytes]
    omega

/-- Putting the three control registers below the slots completes a saved state. -/
theorem Contents.holdsContext_putLong {contents : Contents} {base : UInt32} {cpu : Cpu}
    (hfp : ∀ n : Fin 8,
      contents.quad (slotAbove (base + UInt32.ofNat 12) n.rev) = (cpu.fp.get n).bits) :
    (((contents.putLong (base + UInt32.ofNat 8) cpu.fpcr).putLong (base + UInt32.ofNat 4)
      cpu.fpsr).putLong base cpu.fpiar).HoldsContext base cpu := by
  -- The four parts lie at different distances from the base, each behind the end of the one below.
  have hapart (low high count : Nat) (hlow : low + 4 ≤ high) (hhigh : high + count ≤ 108) :
      Apart (base + UInt32.ofNat high) count (base + UInt32.ofNat low) 4 :=
    (apart_of_offsets base low high hlow (by omega)).symm
  have hbase : base + UInt32.ofNat 0 = base := by simp
  have hlowest := hapart 0
  rw [hbase] at hlowest
  refine ⟨long_putLong_self _ _ _, ?_, ?_, fun n => ?_⟩
  · rw [long_putLong_of_apart (hlowest 4 4 (by omega) (by omega)), long_putLong_self]
  · rw [long_putLong_of_apart (hlowest 8 4 (by omega) (by omega)),
      long_putLong_of_apart (hapart 4 8 4 (by omega) (by omega)), long_putLong_self]
  · have hn := n.rev.isLt
    rw [← hfp n, slotAbove, add_ofNat_add_ofNat]
    refine quad_congr fun address hwithin => ?_
    rw [putLong_of_not_within (hlowest _ 8 (by omega) (by omega) address hwithin),
      putLong_of_not_within (hapart 4 _ 8 (by omega) (by omega) address hwithin),
      putLong_of_not_within (hapart 8 _ 8 (by omega) (by omega) address hwithin)]

/-! ## Programs -/

namespace Machine

variable {β : Type} [Bus β] [ByteMemory β] {machine last : Machine β} {n : Fin 8}

/-- Commands that a machine meets and executes one after the other, none of them refused. -/
inductive Executes : Machine β → List (EffectiveAddress × Command) → Machine β → Prop
  | nil (machine : Machine β) : Executes machine [] machine
  | cons {machine last : Machine β} {place : EffectiveAddress} {fields : Command}
      {rest : List (EffectiveAddress × Command)}
      (hcommand : (contents machine.bus).HoldsCommand machine.cpu.pc place fields)
      (haccepted : machine.step.fault ≠ some .busError)
      (hrest : Executes machine.step.machine rest last) :
      Executes machine ((place, fields) :: rest) last

theorem executes_of_steps {commands : List (EffectiveAddress × Command)}
    (h : ∀ k, (hk : k < commands.length) →
      (contents (machine.after k).bus).HoldsCommand (machine.after k).cpu.pc commands[k].1
          commands[k].2 ∧
        (machine.after k).step.fault ≠ some .busError) :
    Executes machine commands (machine.after commands.length) := by
  induction commands generalizing machine with
  | nil => exact .nil machine
  | cons command rest ih =>
    obtain ⟨hcommand, haccepted⟩ := h 0 (Nat.succ_pos _)
    have hafter (k : Nat) : machine.after (k + 1) = machine.step.machine.after k := by
      rw [Nat.add_comm, after_add]
      rfl
    refine .cons hcommand haccepted ?_
    rw [List.length_cons, hafter]
    refine ih fun k hk => ?_
    rw [← hafter]
    exact h (k + 1) (Nat.succ_lt_succ hk)

/-- The commands that save the state of the FPU on the stack of an address register. -/
def saveContext (n : Fin 8) : List (EffectiveAddress × Command) :=
  [(.preDecrement n, .moveMultiple true 0 0xFF),
    (.preDecrement n, .moveControl true ControlRegister.fpcr.select),
    (.preDecrement n, .moveControl true ControlRegister.fpsr.select),
    (.preDecrement n, .moveControl true ControlRegister.fpiar.select)]

/-- The commands that restore the state of the FPU from the stack of an address register. -/
def restoreContext (n : Fin 8) : List (EffectiveAddress × Command) :=
  [(.postIncrement n, .moveControl false ControlRegister.fpiar.select),
    (.postIncrement n, .moveControl false ControlRegister.fpsr.select),
    (.postIncrement n, .moveControl false ControlRegister.fpcr.select),
    (.postIncrement n, .moveMultiple false 2 0xFF)]

omit [Bus β] [ByteMemory β] in
theorem get_control_withStream (machine : Machine β) (stream : InstructionStream)
    (register : ControlRegister) :
    register.get (machine.withStream stream).cpu = register.get machine.cpu := by
  cases register <;> rfl

theorem controlPushed_step {register : ControlRegister}
    (h : (contents machine.bus).HoldsCommand machine.cpu.pc (.preDecrement n)
      (.moveControl true register.select))
    (hfault : machine.step.fault ≠ some .busError) :
    Exec.ControlPushed n register machine machine.step.machine := by
  obtain ⟨stream, -, hplace, hfetch⟩ := fetch_of_holdsCommand h hfault
  obtain ⟨-, hexecute⟩ :=
    execute_of_fetch (hfetch.trans (Fetch.moveControl_push _ register hplace)) hfault
  have h := Exec.controlPushed_of_execute hexecute
  have hcontents := h.contents_eq
  rw [get_control_withStream] at hcontents
  refine ⟨h.address_eq, h.fp_eq, fun other => ?_, hcontents⟩
  rw [h.control_eq, get_control_withStream]

theorem controlPopped_step {register : ControlRegister}
    (h : (contents machine.bus).HoldsCommand machine.cpu.pc (.postIncrement n)
      (.moveControl false register.select))
    (hfault : machine.step.fault ≠ some .busError) :
    Exec.ControlPopped n register machine machine.step.machine := by
  obtain ⟨stream, -, hplace, hfetch⟩ := fetch_of_holdsCommand h hfault
  obtain ⟨-, hexecute⟩ :=
    execute_of_fetch (hfetch.trans (Fetch.moveControl_pop _ register hplace)) hfault
  have h := Exec.controlPopped_of_execute hexecute
  refine ⟨h.address_eq, h.fp_eq, h.control_eq, fun {other} hother => ?_, h.bus_eq⟩
  rw [h.control_frame hother, get_control_withStream]

/-! ## Saving -/

theorem getElem?_storedRegisters_all (n : Fin 8) : (storedRegisters 0xFF)[n.val]? = some n := by
  revert n
  decide

theorem getElem?_loadedRegisters_all (n : Fin 8) :
    (loadedRegisters 0xFF)[n.rev.val]? = some n := by
  revert n
  decide

theorem get_address_of_controlPushed {register : ControlRegister}
    (h : Exec.ControlPushed n register machine last) :
    machine.cpu.address.get n = last.cpu.address.get n + UInt32.ofNat 4 := by
  rw [h.address_eq, Bank.get_put_self]
  exact (UInt32.sub_add_cancel _ _).symm

theorem contents_eq_of_controlPushed {register : ControlRegister}
    (h : Exec.ControlPushed n register machine last) :
    contents last.bus = (contents machine.bus).putLong (last.cpu.address.get n)
      (register.get machine.cpu) := by
  rw [h.contents_eq, h.address_eq, Bank.get_put_self]

/-- Four pushes put the state of the FPU right below where the stack was. -/
theorem holdsContext_of_pushed {first second third saved : Machine β} {stream : InstructionStream}
    (hregisters : Exec.Pushed n (storedRegisters 0xFF) (machine.withStream stream) first)
    (hfpcr : Exec.ControlPushed n .fpcr first second)
    (hfpsr : Exec.ControlPushed n .fpsr second third)
    (hfpiar : Exec.ControlPushed n .fpiar third saved) :
    saved.cpu.address.get n = machine.cpu.address.get n - UInt32.ofNat contextBytes ∧
      (contents saved.bus).HoldsContext (saved.cpu.address.get n) machine.cpu := by
  have hthird := get_address_of_controlPushed hfpiar
  have hsecond := get_address_of_controlPushed hfpsr
  have hfirst := get_address_of_controlPushed hfpcr
  rw [hthird, add_ofNat_add_ofNat] at hsecond
  rw [hsecond, add_ofNat_add_ofNat] at hfirst
  have hslots : first.cpu.address.get n
      = machine.cpu.address.get n - UInt32.ofNat (12 * 8) := by
    rw [hregisters.cpu_eq]
    exact Bank.get_put_self _ _ _
  -- None of the pushes changes a control register, so each saves the one from before all of them.
  have hcontrol (register : ControlRegister) :
      register.get first.cpu = register.get machine.cpu := by
    rw [hregisters.cpu_eq]
    cases register <;> rfl
  have hcontents : contents saved.bus
      = (((contents first.bus).putLong (saved.cpu.address.get n + UInt32.ofNat 8)
          machine.cpu.fpcr).putLong (saved.cpu.address.get n + UInt32.ofNat 4)
          machine.cpu.fpsr).putLong (saved.cpu.address.get n) machine.cpu.fpiar := by
    rw [contents_eq_of_controlPushed hfpiar, contents_eq_of_controlPushed hfpsr,
      contents_eq_of_controlPushed hfpcr, hfpsr.control_eq, hfpcr.control_eq, hfpcr.control_eq,
      hcontrol, hcontrol, hcontrol, hthird, hsecond]
    rfl
  constructor
  · rw [← UInt32.add_left_inj (UInt32.ofNat 12), ← hfirst, hslots, contextBytes]
    exact (sub_ofNat_add_ofNat _ 96 12).symm
  · rw [hcontents]
    refine Contents.holdsContext_putLong fun register => ?_
    have hregister : (8 - 1 - register.rev.val) = register.val := by
      rw [Fin.val_rev]
      omega
    rw [← hfirst, hslots, slotAbove_sub _ register.rev.isLt, hregister]
    exact hregisters.quad_eq (getElem?_storedRegisters_all register)

theorem holdsContext_of_executes {saved : Machine β} (h : Executes machine (saveContext n) saved) :
    saved.cpu.address.get n = machine.cpu.address.get n - UInt32.ofNat contextBytes ∧
      (contents saved.bus).HoldsContext (saved.cpu.address.get n) machine.cpu := by
  obtain _ | ⟨hregisters, haccepted, h⟩ := h
  obtain _ | ⟨hfpcr, haccepted₁, h⟩ := h
  obtain _ | ⟨hfpsr, haccepted₂, h⟩ := h
  obtain _ | ⟨hfpiar, haccepted₃, h⟩ := h
  cases h
  obtain ⟨-, stream, -, hpushed⟩ := pushed_step hregisters haccepted
  exact holdsContext_of_pushed hpushed (controlPushed_step hfpcr haccepted₁)
    (controlPushed_step hfpsr haccepted₂) (controlPushed_step hfpiar haccepted₃)

/-! ## Restoring -/

/-- The state of the FPU: everything that a program can save of it. -/
structure SameContext (first second : Cpu) : Prop where
  fp_eq : first.fp = second.fp
  fpcr_eq : first.fpcr = second.fpcr
  fpsr_eq : first.fpsr = second.fpsr
  fpiar_eq : first.fpiar = second.fpiar

theorem get_address_of_controlPopped {register : ControlRegister}
    (h : Exec.ControlPopped n register machine last) :
    last.cpu.address.get n = machine.cpu.address.get n + UInt32.ofNat 4 := by
  rw [h.address_eq, Bank.get_put_self]

/-- Four pops take the state of the FPU from where the stack is. -/
theorem sameContext_of_popped {cpu : Cpu} {first second third last : Machine β}
    {stream : InstructionStream}
    (hcontext : (contents machine.bus).HoldsContext (machine.cpu.address.get n) cpu)
    (hfpiar : Exec.ControlPopped n .fpiar machine first)
    (hfpsr : Exec.ControlPopped n .fpsr first second)
    (hfpcr : Exec.ControlPopped n .fpcr second third)
    (hregisters : Exec.Popped n (loadedRegisters 0xFF) (third.withStream stream) last) :
    last.cpu.address.get n = machine.cpu.address.get n + UInt32.ofNat contextBytes ∧
      SameContext last.cpu cpu := by
  have hfirst := get_address_of_controlPopped hfpiar
  have hsecond := get_address_of_controlPopped hfpsr
  have hthird := get_address_of_controlPopped hfpcr
  rw [hfirst, add_ofNat_add_ofNat] at hsecond
  rw [hsecond, add_ofNat_add_ofNat] at hthird
  have hbus₂ : second.bus = machine.bus := hfpsr.bus_eq.trans hfpiar.bus_eq
  have hbus₃ : third.bus = machine.bus := hfpcr.bus_eq.trans hbus₂
  have hcontrol (register : ControlRegister) : register.get last.cpu = register.get third.cpu := by
    rw [hregisters.cpu_eq]
    cases register <;> rfl
  refine ⟨?_, ⟨?_, ?_, ?_, ?_⟩⟩
  · have hslots : last.cpu.address.get n = third.cpu.address.get n + UInt32.ofNat 96 := by
      rw [hregisters.cpu_eq]
      exact Bank.get_put_self _ _ _
    rw [hslots, hthird, add_ofNat_add_ofNat]
    rfl
  · apply Bank.ext_get
    intro register
    have hslot := hregisters.fp_eq (getElem?_loadedRegisters_all register)
    rw [hslot]
    show (⟨(contents third.bus).quad (slotAbove (third.cpu.address.get n) _)⟩ : Double) = _
    rw [hbus₃, hthird, hcontext.fp_eq register]
  · have hpopped : third.cpu.fpcr = (contents second.bus).long _ := hfpcr.control_eq
    exact (hcontrol .fpcr).trans (hpopped.trans (by rw [hbus₂, hsecond, hcontext.fpcr_eq]))
  · have hframe : third.cpu.fpsr = second.cpu.fpsr :=
      hfpcr.control_frame (show ControlRegister.fpsr ≠ .fpcr by decide)
    have hpopped : second.cpu.fpsr = (contents first.bus).long _ := hfpsr.control_eq
    exact ((hcontrol .fpsr).trans hframe).trans
      (hpopped.trans (by rw [hfpiar.bus_eq, hfirst, hcontext.fpsr_eq]))
  · have hframe₃ : third.cpu.fpiar = second.cpu.fpiar :=
      hfpcr.control_frame (show ControlRegister.fpiar ≠ .fpcr by decide)
    have hframe₂ : second.cpu.fpiar = first.cpu.fpiar :=
      hfpsr.control_frame (show ControlRegister.fpiar ≠ .fpsr by decide)
    have hpopped : first.cpu.fpiar = (contents machine.bus).long _ := hfpiar.control_eq
    exact ((hcontrol .fpiar).trans (hframe₃.trans hframe₂)).trans (hpopped.trans hcontext.fpiar_eq)

theorem sameContext_of_executes {cpu : Cpu}
    (hcontext : (contents machine.bus).HoldsContext (machine.cpu.address.get n) cpu)
    (h : Executes machine (restoreContext n) last) :
    last.cpu.address.get n = machine.cpu.address.get n + UInt32.ofNat contextBytes ∧
      SameContext last.cpu cpu := by
  obtain _ | ⟨hfpiar, haccepted, h⟩ := h
  obtain _ | ⟨hfpsr, haccepted₁, h⟩ := h
  obtain _ | ⟨hfpcr, haccepted₂, h⟩ := h
  obtain _ | ⟨hregisters, haccepted₃, h⟩ := h
  cases h
  obtain ⟨-, stream, -, hpopped⟩ := popped_step hregisters haccepted₃
  exact sameContext_of_popped hcontext (controlPopped_step hfpiar haccepted)
    (controlPopped_step hfpsr haccepted₁) (controlPopped_step hfpcr haccepted₂) hpopped

/-! ## Switching -/

/-- A program that saves the state of the FPU, runs anything that leaves the saved bytes and the
stack pointer as they were, and restores the state has not changed it. -/
theorem sameContext_save_restore {saved : Machine β} {steps : Nat}
    (hsave : Executes machine (saveContext n) saved)
    (hbase : (saved.after steps).cpu.address.get n = saved.cpu.address.get n)
    (hbytes : ∀ address, Within (saved.cpu.address.get n) contextBytes address →
      contents (saved.after steps).bus address = contents saved.bus address)
    (hrestore : Executes (saved.after steps) (restoreContext n) last) :
    last.cpu.address.get n = machine.cpu.address.get n ∧ SameContext last.cpu machine.cpu := by
  obtain ⟨hsaved, hcontext⟩ := holdsContext_of_executes hsave
  have hkept : (contents (saved.after steps).bus).HoldsContext
      ((saved.after steps).cpu.address.get n) machine.cpu := by
    rw [hbase]
    exact hcontext.congr fun address hwithin => (hbytes address hwithin).symm
  obtain ⟨hrestored, hsame⟩ := sameContext_of_executes hkept hrestore
  refine ⟨?_, hsame⟩
  rw [hrestored, hbase, hsaved, UInt32.sub_add_cancel]

/-- A machine about to save the state of the FPU on the stack of A1, to overwrite FP0 and the
control registers, to store FP0 elsewhere, and to restore the state. -/
def aboutToSwitch : Machine FlatMemory where
  cpu := {
    pc := 0x400
    data := Bank.fill 7
    address := ⟨#v[0, 0x2000, 0x3000, 0, 0, 0, 0, 0]⟩
    fp := ⟨#v[⟨0x7FF0000000000001⟩, ⟨0x3FF0000000000000⟩, ⟨0⟩, ⟨0⟩, ⟨0⟩, ⟨0⟩, ⟨0⟩, ⟨0⟩]⟩
    fpcr := 0x30
    fpsr := 0xFFFFFFFF
    fpiar := 0x1234 }
  bus := .ofProgram 0x10000 0x400
    [0xF2, 0x21, 0xE0, 0xFF, 0xF2, 0x21, 0xB0, 0x00, 0xF2, 0x21, 0xA8, 0x00, 0xF2, 0x21, 0xA4, 0x00,
     0xF2, 0x00, 0x40, 0x00, 0xF2, 0x00, 0x90, 0x00, 0xF2, 0x00, 0x84, 0x00, 0xF2, 0x12, 0x60, 0x00,
     0xF2, 0x19, 0x84, 0x00, 0xF2, 0x19, 0x88, 0x00, 0xF2, 0x19, 0x90, 0x00, 0xF2, 0x19, 0xD0, 0xFF]

/-- The signalling NaN in FP0 comes back, and so do all bits of the status. -/
theorem sameContext_save_restore_after_store :
    (aboutToSwitch.after 8).cpu.fp ≠ aboutToSwitch.cpu.fp ∧
      SameContext (aboutToSwitch.after 12).cpu aboutToSwitch.cpu := by
  have hsave : Executes aboutToSwitch (saveContext 1) (aboutToSwitch.after 4) :=
    executes_of_steps (by decide +kernel)
  have hrestore : Executes ((aboutToSwitch.after 4).after 4) (restoreContext 1)
      (((aboutToSwitch.after 4).after 4).after 4) :=
    executes_of_steps (by decide +kernel)
  have hbytes : ∀ i < contextBytes, contents ((aboutToSwitch.after 4).after 4).bus
        ((aboutToSwitch.after 4).cpu.address.get 1 + UInt32.ofNat i)
      = contents (aboutToSwitch.after 4).bus
        ((aboutToSwitch.after 4).cpu.address.get 1 + UInt32.ofNat i) := by
    decide +kernel
  obtain ⟨-, hsame⟩ := sameContext_save_restore hsave (by decide +kernel)
    (fun address hwithin => by
      have h := hbytes _ hwithin
      rwa [add_ofNat_toNat_sub] at h) hrestore
  refine ⟨by decide +kernel, ?_⟩
  rw [show 12 = 4 + 4 + 4 from rfl, after_add, after_add]
  exact hsame

end Machine

end M68Fpu
