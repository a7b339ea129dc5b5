import M68Fpu.Binary.Double

/-!
# Registers

Banks of eight registers, and the register set of the processor with its FPU.
-/

namespace M68Fpu

/-! ## Banks -/

/-- Eight registers of one kind. -/
structure Bank (α : Type) where
  cells : Vector α 8
  deriving DecidableEq

namespace Bank

variable {α : Type}

/-- Eight registers with the same content. -/
def fill (value : α) : Bank α := ⟨Vector.replicate 8 value⟩

def get (bank : Bank α) (n : Fin 8) : α := bank.cells[n]

/-- The bank with the content of register `n` replaced. -/
def put (bank : Bank α) (n : Fin 8) (value : α) : Bank α := ⟨bank.cells.set n value⟩

@[simp] theorem get_fill (value : α) (n : Fin 8) : (fill value).get n = value := by
  simp [get, fill]

theorem get_put (bank : Bank α) (n k : Fin 8) (value : α) :
    (bank.put n value).get k = if n = k then value else bank.get k := by
  simp only [get, put, Fin.getElem_fin, Vector.getElem_set, Fin.ext_iff]

@[simp] theorem get_put_self (bank : Bank α) (n : Fin 8) (value : α) :
    (bank.put n value).get n = value := by
  simp [get_put]

theorem get_put_of_ne (bank : Bank α) {n k : Fin 8} (h : n ≠ k) (value : α) :
    (bank.put n value).get k = bank.get k := by
  simp [get_put, h]

@[simp] theorem put_put (bank : Bank α) (n : Fin 8) (first second : α) :
    (bank.put n first).put n second = bank.put n second := by
  simp [put]

@[simp] theorem put_get (bank : Bank α) (n : Fin 8) : bank.put n (bank.get n) = bank := by
  simp [put, get]

theorem ext_get {first second : Bank α} (h : ∀ n, first.get n = second.get n) :
    first = second := by
  obtain ⟨first⟩ := first
  obtain ⟨second⟩ := second
  congr 1
  exact Vector.ext fun i hi => h ⟨i, hi⟩

end Bank

/-! ## The register set -/

/-- The state of the processor. -/
structure Cpu where
  /-- The data registers D0 to D7. -/
  data : Bank UInt32 := Bank.fill 0
  /-- The address registers A0 to A7. -/
  address : Bank UInt32 := Bank.fill 0
  pc : UInt32 := 0
  /-- The instruction register: the opcode fetched last. -/
  ir : UInt16 := 0
  /-- The floating-point registers FP0 to FP7. -/
  fp : Bank Double := Bank.fill ⟨0⟩
  /-- The control register. Nothing depends on it. -/
  fpcr : UInt32 := 0
  fpsr : UInt32 := 0
  /-- The instruction address register. Nothing sets it but a move to it. -/
  fpiar : UInt32 := 0
  cycles : Nat := 0
  /-- Whether a fault has stopped the processor. -/
  stopped : Bool := false
  deriving DecidableEq

end M68Fpu
