import M68Fpu.Bytes
import M68Fpu.Registers

/-!
# Registers as a debugger sees them

A debugger numbers the registers and moves them as little-endian bytes, one at a time or all in one
image. The image holds the registers in the order of their numbers without gaps.
-/

namespace M68Fpu

/-! ## Numbers -/

/-- The registers of a debugger. There is no integer unit, so the status register `sr` is always
zero and not the FPU's. -/
inductive RegisterId where
  | data (n : Fin 8)
  | address (n : Fin 8)
  | sr
  | pc
  | fp (n : Fin 8)
  | fpcr
  | fpsr
  | fpiar
  deriving DecidableEq, Repr

namespace RegisterId

/-- The register of a number, if it has one. -/
def ofNat? (number : Nat) : Option RegisterId :=
  if h : number < 8 then some (data ⟨number, h⟩)
  else if h : number < 16 then some (address ⟨number - 8, by omega⟩)
  else if number = 16 then some sr
  else if number = 17 then some pc
  else if h : number < 26 then some (fp ⟨number - 18, by omega⟩)
  else if number = 26 then some fpcr
  else if number = 27 then some fpsr
  else if number = 28 then some fpiar
  else none

def size : RegisterId → Nat
  | fp _ => 8
  | _ => 4

/-- All registers, in the order of their numbers. -/
def all : List RegisterId :=
  (List.finRange 8).map data ++ (List.finRange 8).map address ++ [sr, pc]
    ++ (List.finRange 8).map fp ++ [fpcr, fpsr, fpiar]

end RegisterId

/-! ## Contents -/

/-- The contents of all registers of a debugger. -/
structure RegisterFile where
  data : Bank UInt32 := Bank.fill 0
  address : Bank UInt32 := Bank.fill 0
  sr : UInt32 := 0
  pc : UInt32 := 0
  fp : Bank Double := Bank.fill ⟨0⟩
  fpcr : UInt32 := 0
  fpsr : UInt32 := 0
  fpiar : UInt32 := 0
  deriving DecidableEq

namespace RegisterFile

def get (file : RegisterFile) : RegisterId → Nat
  | .data n => (file.data.get n).toNat
  | .address n => (file.address.get n).toNat
  | .sr => file.sr.toNat
  | .pc => file.pc.toNat
  | .fp n => (file.fp.get n).bits.toNat
  | .fpcr => file.fpcr.toNat
  | .fpsr => file.fpsr.toNat
  | .fpiar => file.fpiar.toNat

def put (file : RegisterFile) (id : RegisterId) (value : Nat) : RegisterFile :=
  match id with
  | .data n => { file with data := file.data.put n (UInt32.ofNat value) }
  | .address n => { file with address := file.address.put n (UInt32.ofNat value) }
  | .sr => { file with sr := UInt32.ofNat value }
  | .pc => { file with pc := UInt32.ofNat value }
  | .fp n => { file with fp := file.fp.put n ⟨UInt64.ofNat value⟩ }
  | .fpcr => { file with fpcr := UInt32.ofNat value }
  | .fpsr => { file with fpsr := UInt32.ofNat value }
  | .fpiar => { file with fpiar := UInt32.ofNat value }

/-! ## Images -/

/-- The image of all registers. -/
def toBytes (file : RegisterFile) : List UInt8 :=
  RegisterId.all.flatMap fun id => LittleEndian.encode id.size (file.get id)

/-- Replaces the given registers one after the other by what is at the front of the bytes. Ends at
the first register whose bytes are not all there, and says whether none was missing. -/
def fill (file : RegisterFile) (bytes : List UInt8) : (ids : List RegisterId) → Bool × RegisterFile
  | [] => (true, file)
  | id :: rest =>
    if bytes.length < id.size then (false, file)
    else
      fill (file.put id (LittleEndian.decode (bytes.take id.size))) (bytes.drop id.size) rest

/-- Replaces the registers by those of an image. Registers that a short image leaves out stay as
they are, and so does one that it holds in part; bytes past the end are ignored. -/
def update (file : RegisterFile) (bytes : List UInt8) : Bool × RegisterFile :=
  file.fill bytes RegisterId.all

/-- The registers of an image, unless it is short. -/
def ofBytes? (bytes : List UInt8) : Option RegisterFile :=
  match update {} bytes with
  | (true, file) => some file
  | (false, _) => none

/-- The registers of a processor. -/
def ofCpu (cpu : Cpu) : RegisterFile where
  data := cpu.data
  address := cpu.address
  pc := cpu.pc
  fp := cpu.fp
  fpcr := cpu.fpcr
  fpsr := cpu.fpsr
  fpiar := cpu.fpiar

/-- A processor with its registers replaced. What a debugger does not see stays. -/
def applyTo (file : RegisterFile) (cpu : Cpu) : Cpu :=
  { cpu with
    data := file.data
    address := file.address
    pc := file.pc
    fp := file.fp
    fpcr := file.fpcr
    fpsr := file.fpsr
    fpiar := file.fpiar }

end RegisterFile

end M68Fpu
