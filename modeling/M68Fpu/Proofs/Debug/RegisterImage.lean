import Mathlib.Data.List.Basic
import M68Fpu.Bytes.Lemmas
import M68Fpu.Debug.Target

/-!
# The register image loses nothing

Each register has its place in the image of a debugger (`RegisterId.offset`), and the places follow
one another without gaps (`RegisterId.laidOut_all`). From this layout come both directions of the
codec, each for any bytes and any registers that were there before: an image holds each register at
its place (`RegisterFile.slice_toBytes`), and reading bytes as an image, whole or cut off, sets each
register whose place they cover (`RegisterFile.get_update`).

A target has no status register, so the image that is read back from one holds zero in its place
(`Target.losslessImage`).
-/

namespace M68Fpu

/-! ## Replacing part of a list -/

/-- The bytes with those from `start` on replaced by `part`. -/
def splice (bytes : List UInt8) (start : Nat) (part : List UInt8) : List UInt8 :=
  bytes.take start ++ part ++ bytes.drop (start + part.length)

theorem splice_append (before old after part : List UInt8) (h : old.length = part.length) :
    splice (before ++ (old ++ after)) before.length part = before ++ (part ++ after) := by
  rw [splice, List.take_left, ← h, ← List.length_append, ← List.append_assoc before old,
    List.drop_left, List.append_assoc]

/-! ## Layout -/

namespace RegisterId

/-- Where a register is in the image. -/
def offset : RegisterId → Nat
  | data n => 4 * n
  | address n => 32 + 4 * n
  | sr => 64
  | pc => 68
  | fp n => 72 + 8 * n
  | fpcr => 136
  | fpsr => 140
  | fpiar => 144

/-- What some bytes hold at the place of a register. -/
def slice (bytes : List UInt8) (id : RegisterId) : List UInt8 :=
  (bytes.drop id.offset).take id.size

theorem length_slice {bytes : List UInt8} {id : RegisterId}
    (h : id.offset + id.size ≤ bytes.length) : (id.slice bytes).length = id.size := by
  rw [slice, List.length_take, List.length_drop]
  omega

/-- The places of the registers follow one another from `start` to `stop`. -/
def LaidOut : (start : Nat) → List RegisterId → (stop : Nat) → Prop
  | start, [], stop => start = stop
  | start, id :: rest, stop => id.offset = start ∧ LaidOut (start + id.size) rest stop

instance : (start : Nat) → (ids : List RegisterId) → (stop : Nat) →
    Decidable (LaidOut start ids stop)
  | start, [], stop => inferInstanceAs (Decidable (start = stop))
  | start, id :: rest, stop =>
    have := instDecidableLaidOut (start + id.size) rest stop
    inferInstanceAs (Decidable (id.offset = start ∧ LaidOut (start + id.size) rest stop))

theorem laidOut_all : LaidOut 0 all 148 := by decide

theorem mem_all (id : RegisterId) : id ∈ all := by
  cases id <;> simp [all]

theorem size_pos (id : RegisterId) : 0 < id.size := by
  cases id <;> exact Nat.succ_pos _

namespace LaidOut

variable {start stop : Nat} {ids : List RegisterId} {id : RegisterId}

theorem start_le (h : LaidOut start ids stop) : start ≤ stop := by
  induction ids generalizing start with
  | nil => exact Nat.le_of_eq h
  | cons head rest ih => exact Nat.le_trans (Nat.le_add_right start head.size) (ih h.2)

/-- A layout with one of its registers in the middle. -/
theorem split (h : LaidOut start ids stop) (hid : id ∈ ids) :
    ∃ before after, ids = before ++ id :: after ∧ LaidOut start before id.offset ∧
      LaidOut (id.offset + id.size) after stop := by
  induction ids generalizing start with
  | nil => exact absurd hid List.not_mem_nil
  | cons head rest ih =>
    obtain ⟨hhead, hrest⟩ := h
    rcases List.mem_cons.mp hid with rfl | hid
    · exact ⟨[], rest, rfl, hhead.symm, hhead ▸ hrest⟩
    · obtain ⟨before, after, rfl, hbefore, hafter⟩ := ih hrest hid
      exact ⟨head :: before, after, rfl, ⟨hhead, hbefore⟩, hafter⟩

theorem offset_mem (h : LaidOut start ids stop) (hid : id ∈ ids) :
    start ≤ id.offset ∧ id.offset + id.size ≤ stop := by
  obtain ⟨before, after, -, hbefore, hafter⟩ := h.split hid
  exact ⟨hbefore.start_le, hafter.start_le⟩

theorem length_flatMap (h : LaidOut start ids stop) {encoding : RegisterId → List UInt8}
    (hencoding : ∀ id, (encoding id).length = id.size) :
    start + (ids.flatMap encoding).length = stop := by
  induction ids generalizing start with
  | nil => exact h
  | cons head rest ih =>
    rw [List.flatMap_cons, List.length_append, hencoding, ← Nat.add_assoc]
    exact ih h.2

/-- What is at the places of the registers is all there is. -/
theorem flatMap_slice (h : LaidOut start ids stop) (bytes : List UInt8) :
    ids.flatMap (slice bytes) = (bytes.drop start).take (stop - start) := by
  induction ids generalizing start with
  | nil =>
    obtain rfl : start = stop := h
    rw [Nat.sub_self, List.take_zero, List.flatMap_nil]
  | cons head rest ih =>
    obtain ⟨rfl, hrest⟩ := h
    have hle := hrest.start_le
    have hcount : stop - head.offset = head.size + (stop - (head.offset + head.size)) := by omega
    rw [List.flatMap_cons, ih hrest, hcount, List.take_add, List.drop_drop, slice]

end LaidOut

end RegisterId

/-! ## Single registers of a file -/

namespace RegisterFile

theorem get_lt (file : RegisterFile) (id : RegisterId) : file.get id < 256 ^ id.size := by
  cases id with
  | fp n => exact (file.fp.get n).bits.toNat_lt
  | _ => exact UInt32.toNat_lt _

/-- A register holds the low bytes of what was put there last. -/
theorem get_put (file : RegisterFile) (id other : RegisterId) (value : Nat) :
    (file.put id value).get other =
      if id = other then value % 256 ^ id.size else file.get other := by
  -- Within a bank this is the law of the bank; two registers of different kinds do not meet.
  cases id <;> cases other <;> simp [get, put, RegisterId.size, Bank.get_put] <;> split <;> simp_all

theorem get_put_of_ne {file : RegisterFile} {id other : RegisterId} (h : id ≠ other) (value : Nat) :
    (file.put id value).get other = file.get other := by
  rw [get_put, if_neg h]

/-- The registers are all there is to a file. -/
theorem ext_get {first second : RegisterFile} (h : ∀ id, first.get id = second.get id) :
    first = second := by
  have hdata : first.data = second.data :=
    Bank.ext_get fun n => UInt32.toNat_inj.mp (h (.data n))
  have haddress : first.address = second.address :=
    Bank.ext_get fun n => UInt32.toNat_inj.mp (h (.address n))
  have hsr : first.sr = second.sr := UInt32.toNat_inj.mp (h .sr)
  have hpc : first.pc = second.pc := UInt32.toNat_inj.mp (h .pc)
  have hfp : first.fp = second.fp :=
    Bank.ext_get fun n => congrArg Double.mk (UInt64.toNat_inj.mp (h (.fp n)))
  have hfpcr : first.fpcr = second.fpcr := UInt32.toNat_inj.mp (h .fpcr)
  have hfpsr : first.fpsr = second.fpsr := UInt32.toNat_inj.mp (h .fpsr)
  have hfpiar : first.fpiar = second.fpiar := UInt32.toNat_inj.mp (h .fpiar)
  cases first
  cases second
  simp_all

/-! ## Writing an image -/

/-- The bytes of a register in an image. -/
def encoding (file : RegisterFile) (id : RegisterId) : List UInt8 :=
  LittleEndian.encode id.size (file.get id)

theorem length_encoding (file : RegisterFile) (id : RegisterId) :
    (file.encoding id).length = id.size :=
  LittleEndian.length_encode _ _

theorem encoding_put_of_ne {file : RegisterFile} {id other : RegisterId} (h : id ≠ other)
    (value : Nat) : (file.put id value).encoding other = file.encoding other := by
  rw [encoding, encoding, get_put_of_ne h]

theorem encoding_put_self (file : RegisterFile) (id : RegisterId) (value : Nat) :
    (file.put id value).encoding id = LittleEndian.encode id.size value := by
  rw [encoding, get_put, if_pos rfl, LittleEndian.encode_mod]

theorem length_toBytes (file : RegisterFile) : file.toBytes.length = 148 := by
  have h := RegisterId.laidOut_all.length_flatMap file.length_encoding
  exact (Nat.zero_add _).symm.trans h

/-- An image with the bytes of one of the registers in the middle. -/
theorem toBytes_split (id : RegisterId) : ∃ before after : List RegisterId,
    id ∉ before ∧ id ∉ after ∧ ∀ file : RegisterFile,
      (before.flatMap file.encoding).length = id.offset ∧
      file.toBytes =
        before.flatMap file.encoding ++ (file.encoding id ++ after.flatMap file.encoding) := by
  obtain ⟨before, after, hall, hbefore, hafter⟩ :=
    RegisterId.laidOut_all.split (RegisterId.mem_all id)
  have hpos := id.size_pos
  refine ⟨before, after, fun hid => ?_, fun hid => ?_, fun file => ⟨?_, ?_⟩⟩
  · have := (hbefore.offset_mem hid).2
    omega
  · have := (hafter.offset_mem hid).1
    omega
  · exact (Nat.zero_add _).symm.trans (hbefore.length_flatMap file.length_encoding)
  · show RegisterId.all.flatMap file.encoding = _
    rw [hall, List.flatMap_append, List.flatMap_cons]

/-- An image holds each register at its place. -/
theorem slice_toBytes (file : RegisterFile) (rest : List UInt8) (id : RegisterId) :
    id.slice (file.toBytes ++ rest) = file.encoding id := by
  obtain ⟨before, after, -, -, hsplit⟩ := toBytes_split id
  obtain ⟨hlength, htoBytes⟩ := hsplit file
  rw [RegisterId.slice, htoBytes, ← hlength, List.append_assoc, List.drop_left, List.append_assoc]
  exact List.take_left' (file.length_encoding id)

/-- Putting a value into a register replaces the bytes at its place. -/
theorem toBytes_put (file : RegisterFile) (id : RegisterId) (value : Nat) :
    (file.put id value).toBytes =
      splice file.toBytes id.offset (LittleEndian.encode id.size value) := by
  obtain ⟨before, after, hbefore, hafter, hsplit⟩ := toBytes_split id
  have hothers : ∀ ids : List RegisterId, id ∉ ids →
      ids.flatMap (file.put id value).encoding = ids.flatMap file.encoding := by
    intro ids hid
    exact List.flatMap_congr fun other hother =>
      encoding_put_of_ne (ne_of_mem_of_not_mem hother hid).symm value
  have hlength : (file.encoding id).length = (LittleEndian.encode id.size value).length := by
    rw [length_encoding, LittleEndian.length_encode]
  rw [(hsplit _).2, hothers before hbefore, hothers after hafter, encoding_put_self,
    (hsplit file).2, ← (hsplit file).1, splice_append _ _ _ _ hlength]

/-! ## Reading an image -/

/-- Bytes fill registers if they cover all their places. -/
theorem fst_fill {start stop : Nat} {ids : List RegisterId} (h : RegisterId.LaidOut start ids stop)
    (file : RegisterFile) {bytes : List UInt8} (hbytes : start ≤ bytes.length) :
    (file.fill (bytes.drop start) ids).1 = true ↔ stop ≤ bytes.length := by
  induction ids generalizing start file with
  | nil =>
    obtain rfl : start = stop := h
    exact iff_of_true rfl hbytes
  | cons head rest ih =>
    obtain ⟨rfl, hrest⟩ := h
    have hstop := hrest.start_le
    rw [fill, List.length_drop]
    split
    · exact iff_of_false Bool.false_ne_true (by omega)
    · rw [List.drop_drop]
      exact ih hrest _ (by omega)

/-- Each register whose place the bytes cover is set, and no other. -/
theorem get_fill {start stop : Nat} {ids : List RegisterId} (h : RegisterId.LaidOut start ids stop)
    (file : RegisterFile) {bytes : List UInt8} (hbytes : start ≤ bytes.length) (id : RegisterId) :
    (file.fill (bytes.drop start) ids).2.get id =
      if id ∈ ids ∧ id.offset + id.size ≤ bytes.length then LittleEndian.decode (id.slice bytes)
      else file.get id := by
  induction ids generalizing start file with
  | nil => rw [fill, if_neg fun h => List.not_mem_nil h.1]
  | cons head rest ih =>
    obtain ⟨rfl, hrest⟩ := h
    rw [fill, List.length_drop]
    split
    · -- The bytes end in the place of `head`, before those of the registers that follow.
      rw [if_neg]
      rintro ⟨hid, hcovered⟩
      rcases List.mem_cons.mp hid with rfl | hid
      · omega
      · have hle := (hrest.offset_mem hid).1
        have hpos := id.size_pos
        omega
    · have hcovered : head.offset + head.size ≤ bytes.length := by omega
      rw [List.drop_drop, ih hrest _ hcovered, ← RegisterId.slice]
      by_cases hid : head = id
      · subst hid
        have hlt := LittleEndian.decode_lt (head.slice bytes)
        rw [RegisterId.length_slice hcovered] at hlt
        rw [get_put, if_pos rfl, Nat.mod_eq_of_lt hlt, ite_self,
          if_pos ⟨List.mem_cons_self, hcovered⟩]
      · rw [get_put_of_ne hid]
        simp only [List.mem_cons, Ne.symm hid, false_or]

theorem fst_update (stale : RegisterFile) (bytes : List UInt8) :
    (stale.update bytes).1 = true ↔ 148 ≤ bytes.length :=
  fst_fill RegisterId.laidOut_all stale (Nat.zero_le _)

theorem get_update (stale : RegisterFile) (bytes : List UInt8) (id : RegisterId) :
    (stale.update bytes).2.get id =
      if id.offset + id.size ≤ bytes.length then LittleEndian.decode (id.slice bytes)
      else stale.get id := by
  have h := get_fill RegisterId.laidOut_all stale (Nat.zero_le bytes.length) id
  simp only [RegisterId.mem_all, true_and] at h
  exact h

/-- Bytes that end within FP0 set the registers before it, and FP0 stays. -/
example :
    let file := (update { fp := Bank.fill ⟨7⟩ } (List.replicate 79 1)).2
    file.pc = 0x01010101 ∧ file.fp.get 0 = ⟨7⟩ := by decide +kernel

/-! ## Round trips -/

theorem update_toBytes (file stale : RegisterFile) (rest : List UInt8) :
    stale.update (file.toBytes ++ rest) = (true, file) := by
  have hlength : 148 ≤ (file.toBytes ++ rest).length := by
    rw [List.length_append, length_toBytes]
    exact Nat.le_add_right _ _
  refine Prod.ext ((fst_update stale _).mpr hlength) (ext_get fun id => ?_)
  have hcovered := (RegisterId.laidOut_all.offset_mem (RegisterId.mem_all id)).2
  rw [get_update, if_pos (Nat.le_trans hcovered hlength), slice_toBytes, encoding,
    LittleEndian.decode_encode, Nat.mod_eq_of_lt (file.get_lt id)]

theorem toBytes_update (stale : RegisterFile) {bytes : List UInt8} (h : 148 ≤ bytes.length) :
    (stale.update bytes).2.toBytes = bytes.take 148 := by
  have hslice : ∀ id ∈ RegisterId.all, (stale.update bytes).2.encoding id = id.slice bytes := by
    intro id hid
    have hcovered := Nat.le_trans (RegisterId.laidOut_all.offset_mem hid).2 h
    have hencode := LittleEndian.encode_decode (id.slice bytes)
    rw [RegisterId.length_slice hcovered] at hencode
    rw [encoding, get_update, if_pos hcovered, hencode]
  exact (List.flatMap_congr hslice).trans (RegisterId.laidOut_all.flatMap_slice bytes)

theorem ofBytes?_of_le {bytes : List UInt8} (h : 148 ≤ bytes.length) :
    ofBytes? bytes = some (update {} bytes).2 := by
  have hfst := (fst_update {} bytes).mpr h
  unfold ofBytes?
  split
  · next heq => rw [heq]
  · next heq => rw [heq] at hfst; exact absurd hfst Bool.false_ne_true

theorem ofBytes?_of_lt {bytes : List UInt8} (h : bytes.length < 148) : ofBytes? bytes = none := by
  have hfst := mt (fst_update {} bytes).mp (Nat.not_le_of_lt h)
  unfold ofBytes?
  split
  · next heq => rw [heq] at hfst; exact absurd rfl hfst
  · rfl

theorem ofBytes?_toBytes (file : RegisterFile) : ofBytes? file.toBytes = some file := by
  have h := update_toBytes file {} []
  rw [List.append_nil] at h
  rw [ofBytes?_of_le (Nat.le_of_eq file.length_toBytes.symm), h]

end RegisterFile

/-! ## Targets -/

namespace Target

/-- A target keeps all registers of a file but the status register. -/
theorem registers_setRegisters (target : Target) (file : RegisterFile) :
    (target.setRegisters file).registers = file.put .sr 0 := rfl

/-- What a debugger may rely on when it moves all registers at once. -/
structure LosslessImage (target : Target) : Prop where
  length_image : ∀ file : RegisterFile, file.toBytes.length = 148
  /-- An image gives its registers back, whatever follows it and whatever they held before. -/
  image_read : ∀ (file stale : RegisterFile) (rest : List UInt8),
    stale.update (file.toBytes ++ rest) = (true, file)
  /-- Any bytes are an image, unless they are too few. -/
  complete_iff : ∀ (stale : RegisterFile) (bytes : List UInt8),
    (stale.update bytes).1 = true ↔ 148 ≤ bytes.length
  bytes_read : ∀ (stale : RegisterFile) (bytes : List UInt8), 148 ≤ bytes.length →
    (stale.update bytes).2.toBytes = bytes.take 148
  /-- The registers set are those whose places the bytes cover, however few bytes there are. -/
  covered : ∀ (stale : RegisterFile) (bytes : List UInt8) (id : RegisterId),
    (stale.update bytes).2.get id =
      if id.offset + id.size ≤ bytes.length then LittleEndian.decode (id.slice bytes)
      else stale.get id
  /-- All of an image comes back from a target but the bytes of the status register. -/
  written : ∀ bytes : List UInt8, 148 ≤ bytes.length →
    ∃ after, target.writeImage bytes = some after ∧
      after.registers.toBytes = bytes.take 64 ++ [0, 0, 0, 0] ++ (bytes.take 148).drop 68
  /-- Bytes that are too few leave a target as it is. -/
  rejected : ∀ bytes : List UInt8, bytes.length < 148 → target.writeImage bytes = none

/-- The image of a debugger loses nothing, and a target loses the status register only. -/
theorem losslessImage (target : Target) : target.LosslessImage where
  length_image := RegisterFile.length_toBytes
  image_read := RegisterFile.update_toBytes
  complete_iff := RegisterFile.fst_update
  bytes_read stale bytes := RegisterFile.toBytes_update stale
  covered := RegisterFile.get_update
  written bytes h := by
    refine ⟨_, congrArg (Option.map target.setRegisters) (RegisterFile.ofBytes?_of_le h), ?_⟩
    rw [registers_setRegisters, RegisterFile.toBytes_put, RegisterFile.toBytes_update _ h]
    show (bytes.take 148).take 64 ++ [0, 0, 0, 0] ++ (bytes.take 148).drop 68 = _
    rw [List.take_take]
    rfl
  rejected bytes h := congrArg (Option.map target.setRegisters) (RegisterFile.ofBytes?_of_lt h)

end Target

end M68Fpu
