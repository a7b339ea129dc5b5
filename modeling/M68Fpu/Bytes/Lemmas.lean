import Mathlib.Algebra.Order.Ring.Nat
import M68Fpu.Bytes

/-!
# Byte orders: round trips

For both orders, decoding an encoding gives the number back modulo `256 ^ count`
(`decode_encode`), what is decoded fits its bytes (`decode_lt`), and encoding what was decoded gives
the bytes back (`encode_decode`). Adjacent bytes are the parts of one number (`encode_add`,
`decode_append`).
-/

namespace M68Fpu

namespace LittleEndian

theorem decode_encode (count value : Nat) : decode (encode count value) = value % 256 ^ count := by
  induction count generalizing value with
  | zero => simp [encode, decode, Nat.mod_one]
  | succ count ih =>
    have hpow : 256 ^ (count + 1) = 256 * 256 ^ count := Nat.pow_succ'
    simp only [encode, decode, ih, UInt8.toNat_ofNat', hpow]
    exact (Nat.mod_mul ..).symm

theorem decode_lt (bytes : List UInt8) : decode bytes < 256 ^ bytes.length := by
  induction bytes with
  | nil => simp [decode]
  | cons byte rest ih =>
    have hpow : 256 ^ (rest.length + 1) = 256 * 256 ^ rest.length := Nat.pow_succ'
    have hbyte : byte.toNat < 256 := byte.toNat_lt
    simp only [decode, List.length_cons, hpow]
    omega

theorem encode_decode (bytes : List UInt8) : encode bytes.length (decode bytes) = bytes := by
  induction bytes with
  | nil => rfl
  | cons byte rest ih =>
    have hbyte : byte.toNat < 256 := byte.toNat_lt
    have hlow : UInt8.ofNat (byte.toNat + 256 * decode rest) = byte := by
      apply UInt8.toNat_inj.mp
      simp only [UInt8.toNat_ofNat']
      omega
    have hhigh : (byte.toNat + 256 * decode rest) / 256 = decode rest := by omega
    simp only [List.length_cons, decode, encode, hlow, hhigh, ih]

theorem encode_mod (count value : Nat) :
    encode count (value % 256 ^ count) = encode count value := by
  have h := encode_decode (encode count value)
  rwa [length_encode, decode_encode] at h

theorem encode_add (low high value : Nat) :
    encode (low + high) value = encode low value ++ encode high (value / 256 ^ low) := by
  induction low generalizing value with
  | zero => simp [encode]
  | succ low ih =>
    have hpow : 256 ^ (low + 1) = 256 * 256 ^ low := Nat.pow_succ'
    rw [Nat.succ_add, encode, encode, ih, List.cons_append, hpow, Nat.div_div_eq_div_mul]

theorem decode_append (low high : List UInt8) :
    decode (low ++ high) = decode low + 256 ^ low.length * decode high := by
  induction low with
  | nil => simp [decode]
  | cons byte rest ih =>
    have hpow : 256 ^ (rest.length + 1) = 256 * 256 ^ rest.length := Nat.pow_succ'
    rw [List.cons_append, decode, decode, ih, List.length_cons, hpow, Nat.mul_assoc]
    omega

end LittleEndian

namespace BigEndian

theorem decode_encode (count value : Nat) : decode (encode count value) = value % 256 ^ count := by
  simp [encode, decode, LittleEndian.decode_encode]

theorem decode_lt (bytes : List UInt8) : decode bytes < 256 ^ bytes.length := by
  simpa [decode] using LittleEndian.decode_lt bytes.reverse

theorem encode_decode (bytes : List UInt8) : encode bytes.length (decode bytes) = bytes := by
  have h := LittleEndian.encode_decode bytes.reverse
  rw [List.length_reverse] at h
  simp [encode, decode, h]

theorem encode_mod (count value : Nat) :
    encode count (value % 256 ^ count) = encode count value := by
  rw [encode, LittleEndian.encode_mod, encode]

theorem encode_add (high low value : Nat) :
    encode (high + low) value = encode high (value / 256 ^ low) ++ encode low value := by
  rw [encode, Nat.add_comm, LittleEndian.encode_add, List.reverse_append]
  rfl

theorem decode_append (high low : List UInt8) :
    decode (high ++ low) = decode high * 256 ^ low.length + decode low := by
  rw [decode, List.reverse_append, LittleEndian.decode_append, List.length_reverse, Nat.mul_comm,
    Nat.add_comm]
  rfl

end BigEndian

end M68Fpu
