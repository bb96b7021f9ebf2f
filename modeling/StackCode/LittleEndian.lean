import StackCode.Text.Basic

namespace StackCode

/-!
# Little-endian numbers

A number is stored in a fixed count of octets, the least significant first. The
count bounds what can be stored: a larger number keeps its low octets only.
-/

namespace LittleEndian

/-- The low octets of a number, least significant first. -/
def encode : Nat → Nat → Bytes
  | 0, _ => []
  | count + 1, value => UInt8.ofNat value :: encode count (value / 256)

/-- The number that octets store. -/
def decode : Bytes → Nat
  | [] => 0
  | byte :: rest => byte.toNat + 256 * decode rest

/-- How many numbers a count of octets can store. -/
def capacity : Nat → Nat
  | 0 => 1
  | count + 1 => 256 * capacity count

/-- A number takes as many octets as it is given. -/
@[simp] theorem length_encode (count value : Nat) :
    (encode count value).length = count := by
  induction count generalizing value with
  | zero => rfl
  | succ count inductionHypothesis => simp [encode, inductionHypothesis]

/-- Octets are read back to the number modulo the capacity of their count. -/
theorem decode_encode (count value : Nat) :
    decode (encode count value) = value % capacity count := by
  induction count generalizing value with
  | zero => simp [encode, decode, capacity, Nat.mod_one]
  | succ count inductionHypothesis =>
      have low : (UInt8.ofNat value).toNat = value % 256 :=
        UInt8.toNat_ofNat'
      simp only [encode, decode, capacity, inductionHypothesis, low]
      rw [Nat.mod_mul]

/-- Writing what octets store gives the octets back. -/
theorem encode_decode (bytes : Bytes) :
    encode bytes.length (decode bytes) = bytes := by
  induction bytes with
  | nil => rfl
  | cons byte rest inductionHypothesis =>
      have small : byte.toNat < 256 := byte.toNat_lt
      have low : UInt8.ofNat (byte.toNat + 256 * decode rest) = byte := by
        apply UInt8.toNat_inj.mp
        rw [UInt8.toNat_ofNat']
        omega
      have high : (byte.toNat + 256 * decode rest) / 256 = decode rest := by
        omega
      simp only [List.length_cons, decode, encode, low, high,
        inductionHypothesis]

/-- What octets store is below the capacity of their count. -/
theorem decode_lt (bytes : Bytes) : decode bytes < capacity bytes.length := by
  induction bytes with
  | nil => simp [decode, capacity]
  | cons byte rest inductionHypothesis =>
      have small : byte.toNat < 256 := byte.toNat_lt
      simp only [decode, List.length_cons, capacity]
      omega

end LittleEndian

end StackCode
