import Mathlib.Algebra.GroupWithZero.Nat
import Mathlib.Data.List.Basic

/-!
# Frames with a 32-bit length

A frame is its length as four big-endian bytes, cast to 32 bits, and then its bytes.  Reading
gives the length modulo `2 ^ 32` and leaves what follows (`readLength_frame`).
-/

namespace Stric.Pool

/-- `u32::to_be_bytes`. -/
def toBeBytes (x : UInt32) : List UInt8 :=
  [.ofNat (x.toNat / 2 ^ 24), .ofNat (x.toNat / 2 ^ 16), .ofNat (x.toNat / 2 ^ 8), .ofNat x.toNat]

/-- `u32::from_be_bytes`. -/
def fromBeBytes (bytes : List UInt8) : UInt32 :=
  .ofNat (bytes.foldl (fun n b => n * 2 ^ 8 + b.toNat) 0)

theorem fromBeBytes_toBeBytes (x : UInt32) : fromBeBytes (toBeBytes x) = x := by
  have hx := x.toNat_lt
  have hn : ((toBeBytes x).foldl (fun n b => n * 2 ^ 8 + b.toNat) 0) = x.toNat := by
    simp only [toBeBytes, List.foldl_cons, List.foldl_nil, UInt8.toNat_ofNat']
    omega
  unfold fromBeBytes
  rw [hn]
  exact UInt32.ofNat_toNat

/-- `read_exact` of `n` bytes: they and the rest of the input, if there are as many. -/
def readExact (n : Nat) (input : List UInt8) : Option (List UInt8 × List UInt8) :=
  if n ≤ input.length then some (input.take n, input.drop n) else none

theorem readExact_append {n : Nat} {a : List UInt8} (h : a.length = n) (b : List UInt8) :
    readExact n (a ++ b) = some (a, b) := by
  subst h
  simp [readExact]

theorem length_of_readExact {n : Nat} {input a b : List UInt8}
    (h : readExact n input = some (a, b)) : a.length = n := by
  unfold readExact at h
  split at h
  · cases h
    simp
    omega
  · cases h

/-- `len() as u32`, and the bytes. -/
def frame (buf : List UInt8) : List UInt8 := toBeBytes (.ofNat buf.length) ++ buf

/-- The length at the start of a frame. -/
def readLength (input : List UInt8) : Option (Nat × List UInt8) :=
  (readExact 4 input).map fun p => ((fromBeBytes p.1).toNat, p.2)

theorem readLength_frame (buf rest : List UInt8) :
    readLength (frame buf ++ rest) = some (buf.length % 2 ^ 32, buf ++ rest) := by
  have hlen : (toBeBytes (.ofNat buf.length)).length = 4 := rfl
  unfold readLength frame
  rw [List.append_assoc, readExact_append hlen, Option.map_some, fromBeBytes_toBeBytes,
    UInt32.toNat_ofNat']

end Stric.Pool
