import Mathlib.Algebra.GroupWithZero.Nat
import Mathlib.Data.List.Basic

/-!
# Big-endian numbers

    beValue bytes        the number that the bytes denote, the most significant byte first
    lexLE as bs          the first bytes that differ decide
    lexLT as bs          the strict order of `lexLE`

For strings of one length, comparing byte by byte is comparing the numbers (`lexLE_iff`,
`lexLT_iff`).  Of two numbers of one width, the one with more leading zeros is the smaller
(`toNat_lt_of_clz_lt`).
-/

namespace Stric.Pool

def beValue : List UInt8 → Nat
  | [] => 0
  | b :: bytes => b.toNat * 256 ^ bytes.length + beValue bytes

def lexLE : List UInt8 → List UInt8 → Bool
  | [], _ => true
  | _ :: _, [] => false
  | a :: as, b :: bs => if a = b then lexLE as bs else a.toNat < b.toNat

def lexLT (as bs : List UInt8) : Bool := !lexLE bs as

theorem beValue_lt (bytes : List UInt8) : beValue bytes < 256 ^ bytes.length := by
  induction bytes with
  | nil => decide
  | cons b bytes ih =>
    have hb : b.toNat + 1 ≤ 256 := b.toNat_lt
    calc beValue (b :: bytes) < b.toNat * 256 ^ bytes.length + 256 ^ bytes.length :=
          Nat.add_lt_add_left ih _
      _ = (b.toNat + 1) * 256 ^ bytes.length := (Nat.succ_mul _ _).symm
      _ ≤ 256 * 256 ^ bytes.length := Nat.mul_le_mul_right _ hb
      _ = 256 ^ (b :: bytes).length := Nat.pow_succ'.symm

theorem pow_256 (n : Nat) : 256 ^ n = 2 ^ (8 * n) := (Nat.pow_mul 2 8 n).symm

/-- The bytes behind the first add less than one to it. -/
theorem beValue_cons_lt_mul (b : UInt8) (bytes : List UInt8) :
    beValue (b :: bytes) < (b.toNat + 1) * 256 ^ bytes.length := by
  rw [Nat.succ_mul]
  exact Nat.add_lt_add_left (beValue_lt bytes) _

/-- A smaller first byte makes the number smaller, whatever follows. -/
theorem beValue_cons_lt {a b : UInt8} {as bs : List UInt8} (hlen : as.length = bs.length)
    (h : a.toNat < b.toNat) : beValue (a :: as) < beValue (b :: bs) := by
  calc beValue (a :: as) < (a.toNat + 1) * 256 ^ as.length := beValue_cons_lt_mul a as
    _ ≤ b.toNat * 256 ^ bs.length := by
        rw [hlen]
        exact Nat.mul_le_mul_right _ h
    _ ≤ beValue (b :: bs) := Nat.le_add_right _ _

theorem lexLE_iff {as bs : List UInt8} (hlen : as.length = bs.length) :
    lexLE as bs = true ↔ beValue as ≤ beValue bs := by
  induction as generalizing bs with
  | nil => exact iff_of_true rfl (Nat.zero_le _)
  | cons a as ih =>
    cases bs with
    | nil => exact absurd hlen (Nat.succ_ne_zero _)
    | cons b bs =>
      have hrest : as.length = bs.length := Nat.succ.inj hlen
      rw [lexLE]
      split
      · next hab =>
        rw [ih hrest, hab, beValue, beValue, hrest]
        exact (Nat.add_le_add_iff_left).symm
      · next hab =>
        rw [decide_eq_true_iff]
        constructor
        · intro hlt
          exact Nat.le_of_lt (beValue_cons_lt hrest hlt)
        · intro hle
          rcases Nat.lt_trichotomy a.toNat b.toNat with hlt | heq | hgt
          · exact hlt
          · exact absurd (UInt8.toNat_inj.mp heq) hab
          · exact absurd hle (Nat.not_le_of_lt (beValue_cons_lt hrest.symm hgt))

theorem lexLT_iff {as bs : List UInt8} (hlen : as.length = bs.length) :
    lexLT as bs = true ↔ beValue as < beValue bs := by
  rw [lexLT, Bool.not_eq_true', ← Bool.not_eq_true, lexLE_iff hlen.symm, Nat.not_le]

/-! ## Leading zeros -/

section
variable {w k : Nat} {x y : BitVec w}

theorem toNat_clz_le : x.clz.toNat ≤ w := by
  have h := BitVec.le_def.mp (BitVec.clz_le (x := x))
  rwa [BitVec.natCast_eq_ofNat, BitVec.toNat_ofNat, Nat.mod_eq_of_lt Nat.lt_two_pow_self] at h

theorem toNat_clz_eq_width_iff : x.clz.toNat = w ↔ x = 0#w := by
  rw [← BitVec.clz_eq_iff_eq_zero, ← BitVec.toNat_inj, BitVec.natCast_eq_ofNat,
    BitVec.toNat_ofNat, Nat.mod_eq_of_lt Nat.lt_two_pow_self]

theorem two_pow_le_of_clz_lt (h : x.clz.toNat < w) : 2 ^ (w - 1 - x.clz.toNat) ≤ x.toNat := by
  refine BitVec.two_pow_sub_clz_le_toNat_of_ne_zero (by omega) fun hzero => ?_
  have hwidth := toNat_clz_eq_width_iff.mpr hzero
  omega

/-- More leading zeros make a number smaller. -/
theorem toNat_lt_of_clz_lt (h : y.clz.toNat < x.clz.toNat) : x.toNat < y.toNat := by
  have hx : x.clz.toNat ≤ w := toNat_clz_le
  calc x.toNat < 2 ^ (w - x.clz.toNat) := BitVec.toNat_lt_two_pow_sub_clz
    _ ≤ 2 ^ (w - 1 - y.clz.toNat) := Nat.pow_le_pow_right Nat.two_pos (by omega)
    _ ≤ y.toNat := two_pow_le_of_clz_lt (by omega)

/-- The leading zeros are what the powers of two around the number say. -/
theorem clz_eq_of_bounds (hk : k ≤ w) (hlt : x.toNat < 2 ^ (w - k))
    (hle : k < w → 2 ^ (w - 1 - k) ≤ x.toNat) : x.clz.toNat = k := by
  have hclz : x.clz.toNat ≤ w := toNat_clz_le
  rcases Nat.lt_trichotomy x.clz.toNat k with h | h | h
  · -- the highest bit that is set would be among the zeros
    have hbit : 2 ^ (w - 1 - x.clz.toNat) ≤ x.toNat := two_pow_le_of_clz_lt (by omega)
    have hpow := (Nat.pow_lt_pow_iff_right Nat.one_lt_two).mp (Nat.lt_of_le_of_lt hbit hlt)
    omega
  · exact h
  · have hbound : x.toNat < 2 ^ (w - x.clz.toNat) := BitVec.toNat_lt_two_pow_sub_clz
    have hpow := (Nat.pow_lt_pow_iff_right Nat.one_lt_two).mp
      (Nat.lt_of_le_of_lt (hle (by omega)) hbound)
    omega

end

end Stric.Pool
