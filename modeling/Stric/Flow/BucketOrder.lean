import Stric.Flow.Closest

/-!
# Buckets and distances (`discovery.rs`)

The bucket of a node is the number of leading zero bits of its distance to the local node, where
the distances 0 and 1 share the last bucket.  `leading_zeros` goes over the bytes and stops at the
first one that is not zero; it counts the leading zeros of the 256-bit number (`leadingZeros_eq`).

So the later bucket has the nearer nodes (`bucket_order`), and a query for the local node itself
reports the buckets from the last to the first (`findClosestNodes_local`).
-/

namespace Stric.Flow

open Stric.Pool TableCall

/-! ## The leading zeros of a distance -/

theorem byteLeadingZeros_bounds {b : UInt8} (hb : b ≠ 0) :
    byteLeadingZeros b ≤ 7 ∧ 2 ^ (7 - byteLeadingZeros b) ≤ b.toNat ∧
      b.toNat + 1 ≤ 2 ^ (8 - byteLeadingZeros b) := by
  have hpos : b.toNat ≠ 0 := by
    intro hzero
    exact hb (UInt8.toNat_inj.mp hzero)
  have hlog : b.toNat.log2 < 8 := (Nat.log2_lt hpos).mpr b.toNat_lt
  have hle : 2 ^ b.toNat.log2 ≤ b.toNat := Nat.log2_self_le hpos
  have hlt : b.toNat < 2 ^ (b.toNat.log2 + 1) := Nat.lt_log2_self
  rw [byteLeadingZeros, if_neg hb]
  rw [show 7 - (7 - b.toNat.log2) = b.toNat.log2 by omega,
    show 8 - (7 - b.toNat.log2) = b.toNat.log2 + 1 by omega]
  exact ⟨by omega, hle, hlt⟩

/-- The powers of two that the loop of `leading_zeros` puts around the number. -/
theorem countLeadingZeros_bounds (bytes : List UInt8) :
    countLeadingZeros bytes ≤ 8 * bytes.length ∧
    beValue bytes < 2 ^ (8 * bytes.length - countLeadingZeros bytes) ∧
    (countLeadingZeros bytes < 8 * bytes.length →
      2 ^ (8 * bytes.length - 1 - countLeadingZeros bytes) ≤ beValue bytes) := by
  induction bytes with
  | nil => exact ⟨Nat.le_refl _, Nat.one_pos, fun h => absurd h (Nat.lt_irrefl _)⟩
  | cons b bytes ih =>
    obtain ⟨hcount, hlt, hle⟩ := ih
    rw [List.length_cons, countLeadingZeros]
    split
    · next hb =>
      -- a zero byte leaves the number and widens it by eight bits
      have hvalue : beValue (b :: bytes) = beValue bytes := by
        rw [beValue, hb]
        show 0 * _ + _ = _
        rw [Nat.zero_mul, Nat.zero_add]
      rw [hvalue]
      refine ⟨by omega, ?_, fun h => ?_⟩
      · rwa [show 8 * (bytes.length + 1) - (8 + countLeadingZeros bytes) =
          8 * bytes.length - countLeadingZeros bytes by omega]
      · rw [show 8 * (bytes.length + 1) - 1 - (8 + countLeadingZeros bytes) =
          8 * bytes.length - 1 - countLeadingZeros bytes by omega]
        exact hle (by omega)
    · next hb =>
      -- the first byte decides, whatever follows
      obtain ⟨hk, hlow, hhigh⟩ := byteLeadingZeros_bounds hb
      refine ⟨by omega, ?_, fun _ => ?_⟩
      · calc beValue (b :: bytes) < (b.toNat + 1) * 256 ^ bytes.length :=
              beValue_cons_lt_mul b bytes
          _ ≤ 2 ^ (8 - byteLeadingZeros b) * 2 ^ (8 * bytes.length) := by
              rw [pow_256]
              exact Nat.mul_le_mul_right _ hhigh
          _ = 2 ^ (8 * (bytes.length + 1) - byteLeadingZeros b) := by
              rw [← Nat.pow_add]
              congr 1
              omega
      · calc 2 ^ (8 * (bytes.length + 1) - 1 - byteLeadingZeros b)
            = 2 ^ (7 - byteLeadingZeros b) * 2 ^ (8 * bytes.length) := by
              rw [← Nat.pow_add]
              congr 1
              omega
          _ ≤ b.toNat * 256 ^ bytes.length := by
              rw [pow_256]
              exact Nat.mul_le_mul_right _ hlow
          _ ≤ beValue (b :: bytes) := Nat.le_add_right _ _

/-- A distance as a number of 256 bits. -/
def distanceBits (d : Hash) : BitVec 256 := BitVec.ofNat 256 (beValue d.toList)

theorem toNat_distanceBits (d : Hash) : (distanceBits d).toNat = beValue d.toList := by
  have hlt := beValue_lt d.toList
  rw [Vector.length_toList, pow_256] at hlt
  rw [distanceBits, BitVec.toNat_ofNat, Nat.mod_eq_of_lt hlt]

theorem leadingZeros_eq (d : Hash) : leadingZeros d = (distanceBits d).clz.toNat := by
  obtain ⟨hcount, hlt, hle⟩ := countLeadingZeros_bounds d.toList
  rw [Vector.length_toList] at hcount hlt hle
  rw [← toNat_distanceBits] at hlt hle
  exact (clz_eq_of_bounds hcount hlt hle).symm

theorem countLeadingZeros_eq_iff (bytes : List UInt8) :
    countLeadingZeros bytes = 8 * bytes.length ↔ ∀ b ∈ bytes, b = 0 := by
  induction bytes with
  | nil => exact iff_of_true rfl fun b hb => absurd hb List.not_mem_nil
  | cons b bytes ih =>
    rw [List.forall_mem_cons, ← ih, List.length_cons, countLeadingZeros]
    split
    · next hb =>
      rw [eq_true hb, true_and]
      omega
    · next hb =>
      have hk := (byteLeadingZeros_bounds hb).1
      refine iff_of_false (by omega) fun h => hb h.1

theorem lexLT_of_leadingZeros {d e : Hash} (h : leadingZeros e < leadingZeros d) :
    lexLT d.toList e.toList = true := by
  rw [leadingZeros_eq, leadingZeros_eq] at h
  have hlt := toNat_lt_of_clz_lt h
  rw [toNat_distanceBits, toNat_distanceBits] at hlt
  exact (lexLT_iff (by rw [Vector.length_toList, Vector.length_toList])).mpr hlt

/-! ## The buckets of a table -/

/-- The distance of a node to the local node. -/
def localDistance (hash : String → Hash) (localNodeId : String) (n : NodeInfo) : List UInt8 :=
  (xorDistance (hash localNodeId) (hash n.nodeId)).toList

/-- Only the last bucket is shared by two numbers of leading zeros, so in a bucket before another
it is the smaller one. -/
theorem TableInv.lexLT_of_bucket {hash : String → Hash} {localNodeId : String}
    {calls : List TableCall} {t : RoutingTable} (h : TableInv hash localNodeId calls t)
    {i j : Nat} {near far : KBucket} (hi : t.buckets[i]? = some near)
    (hj : t.buckets[j]? = some far) (hij : j < i) {n m : NodeInfo} (hn : n ∈ near.nodes)
    (hm : m ∈ far.nodes) :
    lexLT (localDistance hash localNodeId n) (localDistance hash localNodeId m) = true := by
  have hni : t.bucketIdx hash n.nodeId = i := (h.buckets i near hi).placed n hn
  have hmj : t.bucketIdx hash m.nodeId = j := (h.buckets j far hj).placed m hm
  rw [h.bucketIdx_eq] at hni hmj
  exact lexLT_of_leadingZeros (by omega)

/-- **The bucket index is monotone in the distance.**  `leading_zeros` is the number of leading
zeros of the 256-bit number, more of them make a distance smaller, and after any calls the nodes
of a bucket are nearer to the local node than those of the buckets before it. -/
theorem bucket_order (hash : String → Hash) (localNodeId : String) (calls : List TableCall) :
    (∀ d : Hash, leadingZeros d = (BitVec.ofNat 256 (beValue d.toList)).clz.toNat ∧
      (leadingZeros d = 256 ↔ ∀ b ∈ d.toList, b = 0)) ∧
    (∀ d e : Hash, leadingZeros d > leadingZeros e → lexLT d.toList e.toList = true) ∧
    ∀ (i j : Nat) (near far : KBucket),
      (RoutingTable.run hash localNodeId calls).buckets[i]? = some near →
      (RoutingTable.run hash localNodeId calls).buckets[j]? = some far → j < i →
      ∀ n ∈ near.nodes, ∀ m ∈ far.nodes,
        lexLT (xorDistance (hash localNodeId) (hash n.nodeId)).toList
          (xorDistance (hash localNodeId) (hash m.nodeId)).toList = true := by
  refine ⟨fun d => ⟨leadingZeros_eq d, ?_⟩, fun d e => lexLT_of_leadingZeros, ?_⟩
  · have hzero := countLeadingZeros_eq_iff d.toList
    rwa [Vector.length_toList] at hzero
  · intro i j near far hi hj hij n hn m hm
    exact (run_tableInv hash localNodeId calls).lexLT_of_bucket hi hj hij hn hm

/-- A query for the local node reports the buckets from the last to the first. -/
theorem findClosestNodes_local (hash : String → Hash) (localNodeId : String)
    (calls : List TableCall) (count : Nat) :
    let t := RoutingTable.run hash localNodeId calls
    (t.findClosestNodes hash localNodeId count).Pairwise fun n m =>
      t.bucketIdx hash m.nodeId ≤ t.bucketIdx hash n.nodeId := by
  intro t
  have h : TableInv hash localNodeId calls t := run_tableInv hash localNodeId calls
  refine ((t.byDistance_pairwise hash localNodeId).sublist
    (t.findClosestNodes_sublist hash localNodeId count)).imp fun {n m} hle => ?_
  by_contra hnot
  rw [h.bucketIdx_eq, h.bucketIdx_eq, Nat.not_le] at hnot
  have hlt := lexLT_of_leadingZeros (d := xorDistance (hash localNodeId) (hash m.nodeId))
    (e := xorDistance (hash localNodeId) (hash n.nodeId)) (by omega)
  rw [lexLT_iff (by rw [Vector.length_toList, Vector.length_toList])] at hlt
  exact absurd hle (Nat.not_le.mpr hlt)

end Stric.Flow
