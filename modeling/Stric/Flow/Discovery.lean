import Stric.Flow.Wire
import Mathlib.Data.List.Induction
import Mathlib.Data.List.Nodup
import Mathlib.Data.List.Perm.Basic

/-!
# The Kademlia routing table (`discovery.rs`)

A node is kept in the bucket of the number of leading zero bits that its hash and the local hash
have in common.  An update moves a known node to the end of its bucket, appends a new one while
the bucket has fewer than `K` nodes, and is dropped otherwise.

* The hash is a parameter, in the role of SHA-256.
* `age calls id` counts the calls since the last `update` of `id`; it is what the order inside a
  bucket is stated with.

`run_tableInv` says what holds of the table after any calls, and `table_invariant` what follows for
the table as a whole.
-/

namespace Stric.Flow

/-- `[u8; 32]`. -/
abbrev Hash := Vector UInt8 32

/-- The capacity of a bucket. -/
def K : Nat := 20

structure NodeInfo where
  nodeId : String
  addr : SocketAddr
deriving DecidableEq

structure KBucket where
  nodes : List NodeInfo
deriving DecidableEq

structure RoutingTable where
  localNodeId : String
  localHash : Hash
  buckets : List KBucket

def xorDistance (a b : Hash) : Hash := Vector.zipWith (· ^^^ ·) a b

/-- `u8::leading_zeros`. -/
def byteLeadingZeros (b : UInt8) : Nat := if b = 0 then 8 else 7 - b.toNat.log2

/-- The loop of `leading_zeros`: it stops at the first byte that is not zero. -/
def countLeadingZeros : List UInt8 → Nat
  | [] => 0
  | b :: bytes => if b = 0 then 8 + countLeadingZeros bytes else byteLeadingZeros b

def leadingZeros (bytes : Hash) : Nat := countLeadingZeros bytes.toList

namespace KBucket

def new : KBucket := ⟨[]⟩

def update (b : KBucket) (nodeId : String) (addr : SocketAddr) : KBucket :=
  match b.nodes.findIdx? fun n => n.nodeId = nodeId with
  | some pos => ⟨b.nodes.eraseIdx pos ++ b.nodes[pos]?.toList⟩
  | none => if b.nodes.length < K then ⟨b.nodes ++ [⟨nodeId, addr⟩]⟩ else b

def remove (b : KBucket) (nodeId : String) : KBucket :=
  ⟨b.nodes.filter fun n => n.nodeId ≠ nodeId⟩

end KBucket

namespace RoutingTable

variable (hash : String → Hash)

def new (localNodeId : String) : RoutingTable :=
  ⟨localNodeId, hash localNodeId, List.replicate 256 .new⟩

def bucketIdx (t : RoutingTable) (nodeId : String) : Nat :=
  let idx := leadingZeros (xorDistance t.localHash (hash nodeId))
  if 256 ≤ idx then 255 else idx

def update (t : RoutingTable) (nodeId : String) (addr : SocketAddr) : RoutingTable :=
  if nodeId = t.localNodeId then t
  else { t with buckets := t.buckets.modify (t.bucketIdx hash nodeId) (·.update nodeId addr) }

def remove (t : RoutingTable) (nodeId : String) : RoutingTable :=
  { t with buckets := t.buckets.modify (t.bucketIdx hash nodeId) (·.remove nodeId) }

/-- All nodes of the table. -/
def nodes (t : RoutingTable) : List NodeInfo := t.buckets.flatMap (·.nodes)

end RoutingTable

/-! ## Sequences of calls -/

inductive TableCall where
  | update (nodeId : String) (addr : SocketAddr)
  | remove (nodeId : String)
deriving DecidableEq

namespace TableCall

/-- The call is an `update` of this node. -/
def updates (id : String) : TableCall → Bool
  | .update nodeId _ => nodeId = id
  | .remove _ => false

/-- The number of calls since the last `update` of the node. -/
def age (calls : List TableCall) (id : String) : Nat := calls.reverse.findIdx (updates id)

theorem age_concat (calls : List TableCall) (c : TableCall) (id : String) :
    age (calls ++ [c]) id = if c.updates id then 0 else age calls id + 1 := by
  unfold age
  rw [List.reverse_append, List.reverse_singleton, List.singleton_append, List.findIdx_cons]
  cases c.updates id <;> rfl

end TableCall

open TableCall

namespace RoutingTable

variable (hash : String → Hash)

def call (t : RoutingTable) : TableCall → RoutingTable
  | .update nodeId addr => t.update hash nodeId addr
  | .remove nodeId => t.remove hash nodeId

/-- The table after these calls. -/
def run (localNodeId : String) (calls : List TableCall) : RoutingTable :=
  calls.foldl (call hash) (new hash localNodeId)

theorem run_concat (localNodeId : String) (calls : List TableCall) (c : TableCall) :
    run hash localNodeId (calls ++ [c]) = (run hash localNodeId calls).call hash c := by
  unfold run
  rw [List.foldl_append]
  rfl

end RoutingTable

/-! ## One bucket -/

/-- What holds of the bucket at position `i`, for the bucket `place id` and the age `age id` of
each node. -/
structure KBucket.Inv (localNodeId : String) (place age : String → Nat) (i : Nat) (b : KBucket) :
    Prop where
  size : b.nodes.length ≤ K
  foreign : ∀ n ∈ b.nodes, n.nodeId ≠ localNodeId
  placed : ∀ n ∈ b.nodes, place n.nodeId = i
  recency : b.nodes.Pairwise fun n m => age m.nodeId < age n.nodeId

namespace KBucket

variable {localNodeId : String} {place age age' : String → Nat} {i : Nat} {b b' : KBucket}
  {id : String}

theorem Inv.nodup (h : b.Inv localNodeId place age i) : (b.nodes.map (·.nodeId)).Nodup :=
  List.pairwise_map.mpr (h.recency.imp fun hlt heq => by rw [heq] at hlt; omega)

/-- All nodes of the bucket grow older by one call, and some may go. -/
theorem Inv.older (h : b.Inv localNodeId place age i) (hsub : b'.nodes.Sublist b.nodes)
    (hage : ∀ n ∈ b'.nodes, age' n.nodeId = age n.nodeId + 1) :
    b'.Inv localNodeId place age' i := by
  refine ⟨Nat.le_trans hsub.length_le h.size, fun n hn => h.foreign n (hsub.mem hn),
    fun n hn => h.placed n (hsub.mem hn), ?_⟩
  refine (h.recency.sublist hsub).imp_of_mem fun {n m} hn hm hlt => ?_
  rw [hage n hn, hage m hm]
  omega

/-- A node that is not in the bucket is put at its end. -/
theorem Inv.append (h : b.Inv localNodeId place age i) {n : NodeInfo} (hroom : b.nodes.length < K)
    (hlocal : n.nodeId ≠ localNodeId) (hplace : place n.nodeId = i)
    (hage : ∀ m ∈ b.nodes, age n.nodeId < age m.nodeId) :
    (⟨b.nodes ++ [n]⟩ : KBucket).Inv localNodeId place age i := by
  have hall : ∀ {P : NodeInfo → Prop}, (∀ m ∈ b.nodes, P m) → P n → ∀ m ∈ b.nodes ++ [n], P m := by
    intro P hb hn m hm
    rcases List.mem_append.mp hm with hm | hm
    · exact hb m hm
    · rw [List.mem_singleton.mp hm]
      exact hn
  refine ⟨?_, hall h.foreign hlocal, hall h.placed hplace, ?_⟩
  · rw [List.length_append]
    exact hroom
  · refine List.pairwise_append.mpr ⟨h.recency, List.pairwise_singleton _ _, fun m hm x hx => ?_⟩
    rw [List.mem_singleton.mp hx]
    exact hage m hm

/-- An update makes its node the youngest, if it is in the bucket afterwards. -/
theorem Inv.update (h : b.Inv localNodeId place age i) (hlocal : id ≠ localNodeId)
    (hplace : place id = i) (hnew : age' id = 0) (hold : ∀ x, x ≠ id → age' x = age x + 1)
    (addr : SocketAddr) : (b.update id addr).Inv localNodeId place age' i := by
  unfold KBucket.update
  cases hpos : b.nodes.findIdx? fun n => n.nodeId = id with
  | some pos =>
    obtain ⟨hlt, hid, -⟩ := List.findIdx?_eq_some_iff_getElem.mp hpos
    have hid : b.nodes[pos].nodeId = id := by simpa using hid
    -- no other node of the bucket has this id
    have hother : ∀ n ∈ b.nodes.eraseIdx pos, n.nodeId ≠ id := by
      have hperm := (List.getElem_cons_eraseIdx_perm hlt).map (·.nodeId)
      have hnd := hperm.nodup_iff.mpr h.nodup
      intro n hn heq
      refine (List.nodup_cons.mp hnd).1 (List.mem_map.mpr ⟨n, hn, ?_⟩)
      exact heq.trans hid.symm
    have hrest : (⟨b.nodes.eraseIdx pos⟩ : KBucket).Inv localNodeId place age' i :=
      h.older (List.eraseIdx_sublist _ _) fun n hn => hold _ (hother n hn)
    have hlen : (b.nodes.eraseIdx pos).length < K := by
      have := h.size
      rw [List.length_eraseIdx_of_lt hlt]
      omega
    simp only [List.getElem?_eq_getElem hlt, Option.toList_some]
    refine hrest.append hlen (hid ▸ hlocal) (hid ▸ hplace) fun m hm => ?_
    rw [hid, hnew, hold _ (hother m hm)]
    exact Nat.succ_pos _
  | none =>
    have hother : ∀ n ∈ b.nodes, n.nodeId ≠ id := by
      intro n hn
      simpa using List.findIdx?_eq_none_iff.mp hpos n hn
    have hb : b.Inv localNodeId place age' i :=
      h.older (List.Sublist.refl _) fun n hn => hold _ (hother n hn)
    simp only
    split
    · next hroom =>
      refine hb.append hroom hlocal hplace fun m hm => ?_
      show age' id < _
      rw [hnew, hold _ (hother m hm)]
      exact Nat.succ_pos _
    · exact hb

end KBucket

/-! ## The table -/

structure TableInv (hash : String → Hash) (localNodeId : String) (calls : List TableCall)
    (t : RoutingTable) : Prop where
  ownId : t.localNodeId = localNodeId
  ownHash : t.localHash = hash localNodeId
  size : t.buckets.length = 256
  buckets : ∀ (i : Nat) (b : KBucket), t.buckets[i]? = some b →
    b.Inv localNodeId (t.bucketIdx hash) (age calls) i

section
variable {hash : String → Hash} {localNodeId : String} {calls : List TableCall} {t : RoutingTable}

theorem TableInv.new : TableInv hash localNodeId [] (.new hash localNodeId) := by
  refine ⟨rfl, rfl, List.length_replicate, fun i b hb => ?_⟩
  have hb : b = .new := (List.mem_replicate.mp (List.mem_of_getElem? hb)).2
  subst hb
  exact ⟨Nat.zero_le _, fun n hn => absurd hn List.not_mem_nil,
    fun n hn => absurd hn List.not_mem_nil, List.Pairwise.nil⟩

/-- A call changes the bucket of its node, and there only in a way that keeps it in order. -/
theorem TableInv.modify (h : TableInv hash localNodeId calls t) (c : TableCall) {k : Nat}
    {f : KBucket → KBucket}
    (hf : ∀ b, b.Inv localNodeId (t.bucketIdx hash) (age calls) k →
      (f b).Inv localNodeId (t.bucketIdx hash) (age (calls ++ [c])) k)
    (hother : ∀ id, c.updates id = true → t.bucketIdx hash id = k) :
    TableInv hash localNodeId (calls ++ [c]) { t with buckets := t.buckets.modify k f } := by
  refine ⟨h.ownId, h.ownHash, (List.length_modify _ _ _).trans h.size, fun i b hb => ?_⟩
  rw [List.getElem?_modify] at hb
  obtain ⟨b₀, hb₀, rfl⟩ := Option.map_eq_some_iff.mp hb
  have hinv := h.buckets i b₀ hb₀
  split
  · next hk =>
    subst hk
    exact hf b₀ hinv
  · next hk =>
    refine hinv.older (List.Sublist.refl _) fun n hn => ?_
    rw [age_concat, if_neg]
    intro hup
    exact hk ((hother _ hup).symm.trans (hinv.placed n hn))

theorem TableInv.call (h : TableInv hash localNodeId calls t) (c : TableCall) :
    TableInv hash localNodeId (calls ++ [c]) (t.call hash c) := by
  cases c with
  | update id addr =>
    show TableInv _ _ _ (t.update hash id addr)
    unfold RoutingTable.update
    split
    · next hid =>
      -- an update of the local node is ignored, and no bucket has it
      refine ⟨h.ownId, h.ownHash, h.size, fun i b hb => ?_⟩
      have hinv := h.buckets i b hb
      refine hinv.older (List.Sublist.refl _) fun n hn => ?_
      rw [age_concat, if_neg]
      intro hup
      have hup : id = n.nodeId := by simpa [updates] using hup
      exact hinv.foreign n hn (hup.symm.trans (hid.trans h.ownId))
    · next hid =>
      rw [h.ownId] at hid
      refine h.modify _ (fun b hb => hb.update hid rfl ?_ (fun x hx => ?_) addr) fun x hx => ?_
      · rw [age_concat, if_pos (by simp [updates])]
      · rw [age_concat, if_neg (by simpa [updates] using Ne.symm hx)]
      · have hx : id = x := by simpa [updates] using hx
        rw [hx]
  | remove id =>
    refine h.modify _ (fun b hb => hb.older List.filter_sublist fun n _ => ?_) fun x hx => ?_
    · rw [age_concat, if_neg (by simp [updates])]
    · simp [updates] at hx

theorem run_tableInv (hash : String → Hash) (localNodeId : String) (calls : List TableCall) :
    TableInv hash localNodeId calls (RoutingTable.run hash localNodeId calls) := by
  induction calls using List.reverseRecOn with
  | nil => exact TableInv.new
  | append_singleton calls c ih =>
    rw [RoutingTable.run_concat]
    exact ih.call c

theorem TableInv.bucketIdx_eq (h : TableInv hash localNodeId calls t) (id : String) :
    t.bucketIdx hash id = min 255 (leadingZeros (xorDistance (hash localNodeId) (hash id))) := by
  unfold RoutingTable.bucketIdx
  rw [h.ownHash]
  simp only
  split <;> omega

/-- A node can only be in the one bucket that its hash gives. -/
theorem TableInv.nodes_nodup (h : TableInv hash localNodeId calls t) :
    (t.nodes.map (·.nodeId)).Nodup := by
  unfold RoutingTable.nodes
  rw [List.map_flatMap, List.nodup_flatMap]
  constructor
  · intro b hb
    obtain ⟨i, hi⟩ := List.getElem?_of_mem hb
    exact (h.buckets i b hi).nodup
  · refine List.pairwise_iff_getElem.mpr fun i j hi hj hij => ?_
    intro x hx hx'
    obtain ⟨n, hn, rfl⟩ := List.mem_map.mp hx
    obtain ⟨m, hm, heq⟩ := List.mem_map.mp hx'
    have hni := (h.buckets i _ (List.getElem?_eq_getElem hi)).placed n hn
    have hmj := (h.buckets j _ (List.getElem?_eq_getElem hj)).placed m hm
    rw [heq, hni] at hmj
    omega

end

/-- **The invariant of the routing table**, after any calls and for any hash. -/
theorem table_invariant (hash : String → Hash) (localNodeId : String) (calls : List TableCall) :
    let t := RoutingTable.run hash localNodeId calls
    t.buckets.length = 256 ∧
    (∀ b ∈ t.buckets, b.nodes.length ≤ 20) ∧
    (t.nodes.map (·.nodeId)).Nodup ∧
    (∀ n ∈ t.nodes, n.nodeId ≠ localNodeId) ∧
    (∀ (i : Nat) (b : KBucket), t.buckets[i]? = some b → ∀ n ∈ b.nodes,
      i = min 255 (leadingZeros (xorDistance (hash localNodeId) (hash n.nodeId)))) ∧
    (∀ b ∈ t.buckets, b.nodes.Pairwise fun n m => age calls m.nodeId < age calls n.nodeId) := by
  intro t
  have h : TableInv hash localNodeId calls t := run_tableInv hash localNodeId calls
  have hb : ∀ b ∈ t.buckets, ∃ i, b.Inv localNodeId (t.bucketIdx hash) (age calls) i := by
    intro b hb
    obtain ⟨i, hi⟩ := List.getElem?_of_mem hb
    exact ⟨i, h.buckets i b hi⟩
  refine ⟨h.size, fun b hmem => ?_, h.nodes_nodup, fun n hn => ?_, fun i b hi n hn => ?_,
    fun b hmem => ?_⟩
  · obtain ⟨i, hinv⟩ := hb b hmem
    exact hinv.size
  · obtain ⟨b, hmem, hn⟩ := List.mem_flatMap.mp hn
    obtain ⟨i, hinv⟩ := hb b hmem
    exact hinv.foreign n hn
  · rw [← h.bucketIdx_eq]
    exact ((h.buckets i b hi).placed n hn).symm
  · obtain ⟨i, hinv⟩ := hb b hmem
    exact hinv.recency

end Stric.Flow
