import Stric.Flow.Discovery
import Stric.Pool.BigEndian

/-!
# Queries of the routing table (`discovery.rs`)

`find_closest_nodes` collects every node of the table with its distance to the target, sorts by
distance and keeps the first `count`.  After any calls it is an exact query for the `count`
nearest nodes (`findClosestNodes_exact`).

The address it reports is the one of the `update` that inserted the node (`NodeInfo.inserted`):
later updates move the node to the end of its bucket and drop the address they bring
(`reports_current_iff`, `moved_node_reported_at_old_addr`).
-/

namespace Stric.Flow

open Stric.Pool TableCall

namespace RoutingTable

variable (hash : String → Hash)

def candidates (t : RoutingTable) (targetHash : Hash) : List (NodeInfo × Hash) :=
  t.buckets.flatMap fun bucket =>
    bucket.nodes.map fun node => (node, xorDistance targetHash (hash node.nodeId))

def findClosestNodes (t : RoutingTable) (targetId : String) (count : Nat) : List NodeInfo :=
  let sorted := (t.candidates hash (hash targetId)).mergeSort fun a b =>
    lexLE a.2.toList b.2.toList
  (sorted.take count).map (·.1)

/-- `hash(target) xor hash(id)`, as a number. -/
def distance (targetId : String) (n : NodeInfo) : Nat :=
  beValue (xorDistance (hash targetId) (hash n.nodeId)).toList

/-- All nodes of the table, the nearest first. -/
def byDistance (t : RoutingTable) (targetId : String) : List NodeInfo :=
  t.nodes.mergeSort fun n m => distance hash targetId n ≤ distance hash targetId m

variable (t : RoutingTable) (targetId : String)

theorem candidates_eq :
    t.candidates hash (hash targetId) =
      t.nodes.map fun node => (node, xorDistance (hash targetId) (hash node.nodeId)) := by
  unfold candidates nodes
  rw [List.map_flatMap]

theorem lexLE_distance (n m : NodeInfo) :
    lexLE (xorDistance (hash targetId) (hash n.nodeId)).toList
      (xorDistance (hash targetId) (hash m.nodeId)).toList =
    decide (distance hash targetId n ≤ distance hash targetId m) := by
  rw [Bool.eq_iff_iff, decide_eq_true_iff]
  apply lexLE_iff
  rw [Vector.length_toList, Vector.length_toList]

/-- The bytes are compared one by one, which sorts by the numbers. -/
theorem findClosestNodes_eq (count : Nat) :
    t.findClosestNodes hash targetId count = (t.byDistance hash targetId).take count := by
  unfold findClosestNodes byDistance
  rw [candidates_eq]
  simp only
  rw [List.map_take, ← List.map_mergeSort (r := fun n m =>
    decide (distance hash targetId n ≤ distance hash targetId m)), List.map_map]
  · exact congrArg (List.take count) (List.map_id _)
  · intro n _ m _
    exact (lexLE_distance hash targetId n m).symm

theorem byDistance_perm : (t.byDistance hash targetId).Perm t.nodes := List.mergeSort_perm _ _

theorem byDistance_pairwise : (t.byDistance hash targetId).Pairwise fun n m =>
    distance hash targetId n ≤ distance hash targetId m := by
  have h : (t.byDistance hash targetId).Pairwise fun n m =>
      decide (distance hash targetId n ≤ distance hash targetId m) = true := by
    refine List.pairwise_mergeSort (fun a b c hab hbc => ?_) (fun a b => ?_) t.nodes
    · exact decide_eq_true (Nat.le_trans (of_decide_eq_true hab) (of_decide_eq_true hbc))
    · rw [Bool.or_eq_true, decide_eq_true_iff, decide_eq_true_iff]
      exact Nat.le_total _ _
  exact h.imp of_decide_eq_true

theorem findClosestNodes_sublist (count : Nat) :
    (t.findClosestNodes hash targetId count).Sublist (t.byDistance hash targetId) := by
  rw [findClosestNodes_eq]
  exact List.take_sublist _ _

theorem mem_of_mem_findClosestNodes {count : Nat} {n : NodeInfo}
    (h : n ∈ t.findClosestNodes hash targetId count) : n ∈ t.nodes :=
  (t.byDistance_perm hash targetId).mem_iff.mp ((t.findClosestNodes_sublist hash _ _).mem h)

/-- A query for as many nodes as there are reports all of them. -/
theorem mem_findClosestNodes_all {n : NodeInfo} (h : n ∈ t.nodes) :
    n ∈ t.findClosestNodes hash targetId t.nodes.length := by
  have hperm := t.byDistance_perm hash targetId
  rw [findClosestNodes_eq, List.take_of_length_le (Nat.le_of_eq hperm.length_eq)]
  exact hperm.mem_iff.mpr h

end RoutingTable

/-- **`find_closest_nodes` is an exact query for the nearest nodes**, after any calls, for any
hash, target and count. -/
theorem findClosestNodes_exact (hash : String → Hash) (localNodeId : String)
    (calls : List TableCall) (targetId : String) (count : Nat) :
    let t := RoutingTable.run hash localNodeId calls
    let found := t.findClosestNodes hash targetId count
    let distance (n : NodeInfo) := beValue (xorDistance (hash targetId) (hash n.nodeId)).toList
    found.length = min count t.nodes.length ∧
    (∀ n ∈ found, n ∈ t.nodes) ∧
    (found.map (·.nodeId)).Nodup ∧
    found.Pairwise (fun n m => distance n ≤ distance m) ∧
    ∀ n ∈ t.nodes, n ∉ found → ∀ m ∈ found, ¬ distance n < distance m := by
  intro t found distance
  have hperm := t.byDistance_perm hash targetId
  have hsorted := t.byDistance_pairwise hash targetId
  have hsub : found.Sublist (t.byDistance hash targetId) :=
    t.findClosestNodes_sublist hash targetId count
  have hfound : found = (t.byDistance hash targetId).take count :=
    t.findClosestNodes_eq hash targetId count
  refine ⟨?_, fun n => t.mem_of_mem_findClosestNodes hash targetId, ?_, hsorted.sublist hsub, ?_⟩
  · rw [hfound, List.length_take, hperm.length_eq]
  · have hnodup : (t.nodes.map (·.nodeId)).Nodup :=
      (run_tableInv hash localNodeId calls).nodes_nodup
    exact ((hperm.map _).nodup_iff.mpr hnodup).sublist (hsub.map _)
  · -- a node left out stands behind every node that was taken
    intro n hn hout m hm
    rw [← hperm.mem_iff, ← List.take_append_drop count (t.byDistance hash targetId)] at hn
    rw [← List.take_append_drop count (t.byDistance hash targetId), List.pairwise_append]
      at hsorted
    rw [hfound] at hout hm
    rcases List.mem_append.mp hn with hn | hn
    · exact absurd hn hout
    · exact Nat.not_lt.mpr (hsorted.2.2 m hm n hn)

/-! ## The address of a node -/

/-- The table has a node of this id. -/
def RoutingTable.Present (t : RoutingTable) (id : String) : Prop := ∃ n ∈ t.nodes, n.nodeId = id

/-- The address in the most recent `update` of the node. -/
def currentAddr (calls : List TableCall) (id : String) : Option SocketAddr :=
  calls.reverse.findSome? fun c => match c with
    | .update nodeId addr => if nodeId = id then some addr else none
    | .remove _ => none

/-- The node was inserted by an `update` with this address: it was not in the table before, and
has been since. -/
def InsertedWith (hash : String → Hash) (localNodeId : String) (calls : List TableCall)
    (id : String) (addr : SocketAddr) : Prop :=
  ∃ before since, calls = before ++ .update id addr :: since ∧
    ¬ (RoutingTable.run hash localNodeId before).Present id ∧
    ∀ upto, upto <+: since →
      (RoutingTable.run hash localNodeId (before ++ .update id addr :: upto)).Present id

section
variable {hash : String → Hash} {localNodeId : String} {calls : List TableCall} {t : RoutingTable}
  {id : String}

theorem KBucket.mem_update {b : KBucket} {addr : SocketAddr} {n : NodeInfo}
    (h : n ∈ (b.update id addr).nodes) :
    n ∈ b.nodes ∨ n = ⟨id, addr⟩ ∧ ∀ m ∈ b.nodes, m.nodeId ≠ id := by
  unfold KBucket.update at h
  cases hpos : b.nodes.findIdx? fun n => n.nodeId = id with
  | some pos =>
    simp only [hpos, List.mem_append, Option.mem_toList] at h
    rcases h with h | h
    · exact Or.inl ((List.eraseIdx_sublist _ _).mem h)
    · exact Or.inl (List.mem_of_getElem? h)
  | none =>
    simp only [hpos] at h
    split at h
    · rcases List.mem_append.mp h with h | h
      · exact Or.inl h
      · refine Or.inr ⟨List.mem_singleton.mp h, fun m hm => ?_⟩
        simpa using List.findIdx?_eq_none_iff.mp hpos m hm
    · exact Or.inl h

/-- The nodes after one bucket was changed. -/
theorem RoutingTable.mem_modify {k : Nat} {f : KBucket → KBucket} {n : NodeInfo}
    (h : n ∈ RoutingTable.nodes { t with buckets := t.buckets.modify k f }) :
    n ∈ t.nodes ∨ ∃ b, t.buckets[k]? = some b ∧ n ∈ (f b).nodes := by
  obtain ⟨b', hb', hn⟩ := List.mem_flatMap.mp h
  obtain ⟨i, hi⟩ := List.getElem?_of_mem hb'
  rw [List.getElem?_modify] at hi
  obtain ⟨b, hb, rfl⟩ := Option.map_eq_some_iff.mp hi
  split at hn
  · next hk =>
    subst hk
    exact Or.inr ⟨b, hb, hn⟩
  · exact Or.inl (List.mem_flatMap.mpr ⟨b, List.mem_of_getElem? hb, hn⟩)

/-- A node of the table after a call was there before, or the call has inserted it. -/
theorem TableInv.mem_call (h : TableInv hash localNodeId calls t) (c : TableCall) {n : NodeInfo}
    (hn : n ∈ (t.call hash c).nodes) :
    n ∈ t.nodes ∨ c = .update n.nodeId n.addr ∧ ¬ t.Present n.nodeId := by
  cases c with
  | update id addr =>
    change n ∈ (t.update hash id addr).nodes at hn
    unfold RoutingTable.update at hn
    split at hn
    · exact Or.inl hn
    rcases RoutingTable.mem_modify hn with hn | ⟨b, hb, hn⟩
    · exact Or.inl hn
    rcases KBucket.mem_update hn with hn | ⟨rfl, hnew⟩
    · exact Or.inl (List.mem_flatMap.mpr ⟨b, List.mem_of_getElem? hb, hn⟩)
    -- a node of this id would be in the bucket of its hash
    refine Or.inr ⟨rfl, ?_⟩
    rintro ⟨m, hm, hid⟩
    obtain ⟨bm, hbm, hm⟩ := List.mem_flatMap.mp hm
    obtain ⟨j, hj⟩ := List.getElem?_of_mem hbm
    have hplaced : t.bucketIdx hash m.nodeId = j := (h.buckets j bm hj).placed m hm
    rw [hid] at hplaced
    obtain rfl : b = bm := by
      rw [← hplaced, hb] at hj
      exact Option.some.inj hj
    exact hnew m hm hid
  | remove id =>
    rcases RoutingTable.mem_modify hn with hn | ⟨b, hb, hn⟩
    · exact Or.inl hn
    · exact Or.inl (List.mem_flatMap.mpr
        ⟨b, List.mem_of_getElem? hb, List.mem_of_mem_filter hn⟩)

theorem InsertedWith.concat {addr : SocketAddr} (h : InsertedWith hash localNodeId calls id addr)
    {c : TableCall} (hc : (RoutingTable.run hash localNodeId (calls ++ [c])).Present id) :
    InsertedWith hash localNodeId (calls ++ [c]) id addr := by
  obtain ⟨before, since, rfl, hnot, hsince⟩ := h
  refine ⟨before, since ++ [c], by simp, hnot, fun upto hupto => ?_⟩
  rcases List.prefix_concat_iff.mp hupto with rfl | hupto
  · simpa using hc
  · exact hsince upto hupto

/-- The table keeps the address that a node was inserted with. -/
theorem NodeInfo.inserted (hash : String → Hash) (localNodeId : String) (calls : List TableCall)
    {n : NodeInfo} (hn : n ∈ (RoutingTable.run hash localNodeId calls).nodes) :
    InsertedWith hash localNodeId calls n.nodeId n.addr := by
  induction calls using List.reverseRecOn with
  | nil =>
    have hempty : ∀ b ∈ (RoutingTable.run hash localNodeId []).buckets, n ∉ b.nodes := by
      intro b hb
      rw [(List.mem_replicate.mp hb).2]
      exact List.not_mem_nil
    obtain ⟨b, hb, hn⟩ := List.mem_flatMap.mp hn
    exact absurd hn (hempty b hb)
  | append_singleton calls c ih =>
    have hpresent : (RoutingTable.run hash localNodeId (calls ++ [c])).Present n.nodeId :=
      ⟨n, hn, rfl⟩
    rw [RoutingTable.run_concat] at hn
    rcases (run_tableInv hash localNodeId calls).mem_call c hn with hold | ⟨rfl, hnot⟩
    · exact (ih hold).concat hpresent
    · refine ⟨calls, [], rfl, hnot, fun upto hupto => ?_⟩
      rw [List.prefix_nil.mp hupto]
      exact hpresent

/-- After an insertion the node is not inserted again, since it is not absent. -/
theorem not_inserted_again {before mid since since' : List TableCall} {a b : SocketAddr}
    (hmid : .update id a :: since = mid ++ .update id b :: since')
    (hsince : ∀ upto, upto <+: since →
      (RoutingTable.run hash localNodeId (before ++ .update id a :: upto)).Present id)
    (hnot : ¬ (RoutingTable.run hash localNodeId (before ++ mid)).Present id) : a = b := by
  cases mid with
  | nil =>
    simp only [List.nil_append, List.cons.injEq, TableCall.update.injEq] at hmid
    exact hmid.1.2
  | cons c mid =>
    obtain ⟨rfl, rfl⟩ := List.cons.inj hmid
    exact absurd (hsince mid (List.prefix_append _ _)) hnot

theorem InsertedWith.unique {a b : SocketAddr} (ha : InsertedWith hash localNodeId calls id a)
    (hb : InsertedWith hash localNodeId calls id b) : a = b := by
  obtain ⟨before, since, rfl, hnot, hsince⟩ := ha
  obtain ⟨before', since', heq, hnot', hsince'⟩ := hb
  rcases List.append_eq_append_iff.mp heq with ⟨mid, rfl, hmid⟩ | ⟨mid, rfl, hmid⟩
  · exact not_inserted_again hmid hsince hnot'
  · exact (not_inserted_again hmid hsince' hnot).symm

end

/-- **When the address of a node is current.**  For a node in the table after any calls, every
query that reports it reports the address of its most recent `update`, exactly if it was inserted
with that address. -/
theorem reports_current_iff (hash : String → Hash) (localNodeId : String) (calls : List TableCall)
    (id : String) (hid : (RoutingTable.run hash localNodeId calls).Present id) :
    (∀ targetId count,
      ∀ n ∈ (RoutingTable.run hash localNodeId calls).findClosestNodes hash targetId count,
        n.nodeId = id → currentAddr calls id = some n.addr) ↔
    ∃ addr, currentAddr calls id = some addr ∧ InsertedWith hash localNodeId calls id addr := by
  obtain ⟨n, hn, rfl⟩ := hid
  have hins := n.inserted hash localNodeId calls hn
  constructor
  · intro h
    exact ⟨n.addr, h n.nodeId _ n (RoutingTable.mem_findClosestNodes_all hash _ _ hn) rfl, hins⟩
  · rintro ⟨addr, hcur, haddr⟩ targetId count m hm hid
    have hm := RoutingTable.mem_of_mem_findClosestNodes hash _ _ hm
    have hmins := m.inserted hash localNodeId calls hm
    rw [hid] at hmins
    rw [hcur, haddr.unique hmins]

/-- A hash under which all nodes collide. -/
def zeroHash (_ : String) : Hash := Vector.replicate 32 0

/-- A node that moved is still reported at the address it was inserted with. -/
theorem moved_node_reported_at_old_addr :
    let calls := [.update "x" "10.0.0.1:1", .update "x" "10.0.0.2:1"]
    (RoutingTable.run zeroHash "local" calls).findClosestNodes zeroHash "x" 1 =
      [⟨"x", "10.0.0.1:1"⟩] ∧
    currentAddr calls "x" = some "10.0.0.2:1" := by
  decide +kernel

/-- A node that is seen again at its address. -/
theorem unmoved_node_reported_at_addr :
    let calls := [.update "x" "10.0.0.1:1", .remove "y", .update "x" "10.0.0.1:1"]
    let found := (RoutingTable.run zeroHash "local" calls).findClosestNodes zeroHash "z" 3
    ∃ n ∈ found, n.nodeId = "x" ∧ currentAddr calls "x" = some n.addr := by
  intro calls found
  have hx : (⟨"x", "10.0.0.1:1"⟩ : NodeInfo) ∈ (RoutingTable.run zeroHash "local" calls).nodes := by
    decide +kernel
  have hfound : (⟨"x", "10.0.0.1:1"⟩ : NodeInfo) ∈ found := by decide +kernel
  refine ⟨_, hfound, rfl, ?_⟩
  refine (reports_current_iff zeroHash "local" calls "x" ⟨_, hx, rfl⟩).mpr ?_ "z" 3 _ hfound rfl
  exact ⟨"10.0.0.1:1", rfl, NodeInfo.inserted zeroHash "local" calls hx⟩

end Stric.Flow
