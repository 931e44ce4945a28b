import Mathlib.Algebra.BigOperators.Ring.Finset
import Mathlib.Data.Finset.Card
import Stric.Flow.Mesh
import Stric.Flow.VecGraph

/-!
# Epoch gossip neither loops nor storms

Topology and subscription updates are deduplicated by (kind, origin, epoch): a node accepts
an update, and forwards it, only if its epoch is newer than the recorded one.

With no new updates originated, a node's supply of updates it can still accept only shrinks,
and each acceptance uses one up.  So `peers × acceptable updates`, summed over the nodes,
pays for every message forwarded (`accept_pays`), which bounds the messages and the length
of every run, on any peer graph (`gossip_bounded`).
-/

namespace Stric.Flow

open Stric.Pool

inductive UpdateKind where
  | topology
  | subscription
deriving DecidableEq

/-- What deduplication compares. -/
structure UpdateKey where
  kind : UpdateKind
  origin : NodeId
  epoch : UInt64
deriving DecidableEq

def ControlMessage.updateKey (msg : ControlMessage) : Option UpdateKey :=
  match msg.message with
  | some (.topologyUpdate u) => some ⟨.topology, u.originNodeId, u.epoch⟩
  | some (.subscriptionUpdate u) => some ⟨.subscription, u.nodeId, u.epoch⟩
  | _ => none

/-! ## The two epoch maps -/

theorem isNewer_insert {m : HashMap NodeId UInt64} {o : NodeId} {e : UInt64}
    (h : FlowNode.isNewer m o e = true) {id : NodeId} {x : UInt64}
    (hx : FlowNode.isNewer (m.insert o e) id x = true) : FlowNode.isNewer m id x = true := by
  unfold FlowNode.isNewer at *
  by_cases hid : id = o
  · subst hid
    rw [AList.lookup_insert] at hx
    cases hl : m.lookup id with
    | none => rfl
    | some c =>
      rw [hl] at h
      simp only [decide_eq_true_eq] at h hx ⊢
      exact UInt64.lt_trans h hx
  · rwa [AList.lookup_insert_ne hid] at hx

theorem isNewer_insert_self (m : HashMap NodeId UInt64) (o : NodeId) (e : UInt64) :
    FlowNode.isNewer (m.insert o e) o e = false := by
  unfold FlowNode.isNewer
  rw [AList.lookup_insert]
  simp

/-- The recorded epoch after an acceptance is at least what was recorded before. -/
theorem lookup_insert_of_isNewer {m : HashMap NodeId UInt64} {o : NodeId} {e : UInt64}
    (h : FlowNode.isNewer m o e = true) {id : NodeId} {c : UInt64} (hc : m.lookup id = some c) :
    ∃ c', (m.insert o e).lookup id = some c' ∧ c ≤ c' := by
  by_cases hid : id = o
  · subst hid
    refine ⟨e, AList.lookup_insert _, ?_⟩
    simp only [FlowNode.isNewer, hc, decide_eq_true_eq] at h
    exact UInt64.le_of_lt h
  · exact ⟨c, by rw [AList.lookup_insert_ne hid, hc], UInt64.le_refl c⟩

namespace FlowNode

variable {γ δ : Type}

def epochs (n : FlowNode γ δ) : UpdateKind → HashMap NodeId UInt64
  | .topology => n.lastEpochs
  | .subscription => n.lastSubscriptionEpochs

def accepts (n : FlowNode γ δ) (key : UpdateKey) : Bool :=
  isNewer (n.epochs key.kind) key.origin key.epoch

/-- **One update.**  It is accepted, recorded and gossiped, or it changes no epoch and is
dropped. -/
theorem onMessage_update [PetGraph γ] (clock : Clock) (n : FlowNode γ δ) (sender : NodeId)
    (msg : ControlMessage) {key : UpdateKey} (hk : msg.updateKey = some key) {n' : FlowNode γ δ}
    {outs : List Send} (h : n.onMessage clock sender msg = (n', outs)) :
    (∀ kind, n'.epochs kind =
      if n.accepts key = true ∧ kind = key.kind then (n.epochs kind).insert key.origin key.epoch
      else n.epochs kind) ∧
    outs = if n.accepts key then n.gossip sender key.origin msg else [] := by
  obtain ⟨payload⟩ := msg
  cases payload with
  | none => cases hk
  | some payload =>
    cases payload with
    | topologyUpdate u =>
      cases hk
      obtain ⟨t, ⟨ha, rfl, rfl⟩ | ⟨ha, rfl, rfl⟩⟩ :=
        onMessage_topology clock n sender u h
      · have ha' : n.accepts ⟨.topology, u.originNodeId, u.epoch⟩ = true := ha
        rw [ha']
        refine ⟨fun kind => ?_, rfl⟩
        cases kind <;> simp [epochs, acceptTopology]
      · have ha' : n.accepts ⟨.topology, u.originNodeId, u.epoch⟩ = false := ha
        rw [ha']
        refine ⟨fun kind => ?_, rfl⟩
        cases kind <;> simp [epochs]
    | subscriptionUpdate u =>
      cases hk
      obtain ⟨t, ⟨ha, rfl, rfl⟩ | ⟨ha, rfl, rfl⟩⟩ :=
        onMessage_subscription clock n sender u h
      · have ha' : n.accepts ⟨.subscription, u.nodeId, u.epoch⟩ = true := ha
        rw [ha']
        refine ⟨fun kind => ?_, rfl⟩
        cases kind <;> simp [epochs, acceptSubscription]
      · have ha' : n.accepts ⟨.subscription, u.nodeId, u.epoch⟩ = false := ha
        rw [ha']
        refine ⟨fun kind => ?_, rfl⟩
        cases kind <;> simp [epochs]
    | _ => cases hk

end FlowNode

/-! ## Runs -/

/-- A node, and the updates it has accepted, the latest first. -/
structure Logged (γ δ : Type) where
  node : FlowNode γ δ
  accepted : List UpdateKey

section
variable {γ δ : Type} [PetGraph γ]

/-- The log after a message. -/
def Logged.record (s : Logged γ δ) (msg : ControlMessage) : List UpdateKey :=
  match msg.updateKey with
  | some key => if s.node.accepts key then key :: s.accepted else s.accepted
  | none => s.accepted

/-- Control loops that only react to what they receive. -/
def gossipLoops : Protocol NodeId (Logged γ δ) ControlMessage Empty where
  recv _ sender msg s s' outs :=
    receives sender msg s.node s'.node outs ∧ s'.accepted = s.record msg
  own _ a := nomatch a

/-- Epochs accepted for one kind and origin grow. -/
def Increasing (log : List UpdateKey) : Prop :=
  log.Pairwise fun newer older =>
    older.kind = newer.kind → older.origin = newer.origin → older.epoch < newer.epoch

/-- Epochs grow in the log, and none is above what the node records now. -/
structure LogInv (s : Logged γ δ) : Prop where
  increasing : Increasing s.accepted
  recorded : ∀ key ∈ s.accepted, ∃ c,
    (s.node.epochs key.kind).lookup key.origin = some c ∧ key.epoch ≤ c

theorem LogInv.recv {sender : NodeId} {msg : ControlMessage} {s s' : Logged γ δ}
    {outs : List Send} (h : LogInv s) {key : UpdateKey} (hk : msg.updateKey = some key)
    (hr : receives sender msg s.node s'.node outs) (hlog : s'.accepted = s.record msg) :
    LogInv s' := by
  obtain ⟨clock, hr⟩ := hr
  have hep := (s.node.onMessage_update clock sender msg hk hr).1
  simp only [Logged.record, hk] at hlog
  by_cases ha : s.node.accepts key = true
  · simp only [ha, true_and, if_true] at hep hlog
    refine ⟨?_, ?_⟩
    · rw [hlog]
      refine List.pairwise_cons.mpr ⟨fun older ho hkind horig => ?_, h.increasing⟩
      obtain ⟨c, hc, hle⟩ := h.recorded older ho
      rw [hkind, horig] at hc
      unfold FlowNode.accepts FlowNode.isNewer at ha
      rw [hc] at ha
      simp only [decide_eq_true_eq] at ha
      exact UInt64.lt_of_le_of_lt hle ha
    · intro k hkmem
      rw [hlog] at hkmem
      rw [hep]
      rcases List.mem_cons.mp hkmem with rfl | hkmem
      · rw [if_pos rfl]
        exact ⟨_, AList.lookup_insert _, UInt64.le_refl _⟩
      · obtain ⟨c, hc, hle⟩ := h.recorded k hkmem
        by_cases hkind : k.kind = key.kind
        · rw [if_pos hkind]
          rw [hkind] at hc ⊢
          obtain ⟨c', hc', hle'⟩ := lookup_insert_of_isNewer ha hc
          exact ⟨c', hc', UInt64.le_trans hle hle'⟩
        · rw [if_neg hkind]
          exact ⟨c, hc, hle⟩
  · simp only [ha, false_and, if_false, Bool.false_eq_true] at hep hlog
    refine ⟨by rw [hlog]; exact h.increasing, fun k hkmem => ?_⟩
    rw [hlog] at hkmem
    rw [hep]
    exact h.recorded k hkmem

/-! ## The potential -/

/-- The updates among `keys` that the node would still accept. -/
def acceptable (keys : Finset UpdateKey) (n : FlowNode γ δ) : Finset UpdateKey :=
  keys.filter fun key => n.accepts key = true

/-- What forwarding may still cost at a node with that many peers. -/
def budget (keys : Finset UpdateKey) (peers : Nat) (n : FlowNode γ δ) : Nat :=
  peers * (acceptable keys n).card

/-- An acceptance uses up an acceptable update, and pays for at most one message to each
peer. -/
theorem accept_pays {keys : Finset UpdateKey} {sender : NodeId} {msg : ControlMessage}
    {n n' : FlowNode γ δ} {outs : List Send} {key : UpdateKey} (hmem : key ∈ keys)
    (hk : msg.updateKey = some key) (hr : receives sender msg n n' outs) :
    outs.length + budget keys n.peers.length n' ≤ budget keys n.peers.length n := by
  obtain ⟨clock, hr⟩ := hr
  obtain ⟨hep, houts⟩ := n.onMessage_update clock sender msg hk hr
  unfold budget
  by_cases ha : n.accepts key = true
  · simp only [ha, true_and, if_true] at hep houts
    have hsub : acceptable keys n' ⊆ (acceptable keys n).erase key := by
      intro k hkm
      obtain ⟨hk1, hk2⟩ := Finset.mem_filter.mp hkm
      unfold FlowNode.accepts at hk2
      rw [hep] at hk2
      rw [Finset.mem_erase]
      by_cases hkind : k.kind = key.kind
      · rw [if_pos hkind] at hk2
        refine ⟨fun e => ?_, Finset.mem_filter.mpr ⟨hk1, ?_⟩⟩
        · subst e
          rw [isNewer_insert_self] at hk2
          cases hk2
        · rw [hkind] at hk2
          unfold FlowNode.accepts
          rw [hkind]
          exact isNewer_insert ha hk2
      · rw [if_neg hkind] at hk2
        exact ⟨fun e => hkind (by rw [e]), Finset.mem_filter.mpr ⟨hk1, hk2⟩⟩
    have hin : key ∈ acceptable keys n := Finset.mem_filter.mpr ⟨hmem, ha⟩
    have hcard := Finset.card_le_card hsub
    rw [Finset.card_erase_of_mem hin] at hcard
    have hpos : 0 < (acceptable keys n).card := Finset.card_pos.mpr ⟨key, hin⟩
    have hlen : outs.length ≤ n.peers.length := by
      rw [houts]
      exact n.length_gossip_le _ _ _
    calc outs.length + n.peers.length * (acceptable keys n').card
        ≤ n.peers.length + n.peers.length * ((acceptable keys n).card - 1) :=
          Nat.add_le_add hlen (Nat.mul_le_mul_left _ hcard)
      _ = n.peers.length * ((acceptable keys n).card - 1 + 1) := by
          rw [Nat.mul_add, Nat.mul_one, Nat.add_comm]
      _ = n.peers.length * (acceptable keys n).card := by
          rw [Nat.sub_add_cancel hpos]
  · simp only [ha, false_and, if_false, Bool.false_eq_true] at hep houts
    have hsame : acceptable keys n' = acceptable keys n := by
      unfold acceptable
      refine Finset.filter_congr fun k _ => ?_
      unfold FlowNode.accepts
      rw [hep]
    rw [houts, hsame]
    simp

/-- The distinct (kind, origin, epoch) triples in flight. -/
def keysInFlight (net : Net NodeId (Logged γ δ) ControlMessage) : Finset UpdateKey :=
  (net.flight.filterMap fun p => p.msg.updateKey).toFinset

/-- What every state of a run keeps. -/
structure GossipInv (g : PeerGraph) (keys : Finset UpdateKey)
    (net : Net NodeId (Logged γ δ) ControlMessage) : Prop where
  hosted : Hosted g Logged.node net
  known : ∀ p ∈ net.flight, ∃ key ∈ keys, p.msg.updateKey = some key
  logs : ∀ v, LogInv (net.state v)

theorem GossipInv.step {g : PeerGraph} {keys : Finset UpdateKey}
    {net net' : Net NodeId (Logged γ δ) ControlMessage} {e : Event NodeId ControlMessage Empty}
    (h : GossipInv g keys net) (hs : Step gossipLoops net e net') : GossipInv g keys net' := by
  cases hs with
  | own h => nomatch h
  | @deliver l₁ l₂ p s outs hf hr =>
    obtain ⟨hrecv, hlog⟩ := hr
    have hp : p ∈ net.flight := by rw [hf]; simp
    obtain ⟨key, hmem, hk⟩ := h.known p hp
    obtain ⟨clock, hmsg⟩ := hrecv
    have houts := ((net.state p.dst).node.onMessage_update clock p.src p.msg hk hmsg).2
    have hsame := FlowNode.sameHost_of_onMessage hmsg
    -- everything sent is the message itself, to a peer
    have hsent : ∀ o ∈ outs, o.1 ∈ (net.state p.dst).node.peers ∧ o.2 = p.msg := by
      intro o ho
      rw [houts] at ho
      split at ho
      · obtain ⟨h1, -, -, h2⟩ := FlowNode.mem_gossip.mp ho
        exact ⟨h1, h2⟩
      · cases ho
    refine ⟨?_, fun q hq => ?_, ?_⟩
    · exact h.hosted.act (h.hosted.ends p hp).2 (fun q hq => mem_of_mem_rest hf hq) hsame
        fun o ho => (hsent o ho).1
    · rcases Net.mem_act.mp hq with hq | ⟨o, ho, rfl⟩
      · exact h.known q (mem_of_mem_rest hf hq)
      · exact ⟨key, hmem, by rw [(hsent o ho).2]; exact hk⟩
    · exact Net.act_forall (fun _ s => LogInv s) ((h.logs p.dst).recv hk ⟨clock, hmsg⟩ hlog) h.logs

/-- **Bounded gossip.**  From any epoch maps and any updates in flight, in any order of
delivery: accepted epochs grow, at most one message per triple and directed peer link is
forwarded, and the run is no longer than these and the messages it starts with. -/
theorem gossip_bounded (g : PeerGraph) {init net : Net NodeId (Logged γ δ) ControlMessage}
    (hhosted : Hosted g Logged.node init)
    (hupdates : ∀ p ∈ init.flight, p.msg.updateKey.isSome)
    (hlogs : ∀ v, (init.state v).accepted = []) {trace : List (Event NodeId ControlMessage Empty)}
    (hrun : Run gossipLoops init trace net) :
    (∀ v, Increasing (net.state v).accepted) ∧
    sends trace ≤ (keysInFlight init).card * g.linkCount ∧
    trace.length ≤ init.flight.length + (keysInFlight init).card * g.linkCount := by
  have hinit : GossipInv g (keysInFlight init) init := by
    refine ⟨hhosted, fun p hp => ?_, fun v => ⟨?_, ?_⟩⟩
    · obtain ⟨key, hkey⟩ := Option.isSome_iff_exists.mp (hupdates p hp)
      refine ⟨key, ?_, hkey⟩
      unfold keysInFlight
      rw [List.mem_toFinset, List.mem_filterMap]
      exact ⟨p, hp, hkey⟩
    · rw [hlogs v]
      exact List.Pairwise.nil
    · rw [hlogs v]
      intro key hkey
      cases hkey
  obtain ⟨hI, hsum⟩ := hrun.sends_le g.nodes
    (fun v s => budget (keysInFlight init) (g.peers v).length s.node)
    (GossipInv g (keysInFlight init)) hinit (fun _ _ _ h hs => h.step hs)
    (fun net p s outs h hp hr => by
      obtain ⟨key, hmem, hk⟩ := h.known p hp
      have hd := (h.hosted.ends p hp).2
      refine ⟨hd, ?_⟩
      rw [← h.hosted.peers p.dst hd]
      exact accept_pays hmem hk hr.1)
  have hbudget : ∑ v ∈ g.nodes, budget (keysInFlight init) (g.peers v).length (init.state v).node ≤
      (keysInFlight init).card * g.linkCount := by
    unfold PeerGraph.linkCount
    rw [Finset.mul_sum]
    refine Finset.sum_le_sum fun v _ => ?_
    unfold budget
    rw [Nat.mul_comm]
    exact Nat.mul_le_mul_right _ (Finset.card_filter_le _ _)
  have hlen := hrun.length_le
  exact ⟨fun v => (hI.logs v).increasing, by omega, by omega⟩

end

/-- `a` has sent `b` an update of `c`. -/
def pairGossip : Net NodeId (Logged VecGraph Unit) ControlMessage where
  state v := ⟨pairNode v, []⟩
  flight := [⟨"a", "b", .of (.subscriptionUpdate ⟨"c", [], 1⟩)⟩]

/-- `b` takes it in, and forwards it to nobody. -/
theorem pairGossip_bounded : ∃ net, ∃ p : Packet NodeId ControlMessage,
    Run gossipLoops pairGossip [.deliver p []] net ∧
    (∀ v, Increasing (net.state v).accepted) ∧
    sends [(Event.deliver p [] : Event NodeId ControlMessage Empty)] ≤
      (keysInFlight pairGossip).card * pairGraph.linkCount ∧
    [(Event.deliver p [] : Event NodeId ControlMessage Empty)].length ≤
      pairGossip.flight.length + (keysInFlight pairGossip).card * pairGraph.linkCount := by
  have hrun : Run gossipLoops pairGossip
      [.deliver ⟨"a", "b", .of (.subscriptionUpdate ⟨"c", [], 1⟩)⟩ []] _ :=
    Run.nil.deliver_head rfl
      ⟨((pairNode "b").onMessage ⟨0, 0⟩ "a" (.of (.subscriptionUpdate ⟨"c", [], 1⟩))).1,
        [⟨.subscription, "c", 1⟩]⟩ [] ⟨⟨⟨0, 0⟩, rfl⟩, rfl⟩
  exact ⟨_, _, hrun, gossip_bounded pairGraph ⟨by decide, by decide, by decide⟩ (by decide)
    (fun _ => rfl) hrun⟩

end Stric.Flow
