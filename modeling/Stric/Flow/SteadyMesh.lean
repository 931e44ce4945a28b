import Stric.Flow.Dispatch
import Stric.Flow.MeshRouting
import Stric.Flow.SessionClose
import Stric.Flow.Subscribe

/-!
# Subscriptions in a steady mesh

A mesh whose connections stay and whose nodes know its links.  Nodes subscribe; besides, sessions,
heartbeats and backpressure go on as they like, and messages arrive in any order.

    Run (steady g) init trace net

`subscribe` returns when its handler is in the table.  Its task waits for the lock, inserts the
pattern, reads the node's epoch and puts the announcement into the channel, and the control loop
gets to it later.  All of this is interleaved with everything else, at every node.  One order is
left out, since it loses subscriptions (`second_subscription_lost`): a task that reads the epoch
while an announcement of the same node is in the channel.

Then whoever does not know what a node has announced is about to be told (`Informed`), and once
every task has finished and no announcement is in flight, every node knows what every other node
has subscribed to (`SteadyInv.settled`).
-/

namespace Stric.Flow

open Stric.Pool Relation

/-- What a node does in a mesh whose connections stay. -/
inductive SteadyAct where
  | subscribe (pattern : String) (handler : Nat)
  /-- A task of `subscribe` gets the lock of `local_subscriptions`. -/
  | acquire
  | read
  | enqueue
  /-- The control loop gets to an announcement of its own node. -/
  | announce
  | other (a : MeshAct)

/-- The act makes and ends no connection and announces nothing, and a `Ping` goes to a peer. -/
def MeshAct.Steady (peers : List NodeId) : MeshAct → Prop
  | .ping peerId _ => peerId ∈ peers
  | .connect _ _ | .create _ _ _ _ _ | .join _ | .leave _ | .close _ _ | .sync _ _ _
  | .registerMergeFn _ _ | .collect _ | .sendBackpressure _ _ _ => True
  | _ => False

/-- The calls of `subscribe` at `w`, the latest first. -/
def subscribes (w : NodeId) (trace : List (Event NodeId ControlMessage SteadyAct)) :
    List (String × Nat) :=
  trace.filterMap fun e => match e with
    | .own v (.subscribe pattern handler) _ => if v = w then some (pattern, handler) else none
    | _ => none

/-- How many announcements of its own the control loop of `w` has got to. -/
def announces (w : NodeId) : List (Event NodeId ControlMessage SteadyAct) → Nat
  | [] => 0
  | .own v .announce _ :: trace => announces w trace + if v = w then 1 else 0
  | _ :: trace => announces w trace

theorem announces_le_length (w : NodeId) (trace : List (Event NodeId ControlMessage SteadyAct)) :
    announces w trace ≤ trace.length := by
  fun_induction announces w trace with
  | case1 => exact Nat.le_refl 0
  | case2 v outs trace ih =>
    rw [List.length_cons]
    split <;> omega
  | case3 e trace _ ih => exact ih.trans (Nat.le_succ _)

/-- A node with the tasks of its `subscribe` calls.  What peers send waits in flight, so of the
control loop's channel only the announcements of the node itself are kept here. -/
structure Subscriber (γ δ : Type) where
  node : FlowNode γ δ
  /-- The patterns of the tasks that have not got the lock yet. -/
  spawned : List String
  lock : Option TaskPhase
  /-- The announcements in the channel, the next first. -/
  queue : List SubscriptionUpdate

namespace Subscriber

variable {γ δ : Type}

def ofNode (n : FlowNode γ δ) : Subscriber γ δ := ⟨n, [], none, []⟩

/-- Every task has finished, and the control loop has got to every announcement. -/
def Idle (s : Subscriber γ δ) : Prop := s.spawned = [] ∧ s.lock = none ∧ s.queue = []

/-- The announcements that are built but not taken. -/
def pending (s : Subscriber γ δ) : List SubscriptionUpdate :=
  s.queue ++ match s.lock with
    | some (.built u) => [u]
    | _ => []

/-- The steps of a node.  The control loop's turn is one step: nobody else writes the epochs and
the graph, and it records the epoch before it first waits. -/
inductive Does [PetGraph γ] (s : Subscriber γ δ) : SteadyAct → Subscriber γ δ → List Send → Prop
  | subscribe (pattern : String) (handler : Nat) :
      Does s (.subscribe pattern handler)
        { s with
          node := { s.node with topicHandlers := s.node.topicHandlers.insert pattern handler }
          spawned := pattern :: s.spawned } []
  | acquire (l₁ l₂ : List String) (pattern : String) :
      s.lock = none → s.spawned = l₁ ++ pattern :: l₂ →
      Does s .acquire
        { s with
          node := { s.node with
            localSubscriptions := s.node.localSubscriptions.insert pattern }
          lock := some (.inserted pattern)
          spawned := l₁ ++ l₂ } []
  -- the condition on the channel is not the source's
  | read {pattern : String} : s.lock = some (.inserted pattern) → s.queue = [] →
      Does s .read { s with lock := some (.built s.node.subscribeUpdate) } []
  | enqueue {u : SubscriptionUpdate} : s.lock = some (.built u) →
      Does s .enqueue { s with queue := s.queue ++ [u], lock := none } []
  | announce {u : SubscriptionUpdate} {rest : List SubscriptionUpdate} {n' : FlowNode γ δ}
      {outs : List Send} : s.queue = u :: rest →
      receives s.node.nodeId (.of (.subscriptionUpdate u)) s.node n' outs →
      Does s .announce { s with node := n', queue := rest } outs
  | other {a : MeshAct} {n' : FlowNode γ δ} {outs : List Send} : a.Steady s.node.peers →
      s.node.does a = (n', outs) → Does s (.other a) { s with node := n' } outs

end Subscriber

def steady {γ δ : Type} [PetGraph γ] (g : PeerGraph) :
    Protocol NodeId (Subscriber γ δ) ControlMessage SteadyAct where
  recv _ sender msg s s' outs :=
    ∃ n', receives sender msg s.node n' outs ∧ s' = { s with node := n' }
  own v a s s' outs := v ∈ g.nodes ∧ s.Does a s' outs

/-! ## What is known of a node's subscriptions -/

section
variable {γ δ : Type}

/-- The epoch of `w` that the node records, 0 if there is none. -/
def knownEpoch (w : NodeId) (n : FlowNode γ δ) : Nat :=
  ((n.lastSubscriptionEpochs.lookup w).getD 0).toNat

/-- The epoch of an update of `w`. -/
def toldEpoch (w : NodeId) (msg : ControlMessage) : Nat :=
  match msg.message with
  | some (.subscriptionUpdate u) => if u.nodeId = w then u.epoch.toNat else 0
  | _ => 0

theorem toldEpoch_self {w : NodeId} {u : SubscriptionUpdate} (h : u.nodeId = w) :
    toldEpoch w (.of (.subscriptionUpdate u)) = u.epoch.toNat := if_pos h

/-- A message that is no update of `w`. -/
def Silent (w : NodeId) (msg : ControlMessage) : Prop :=
  ∀ u, msg = .of (.subscriptionUpdate u) → u.nodeId ≠ w

theorem toldEpoch_silent {w : NodeId} {msg : ControlMessage} (h : Silent w msg) :
    toldEpoch w msg = 0 := by
  obtain ⟨payload⟩ := msg
  cases payload with
  | none => rfl
  | some payload =>
    cases payload with
    | subscriptionUpdate u => exact if_neg (h u rfl)
    | _ => rfl

theorem silent_plain {w : NodeId} {msg : ControlMessage} (h : msg.Plain) : Silent w msg := by
  rintro u rfl
  exact h.elim

theorem silent_pong {w : NodeId} {pong : Pong} : Silent w (.of (.pong pong)) := by
  intro u hu
  cases hu

theorem knownEpoch_congr {w : NodeId} {n n' : FlowNode γ δ}
    (h : n'.lastSubscriptionEpochs.lookup w = n.lastSubscriptionEpochs.lookup w) :
    knownEpoch w n' = knownEpoch w n := by
  unfold knownEpoch
  rw [h]

theorem knownEpoch_eq {w : NodeId} {n : FlowNode γ δ} {e : UInt64}
    (h : n.lastSubscriptionEpochs.lookup w = some e) : knownEpoch w n = e.toNat := by
  unfold knownEpoch
  rw [h]
  rfl

theorem knownEpoch_le_of_recorded {w : NodeId} {n : FlowNode γ δ} {k : Nat}
    (h : recordedEpoch w n < (k : WithBot Nat)) : knownEpoch w n ≤ k := by
  unfold recordedEpoch at h
  cases hl : n.lastSubscriptionEpochs.lookup w with
  | none =>
    unfold knownEpoch
    rw [hl]
    exact Nat.zero_le k
  | some e =>
    rw [hl] at h
    rw [knownEpoch_eq hl]
    exact le_of_lt (WithBot.coe_lt_coe.mp h)

theorem le_knownEpoch_of_recorded {w : NodeId} {n : FlowNode γ δ} {k : Nat}
    (h : (k : WithBot Nat) ≤ recordedEpoch w n) : k ≤ knownEpoch w n := by
  unfold recordedEpoch at h
  cases hl : n.lastSubscriptionEpochs.lookup w with
  | none =>
    rw [hl] at h
    exact absurd h (by simp)
  | some e =>
    rw [hl] at h
    rw [knownEpoch_eq hl]
    exact WithBot.coe_le_coe.mp h

/-- What a message at a node means for `w`: news of it, which are passed on, or nothing. -/
inductive Hears (msg : ControlMessage) (w sender : NodeId) (n n' : FlowNode γ δ)
    (outs : List Send) : Prop
  | news (u : SubscriptionUpdate) : msg = .of (.subscriptionUpdate u) → u.nodeId = w →
      knownEpoch w n ≤ u.epoch.toNat → knownEpoch w n' = u.epoch.toNat →
      (∃ d, n'.graph.nodeMetadata.lookup w = some d ∧
        d.capabilities = FlowNode.subscriptionCapabilities u) →
      outs = n.gossip sender w msg → Hears msg w sender n n' outs
  | nothing : knownEpoch w n' = knownEpoch w n →
      n'.graph.nodeMetadata.lookup w = n.graph.nodeMetadata.lookup w →
      (∀ o ∈ outs, Silent w o.2) → Hears msg w sender n n' outs

theorem hears_subscription [PetGraph γ] (w : NodeId) {sender : NodeId} {u : SubscriptionUpdate}
    {n n' : FlowNode γ δ} {outs : List Send}
    (h : receives sender (.of (.subscriptionUpdate u)) n n' outs) :
    Hears (.of (.subscriptionUpdate u)) w sender n n' outs ∧
      toldEpoch w (.of (.subscriptionUpdate u)) ≤ knownEpoch w n' := by
  rcases receives_subscription w h with ⟨hu, hlt, hl, hd, rfl⟩ | ⟨hl, hm, hold, hout⟩
  · have hknown := knownEpoch_eq hl
    refine ⟨.news u rfl hu (knownEpoch_le_of_recorded hlt) hknown hd rfl, ?_⟩
    rw [toldEpoch_self hu, hknown]
  · have hknown := knownEpoch_congr hl
    refine ⟨.nothing hknown hm fun o ho x hx hxw => ?_, ?_⟩
    · rw [(hout o ho).2] at hx
      cases hx
      rw [(hold hxw).2] at ho
      cases ho
    · by_cases hu : u.nodeId = w
      · rw [toldEpoch_self hu, hknown]
        exact le_knownEpoch_of_recorded (hold hu).1
      · rw [toldEpoch_silent fun x hx => by cases hx; exact hu]
        exact Nat.zero_le _

theorem hears_nothing {msg : ControlMessage} {w sender : NodeId} {n n' : FlowNode γ δ}
    {outs : List Send} (hepochs : n'.lastSubscriptionEpochs = n.lastSubscriptionEpochs)
    (hmeta : n'.graph.nodeMetadata = n.graph.nodeMetadata) (houts : ∀ o ∈ outs, Silent w o.2) :
    Hears msg w sender n n' outs :=
  .nothing (knownEpoch_congr (by rw [hepochs])) (by rw [hmeta]) houts

/-- An update of a node that has announced `count` times, at last these patterns: if it is the
latest, it lists them. -/
structure Current (count : Nat) (patterns : String → Prop) (u : SubscriptionUpdate) : Prop where
  le : u.epoch.toNat ≤ count
  lists : 0 < count → u.epoch.toNat = count → ∀ pattern, u.Lists pattern ↔ patterns pattern

/-- Who knows the latest epoch of `w` knows what it has announced, and whoever does not is about to
be told. -/
structure Informed (g : PeerGraph) (w : NodeId) (count : Nat) (patterns : String → Prop)
    (net : Net NodeId (FlowNode γ δ) ControlMessage) : Prop where
  covered : Covered (knownEpoch w) (toldEpoch w) g.Link net
  below : ∀ v ∈ g.nodes, knownEpoch w (net.state v) ≤ count
  latest : knownEpoch w (net.state w) = count
  flight : ∀ p ∈ net.flight, ∀ u, p.msg = .of (.subscriptionUpdate u) → u.nodeId = w →
    Current count patterns u
  content : ∀ v ∈ g.nodes, 0 < count → knownEpoch w (net.state v) = count →
    ∃ d, (net.state v).graph.nodeMetadata.lookup w = some d ∧
      ∀ pattern, subKey pattern ∈ d.capabilities ↔ patterns pattern

section
variable {g : PeerGraph} {w v sender : NodeId} {count : Nat} {patterns : String → Prop}
  {net : Net NodeId (FlowNode γ δ) ControlMessage} {n' : FlowNode γ δ} {outs : List Send}
  {rest : List (Packet NodeId ControlMessage)}

/-- The two peers that are passed over know as much: the sender, and `w` itself. -/
theorem tells_of_hears {msg : ControlMessage} (hpeers : (net.state v).peers = g.peers v)
    (hears : Hears msg w sender (net.state v) n' outs)
    (hsender : sender ≠ v → toldEpoch w msg ≤ knownEpoch w (net.state sender))
    (hself : w ≠ v → toldEpoch w msg ≤ knownEpoch w (net.state w)) :
    Tells (knownEpoch w) (toldEpoch w) g.Link net.state v n' outs := by
  cases hears with
  | news u hmsg hu hle hknown _ houts =>
    have htold : knownEpoch w n' = toldEpoch w msg := by
      rw [hknown, hmsg, toldEpoch_self hu]
    refine ⟨hknown ▸ hle, fun o ho => ?_, fun t ht htv b _ htb hob => ?_⟩
    · rw [houts] at ho
      rw [(FlowNode.mem_gossip.mp ho).2.2.2, htold]
    · rw [htold]
      by_cases hts : t = sender
      · subst hts
        exact (hsender htv).trans htb
      by_cases htw : t = w
      · subst htw
        exact (hself htv).trans htb
      refine hob (t, msg) ?_ rfl
      rw [houts]
      refine FlowNode.mem_gossip.mpr ⟨?_, hts, htw, rfl⟩
      rw [hpeers]
      exact ht.2
  | nothing hknown _ houts =>
    refine ⟨le_of_eq hknown.symm, fun o ho => ?_, fun t _ _ b hb _ _ => hknown ▸ hb⟩
    rw [toldEpoch_silent (houts o ho)]
    exact Nat.zero_le _

/-- What a node knows after a step is in order again. -/
structure Abreast (w v : NodeId) (count : Nat) (patterns : String → Prop)
    (n : FlowNode γ δ) (outs : List Send) : Prop where
  below : knownEpoch w n ≤ count
  latest : v = w → knownEpoch w n = count
  sent : ∀ o ∈ outs, ∀ u, o.2 = .of (.subscriptionUpdate u) → u.nodeId = w →
    Current count patterns u
  content : 0 < count → knownEpoch w n = count → ∃ d, n.graph.nodeMetadata.lookup w = some d ∧
    ∀ pattern, subKey pattern ∈ d.capabilities ↔ patterns pattern

theorem abreast_of_news {msg : ControlMessage} {u : SubscriptionUpdate}
    (hcurrent : Current count patterns u) (hmsg : msg = .of (.subscriptionUpdate u))
    (hlatest : v = w → count ≤ u.epoch.toNat) (hknown : knownEpoch w n' = u.epoch.toNat)
    (hcaps : ∃ d, n'.graph.nodeMetadata.lookup w = some d ∧
      d.capabilities = FlowNode.subscriptionCapabilities u)
    (houts : ∀ o ∈ outs, o.2 = msg) : Abreast w v count patterns n' outs := by
  refine ⟨hknown ▸ hcurrent.le, fun hvw => ?_, fun o ho x hx _ => ?_, fun hpos hcount => ?_⟩
  · rw [hknown]
    exact Nat.le_antisymm hcurrent.le (hlatest hvw)
  · rw [houts o ho, hmsg] at hx
    cases hx
    exact hcurrent
  · obtain ⟨d, hd, hdcaps⟩ := hcaps
    refine ⟨d, hd, fun pattern => ?_⟩
    rw [hdcaps, subKey_mem_subscriptionCapabilities]
    exact hcurrent.lists hpos (hknown.symm.trans hcount) pattern

theorem Informed.abreast {msg : ControlMessage} (h : Informed g w count patterns net)
    (hv : v ∈ g.nodes) (hears : Hears msg w sender (net.state v) n' outs)
    (hcurrent : ∀ u, msg = .of (.subscriptionUpdate u) → u.nodeId = w → Current count patterns u) :
    Abreast w v count patterns n' outs := by
  cases hears with
  | news u hmsg hu hle hknown hcaps houts =>
    refine abreast_of_news (hcurrent u hmsg hu) hmsg (fun hvw => ?_) hknown hcaps fun o ho => ?_
    · subst hvw
      exact h.latest ▸ hle
    · rw [houts] at ho
      exact (FlowNode.mem_gossip.mp ho).2.2.2
  | nothing hknown hmeta houts =>
    refine ⟨hknown ▸ h.below v hv, fun hvw => ?_, fun o ho x hx hxw => ?_, fun hpos hcount => ?_⟩
    · subst hvw
      rw [hknown]
      exact h.latest
    · exact absurd hxw (houts o ho x hx)
    · rw [hmeta]
      exact h.content v hv hpos (hknown.symm.trans hcount)

theorem Informed.act (h : Informed g w count patterns net)
    (habreast : Abreast w v count patterns n' outs) (hrest : ∀ p ∈ rest, p ∈ net.flight)
    (hcovered : Covered (knownEpoch w) (toldEpoch w) g.Link (Net.act net.state rest v n' outs)) :
    Informed g w count patterns (Net.act net.state rest v n' outs) := by
  refine ⟨hcovered, ?_, ?_, fun p hp u hu huw => ?_, ?_⟩
  · exact Net.act_forall (fun v n => v ∈ g.nodes → knownEpoch w n ≤ count)
      (fun _ => habreast.below) h.below
  · exact Net.act_forall (fun v n => v = w → knownEpoch w n = count) habreast.latest
      (fun v hvw => hvw ▸ h.latest) w rfl
  · rcases Net.mem_act.mp hp with hp | ⟨o, ho, rfl⟩
    · exact h.flight p (hrest p hp) u hu huw
    · exact habreast.sent o ho u hu huw
  · exact Net.act_forall (fun v n => v ∈ g.nodes → 0 < count → knownEpoch w n = count →
      ∃ d, n.graph.nodeMetadata.lookup w = some d ∧
        ∀ pattern, subKey pattern ∈ d.capabilities ↔ patterns pattern)
      (fun _ => habreast.content) h.content

/-- A step at `v` that is no announcement of `w`: `v` takes a message in flight, or one that has
nothing to say about `w`. -/
theorem Informed.step {msg : ControlMessage} (h : Informed g w count patterns net)
    (hv : v ∈ g.nodes) (hpeers : (net.state v).peers = g.peers v)
    (hears : Hears msg w sender (net.state v) n' outs) (hrest : ∀ p ∈ rest, p ∈ net.flight)
    (htaken : ∀ p ∈ net.flight, p ∈ rest ∨ (p.dst = v ∧ toldEpoch w p.msg ≤ knownEpoch w n'))
    (hsource : (sender = v ∧ Silent w msg) ∨ ∃ p ∈ net.flight, p.src = sender ∧ p.msg = msg) :
    Informed g w count patterns (Net.act net.state rest v n' outs) := by
  have hcurrent : ∀ u, msg = .of (.subscriptionUpdate u) → u.nodeId = w →
      Current count patterns u := by
    intro u hu huw
    rcases hsource with ⟨-, hsilent⟩ | ⟨p, hp, -, hmsg⟩
    · exact absurd huw (hsilent u hu)
    · exact h.flight p hp u (hmsg.trans hu) huw
  have hsender : sender ≠ v → toldEpoch w msg ≤ knownEpoch w (net.state sender) := by
    intro hne
    rcases hsource with ⟨heq, -⟩ | ⟨p, hp, rfl, rfl⟩
    · exact absurd heq hne
    · exact h.covered.backed p hp
  have hself : toldEpoch w msg ≤ knownEpoch w (net.state w) := by
    rw [h.latest]
    by_cases hs : Silent w msg
    · rw [toldEpoch_silent hs]
      exact Nat.zero_le _
    · simp only [Silent, not_forall, not_not] at hs
      obtain ⟨u, hu, huw⟩ := hs
      have hle := (hcurrent u hu huw).le
      rw [hu, toldEpoch_self huw]
      exact hle
  refine h.act (h.abreast hv hears hcurrent) hrest ?_
  exact h.covered.act (tells_of_hears hpeers hears hsender fun _ => hself) hrest htaken

/-- As soon as `w` has taken its own announcement, everything else about it is old. -/
theorem Informed.renew (h : Informed g w count patterns net)
    {patterns' : String → Prop} (habreast : Abreast w w (count + 1) patterns' n' outs)
    (hcovered : Covered (knownEpoch w) (toldEpoch w) g.Link
      (Net.act net.state net.flight w n' outs)) :
    Informed g w (count + 1) patterns' (Net.act net.state net.flight w n' outs) := by
  have hold : ∀ {k : Nat}, k ≤ count → k = count + 1 → False := fun hle heq => by omega
  refine ⟨hcovered, ?_, ?_, fun p hp u hu huw => ?_, ?_⟩
  · exact Net.act_forall (fun v n => v ∈ g.nodes → knownEpoch w n ≤ count + 1)
      (fun _ => habreast.below) fun v hv => (h.below v hv).trans (Nat.le_succ count)
  · rw [Net.act_state_self]
    exact habreast.latest rfl
  · rcases Net.mem_act.mp hp with hp | ⟨o, ho, rfl⟩
    · have hle := (h.flight p hp u hu huw).le
      exact ⟨hle.trans (Nat.le_succ count), fun _ heq => (hold hle heq).elim⟩
    · exact habreast.sent o ho u hu huw
  · refine Net.act_forall (fun v n => v ∈ g.nodes → 0 < count + 1 → knownEpoch w n = count + 1 →
      ∃ d, n.graph.nodeMetadata.lookup w = some d ∧
        ∀ pattern, subKey pattern ∈ d.capabilities ↔ patterns' pattern)
      (fun _ => habreast.content) fun v hv _ heq => (hold (h.below v hv) heq).elim

end

/-! ## What a step leaves alone -/

variable [PetGraph γ]

/-- What nothing but `subscribe` itself changes in a steady mesh. -/
structure Undisturbed (n n' : FlowNode γ δ) : Prop where
  nodeId : n'.nodeId = n.nodeId
  peers : n'.peers = n.peers
  topicHandlers : n'.topicHandlers = n.topicHandlers
  localSubscriptions : n'.localSubscriptions = n.localSubscriptions
  reachable : n.graph.Reachable → n'.graph.Reachable
  grows : n.graph.WF → n.graph.Grows n'.graph

theorem undisturbed_subscription {sender : NodeId} {u : SubscriptionUpdate} {n n' : FlowNode γ δ}
    {outs : List Send} (h : receives sender (.of (.subscriptionUpdate u)) n n' outs) :
    Undisturbed n n' := by
  obtain ⟨clock, h⟩ := h
  obtain ⟨t, ⟨-, rfl, -⟩ | ⟨-, rfl, -⟩⟩ := FlowNode.onMessage_subscription clock n sender u h
  · exact ⟨rfl, rfl, rfl, rfl, fun hg => hg.addNode _, fun hg => .addNode hg _⟩
  · exact ⟨rfl, rfl, rfl, rfl, fun hg => hg, fun _ => .refl _⟩

theorem GlobalGraph.WF.linked_symm {g : GlobalGraph γ} (hg : g.WF) {a b : NodeId} {w : LinkWeight}
    (h : g.Linked a b w) : g.Linked b a w := by
  obtain ⟨i, j, hi, hj, he⟩ := h
  exact ⟨j, i, hj, hi, hg.symm _ he⟩

theorem FlowNode.linkExists_of_linked {n : FlowNode γ δ} {peer : NodeId} {w : LinkWeight}
    (h : n.graph.Linked n.nodeId peer w) : n.linkExists peer = true := by
  obtain ⟨i, j, hi, hj, he⟩ := h
  unfold FlowNode.linkExists
  rw [show n.graph.nodeIndices.lookup n.nodeId = some i from hi,
    show n.graph.nodeIndices.lookup peer = some j from hj]
  show (PetGraph.findEdge n.graph.graph i j).isSome = true
  cases hfound : PetGraph.findEdge n.graph.graph i j with
  | some k => rfl
  | none => exact absurd ⟨rfl, rfl⟩ ((PetGraph.findEdge_none _ _ _).mp hfound _ he)

/-- A `Pong` over a link that is known sets its weight and is not passed on. -/
theorem receives_pong_known {sender : NodeId} {pong : Pong} {n n' : FlowNode γ δ} {outs : List Send}
    (hlink : n.linkExists sender = true) (h : receives sender (.of (.pong pong)) n n' outs) :
    Undisturbed n n' ∧ n'.lastSubscriptionEpochs = n.lastSubscriptionEpochs ∧
      n'.graph.nodeMetadata = n.graph.nodeMetadata ∧ outs = [] := by
  obtain ⟨clock, h⟩ := h
  obtain ⟨t, link, ⟨-, rfl, rfl⟩ | ⟨hnew, -, -⟩⟩ := FlowNode.onMessage_pong clock n sender pong h
  · exact ⟨⟨rfl, rfl, rfl, rfl, fun hg => hg.addLink _, fun hg => .addLink hg _⟩, rfl,
      GlobalGraph.addLink_metadata _ _, rfl⟩
  · rw [hlink] at hnew
    cases hnew

/-- Neither a subscription update nor a topology update. -/
def ControlMessage.Minor (msg : ControlMessage) : Prop :=
  msg.Plain ∨ ∃ pong, msg = .of (.pong pong)

omit [PetGraph γ] in
theorem ControlMessage.Minor.silent {w : NodeId} {msg : ControlMessage} (h : msg.Minor) :
    Silent w msg := by
  rcases h with h | ⟨pong, rfl⟩
  · exact silent_plain h
  · exact silent_pong

theorem receives_plain {sender : NodeId} {msg : ControlMessage} {n n' : FlowNode γ δ}
    {outs : List Send} (hp : msg.Plain) (h : receives sender msg n n' outs) :
    Undisturbed n n' ∧ n'.lastSubscriptionEpochs = n.lastSubscriptionEpochs ∧
      n'.graph.nodeMetadata = n.graph.nodeMetadata ∧
      ∀ o ∈ outs, o.1 ∈ n.peers ∧ o.2.Minor := by
  obtain ⟨clock, h⟩ := h
  have hpeers := (FlowNode.onMessage_effect h).2
  obtain ⟨⟨sessions, limiters, t, rfl⟩, hminor⟩ := FlowNode.onMessage_plain clock n sender hp h
  refine ⟨⟨rfl, rfl, rfl, rfl, fun hg => hg, fun _ => .refl _⟩, rfl, rfl,
    fun o ho => ⟨(hpeers o ho).1, ?_⟩⟩
  rcases hminor o ho with hpong | ⟨m, hm⟩
  · exact Or.inr hpong
  · rw [hm]
    exact Or.inl trivial

/-- What goes on besides. -/
theorem does_steady {a : MeshAct} {n n' : FlowNode γ δ} {outs : List Send}
    (ha : a.Steady n.peers) (h : n.does a = (n', outs)) :
    Undisturbed n n' ∧ n'.lastSubscriptionEpochs = n.lastSubscriptionEpochs ∧
      n'.graph.nodeMetadata = n.graph.nodeMetadata ∧
      ∀ o ∈ outs, (o.1 ∈ n.peers ∨ o.1 = n.nodeId) ∧ o.2.Plain := by
  have hsame : ∀ sessions mergeFns pending, Undisturbed n
      { n with sessions := sessions, mergeFns := mergeFns, pendingConnects := pending } :=
    fun _ _ _ => ⟨rfl, rfl, rfl, rfl, fun hg => hg, fun _ => .refl _⟩
  have hnil : ∀ o ∈ ([] : List Send), (o.1 ∈ n.peers ∨ o.1 = n.nodeId) ∧ o.2.Plain :=
    fun o ho => absurd ho List.not_mem_nil
  have hall : ∀ (k : FlowNode γ δ) (msg : ControlMessage), k.peers = n.peers → msg.Plain →
      ∀ o ∈ k.broadcast msg, (o.1 ∈ n.peers ∨ o.1 = n.nodeId) ∧ o.2.Plain := by
    intro k msg hk hm o ho
    obtain ⟨hpeer, hmsg⟩ := FlowNode.mem_broadcast.mp ho
    rw [hk] at hpeer
    rw [hmsg]
    exact ⟨Or.inl hpeer, hm⟩
  cases a with
  | connect addr serverName =>
    cases h
    exact ⟨hsame _ _ _, rfl, rfl, hnil⟩
  | registerMergeFn sid mergeFn =>
    cases h
    exact ⟨hsame _ _ _, rfl, rfl, hnil⟩
  | ping peerId sentAt =>
    cases h
    refine ⟨hsame _ _ _, rfl, rfl, fun o ho => ?_⟩
    rw [List.mem_singleton.mp ho]
    exact ⟨Or.inl ha, trivial⟩
  | create clock sentClock sid flowIds metadata =>
    cases h
    exact ⟨hsame _ _ _, rfl, rfl, hall _ _ rfl trivial⟩
  | join sid | leave sid | sendBackpressure flowId action maxRate =>
    cases h
    exact ⟨hsame _ _ _, rfl, rfl, hall _ _ rfl trivial⟩
  | close sid reason =>
    change ((n.closeSession sid reason).1, (n.closeSession sid reason).2.1) = _ at h
    unfold FlowNode.closeSession at h
    split at h
    · cases h
      exact ⟨hsame _ _ _, rfl, rfl, hnil⟩
    · cases h
      exact ⟨hsame _ _ _, rfl, rfl, hall _ _ rfl trivial⟩
  | sync clock sid data =>
    change ((n.syncSessionState clock sid data).1, (n.syncSessionState clock sid data).2.1) = _ at h
    unfold FlowNode.syncSessionState at h
    split at h
    · cases h
      exact ⟨hsame _ _ _, rfl, rfl, hnil⟩
    · simp only at h
      split at h
      · cases h
        exact ⟨hsame _ _ _, rfl, rfl, hnil⟩
      · cases h
        exact ⟨hsame _ _ _, rfl, rfl, hall _ _ rfl trivial⟩
  | collect now =>
    cases h
    refine ⟨hsame _ _ _, rfl, rfl, fun o ho => ?_⟩
    obtain ⟨sid, -, rfl⟩ := List.mem_map.mp ho
    exact ⟨Or.inr rfl, trivial⟩
  | _ => exact ha.elim

end

/-! ## The mesh -/

section
variable {γ δ : Type} [PetGraph γ]

/-- What travels in a steady mesh: between nodes, and a `Pong` over a link. -/
structure Travels (g : PeerGraph) (p : Packet NodeId ControlMessage) : Prop where
  src : p.src ∈ g.nodes
  dst : p.dst ∈ g.nodes
  kind : (∃ u, p.msg = .of (.subscriptionUpdate u)) ∨ p.msg.Plain ∨
    ((∃ pong, p.msg = .of (.pong pong)) ∧ g.Link p.src p.dst)

/-- A node of the mesh that knows the links, and whose application has made these calls. -/
structure SteadyNode (g : PeerGraph) (v : NodeId) (calls : List (String × Nat))
    (n : FlowNode γ δ) : Prop where
  id : n.nodeId = v
  peers : n.peers = g.peers v
  reachable : n.graph.Reachable
  links : ∀ a b, g.Link a b → ∃ w, n.graph.Linked a b w
  handlers : ∀ pattern, n.topicHandlers.lookup pattern = calls.lookup pattern

section
variable {g : PeerGraph} {v : NodeId} {calls : List (String × Nat)} {n n' : FlowNode γ δ}

theorem SteadyNode.undisturbed (h : SteadyNode g v calls n) (hu : Undisturbed n n') :
    SteadyNode g v calls n' := by
  refine ⟨hu.nodeId.trans h.id, hu.peers.trans h.peers, hu.reachable h.reachable,
    fun a b hl => ?_, fun pattern => ?_⟩
  · exact (hu.grows (GlobalGraph.reachable_wf h.reachable)).links a b (h.links a b hl)
  · rw [hu.topicHandlers]
    exact h.handlers pattern

theorem SteadyNode.subscribe (h : SteadyNode g v calls n) (pattern : String) (handler : Nat) :
    SteadyNode g v ((pattern, handler) :: calls)
      { n with topicHandlers := n.topicHandlers.insert pattern handler } := by
  refine ⟨h.id, h.peers, h.reachable, h.links, fun p => ?_⟩
  show (n.topicHandlers.insert pattern handler).lookup p = _
  rw [List.lookup_cons]
  by_cases hp : p = pattern
  · subst hp
    rw [AList.lookup_insert, beq_self_eq_true]
  · rw [AList.lookup_insert_ne hp, beq_false_of_ne hp]
    exact h.handlers p

/-- What a message of a steady mesh does to a node of it. -/
theorem SteadyNode.receives (h : SteadyNode g v calls n) {p : Packet NodeId ControlMessage}
    {outs : List Send} (hp : Travels g p) (hdst : p.dst = v)
    (hr : Stric.Flow.receives p.src p.msg n n' outs) :
    Undisturbed n n' ∧ (∀ o ∈ outs, Travels g ⟨v, o.1, o.2⟩) ∧
      ∀ w, Hears p.msg w p.src n n' outs ∧ toldEpoch w p.msg ≤ knownEpoch w n' := by
  subst hdst
  have hto : ∀ {t}, t ∈ n.peers → g.Link p.dst t := fun ht => ⟨hp.dst, h.peers ▸ ht⟩
  have hsilent : ∀ {w}, Silent w p.msg → toldEpoch w p.msg ≤ knownEpoch w n' := fun hs => by
    rw [toldEpoch_silent hs]
    exact Nat.zero_le _
  rcases hp.kind with ⟨u, hu⟩ | hplain | ⟨⟨pong, hpong⟩, hlink⟩
  · have hpeers : ∀ o ∈ outs, o.1 ∈ n.peers ∧ o.2 = .of (.subscriptionUpdate u) := by
      rw [hu] at hr
      rcases receives_subscription p.dst hr with ⟨-, -, -, -, rfl⟩ | ⟨-, -, -, hout⟩
      · intro o ho
        obtain ⟨h1, -, -, h2⟩ := FlowNode.mem_gossip.mp ho
        exact ⟨h1, h2⟩
      · exact hout
    refine ⟨undisturbed_subscription (hu ▸ hr), fun o ho => ?_, fun w => ?_⟩
    · exact ⟨hp.dst, (hto (hpeers o ho).1).right, Or.inl ⟨u, (hpeers o ho).2⟩⟩
    · rw [hu] at hr ⊢
      exact hears_subscription w hr
  · obtain ⟨hundisturbed, hepochs, hmeta, hout⟩ := receives_plain hplain hr
    refine ⟨hundisturbed, fun o ho => ?_, fun w => ⟨?_, hsilent (silent_plain hplain)⟩⟩
    · obtain ⟨hpeer, hminor⟩ := hout o ho
      refine ⟨hp.dst, (hto hpeer).right, Or.inr ?_⟩
      exact hminor.imp_right fun hpong => ⟨hpong, hto hpeer⟩
    · exact hears_nothing hepochs hmeta fun o ho => (hout o ho).2.silent
  · -- the link that the `Pong` crosses is known
    obtain ⟨w, hw⟩ := h.links _ _ hlink
    have hknown := (GlobalGraph.reachable_wf h.reachable).linked_symm hw
    rw [← h.id] at hknown
    obtain ⟨hundisturbed, hepochs, hmeta, rfl⟩ :=
      receives_pong_known (FlowNode.linkExists_of_linked hknown) (hpong ▸ hr)
    refine ⟨hundisturbed, fun o ho => absurd ho List.not_mem_nil,
      fun w => ⟨?_, hsilent (hpong ▸ silent_pong)⟩⟩
    exact hears_nothing hepochs hmeta fun o ho => absurd ho List.not_mem_nil

end

/-! ### The tasks of a node -/

/-- A node that has announced `count` times, at last these patterns. -/
structure Tasked (count : Nat) (patterns : String → Prop) (s : Subscriber γ δ) : Prop where
  known : ∀ pattern, pattern ∈ s.node.topicHandlers ↔
    pattern ∈ s.spawned ∨ pattern ∈ s.node.localSubscriptions
  single : s.pending.length ≤ 1
  fresh : ∀ u ∈ s.pending, u.nodeId = s.node.nodeId ∧ u.epoch.toNat = count + 1
  told : ∀ pattern ∈ s.node.localSubscriptions, s.lock = some (.inserted pattern) ∨
    (∃ u ∈ s.pending, u.Lists pattern) ∨ (s.pending = [] ∧ patterns pattern)
  announced : ∀ pattern, patterns pattern → 0 < count

section
variable {count : Nat} {patterns : String → Prop} {s : Subscriber γ δ}

omit [PetGraph γ] in
theorem lists_subscribe_iff (n : FlowNode γ δ) (pattern : String) :
    n.subscribeUpdate.Lists pattern ↔ pattern ∈ n.localSubscriptions := by
  constructor
  · rintro ⟨entry, he, -, rfl⟩
    obtain ⟨p, hp, rfl⟩ := List.mem_map.mp he
    exact hp
  · exact fun hp => ⟨_, List.mem_map.mpr ⟨pattern, hp, rfl⟩, rfl, rfl⟩

omit [PetGraph γ] in
theorem epoch_subscribeUpdate (n : FlowNode γ δ) (h : knownEpoch n.nodeId n + 1 < 2 ^ 64) :
    n.subscribeUpdate.epoch.toNat = knownEpoch n.nodeId n + 1 := by
  unfold knownEpoch at h ⊢
  show ((n.lastSubscriptionEpochs.lookup n.nodeId).getD 0 + 1).toNat = _
  rw [UInt64.toNat_add]
  exact Nat.mod_eq_of_lt h

omit [PetGraph γ] in
theorem Subscriber.pending_inserted {pattern : String} (hlock : s.lock = some (.inserted pattern)) :
    s.pending = s.queue := by
  unfold Subscriber.pending
  rw [hlock]
  exact List.append_nil _

omit [PetGraph γ] in
theorem Subscriber.pending_none (hlock : s.lock = none) : s.pending = s.queue := by
  unfold Subscriber.pending
  rw [hlock]
  exact List.append_nil _

omit [PetGraph γ] in
theorem Subscriber.pending_built {u : SubscriptionUpdate} (hlock : s.lock = some (.built u)) :
    s.pending = s.queue ++ [u] := by
  unfold Subscriber.pending
  rw [hlock]

theorem Tasked.undisturbed (h : Tasked count patterns s) {n' : FlowNode γ δ}
    (hu : Undisturbed s.node n') : Tasked count patterns { s with node := n' } := by
  refine ⟨fun pattern => ?_, h.single, fun u hp => ?_, fun pattern hp => ?_, h.announced⟩
  · show pattern ∈ n'.topicHandlers ↔ _ ∨ pattern ∈ n'.localSubscriptions
    rw [hu.topicHandlers, hu.localSubscriptions]
    exact h.known pattern
  · show u.nodeId = n'.nodeId ∧ _
    rw [hu.nodeId]
    exact h.fresh u hp
  · change pattern ∈ n'.localSubscriptions at hp
    rw [hu.localSubscriptions] at hp
    exact h.told pattern hp

omit [PetGraph γ] in
theorem Tasked.subscribe (h : Tasked count patterns s) (pattern : String) (handler : Nat) :
    Tasked count patterns
      { s with
        node := { s.node with topicHandlers := s.node.topicHandlers.insert pattern handler }
        spawned := pattern :: s.spawned } := by
  refine ⟨fun p => ?_, h.single, h.fresh, h.told, h.announced⟩
  show p ∈ s.node.topicHandlers.insert pattern handler ↔ p ∈ pattern :: s.spawned ∨ _
  rw [AList.mem_insert, h.known, List.mem_cons, or_assoc]

omit [PetGraph γ] in
theorem Tasked.acquire (h : Tasked count patterns s) {l₁ l₂ : List String} {pattern : String}
    (hlock : s.lock = none) (hspawned : s.spawned = l₁ ++ pattern :: l₂) :
    Tasked count patterns
      { s with
        node := { s.node with localSubscriptions := s.node.localSubscriptions.insert pattern }
        lock := some (.inserted pattern)
        spawned := l₁ ++ l₂ } := by
  have hsingle := h.single
  have hfresh := h.fresh
  rw [Subscriber.pending_none hlock] at hsingle hfresh
  refine ⟨fun p => ?_, ?_, fun u hu => ?_, fun p hp => ?_, h.announced⟩
  · show p ∈ s.node.topicHandlers ↔
      p ∈ l₁ ++ l₂ ∨ p ∈ s.node.localSubscriptions.insert pattern
    rw [h.known, hspawned, List.mem_insert_iff, List.mem_append, List.mem_append, List.mem_cons]
    tauto
  · rw [Subscriber.pending_inserted rfl]
    exact hsingle
  · rw [Subscriber.pending_inserted rfl] at hu
    exact hfresh u hu
  · rw [Subscriber.pending_inserted rfl]
    rcases List.mem_insert_iff.mp hp with rfl | hp
    · exact Or.inl rfl
    · rcases h.told p hp with hheld | hwaits
      · rw [hlock] at hheld
        cases hheld
      · rw [Subscriber.pending_none hlock] at hwaits
        exact Or.inr hwaits

omit [PetGraph γ] in
/-- What is built lists every local pattern, and has the next epoch. -/
theorem Tasked.read (h : Tasked count patterns s) (hqueue : s.queue = [])
    (hknown : knownEpoch s.node.nodeId s.node = count) (hcount : count + 1 < 2 ^ 64) :
    Tasked count patterns { s with lock := some (.built s.node.subscribeUpdate) } := by
  have hpending : Subscriber.pending { s with lock := some (.built s.node.subscribeUpdate) } =
      [s.node.subscribeUpdate] := by
    rw [Subscriber.pending_built rfl]
    show s.queue ++ _ = _
    rw [hqueue]
    rfl
  refine ⟨h.known, ?_, fun u hu => ?_, fun p hp => ?_, h.announced⟩
  · rw [hpending]
    exact Nat.le_refl 1
  · rw [hpending] at hu
    rw [List.mem_singleton.mp hu]
    refine ⟨rfl, ?_⟩
    rw [epoch_subscribeUpdate s.node (by rw [hknown]; exact hcount), hknown]
  · refine Or.inr (Or.inl ⟨s.node.subscribeUpdate, ?_, (lists_subscribe_iff s.node p).mpr hp⟩)
    rw [hpending]
    exact List.mem_singleton_self _

omit [PetGraph γ] in
theorem Tasked.enqueue (h : Tasked count patterns s) {u : SubscriptionUpdate}
    (hlock : s.lock = some (.built u)) :
    Tasked count patterns { s with queue := s.queue ++ [u], lock := none } := by
  have hpending : Subscriber.pending { s with queue := s.queue ++ [u], lock := none } =
      s.pending := by
    rw [Subscriber.pending_none rfl, Subscriber.pending_built hlock]
  refine ⟨h.known, ?_, fun x hx => ?_, fun p hp => ?_, h.announced⟩
  · rw [hpending]
    exact h.single
  · rw [hpending] at hx
    exact h.fresh x hx
  · rw [hpending]
    rcases h.told p hp with hheld | hwaits
    · rw [hlock] at hheld
      cases hheld
    · exact Or.inr hwaits

/-- The announcement that is taken is the only one. -/
theorem Tasked.announce (h : Tasked count patterns s) {u : SubscriptionUpdate}
    {rest : List SubscriptionUpdate} (hqueue : s.queue = u :: rest) {n' : FlowNode γ δ}
    (hu : Undisturbed s.node n') :
    Tasked (count + 1) u.Lists { s with node := n', queue := rest } := by
  have hsingle := h.single
  have hpending : s.pending = u :: Subscriber.pending { s with node := n', queue := rest } := by
    unfold Subscriber.pending
    rw [hqueue]
    rfl
  have hnil : Subscriber.pending { s with node := n', queue := rest } = [] := by
    rw [hpending, List.length_cons] at hsingle
    exact List.length_eq_zero_iff.mp (by omega)
  refine ⟨fun p => ?_, ?_, fun x hx => ?_, fun p hp => ?_, fun _ _ => Nat.succ_pos count⟩
  · show p ∈ n'.topicHandlers ↔ _ ∨ p ∈ n'.localSubscriptions
    rw [hu.topicHandlers, hu.localSubscriptions]
    exact h.known p
  · rw [hnil]
    exact Nat.zero_le 1
  · rw [hnil] at hx
    cases hx
  · change p ∈ n'.localSubscriptions at hp
    rw [hu.localSubscriptions] at hp
    rcases h.told p hp with hheld | ⟨x, hx, hlists⟩ | ⟨hnone, -⟩
    · exact Or.inl hheld
    · rw [hpending, hnil] at hx
      rw [List.mem_singleton.mp hx] at hlists
      exact Or.inr (Or.inr ⟨hnil, hlists⟩)
    · rw [hpending] at hnone
      cases hnone

end

/-! ### The run -/

/-- A steady mesh: every node knows the links and is about to know what the others have
announced. -/
structure SteadyInv (g : PeerGraph) (trace : List (Event NodeId ControlMessage SteadyAct))
    (net : Net NodeId (Subscriber γ δ) ControlMessage) : Prop where
  nodes : ∀ v ∈ g.nodes, SteadyNode g v (subscribes v trace) (net.state v).node
  travels : ∀ p ∈ net.flight, Travels g p
  informed : ∀ w ∈ g.nodes, ∃ patterns, Tasked (announces w trace) patterns (net.state w) ∧
    Informed g w (announces w trace) patterns (net.map Subscriber.node)

section
variable {g : PeerGraph} {trace trace' : List (Event NodeId ControlMessage SteadyAct)}
  {net : Net NodeId (Subscriber γ δ) ControlMessage} {v sender : NodeId} {s' : Subscriber γ δ}
  {n' : FlowNode γ δ} {outs : List Send} {rest : List (Packet NodeId ControlMessage)}
  {msg : ControlMessage}

/-- A step at `v` that is no announcement. -/
theorem SteadyInv.act (h : SteadyInv g trace net) (hv : v ∈ g.nodes)
    (hcount : ∀ w, announces w trace' = announces w trace)
    (hsubs : ∀ w, w ≠ v → subscribes w trace' = subscribes w trace)
    (hnode : SteadyNode g v (subscribes v trace') s'.node)
    (htasked : ∀ patterns, Tasked (announces v trace) patterns (net.state v) →
      knownEpoch v (net.state v).node = announces v trace →
      Tasked (announces v trace) patterns s')
    (htravels : ∀ o ∈ outs, Travels g ⟨v, o.1, o.2⟩) (hrest : ∀ p ∈ rest, p ∈ net.flight)
    (hears : ∀ w, Hears msg w sender (net.state v).node s'.node outs)
    (htaken : ∀ w, ∀ p ∈ net.flight,
      p ∈ rest ∨ (p.dst = v ∧ toldEpoch w p.msg ≤ knownEpoch w s'.node))
    (hsource : (sender = v ∧ ∀ w, Silent w msg) ∨ ∃ p ∈ net.flight, p.src = sender ∧ p.msg = msg) :
    SteadyInv g trace' (Net.act net.state rest v s' outs) := by
  refine ⟨fun w hw => ?_, fun p hp => ?_, fun w hw => ?_⟩
  · by_cases hwv : w = v
    · subst hwv
      rw [Net.act_state_self]
      exact hnode
    · rw [Net.act_state_ne hwv, hsubs w hwv]
      exact h.nodes w hw
  · rcases Net.mem_act.mp hp with hp | ⟨o, ho, rfl⟩
    · exact h.travels p (hrest p hp)
    · exact htravels o ho
  · obtain ⟨patterns, htask, hinformed⟩ := h.informed w hw
    rw [hcount, Net.map_act]
    refine ⟨patterns, ?_, ?_⟩
    · by_cases hwv : w = v
      · subst hwv
        rw [Net.act_state_self]
        exact htasked patterns htask hinformed.latest
      · rw [Net.act_state_ne hwv]
        exact htask
    · exact hinformed.step hv (h.nodes v hv).peers (hears w) hrest (htaken w)
        (hsource.imp_left fun hs => ⟨hs.1, hs.2 w⟩)

theorem SteadyInv.deliver (h : SteadyInv g trace net) {l₁ l₂ : List (Packet NodeId ControlMessage)}
    {p : Packet NodeId ControlMessage} (hf : net.flight = l₁ ++ p :: l₂)
    (hr : receives p.src p.msg (net.state p.dst).node n' outs) :
    SteadyInv g (.deliver p outs :: trace)
      (Net.act net.state (l₁ ++ l₂) p.dst { net.state p.dst with node := n' } outs) := by
  have hp : p ∈ net.flight := by
    rw [hf]
    exact List.mem_append_right _ List.mem_cons_self
  have htravels := h.travels p hp
  have hnode := h.nodes p.dst htravels.dst
  obtain ⟨hundisturbed, houts, hears⟩ := hnode.receives htravels rfl hr
  refine h.act htravels.dst (fun w => rfl) (fun w _ => rfl) (hnode.undisturbed hundisturbed)
    (fun _ htask _ => htask.undisturbed hundisturbed) houts
    (fun q hq => mem_of_mem_rest hf hq) (fun w => (hears w).1) (fun w q hq => ?_)
    (Or.inr ⟨p, hp, rfl, rfl⟩)
  rw [hf] at hq
  rcases List.mem_append.mp hq with hq | hq
  · exact Or.inl (List.mem_append_left _ hq)
  · rcases List.mem_cons.mp hq with rfl | hq
    · exact Or.inr ⟨rfl, (hears w).2⟩
    · exact Or.inl (List.mem_append_right _ hq)

/-- A step of `v` on its own that tells nothing about subscriptions. -/
theorem SteadyInv.own (h : SteadyInv g trace net) (hv : v ∈ g.nodes)
    (hcount : ∀ w, announces w trace' = announces w trace)
    (hsubs : ∀ w, w ≠ v → subscribes w trace' = subscribes w trace)
    (hnode : SteadyNode g v (subscribes v trace') s'.node)
    (htasked : ∀ patterns, Tasked (announces v trace) patterns (net.state v) →
      knownEpoch v (net.state v).node = announces v trace →
      Tasked (announces v trace) patterns s')
    (hepochs : s'.node.lastSubscriptionEpochs = (net.state v).node.lastSubscriptionEpochs)
    (hmeta : s'.node.graph.nodeMetadata = (net.state v).node.graph.nodeMetadata)
    (houts : ∀ o ∈ outs, Travels g ⟨v, o.1, o.2⟩ ∧ o.2.Plain) :
    SteadyInv g trace' (Net.act net.state net.flight v s' outs) := by
  have hears : ∀ w, Hears ⟨none⟩ w v (net.state v).node s'.node outs := fun w =>
    hears_nothing hepochs hmeta fun o ho => silent_plain (houts o ho).2
  exact h.act hv hcount hsubs hnode htasked (fun o ho => (houts o ho).1) (fun _ hp => hp) hears
    (fun _ _ hp => Or.inl hp) (Or.inl ⟨rfl, fun _ u hu => by cases hu⟩)

theorem SteadyInv.other (h : SteadyInv g trace net) (hv : v ∈ g.nodes) {a : MeshAct}
    (ha : a.Steady (net.state v).node.peers) (hr : (net.state v).node.does a = (n', outs)) :
    SteadyInv g (.own v (.other a) outs :: trace)
      (Net.act net.state net.flight v { net.state v with node := n' } outs) := by
  obtain ⟨hundisturbed, hepochs, hmeta, houts⟩ := does_steady ha hr
  have hnode := h.nodes v hv
  refine h.own hv (fun w => rfl) (fun w _ => rfl) (hnode.undisturbed hundisturbed)
    (fun _ htask _ => htask.undisturbed hundisturbed) hepochs hmeta fun o ho => ?_
  obtain ⟨hdst, hplain⟩ := houts o ho
  refine ⟨⟨hv, ?_, Or.inr (Or.inl hplain)⟩, hplain⟩
  rcases hdst with hpeer | hself
  · exact g.closed v hv o.1 (hnode.peers ▸ hpeer)
  · rw [show o.1 = v from hself.trans hnode.id]
    exact hv

/-- `v` itself, when it has taken its announcement. -/
theorem informed_announce {count : Nat} {patterns : String → Prop}
    {nodes : Net NodeId (FlowNode γ δ) ControlMessage} (h : Informed g v count patterns nodes)
    (hpeers : (nodes.state v).peers = g.peers v) {u : SubscriptionUpdate} (hu : u.nodeId = v)
    (hepoch : u.epoch.toNat = count + 1)
    (hr : receives v (.of (.subscriptionUpdate u)) (nodes.state v) n' outs) :
    Informed g v (count + 1) u.Lists (Net.act nodes.state nodes.flight v n' outs) := by
  obtain ⟨hears, htold⟩ := hears_subscription v hr
  rw [toldEpoch_self hu, hepoch] at htold
  have htells : Tells (knownEpoch v) (toldEpoch v) g.Link nodes.state v n' outs :=
    tells_of_hears hpeers hears (fun hne => absurd rfl hne) (fun hne => absurd rfl hne)
  refine h.renew ?_ (h.covered.own htells)
  cases hears with
  | nothing hsame _ _ =>
    -- the announcement is newer than all before it
    rw [hsame, h.latest] at htold
    omega
  | news x hmsg _ _ hnews hcaps houts =>
    cases hmsg
    refine abreast_of_news ⟨hepoch.le, fun _ _ _ => Iff.rfl⟩ rfl (fun _ => hepoch.ge) hnews hcaps
      fun o ho => ?_
    rw [houts] at ho
    exact (FlowNode.mem_gossip.mp ho).2.2.2

theorem announces_announce (w v : NodeId) (outs : List Send) :
    announces w (.own v .announce outs :: trace) = announces w trace + if v = w then 1 else 0 := rfl

theorem SteadyInv.announce (h : SteadyInv g trace net) (hv : v ∈ g.nodes) {u : SubscriptionUpdate}
    {queue : List SubscriptionUpdate} (hqueue : (net.state v).queue = u :: queue)
    (hr : receives (net.state v).node.nodeId (.of (.subscriptionUpdate u)) (net.state v).node n'
      outs) :
    SteadyInv g (.own v .announce outs :: trace)
      (Net.act net.state net.flight v { net.state v with node := n', queue := queue } outs) := by
  have hnode := h.nodes v hv
  have hundisturbed := undisturbed_subscription hr
  rw [hnode.id] at hr
  obtain ⟨patterns, htask, hinformed⟩ := h.informed v hv
  have hpending : u ∈ (net.state v).pending := by
    unfold Subscriber.pending
    rw [hqueue]
    exact List.mem_append_left _ List.mem_cons_self
  obtain ⟨huv, hepoch⟩ := htask.fresh u hpending
  rw [hnode.id] at huv
  have hpeers : ∀ o ∈ outs, o.1 ∈ g.peers v ∧ ∃ u, o.2 = .of (.subscriptionUpdate u) := by
    intro o ho
    rcases receives_subscription v hr with ⟨-, -, -, -, rfl⟩ | ⟨-, -, -, hout⟩
    · obtain ⟨hpeer, -, -, hmsg⟩ := FlowNode.mem_gossip.mp ho
      exact ⟨hnode.peers ▸ hpeer, _, hmsg⟩
    · exact ⟨hnode.peers ▸ (hout o ho).1, _, (hout o ho).2⟩
  refine ⟨?_, fun p hp => ?_, fun w hw => ?_⟩
  · exact Net.act_forall
      (fun w (s : Subscriber γ δ) => w ∈ g.nodes → SteadyNode g w (subscribes w trace) s.node)
      (fun _ => hnode.undisturbed hundisturbed) h.nodes
  · rcases Net.mem_act.mp hp with hp | ⟨o, ho, rfl⟩
    · exact h.travels p hp
    · exact ⟨hv, g.closed v hv o.1 (hpeers o ho).1, Or.inl (hpeers o ho).2⟩
  · rw [announces_announce, Net.map_act]
    by_cases hvw : v = w
    · subst hvw
      rw [if_pos rfl, Net.act_state_self]
      exact ⟨_, htask.announce hqueue hundisturbed,
        informed_announce hinformed hnode.peers huv hepoch hr⟩
    · -- it is no news of any other node
      rw [if_neg hvw, Net.act_state_ne (Ne.symm hvw)]
      obtain ⟨others, htasks, hothers⟩ := h.informed w hw
      refine ⟨others, htasks, ?_⟩
      refine hothers.step hv hnode.peers (hears_subscription w hr).1 (fun _ hp => hp)
        (fun _ hp => Or.inl hp) (Or.inl ⟨rfl, fun x hx hxw => ?_⟩)
      cases hx
      exact hvw (huv.symm.trans hxw)

theorem subscribes_subscribe (w v : NodeId) (pattern : String) (handler : Nat) (outs : List Send) :
    subscribes w (.own v (.subscribe pattern handler) outs :: trace) =
      if v = w then (pattern, handler) :: subscribes w trace else subscribes w trace := by
  unfold subscribes
  rw [List.filterMap_cons]
  by_cases hvw : v = w
  · simp only [if_pos hvw]
  · simp only [if_neg hvw]

theorem SteadyInv.does {a : SteadyAct} (h : SteadyInv g trace net) (hv : v ∈ g.nodes)
    (hlen : trace.length + 1 < 2 ^ 64) (hs : (net.state v).Does a s' outs) :
    SteadyInv g (.own v a outs :: trace) (Net.act net.state net.flight v s' outs) := by
  have hnode := h.nodes v hv
  have hnone : ∀ o ∈ ([] : List Send), Travels g ⟨v, o.1, o.2⟩ ∧ o.2.Plain :=
    fun o ho => absurd ho List.not_mem_nil
  cases hs with
  | subscribe pattern handler =>
    refine h.own hv (fun w => rfl) (fun w hwv => ?_) ?_
      (fun _ htask _ => htask.subscribe pattern handler) rfl rfl hnone
    · rw [subscribes_subscribe, if_neg (Ne.symm hwv)]
    · rw [subscribes_subscribe, if_pos rfl]
      exact hnode.subscribe pattern handler
  | acquire l₁ l₂ pattern hlock hspawned =>
    exact h.own hv (fun w => rfl) (fun w _ => rfl)
      ⟨hnode.id, hnode.peers, hnode.reachable, hnode.links, hnode.handlers⟩
      (fun _ htask _ => htask.acquire hlock hspawned) rfl rfl hnone
  | read _ hqueue =>
    refine h.own hv (fun w => rfl) (fun w _ => rfl) hnode
      (fun _ htask hknown => htask.read hqueue ?_ ?_) rfl rfl hnone
    · rw [hnode.id]
      exact hknown
    · have hle := announces_le_length v trace
      omega
  | enqueue hlock =>
    exact h.own hv (fun w => rfl) (fun w _ => rfl) hnode
      (fun _ htask _ => htask.enqueue hlock) rfl rfl hnone
  | announce hqueue hr => exact h.announce hv hqueue hr
  | other ha hr => exact h.other hv ha hr

/-- The mesh at first: nobody has subscribed, and what is known of subscriptions has epoch 0, as
the handshakes leave it. -/
structure SteadyStart (g : PeerGraph) (net : Net NodeId (FlowNode γ δ) ControlMessage) : Prop where
  nodes : ∀ v ∈ g.nodes, SteadyNode g v [] (net.state v)
  fresh : ∀ v ∈ g.nodes, (net.state v).localSubscriptions = []
  travels : ∀ p ∈ net.flight, Travels g p
  known : ∀ v ∈ g.nodes, ∀ w ∈ g.nodes, knownEpoch w (net.state v) = 0
  told : ∀ p ∈ net.flight, ∀ w ∈ g.nodes, toldEpoch w p.msg = 0

theorem SteadyStart.informed {init : Net NodeId (FlowNode γ δ) ControlMessage}
    (h : SteadyStart g init) {w : NodeId} (hw : w ∈ g.nodes) (patterns : String → Prop) :
    Informed g w 0 patterns init := by
  refine ⟨⟨fun p hp => ?_, fun u v hl b _ _ => ?_⟩, fun v hv => ?_, h.known w hw w hw,
    fun p hp u hu huw => ⟨?_, fun hpos => ?_⟩, fun v hv hpos => ?_⟩
  · rw [h.told p hp w hw]
    exact Nat.zero_le _
  · rw [h.known u hl.1 w hw]
    exact Nat.zero_le _
  · rw [h.known v hv w hw]
  · have htold := h.told p hp w hw
    rw [hu, toldEpoch_self huw] at htold
    exact htold.le
  · exact absurd hpos (Nat.lt_irrefl 0)
  · exact absurd hpos (Nat.lt_irrefl 0)

theorem SteadyStart.inv {init : Net NodeId (FlowNode γ δ) ControlMessage} (h : SteadyStart g init) :
    SteadyInv g [] (init.map Subscriber.ofNode) := by
  refine ⟨h.nodes, h.travels, fun w hw => ⟨fun _ => False, ⟨fun pattern => ?_, Nat.zero_le 1,
    fun u hu => absurd hu List.not_mem_nil, fun pattern hp => ?_, fun _ hp => hp.elim⟩,
    h.informed hw _⟩⟩
  · show pattern ∈ (init.state w).topicHandlers ↔
      pattern ∈ [] ∨ pattern ∈ (init.state w).localSubscriptions
    rw [← AList.lookup_isSome, (h.nodes w hw).handlers, h.fresh w hw]
    simp
  · change pattern ∈ (init.state w).localSubscriptions at hp
    rw [h.fresh w hw] at hp
    cases hp

theorem SteadyInv.step {e : Event NodeId ControlMessage SteadyAct}
    {net' : Net NodeId (Subscriber γ δ) ControlMessage} (h : SteadyInv g trace net)
    (hlen : (e :: trace).length < 2 ^ 64) (hs : Step (steady g) net e net') :
    SteadyInv g (e :: trace) net' := by
  cases hs with
  | deliver hf hr =>
    obtain ⟨n', hr, rfl⟩ := hr
    exact h.deliver hf hr
  | own hr => exact h.does hr.1 hlen hr.2

theorem SteadyInv.run {init : Net NodeId (FlowNode γ δ) ControlMessage}
    (hstart : SteadyStart g init)
    (hrun : Run (steady g) (init.map Subscriber.ofNode) trace net) (hlen : trace.length < 2 ^ 64) :
    SteadyInv g trace net :=
  hrun.invariant (fun trace => trace.length < 2 ^ 64) (SteadyInv g)
    (fun _ trace hlt => (Nat.lt_succ_self trace.length).trans hlt) hstart.inv
    (fun _ _ _ _ hlt h hs => h.step hlt hs) hlen

/-- Every task has finished, and no announcement is in flight. -/
structure AllAnnounced (g : PeerGraph) (net : Net NodeId (Subscriber γ δ) ControlMessage) :
    Prop where
  tasks : ∀ v ∈ g.nodes, (net.state v).Idle
  flight : ∀ p ∈ net.flight, ∀ u, p.msg ≠ .of (.subscriptionUpdate u)

theorem SteadyInv.subscribed (h : SteadyInv g trace net) (hquiet : AllAnnounced g net)
    (hv : v ∈ g.nodes) : (net.state v).node.Subscribed := by
  obtain ⟨patterns, htask, -⟩ := h.informed v hv
  intro pattern
  rw [htask.known, (hquiet.tasks v hv).1]
  simp

end

end

end Stric.Flow
