import Stric.Flow.Multicast
import Stric.Flow.PeerWriters
import Stric.Flow.Snapshot

/-!
# Publishing after a link has failed (`node.rs`, `routing.rs`)

`PeerDisconnected` takes the writer of the peer away and starts a reconnection loop.  It does not
touch the graph: the link to the peer stays in it, at the cost it had, and the shortest paths of
`publish` go on using it (`failed_link_used`).

So whether a subscriber is routed around the link is a matter of costs alone.  `routed_around` says
which way it goes, in every state a node can get to: around, if some path that does not use the
link is cheaper than all that start with it, and over the link, if one that starts with it is
cheaper than all others.  At equal costs the heap decides.
-/

namespace Stric.Flow

open Stric.Pool Relation

/-- The link between the two nodes, in either direction. -/
def Across (self peer u v : NodeId) : Prop := (u = self ∧ v = peer) ∨ (u = peer ∧ v = self)

instance (self peer u v : NodeId) : Decidable (Across self peer u v) :=
  inferInstanceAs (Decidable (_ ∨ _))

/-- The table leads from one node to the other without that link. -/
def Avoids (table : HashMap NodeId ForwardingTargets) (self peer v : NodeId) : Prop :=
  ReflTransGen (fun u v => TableEdge table u v ∧ ¬ Across self peer u v) self v

namespace GlobalGraph

variable {γ : Type} [PetGraph γ]

instance (g : GlobalGraph γ) (u v : NodeId) (k : Nat) : Decidable (g.Link u v k) :=
  inferInstanceAs (Decidable (∃ e ∈ PetGraph.edgeReferences g.graph, _))

/-- The links of the graph but that one. -/
def Around (g : GlobalGraph γ) (self peer u v : NodeId) (k : Nat) : Prop :=
  g.Link u v k ∧ ¬ Across self peer u v

instance (g : GlobalGraph γ) (self peer u v : NodeId) (k : Nat) :
    Decidable (g.Around self peer u v k) := inferInstanceAs (Decidable (_ ∧ _))

/-- Some path around the link is cheaper than every path that starts with it. -/
def CheaperAround (g : GlobalGraph γ) (self peer v : NodeId) : Prop :=
  ∃ c, Walk (g.Around self peer) self v c ∧
    ∀ k c', g.Link self peer k → Walk g.Link peer v c' → c < k + c'

/-- Some path that starts with the link is cheaper than every path around it. -/
def CheaperAcross (g : GlobalGraph γ) (self peer v : NodeId) : Prop :=
  ∃ k c', g.Link self peer k ∧ Walk g.Link peer v c' ∧
    ∀ c, Walk (g.Around self peer) self v c → k + c' < c

end GlobalGraph

/-! ## Paths of the table -/

section
variable {γ : Type} [PetGraph γ] {g : GlobalGraph γ} {source peer v : NodeId} {subs : List String}
  {table : HashMap NodeId ForwardingTargets}

/-- A path of the table avoids the link, or starts with it: nothing leads back to the source. -/
theorem avoids_or_across (hroot : ∀ u, ¬ TableEdge table u source) {d : Nat}
    (hw : Walk (fun u v k => TableEdge table u v ∧ g.Link u v k) source v d) :
    Avoids table source peer v ∨
      ∃ k c, g.Link source peer k ∧ Walk g.Link peer v c ∧ d = k + c := by
  induction hw with
  | nil => exact .inl .refl
  | @snoc u v c k hw he ih =>
    rcases ih with havoids | ⟨k₀, c₀, hlink, hrest, rfl⟩
    · by_cases hacross : Across source peer u v
      · rcases hacross with ⟨rfl, rfl⟩ | ⟨rfl, rfl⟩
        · -- the walk up to here has not left the source
          obtain rfl : c = 0 := by
            cases hw with
            | nil => rfl
            | snoc _ he' => exact absurd he'.1 (hroot _)
          exact .inr ⟨k, 0, he.2, .nil, Nat.zero_add k⟩
        · exact absurd he.1 (hroot _)
      · exact .inl (havoids.tail ⟨he.1, hacross⟩)
    · exact .inr ⟨k₀, c₀ + k, hlink, hrest.snoc he.2, Nat.add_assoc _ _ _⟩

/-- Parents are unique, so if the table leads around the link, its path is a path around it. -/
theorem walk_around_of_avoids (hroot : ∀ u, ¬ TableEdge table u source)
    (hparent : ∀ u u' v, TableEdge table u v → TableEdge table u' v → u = u') {d : Nat}
    (hw : Walk (fun u v k => TableEdge table u v ∧ g.Link u v k) source v d)
    (havoids : Avoids table source peer v) : Walk (g.Around source peer) source v d := by
  induction hw with
  | nil => exact .nil
  | @snoc u v c k _ he ih =>
    rcases ReflTransGen.cases_tail havoids with rfl | ⟨u', hu', hedge, hacross⟩
    · exact absurd he.1 (hroot u)
    · obtain rfl := hparent u u' v he.1 hedge
      exact (ih hu').snoc ⟨he.2, hacross⟩

theorem GlobalGraph.IsLeastCostTree.parent_unique (h : g.IsLeastCostTree source subs table)
    (u u' v : NodeId) (hu : TableEdge table u v) (hu' : TableEdge table u' v) : u = u' := by
  have hne : v ≠ source := fun heq => h.root u (heq ▸ hu)
  exact (h.parent v ⟨u, .inr hu⟩ hne).unique hu hu'

theorem GlobalGraph.IsLeastCostTree.avoids (h : g.IsLeastCostTree source subs table)
    (hsub : v ∈ subs) (hne : v ≠ source) (hcheap : g.CheaperAround source peer v) :
    Avoids table source peer v := by
  obtain ⟨c, hw, hcost⟩ := hcheap
  have hw' : Walk g.Link source v c := hw.mono fun _ _ _ h => h.1
  obtain ⟨d, hd, -, hleast⟩ := h.least v hsub ((h.spans v hsub hne).mpr ⟨c, hw'⟩)
  rcases avoids_or_across h.root hd with havoids | ⟨k, c₀, hlink, hrest, rfl⟩
  · exact havoids
  · have hle := hleast c hw'
    have hlt := hcost k c₀ hlink hrest
    omega

theorem GlobalGraph.IsLeastCostTree.not_avoids (h : g.IsLeastCostTree source subs table)
    (hsub : v ∈ subs) (hne : v ≠ source) (hcheap : g.CheaperAcross source peer v) :
    ¬ Avoids table source peer v := by
  intro havoids
  obtain ⟨k, c, hlink, hrest, hcost⟩ := hcheap
  have hw := Walk.cons hlink hrest
  obtain ⟨d, hd, -, hleast⟩ := h.least v hsub ((h.spans v hsub hne).mpr ⟨_, hw⟩)
  have hle := hleast _ hw
  have hlt := hcost d (walk_around_of_avoids h.root h.parent_unique hd havoids)
  omega

end

/-! ## Runs of a node -/

section
variable {γ δ : Type} [PetGraph γ]

/-- A node as it is built, with nothing connected. -/
def ConnState.fresh (id : NodeId) (registry : MessageRegistry δ) : ConnState γ δ :=
  ⟨FlowNode.new id registry, [], fun _ => none, []⟩

variable {s s' : ConnState γ δ} {l : ConnLabel} {past : ConnPast γ δ}

/-- Only the control loop changes the graph. -/
theorem ConnStep.graph_reachable (h : ConnStep s l s') (hs : s.node.graph.Reachable) :
    s'.node.graph.Reachable := by
  cases h with
  | conn _ hact _ =>
    rw [show _ = s.node.graph from (Conn.act_view hact).1.graph]
    exact hs
  | @process clock event rest _ => exact (controlStep_turn clock s.node event rfl).2.reachable hs
  | loop _ hact =>
    rw [show _ = s.node.graph from (Loop.act_view hact).1.graph]
    exact hs
  | redial _ hact _ =>
    rw [show _ = s.node.graph from (Loop.act_view hact).1.graph]
    exact hs
  | _ => exact hs

theorem graph_reachable {id : NodeId} {registry : MessageRegistry δ}
    (h : History ConnStep (.fresh id registry) past s) : s.node.graph.Reachable :=
  h.invariant (fun s => s.node.graph.Reachable) .new fun _ _ _ hs hstep => hstep.graph_reachable hs

/-- **Which way a subscriber is reached.**  Whatever has happened to the connections of a node, and
whatever peers have told it: the table that `publish` embeds leads to the subscriber around the
link to `peer` if that is cheaper, and over the link if that is. -/
theorem routed_around (η : Type) [BinaryHeap η] (b : Build) (id : NodeId)
    (registry : MessageRegistry δ) (h : History ConnStep (.fresh id registry : ConnState γ δ) past s)
    (htotal : s.node.graph.totalCost < u32Max.toNat) (clock : Clock)
    (nonce flowId topicId messageType : String) (codec : Codec) (payload : Bytes) :
    ∃ out, s.node.publish η b clock nonce flowId topicId messageType codec payload = .ok out ∧
      ∀ peer, ∀ sub ∈ s.node.subscribers topicId,
        (s.node.graph.CheaperAround s.node.nodeId peer sub →
          Avoids out.table s.node.nodeId peer sub) ∧
        (s.node.graph.CheaperAcross s.node.nodeId peer sub →
          ¬ Avoids out.table s.node.nodeId peer sub) := by
  have hg := graph_reachable h
  obtain ⟨out, hout, -⟩ :=
    publish_spec η b clock nonce s.node hg htotal flowId topicId messageType codec payload
  refine ⟨out, hout, fun peer sub hsub => ?_⟩
  by_cases hself : sub = s.node.nodeId
  · -- the table leads from the node to itself without any link
    rw [hself]
    refine ⟨fun _ => .refl, fun ⟨_, _, _, _, hcost⟩ => ?_⟩
    exact absurd (hcost 0 .nil) (Nat.not_lt_zero _)
  · have htree : ∀ c, Walk s.node.graph.Link s.node.nodeId sub c →
        s.node.graph.IsLeastCostTree s.node.nodeId (s.node.subscribers topicId) out.table := by
      intro c hw
      obtain ⟨i, hi⟩ := (GlobalGraph.reachable_wf hg).lookup_of_walk hw hself
      obtain ⟨out', e, hout', htree, -⟩ := publish_leastCost η b clock nonce hg htotal hi
        (List.ne_nil_of_mem hsub) flowId messageType codec payload
      obtain rfl : out' = out := Except.ok.inj (hout'.symm.trans hout)
      exact htree
    constructor
    · intro hcheap
      have ⟨c, hw, _⟩ := hcheap
      exact (htree c (hw.mono fun _ _ _ h => h.1)).avoids hsub hself hcheap
    · intro hcheap
      have ⟨k, c, hlink, hrest, _⟩ := hcheap
      exact (htree _ (Walk.cons hlink hrest)).not_avoids hsub hself hcheap

end

/-! ## A shorter path over a failed link -/

/-- `b — c` at this cost, where `c` subscribes to everything. -/
def viaB (hopCost : UInt32) : ControlMessage := .of (.topologyUpdate
  { originNodeId := "b"
    epoch := 1
    nodesAdded := [⟨"c", NodeRole.flow.toI32, (∅ : HashMap String String).insert (subKey "#") "", 0⟩]
    nodesRemoved := []
    linksAdded := [⟨"b", "c", hopCost, 0⟩]
    linksRemoved := [] })

/-- `d — e — c`. -/
def viaD : ControlMessage := .of (.topologyUpdate
  { originNodeId := "d"
    epoch := 1
    nodesAdded := []
    nodesRemoved := []
    linksAdded := [⟨"d", "e", 1, 0⟩, ⟨"e", "c", 1, 0⟩]
    linksRemoved := [] })

def aPong : ControlMessage := .of (.pong ⟨0, 0⟩)

/-- `PeerDisconnected` of the peer has been processed, and none of its connections is open. -/
structure Severed {γ δ : Type} (peer : NodeId) (past : ConnPast γ δ) (s : ConnState γ δ) : Prop where
  processed : ∃ s₀ rest, (s₀, .process) ∈ past ∧ s₀.queue = .peerDisconnected peer :: rest
  closed : ∀ k, ¬ s.Open peer k

/-- The way to `c` over `d`. -/
theorem detour {g : GlobalGraph VecGraph} (hd : g.Around "a" "b" "a" "d" 1)
    (he : g.Around "a" "b" "d" "e" 1) (hc : g.Around "a" "b" "e" "c" 1) :
    Walk (g.Around "a" "b") "a" "c" 3 :=
  ((Walk.nil.snoc hd).snoc he).snoc hc

/-- Of two connections, those to the peer have ended. -/
theorem closed_of_two {γ δ : Type} {s : ConnState γ δ} {peer : NodeId} {c₁ c₂ : Conn}
    (h₁ : s.conns 1 = some c₁) (h₂ : s.conns 2 = some c₂)
    (hrest : ∀ k, k ≠ 1 → k ≠ 2 → s.conns k = none) (hc₁ : c₁.peer = some peer → c₁.reader = .ended)
    (hc₂ : c₂.peer = some peer → c₂.reader = .ended) : ∀ k, ¬ s.Open peer k := by
  rintro k ⟨c, hk, hp, hr⟩
  exact hr (forall_conns (fun _ c => c.peer = some peer → c.reader = .ended) h₁ h₂ hrest hc₁ hc₂
    k c hk hp)

/-- How far the nodes are from `b` if `b — c` costs 3. -/
def fromB (v : NodeId) : Nat :=
  if v = "b" then 0 else if v = "a" then 1 else if v = "d" then 2 else 3

theorem link_le {g : GlobalGraph VecGraph} {P : NodeId → NodeId → Nat → Prop}
    (h : ∀ e ∈ PetGraph.edgeReferences g.graph, P (g.name e.source) (g.name e.target) (g.linkCost e))
    (u v : NodeId) (k : Nat) (hlink : g.Link u v k) : P u v k := by
  obtain ⟨e, he, rfl, rfl, rfl⟩ := hlink
  exact h e he

/-- The only entry of the table that lists `v` is that of `p`. -/
theorem tableEdge_source {table : HashMap NodeId ForwardingTargets} {u v p : NodeId}
    (hall : ∀ entry ∈ table.entries, v ∈ entry.2.sendTo → entry.1 = p) (h : TableEdge table u v) :
    u = p := by
  obtain ⟨targets, hl, hv⟩ := h
  exact hall ⟨u, targets⟩ (AList.mem_lookup_iff.mp hl) hv

/-- The peers `b` and `d` are connected, both know a way to `c`, and `b` is gone.  The link to `b`
is still there, and the way over it the shorter one: `publish` sends nothing, though the way over
`d` works. -/
theorem failed_link_used : ∃ past s out,
    History ConnStep (.fresh "a" ∅ : ConnState VecGraph Unit) past s ∧ Severed "b" past s ∧
      "c" ∈ s.node.subscribers "t" ∧ Walk (s.node.graph.Around "a" "b") "a" "c" 3 ∧
      s.node.publish ListHeap .debug ⟨0, 0⟩ "7" "f" "t" "m" .raw [] = .ok out ∧
      ¬ Avoids out.table "a" "b" "c" ∧ out.sends = [] := by
  have h1 := accepted (.start : History ConnStep (.fresh "a" ∅ : ConnState VecGraph Unit) [] _) 1
    "x" rfl
  have h2 := acted h1 1 (.complete "b") rfl rfl (by decide)
  have h3 := acted h2 1 .spawn rfl rfl (by decide)
  have h4 := acted h3 1 .add rfl rfl (by decide)
  have h5 := accepted h4 2 "y" rfl
  have h6 := acted h5 2 (.complete "d") rfl rfl (by decide)
  have h7 := acted h6 2 .spawn rfl rfl (by decide)
  have h8 := acted h7 2 .add rfl rfl (by decide)
  have h9 := acted h8 1 (.receive (viaB 1)) rfl rfl (by decide)
  have h10 := acted h9 2 (.receive viaD) rfl rfl (by decide)
  have h11 := acted h10 1 (.receive aPong) rfl rfl (by decide)
  have h12 := acted h11 2 (.receive aPong) rfl rfl (by decide)
  have h13 := acted h12 1 .readError rfl rfl (by decide)
  have h14 := acted h13 1 (.hangUp "b") rfl rfl (by decide)
  have h15 := processed (processed (processed (processed h14 rfl) rfl) rfl) rfl
  have h16 := processed (processed (processed h15 rfl) rfl) rfl
  refine ⟨_, _, _, h16, ⟨⟨_, _, List.mem_cons_self, rfl⟩, ?_⟩, by decide, ?_, rfl, ?_, rfl⟩
  · exact closed_of_two rfl rfl (fun k hk₁ hk₂ => by simp [hk₁, hk₂, ConnState.fresh])
      (fun _ => rfl) (fun hd => absurd hd (by decide))
  · exact detour (by decide) (by decide) (by decide)
  · intro havoids
    rcases ReflTransGen.cases_tail havoids with heq | ⟨u, hu, hc, -⟩
    · exact absurd heq (by decide)
    · obtain rfl := tableEdge_source (p := "b") (by decide) hc
      rcases ReflTransGen.cases_tail hu with heq | ⟨u, -, hb, hacross⟩
      · exact absurd heq (by decide)
      · exact hacross (.inl ⟨tableEdge_source (by decide) hb, rfl⟩)

/-- The same with a link `b — c` of cost 3: the link to `b` is still there, but the way over it is
the longer one, and `publish` takes the way over `d`. -/
theorem detour_taken : ∃ past s out,
    History ConnStep (.fresh "a" ∅ : ConnState VecGraph Unit) past s ∧ Severed "b" past s ∧
      s.node.graph.Link "a" "b" 1 ∧ "c" ∈ s.node.subscribers "t" ∧
      s.node.publish ListHeap .debug ⟨0, 0⟩ "7" "f" "t" "m" .raw [] = .ok out ∧
      Avoids out.table "a" "b" "c" := by
  have h1 := accepted (.start : History ConnStep (.fresh "a" ∅ : ConnState VecGraph Unit) [] _) 1
    "x" rfl
  have h2 := acted h1 1 (.complete "b") rfl rfl (by decide)
  have h3 := acted h2 1 .spawn rfl rfl (by decide)
  have h4 := accepted h3 2 "y" rfl
  have h5 := acted h4 2 (.complete "d") rfl rfl (by decide)
  have h6 := acted h5 2 .spawn rfl rfl (by decide)
  have h7 := acted h6 1 (.receive (viaB 3)) rfl rfl (by decide)
  have h8 := acted h7 2 (.receive viaD) rfl rfl (by decide)
  have h9 := acted h8 1 (.receive aPong) rfl rfl (by decide)
  have h10 := acted h9 2 (.receive aPong) rfl rfl (by decide)
  have h11 := acted h10 1 .readError rfl rfl (by decide)
  have h12 := acted h11 1 (.hangUp "b") rfl rfl (by decide)
  have h13 := processed (processed (processed (processed h12 rfl) rfl) rfl) rfl
  have h14 := processed (processed (processed h13 rfl) rfl) rfl
  obtain ⟨out, hout, hways⟩ :=
    routed_around ListHeap .debug "a" ∅ h14 (by decide) ⟨0, 0⟩ "7" "f" "t" "m" .raw []
  refine ⟨_, _, out, h14, ⟨⟨_, _, List.mem_cons_self, rfl⟩, ?_⟩, by decide, by decide, hout,
    (hways "b" "c" (by decide)).1 ?_⟩
  · exact closed_of_two rfl rfl (fun k hk₁ hk₂ => by simp [hk₁, hk₂, ConnState.fresh])
      (fun _ => rfl) (fun hd => absurd hd (by decide))
  · refine ⟨3, detour (by decide) (by decide) (by decide), fun k c hlink hwalk => ?_⟩
    have hfirst : 1 ≤ k := link_le (P := fun _ _ k => 1 ≤ k) (by decide) _ _ k hlink
    have hrest : 3 ≤ 0 + c := hwalk.le_of_potential (φ := fromB) (link_le (by decide))
    omega

end Stric.Flow
