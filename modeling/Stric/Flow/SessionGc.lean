import Stric.Flow.SessionClose
import Stric.Pool.History

/-!
# Garbage collection of sessions (`reconciliation.rs`)

Every ten seconds a node evicts the sessions whose creator it has not seen for 300 seconds.
`node_last_seen` is refreshed by whatever the control loop processes: for the sender, for the
origin and the nodes of a topology update, for the node of a subscription update.  Heartbeats
keep the entries of direct peers fresh.  An entry of a node further away, or of the node
itself, is made by some update and then grows old.

`lastSeen_eq` reads the entries off the history of a run, and `collect_spares_iff` says from it
which runs evict no session of a running node.  `creator_evicts` is a run of two peers that
does, at the creator itself.

Time is discrete, in milliseconds.
-/

namespace Stric.Flow

open Stric.Pool

def second : Nat := 1000

/-- `Duration::from_secs(300)`. -/
def sessionTtl : Nat := 300 * second

/-- The creator was seen, but not for longer than the time to live. -/
def isStale (now ttl : Nat) (nodeLastSeen : HashMap NodeId Nat) (session : Session) : Bool :=
  match nodeLastSeen.lookup session.creatorNode with
  | some lastSeen => decide (now - lastSeen > ttl)
  | none => false

/-- The sessions that stay, and the ids of those that are evicted. -/
def gcInactiveSessions (now : Nat) (sessions : HashMap String Session)
    (nodeLastSeen : HashMap NodeId Nat) (ttl : Nat) : HashMap String Session × List String :=
  (⟨sessions.entries.filter fun e => !isStale now ttl nodeLastSeen e.2,
    sessions.nodupKeys.sublist List.filter_sublist⟩,
   (sessions.entries.filter fun e => isStale now ttl nodeLastSeen e.2).map Sigma.fst)

theorem mem_evicted {now ttl : Nat} {sessions : HashMap String Session}
    {nodeLastSeen : HashMap NodeId Nat} {sid : String} {session : Session}
    (h : sessions.lookup sid = some session) :
    sid ∈ (gcInactiveSessions now sessions nodeLastSeen ttl).2 ↔
      isStale now ttl nodeLastSeen session = true := by
  have hmem : (⟨sid, session⟩ : Sigma fun _ : String => Session) ∈ sessions.entries :=
    AList.mem_lookup_iff.mp h
  simp only [gcInactiveSessions, List.mem_map, List.mem_filter]
  constructor
  · rintro ⟨⟨key, s⟩, ⟨he, hs⟩, rfl⟩
    have : sessions.lookup key = some s := AList.mem_lookup_iff.mpr he
    rw [h] at this
    cases this
    exact hs
  · intro hs
    exact ⟨_, ⟨hmem, hs⟩, rfl⟩

section
variable {γ δ : Type}

/-- One pass of the garbage collection task.  The `Close` messages go into the node's own
control channel. -/
def FlowNode.collect (now : Nat) (n : FlowNode γ δ) : FlowNode γ δ × List Send :=
  let (sessions, evicted) := gcInactiveSessions now n.sessions n.nodeLastSeen sessionTtl
  ({ n with sessions := sessions },
    evicted.map fun sid => (n.nodeId,
      .ofSession (.close ⟨sid, n.nodeId, "Session TTL expired (creator inactive)"⟩)))

/-- A pass that finds nothing stale does nothing. -/
theorem collect_eq_self {now : Nat} {n : FlowNode γ δ}
    (h : ∀ e ∈ n.sessions.entries, isStale now sessionTtl n.nodeLastSeen e.2 = false) :
    n.collect now = (n, []) := by
  have hkeep : (n.sessions.entries.filter fun e => !isStale now sessionTtl n.nodeLastSeen e.2) =
      n.sessions.entries := List.filter_eq_self.mpr fun e he => by rw [h e he]; rfl
  have hnone : (n.sessions.entries.filter fun e => isStale now sessionTtl n.nodeLastSeen e.2) =
      [] := List.filter_eq_nil_iff.mpr fun e he => by rw [h e he]; decide
  have hgc : gcInactiveSessions now n.sessions n.nodeLastSeen sessionTtl = (n.sessions, []) := by
    refine Prod.ext (AList.ext hkeep) ?_
    show List.map _ _ = _
    rw [hnone]
    rfl
  rw [FlowNode.collect, hgc]
  rfl

/-! ## Who is seen -/

/-- The nodes that count as seen when the message is processed. -/
def ControlMessage.mentions (sender : NodeId) (msg : ControlMessage) : List NodeId :=
  sender :: match msg.message with
    | some (.topologyUpdate u) => u.originNodeId :: u.nodesAdded.map NodeDescriptor.nodeId
    | some (.subscriptionUpdate u) => [u.nodeId]
    | _ => []

theorem lookup_seen (clock : Clock) (n : FlowNode γ δ) (id c : NodeId) :
    (n.seen clock id).nodeLastSeen.lookup c =
      if c = id then some clock.instant else n.nodeLastSeen.lookup c := by
  by_cases h : c = id
  · subst h
    rw [if_pos rfl]
    exact AList.lookup_insert _
  · rw [if_neg h]
    exact AList.lookup_insert_ne h

theorem lookup_seen_foldl (clock : Clock) (n : FlowNode γ δ) (ds : List NodeDescriptor) (c : NodeId) :
    (ds.foldl (fun n d => n.seen clock d.nodeId) n).nodeLastSeen.lookup c =
      if c ∈ ds.map NodeDescriptor.nodeId then some clock.instant else n.nodeLastSeen.lookup c := by
  induction ds generalizing n with
  | nil => rfl
  | cons d ds ih =>
    rw [List.foldl_cons, ih, lookup_seen, List.map_cons]
    by_cases h : c ∈ ds.map NodeDescriptor.nodeId
    · rw [if_pos h, if_pos (List.mem_cons_of_mem _ h)]
    · rw [if_neg h]
      by_cases hd : c = d.nodeId
      · rw [if_pos hd, if_pos (by rw [hd]; exact List.mem_cons_self)]
      · rw [if_neg hd, if_neg (by simp [hd, h])]

variable [PetGraph γ]

/-- A processed message refreshes whom it mentions, and nobody else. -/
theorem lookup_onMessage {clock : Clock} {n n' : FlowNode γ δ} {sender : NodeId}
    {msg : ControlMessage} {outs : List Send} (h : n.onMessage clock sender msg = (n', outs))
    (c : NodeId) :
    n'.nodeLastSeen.lookup c =
      if c ∈ msg.mentions sender then some clock.instant else n.nodeLastSeen.lookup c := by
  have hsender := lookup_seen clock n sender c
  have hone : (if c ∈ [sender] then some clock.instant else n.nodeLastSeen.lookup c) =
      (n.seen clock sender).nodeLastSeen.lookup c := by
    rw [hsender]
    simp only [List.mem_singleton]
  obtain ⟨payload⟩ := msg
  cases payload with
  | none =>
    cases h
    exact hone.symm
  | some payload =>
    cases payload with
    | topologyUpdate u =>
      change (n.seen clock sender).onTopologyUpdate clock sender u = _ at h
      have hlast : n'.nodeLastSeen = (u.nodesAdded.foldl (fun n d => n.seen clock d.nodeId)
          ((n.seen clock sender).seen clock u.originNodeId)).nodeLastSeen := by
        unfold FlowNode.onTopologyUpdate at h
        simp only at h
        split at h <;> (cases h; rfl)
      rw [hlast, lookup_seen_foldl, lookup_seen, hsender]
      simp only [ControlMessage.mentions, List.mem_cons]
      split_ifs <;> first | rfl | (exfalso; tauto)
    | subscriptionUpdate u =>
      change (n.seen clock sender).onSubscriptionUpdate clock sender u = _ at h
      have hlast : n'.nodeLastSeen =
          ((n.seen clock sender).seen clock u.nodeId).nodeLastSeen := by
        unfold FlowNode.onSubscriptionUpdate at h
        simp only at h
        split at h <;> (cases h; rfl)
      rw [hlast, lookup_seen, hsender]
      simp only [ControlMessage.mentions, List.mem_cons, List.not_mem_nil, or_false]
      split_ifs <;> first | rfl | (exfalso; tauto)
    | ping p =>
      change (n.seen clock sender).onPing clock sender p = _ at h
      unfold FlowNode.onPing at h
      split at h <;> (cases h; exact hone.symm)
    | pong p =>
      change (n.seen clock sender).onPong clock sender p = _ at h
      unfold FlowNode.onPong at h
      simp only at h
      split at h <;> (cases h; exact hone.symm)
    | sessionControl m =>
      obtain ⟨m | m⟩ := m
      · cases h
        exact hone.symm
      · obtain ⟨sessions, hstate, -⟩ := (n.seen clock sender).onSession_spec sender m
        change (n.seen clock sender).onSession sender m = _ at h
        rw [h] at hstate
        rw [show n' = _ from hstate]
        exact hone.symm
    | _ =>
      cases h
      exact hone.symm

/-! ## Timed runs -/

/-- What a node does besides receiving: calls of the application, and garbage collection. -/
inductive Task where
  | call (call : Call)
  | collect

/-- The turn of the control loop on an own update reads the clock. -/
def Call.At (now : Nat) : Call → Prop
  | .update clock _ => clock.instant = now
  | _ => True

/-- The mesh at a given time. -/
def meshAt (g : PeerGraph) (now : Nat) : Protocol NodeId (FlowNode γ δ) ControlMessage Task where
  recv _ sender msg n n' outs := ∃ millis, n.onMessage ⟨now, millis⟩ sender msg = (n', outs)
  own v task n n' outs := v ∈ g.nodes ∧
    match task with
    | .call call => call.At now ∧ n.call call = (n', outs)
    | .collect => n.collect now = (n', outs)

structure Timed (γ δ : Type) where
  now : Nat
  net : Net NodeId (FlowNode γ δ) ControlMessage

/-- Time passes, or something happens in the mesh. -/
inductive TimedStep (g : PeerGraph) :
    Timed γ δ → Option (Event NodeId ControlMessage Task) → Timed γ δ → Prop
  | wait {now : Nat} {net : Net NodeId (FlowNode γ δ) ControlMessage} (d : Nat) :
      TimedStep g ⟨now, net⟩ none ⟨now + d, net⟩
  | act {now : Nat} {net net' : Net NodeId (FlowNode γ δ) ControlMessage}
      {e : Event NodeId ControlMessage Task} :
      Step (meshAt g now) net e net' → TimedStep g ⟨now, net⟩ (some e) ⟨now, net'⟩

/-- What has happened, with the state before each step. -/
abbrev Past (γ δ : Type) := List (Timed γ δ × Option (Event NodeId ControlMessage Task))

/-- Whom a node sees by what it does itself: an update of its own subscriptions goes through
its control loop. -/
def Task.mentions (v : NodeId) : Task → List NodeId
  | .call (.update _ u) => (ControlMessage.of (.subscriptionUpdate u)).mentions v
  | _ => []

/-- Whom `v` sees by an event. -/
def seenBy (v : NodeId) : Option (Event NodeId ControlMessage Task) → List NodeId
  | some (.deliver p _) => if p.dst = v then p.msg.mentions p.src else []
  | some (.own w task _) => if w = v then task.mentions v else []
  | none => []

/-- When `v` last saw `c`. -/
def lastSeen (v c : NodeId) : Past γ δ → Option Nat
  | [] => none
  | (s, e) :: past => if c ∈ seenBy v e then some s.now else lastSeen v c past

variable {g : PeerGraph} {init s : Timed γ δ} {past : Past γ δ}

theorem lookup_own {now : Nat} {v : NodeId} {task : Task} {n n' : FlowNode γ δ} {outs : List Send}
    (hr : (meshAt g now).own v task n n' outs) (hid : n.nodeId = v) (c : NodeId) :
    SameHost n n' ∧ n'.nodeLastSeen.lookup c =
      if c ∈ task.mentions v then some now else n.nodeLastSeen.lookup c := by
  obtain ⟨-, hr⟩ := hr
  cases task with
  | collect =>
    cases hr
    exact ⟨⟨rfl, rfl, rfl, rfl⟩, rfl⟩
  | call call =>
    obtain ⟨hat, hr⟩ := hr
    refine ⟨(call_effect "" hr).1, ?_⟩
    cases call with
    | update clock u =>
      change n.onMessage clock n.nodeId (.of (.subscriptionUpdate u)) = _ at hr
      rw [lookup_onMessage hr, hid, show clock.instant = now from hat]
      rfl
    | close key reason =>
      by_cases hn : n.Holds key
      · simp only [FlowNode.call, closeSession_holds hn] at hr
        cases hr
        rfl
      · simp only [FlowNode.call, closeSession_not_holds hn] at hr
        cases hr
        rfl
    | sync clock key data =>
      obtain ⟨sessions, hstate, -, -⟩ := syncSessionState_effect (n := n) clock key data
      have hfst : (n.syncSessionState clock key data).1 = n' := congrArg Prod.fst hr
      rw [← hfst, hstate]
      rfl
    | _ =>
      cases hr
      rfl

/-- `node_last_seen` is what the history says. -/
theorem lastSeen_eq (hid : ∀ v ∈ g.nodes, (init.net.state v).nodeId = v)
    (hseen : ∀ v ∈ g.nodes, (init.net.state v).nodeLastSeen = ∅)
    (h : History (TimedStep g) init past s) {v : NodeId} (hv : v ∈ g.nodes) :
    (s.net.state v).nodeId = v ∧
      ∀ c, (s.net.state v).nodeLastSeen.lookup c = lastSeen v c past := by
  induction h with
  | start =>
    rw [hseen v hv]
    exact ⟨hid v hv, fun _ => rfl⟩
  | step _ hs ih =>
    cases hs with
    | wait d => exact ih
    | @act now net net' e hs =>
      obtain ⟨ihid, ih⟩ := ih
      cases hs with
      | @deliver l₁ l₂ p n' outs hf hr =>
        by_cases hd : p.dst = v
        · obtain ⟨millis, hr⟩ := hr
          rw [hd] at hr ⊢
          rw [Net.act_state_self]
          refine ⟨(FlowNode.sameHost_of_onMessage hr).nodeId.trans ihid, fun c => ?_⟩
          rw [lookup_onMessage hr, ih, lastSeen, seenBy, if_pos hd]
        · rw [Net.act_state_ne (Ne.symm hd)]
          refine ⟨ihid, fun c => ?_⟩
          rw [lastSeen, seenBy, if_neg hd, if_neg List.not_mem_nil]
          exact ih c
      | @own w task n' outs hr =>
        by_cases hw : w = v
        · subst hw
          rw [Net.act_state_self]
          have hown := lookup_own hr ihid
          refine ⟨(hown w).1.nodeId.trans ihid, fun c => ?_⟩
          rw [(hown c).2, ih, lastSeen, seenBy, if_pos rfl]
        · rw [Net.act_state_ne (Ne.symm hw)]
          refine ⟨ihid, fun c => ?_⟩
          rw [lastSeen, seenBy, if_neg hw, if_neg List.not_mem_nil]
          exact ih c

theorem now_le (h : History (TimedStep g) init past s) : ∀ e ∈ past, e.1.now ≤ s.now := by
  induction h with
  | start => exact fun e he => absurd he List.not_mem_nil
  | step _ hs ih =>
    rw [List.forall_mem_cons]
    cases hs with
    | wait d =>
      refine ⟨Nat.le_add_right _ _, fun e he => ?_⟩
      have := ih e he
      simp only at this ⊢
      omega
    | act _ => exact ⟨le_refl _, ih⟩

/-- Whoever was seen at some time was last seen then or later. -/
theorem le_lastSeen (h : History (TimedStep g) init past s) {v c : NodeId}
    {e : Timed γ δ × Option (Event NodeId ControlMessage Task)} (he : e ∈ past)
    (hc : c ∈ seenBy v e.2) {t : Nat} (ht : lastSeen v c past = some t) : e.1.now ≤ t := by
  induction h with
  | start => exact absurd he List.not_mem_nil
  | @step past s s' l hrun hs ih =>
    rw [lastSeen] at ht
    split at ht
    · cases ht
      exact (List.forall_mem_cons.mpr ⟨le_refl _, now_le hrun⟩ :
        ∀ e ∈ (s, l) :: past, e.1.now ≤ s.now) e he
    · next hnot =>
      rcases List.mem_cons.mp he with rfl | he
      · exact absurd hc hnot
      · exact ih he ht

/-! ## Which sessions are evicted -/

def ControlMessage.IsHeartbeat (msg : ControlMessage) : Prop :=
  match msg.message with
  | some (.ping _) | some (.pong _) => True
  | _ => False

/-- Within the last second, every node has processed a `Ping` or a `Pong` from each of its
peers; the clock starts at 0. -/
def Exchanged (g : PeerGraph) (now : Nat) (past : Past γ δ) : Prop :=
  ∀ v w, g.Link v w → now ≤ second ∨ ∃ s p outs, (s, some (.deliver p outs)) ∈ past ∧
    p.dst = v ∧ p.src = w ∧ p.msg.IsHeartbeat ∧ now ≤ s.now + second

/-- Heartbeats were exchanged at every step. -/
def Exchanging (g : PeerGraph) (past : Past γ δ) : Prop :=
  ∀ s e past', (s, e) :: past' <:+ past → Exchanged g s.now past'

/-- No pass evicts a session that was created by a node of the mesh. -/
def SparesLive (g : PeerGraph) (past : Past γ δ) : Prop :=
  ∀ s v outs past', (s, some (.own v .collect outs)) :: past' <:+ past →
    ∀ sid session, (s.net.state v).sessions.lookup sid = some session →
      session.creatorNode ∈ g.nodes →
      sid ∉ (gcInactiveSessions s.now (s.net.state v).sessions (s.net.state v).nodeLastSeen
        sessionTtl).2

/-- At every pass, a creator that is not a direct peer was seen within the time to live, or
never. -/
def RemoteSeen (g : PeerGraph) (past : Past γ δ) : Prop :=
  ∀ s v outs past', (s, some (.own v .collect outs)) :: past' <:+ past →
    ∀ sid session, (s.net.state v).sessions.lookup sid = some session →
      session.creatorNode ∈ g.nodes → session.creatorNode ∉ g.peers v →
      ∀ t, lastSeen v session.creatorNode past' = some t → s.now ≤ t + sessionTtl

theorem collector_mem {v : NodeId} {outs : List Send} {s' : Timed γ δ}
    (h : TimedStep g s (some (.own v .collect outs)) s') : v ∈ g.nodes := by
  cases h with
  | act hs =>
    cases hs with
    | own hr => exact hr.1

/-- **Whose sessions are evicted.**  In a mesh that exchanges heartbeats every second, no pass
of the garbage collection evicts a session of a running creator, exactly if at every pass each
creator that is not a direct peer was seen within 300 seconds, or never. -/
theorem collect_spares_iff (hid : ∀ v ∈ g.nodes, (init.net.state v).nodeId = v)
    (hseen : ∀ v ∈ g.nodes, (init.net.state v).nodeLastSeen = ∅)
    (h : History (TimedStep g) init past s) (hex : Exchanging g past) :
    SparesLive g past ↔ RemoteSeen g past := by
  have hevicted : ∀ s v outs past', (s, some (.own v .collect outs)) :: past' <:+ past →
      ∀ sid session, (s.net.state v).sessions.lookup sid = some session →
      (sid ∉ (gcInactiveSessions s.now (s.net.state v).sessions (s.net.state v).nodeLastSeen
        sessionTtl).2 ↔
        ∀ t, lastSeen v session.creatorNode past' = some t → s.now ≤ t + sessionTtl) := by
    intro s v outs past' hsuf sid session hs
    obtain ⟨hbefore, s', hstep⟩ := h.before hsuf
    have hv := collector_mem hstep
    rw [mem_evicted hs, isStale, (lastSeen_eq hid hseen hbefore hv).2]
    cases lastSeen v session.creatorNode past' with
    | none => simp
    | some t =>
      simp only [decide_eq_true_eq, Option.some.injEq, forall_eq']
      omega
  constructor
  · intro hspare s v outs past' hsuf sid session hs hc _
    exact (hevicted s v outs past' hsuf sid session hs).mp
      (hspare s v outs past' hsuf sid session hs hc)
  · intro hremote s v outs past' hsuf sid session hs hc
    rw [hevicted s v outs past' hsuf sid session hs]
    by_cases hpeer : session.creatorNode ∈ g.peers v
    · -- heartbeats keep direct peers fresh
      intro t ht
      obtain ⟨hbefore, s', hstep⟩ := h.before hsuf
      have hv := collector_mem hstep
      have hsecond : second ≤ sessionTtl := by decide
      rcases hex _ _ _ hsuf v session.creatorNode ⟨hv, hpeer⟩ with
        hnow | ⟨s₀, p, outs', hmem, hd, hsrc, -, hnow⟩
      · omega
      · have hle := le_lastSeen hbefore hmem (v := v) (c := session.creatorNode) (by
          rw [seenBy, if_pos hd, hsrc]
          exact List.mem_cons_self) ht
        simp only at hle
        omega
    · exact hremote s v outs past' hsuf sid session hs hc hpeer

end

/-! ## Two peers -/

/-- `b` creates the session, and `a` takes it in. -/
def createdB : FlowNode VecGraph Unit := ((pairNode "b").call (.create ⟨0, 0⟩ ⟨0, 0⟩ "s" [] ∅)).1

def createdA : FlowNode VecGraph Unit :=
  ((pairNode "a").onMessage ⟨0, 0⟩ "b" (.ofSession (.create ⟨"s", "b", [], 0, ∅⟩))).1

/-- `b` subscribes, and `a` is told. -/
def pairUpdate : SubscriptionUpdate := ⟨"b", FlowNode.subscribeEntries ["t"], 1⟩

def subscribedB : FlowNode VecGraph Unit := (createdB.call (.update ⟨0, 0⟩ pairUpdate)).1

def toldA : FlowNode VecGraph Unit :=
  (createdA.onMessage ⟨0, 0⟩ "b" (.of (.subscriptionUpdate pairUpdate))).1

/-- `a` sends a `Ping`.  When the answer comes it sets the link, and tells `b` so. -/
def pingedB : FlowNode VecGraph Unit := (subscribedB.onMessage ⟨0, 0⟩ "a" (.of (.ping ⟨0⟩))).1

def linkedA : FlowNode VecGraph Unit := (toldA.onMessage ⟨0, 0⟩ "b" (.of (.pong ⟨0, 0⟩))).1

def linkedB : FlowNode VecGraph Unit :=
  (pingedB.onMessage ⟨0, 0⟩ "a" (.of (.topologyUpdate (linkedA.snapshot 1)))).1

/-- `a` after that, when it has last heard `b` at `t`. -/
def pairA (t : Nat) : FlowNode VecGraph Unit :=
  { linkedA with nodeLastSeen := (∅ : HashMap NodeId Nat).insert "b" t }

/-- `b` after that: it has heard of itself at the start, and of `a` at `t`. -/
def pairB (t : Nat) : FlowNode VecGraph Unit :=
  { linkedB with nodeLastSeen := ((∅ : HashMap NodeId Nat).insert "b" 0).insert "a" t }

theorem pairB_ping (t u : Nat) :
    (pairB t).onMessage ⟨u, 0⟩ "a" (.of (.ping ⟨0⟩)) = (pairB u, [("a", .of (.pong ⟨0, 0⟩))]) := rfl

theorem pairA_pong (t u : Nat) :
    (pairA t).onMessage ⟨u, 0⟩ "b" (.of (.pong ⟨0, 0⟩)) = (pairA u, []) := rfl

theorem pairA_ping (t : Nat) :
    (pairA t).call (.ping 0) = (pairA t, [("b", .of (.ping ⟨0⟩))]) := rfl

theorem pairA_collect (t : Nat) : (pairA t).collect t = (pairA t, []) := by
  refine collect_eq_self fun e he => ?_
  obtain rfl := List.mem_singleton.mp he
  show decide (t - t > sessionTtl) = false
  simp

theorem pairB_collect {t u : Nat} (h : u ≤ sessionTtl) : (pairB t).collect u = (pairB t, []) := by
  refine collect_eq_self fun e he => ?_
  obtain rfl := List.mem_singleton.mp he
  show decide (u - 0 > sessionTtl) = false
  simpa using h

theorem exchanging_cons {γ δ : Type} {g : PeerGraph} {s : Timed γ δ} {past : Past γ δ}
    {e : Option (Event NodeId ControlMessage Task)} (h : Exchanging g past)
    (hnow : Exchanged g s.now past) : Exchanging g ((s, e) :: past) := by
  intro s' e' past' hsuf
  rcases List.suffix_cons_iff.mp hsuf with heq | hsuf
  · obtain ⟨hpair, rfl⟩ := List.cons.inj heq
    obtain ⟨rfl, -⟩ := Prod.mk.inj hpair
    exact hnow
  · exact h s' e' past' hsuf

theorem exchanged_cons {γ δ : Type} {g : PeerGraph} {now : Nat} {past : Past γ δ}
    {x : Timed γ δ × Option (Event NodeId ControlMessage Task)} (h : Exchanged g now past) :
    Exchanged g now (x :: past) := by
  intro v w hl
  refine (h v w hl).imp_right ?_
  rintro ⟨s, p, outs, hmem, hrest⟩
  exact ⟨s, p, outs, List.mem_cons_of_mem _ hmem, hrest⟩

/-- A run of the two peers that exchange heartbeats. -/
structure PairRun (t : Nat) (state : NodeId → FlowNode VecGraph Unit)
    (flight : List (Packet NodeId ControlMessage)) (past : Past VecGraph Unit) : Prop where
  run : History (TimedStep pairGraph) ⟨0, ⟨pairNode, []⟩⟩ past ⟨t, ⟨state, flight⟩⟩
  exchanging : Exchanging pairGraph past
  exchanged : Exchanged pairGraph t past

section
variable {t u : Nat} {state : NodeId → FlowNode VecGraph Unit}
  {flight rest : List (Packet NodeId ControlMessage)} {p : Packet NodeId ControlMessage}
  {past : Past VecGraph Unit}

theorem PairRun.deliver (h : PairRun t state (p :: rest) past) (n' : FlowNode VecGraph Unit)
    (outs : List Send) (hr : (state p.dst).onMessage ⟨t, 0⟩ p.src p.msg = (n', outs)) :
    PairRun t (Function.update state p.dst n') (rest ++ outs.map fun o => ⟨p.dst, o.1, o.2⟩)
      ((⟨t, ⟨state, p :: rest⟩⟩, some (.deliver p outs)) :: past) := by
  have hf : (⟨state, p :: rest⟩ : Net NodeId (FlowNode VecGraph Unit) _).flight =
      [] ++ p :: rest := rfl
  have hrecv : (meshAt pairGraph t).recv p.dst p.src p.msg (state p.dst) n' outs := ⟨0, hr⟩
  exact ⟨.step h.run (.act (.deliver hf hrecv)), exchanging_cons h.exchanging h.exchanged,
    exchanged_cons h.exchanged⟩

theorem PairRun.own (h : PairRun t state flight past) (v : NodeId) (task : Task)
    (n' : FlowNode VecGraph Unit) (outs : List Send)
    (hr : (meshAt pairGraph t).own v task (state v) n' outs) :
    PairRun t (Function.update state v n') (flight ++ outs.map fun o => ⟨v, o.1, o.2⟩)
      ((⟨t, ⟨state, flight⟩⟩, some (.own v task outs)) :: past) :=
  ⟨.step h.run (.act (.own hr)), exchanging_cons h.exchanging h.exchanged,
    exchanged_cons h.exchanged⟩

theorem PairRun.wait (h : PairRun t state flight past) (hu : u = t + second)
    (hex : Exchanged pairGraph u past) :
    PairRun u state flight ((⟨t, ⟨state, flight⟩⟩, none) :: past) := by
  subst hu
  exact ⟨.step h.run (.wait second), exchanging_cons h.exchanging h.exchanged, exchanged_cons hex⟩

/-- `a` sends a `Ping`, `b` answers, `a` processes the answer. -/
theorem PairRun.beat (h : PairRun u state [] past) (ha : state "a" = pairA t)
    (hb : (state "b").onMessage ⟨u, 0⟩ "a" (.of (.ping ⟨0⟩)) =
      (pairB u, [("a", .of (.pong ⟨0, 0⟩))])) :
    ∃ state' past', PairRun u state' [] past' ∧ state' "a" = pairA u ∧ state' "b" = pairB u ∧
      Exchanged pairGraph (u + second) past' := by
  have h1 := h.own "a" (.call (.ping 0)) (pairA t) [("b", .of (.ping ⟨0⟩))]
    ⟨by decide, trivial, by rw [ha]; exact pairA_ping t⟩
  have h2 := h1.deliver (pairB u) [("a", .of (.pong ⟨0, 0⟩))] (by
    show (Function.update state "a" (pairA t) "b").onMessage _ _ _ = _
    rw [Function.update_of_ne (by decide)]
    exact hb)
  have h3 := h2.deliver (pairA u) [] (by
    show (Function.update (Function.update state "a" (pairA t)) "b" (pairB u) "a").onMessage _ _ _ = _
    rw [Function.update_of_ne (by decide), Function.update_self]
    exact pairA_pong t u)
  refine ⟨_, _, h3, Function.update_self _ _ _, ?_, ?_⟩
  · exact (Function.update_of_ne (by decide) _ _).trans (Function.update_self _ _ _)
  · intro v w hl
    have hcases : ∀ v ∈ pairGraph.nodes, ∀ w ∈ pairGraph.peers v,
        (v = "a" ∧ w = "b") ∨ (v = "b" ∧ w = "a") := by decide
    right
    rcases hcases v hl.1 w hl.2 with ⟨rfl, rfl⟩ | ⟨rfl, rfl⟩
    · exact ⟨_, _, _, List.mem_cons_self, rfl, rfl, trivial, le_refl _⟩
    · exact ⟨_, _, _, List.mem_cons_of_mem _ List.mem_cons_self, rfl, rfl, trivial, le_refl _⟩

/-- Up to 300 seconds a pass at either node evicts nothing. -/
theorem PairRun.pass (h : PairRun u state [] past) (ha : state "a" = pairA u)
    (hb : state "b" = pairB u) (hex : Exchanged pairGraph (u + second) past) (hu : u ≤ sessionTtl) :
    ∃ state' past', PairRun u state' [] past' ∧ state' "a" = pairA u ∧ state' "b" = pairB u ∧
      Exchanged pairGraph (u + second) past' := by
  have h1 := h.own "a" .collect (pairA u) [] ⟨by decide, by
    rw [ha]
    exact pairA_collect u⟩
  have h2 := h1.own "b" .collect (pairB u) [] ⟨by decide, by
    show (Function.update state "a" (pairA u) "b").collect u = _
    rw [Function.update_of_ne (by decide), hb]
    exact pairB_collect hu⟩
  refine ⟨_, _, h2, ?_, Function.update_self _ _ _, exchanged_cons (exchanged_cons hex)⟩
  exact (Function.update_of_ne (by decide) _ _).trans (Function.update_self _ _ _)

/-- `b` creates the session and subscribes, and the link is set, all at time 0. -/
theorem pairRun_setup : ∃ state past, PairRun 0 state [] past ∧ state "a" = pairA 0 ∧
    state "b" = pairB 0 ∧ Exchanged pairGraph (0 + second) past := by
  have h0 : PairRun 0 pairNode [] [] :=
    ⟨.start, fun _ _ _ hsuf => absurd (List.suffix_nil.mp hsuf) (by simp),
      fun _ _ _ => Or.inl (by decide)⟩
  have h1 := h0.own "b" (.call (.create ⟨0, 0⟩ ⟨0, 0⟩ "s" [] ∅)) createdB
    [("a", .ofSession (.create ⟨"s", "b", [], 0, ∅⟩))] ⟨by decide, trivial, rfl⟩
  have h2 := h1.deliver createdA [] rfl
  have h3 := h2.own "b" (.call (.update ⟨0, 0⟩ pairUpdate)) subscribedB
    [("a", .of (.subscriptionUpdate pairUpdate))] ⟨by decide, rfl, rfl⟩
  have h4 := h3.deliver toldA [] rfl
  have h5 := h4.own "a" (.call (.ping 0)) toldA [("b", .of (.ping ⟨0⟩))] ⟨by decide, trivial, rfl⟩
  have h6 := h5.deliver pingedB [("a", .of (.pong ⟨0, 0⟩))] rfl
  have h7 := h6.deliver linkedA [("b", .of (.topologyUpdate (linkedA.snapshot 1)))] rfl
  have h8 := h7.deliver linkedB [] rfl
  exact h8.beat rfl rfl

/-- A heartbeat every second, and a pass every ten. -/
theorem pairRun_rounds (k : Nat) (hk : k ≤ 310) : ∃ state past,
    PairRun (k * second) state [] past ∧ state "a" = pairA (k * second) ∧
      state "b" = pairB (k * second) ∧ Exchanged pairGraph (k * second + second) past := by
  induction k with
  | zero =>
    obtain ⟨state, past, h, ha, hb, hex⟩ := pairRun_setup
    rw [Nat.zero_mul]
    exact h.pass ha hb hex (by decide)
  | succ k ih =>
    obtain ⟨state, past, h, ha, hb, hex⟩ := ih (by omega)
    have hu : (k + 1) * second = k * second + second := Nat.succ_mul k second
    have hwait := h.wait hu (by rw [hu]; exact hex)
    obtain ⟨state', past', h', ha', hb', hex'⟩ := hwait.beat ha (by rw [hb]; exact pairB_ping _ _)
    by_cases hten : 10 ∣ k + 1 ∧ k + 1 ≤ 300
    · refine h'.pass ha' hb' hex' ?_
      exact Nat.mul_le_mul_right second hten.2
    · exact ⟨state', past', h', ha', hb', hex'⟩

/-- After 310 seconds `b` evicts its own session, while both nodes run and exchange
heartbeats every second. -/
theorem creator_evicts : ∃ past s,
    History (TimedStep pairGraph) ⟨0, ⟨pairNode, []⟩⟩ past s ∧ Exchanging pairGraph past ∧
      ¬ SparesLive pairGraph past := by
  obtain ⟨state, past, h, -, hb, -⟩ := pairRun_rounds 310 (le_refl _)
  have hlast := h.own "b" .collect _ _ ⟨by decide, rfl⟩
  have hlookup : (state "b").sessions.lookup "s" = some ⟨"s", "b", [], 0, ∅, [], 0, 0⟩ := by
    rw [hb]
    rfl
  refine ⟨_, _, hlast.run, hlast.exchanging, fun hspare => ?_⟩
  refine hspare _ "b" _ past (List.suffix_refl _) "s" _ hlookup (by decide)
    ((mem_evicted hlookup).mpr ?_)
  show isStale (310 * second) sessionTtl (state "b").nodeLastSeen _ = _
  rw [hb]
  decide

/-- For the first 300 seconds nothing is evicted. -/
theorem pair_spares : ∃ past s,
    History (TimedStep pairGraph) ⟨0, ⟨pairNode, []⟩⟩ past s ∧ s.now = 300 * second ∧
      Exchanging pairGraph past ∧ SparesLive pairGraph past := by
  obtain ⟨state, past, h, -, -, -⟩ := pairRun_rounds 300 (by decide)
  refine ⟨past, _, h.run, rfl, h.exchanging,
    (collect_spares_iff (by decide) (fun _ _ => rfl) h.run h.exchanging).mpr ?_⟩
  intro s v outs past' hsuf sid session _ _ _ t _
  have hnow : s.now ≤ 300 * second := now_le h.run _ (hsuf.subset List.mem_cons_self)
  exact hnow.trans (Nat.le_add_left _ _)

end

end Stric.Flow
