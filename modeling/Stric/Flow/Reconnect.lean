import Stric.Flow.PeerWriters

/-!
# Reconnection

When the control loop takes `PeerDisconnected` for a peer whose address is known, it starts a
reconnection loop, unless one runs.  The loop leaves when it finds the peer in the store, and
when a dial has succeeded; that the handshake has not even begun then does not hold it.

A peer is covered while something stands for it: a loop that has not decided to leave, a
disconnection in the queue, an open connection, or one that a loop has dialled and that is still
shaking hands.  Four kinds of step can take away the last cover of a peer (`Keeps`):

* the handshake of a connection that a loop has dialled fails,
* or it completes with another peer;
* a disconnection is taken from the queue while the loop is about to leave;
* the loop finds a dead connection in the store.

If they never do, no peer is orphaned (`no_peer_orphaned`).  The first alone is enough to lose a
peer for ever (`peer_orphaned`).  There is never more than one loop for a peer (`LoopsInv`).
-/

namespace Stric.Flow

open Stric.Pool

section
variable {γ δ : Type}

/-- Connection `k` was dialled by a loop of `p`, and is still shaking hands. -/
def ConnState.Redialling (s : ConnState γ δ) (p : NodeId) (k : Nat) : Prop :=
  ∃ c, s.conns k = some c ∧ c.setup = .handshaking ∧ c.dialledFor = some p

def ConnState.Serves (s : ConnState γ δ) (p : NodeId) (k : Nat) : Prop :=
  s.Open p k ∨ s.Redialling p k

/-- A loop of `p` runs that has not decided to leave. -/
def ConnState.Looping (s : ConnState γ δ) (p : NodeId) : Prop :=
  ∃ loop ∈ s.loops, loop.peer = p ∧ loop.phase ≠ .leaving

def ConnState.Covered (s : ConnState γ δ) (p : NodeId) : Prop :=
  s.Looping p ∨ .peerDisconnected p ∈ s.queue ∨ ∃ k, s.Serves p k

/-- Something other than connection `k` covers `p`. -/
def ConnState.CoveredBeside (s : ConnState γ δ) (p : NodeId) (k : Nat) : Prop :=
  s.Looping p ∨ .peerDisconnected p ∈ s.queue ∨ ∃ j, j ≠ k ∧ s.Serves p j

/-- The step does not take away the last cover of a peer. -/
def Keeps (s : ConnState γ δ) : ConnLabel → Prop
  | .conn k .fail => ∀ p, s.Redialling p k → s.CoveredBeside p k
  | .conn k (.complete q) => ∀ p, s.Redialling p k → q ≠ p → s.CoveredBeside p k
  | .process => ∀ p rest, s.queue = .peerDisconnected p :: rest →
      (∃ loop ∈ s.loops, loop.peer = p ∧ loop.phase = .leaving) →
      .peerDisconnected p ∈ rest ∨ ∃ k, s.Serves p k
  | .loop p .check => s.node.isConnected p → .peerDisconnected p ∈ s.queue ∨ ∃ k, s.Serves p k
  | .loop p .wake => s.node.isConnected p → .peerDisconnected p ∈ s.queue ∨ ∃ k, s.Serves p k
  | _ => True

/-- No control event is pending, and no connection is between its start and `add_connection`.  A
reader that has taken its connection out of the store and not yet sent `PeerDisconnected` has an
event pending. -/
structure ConnState.Quiet (s : ConnState γ δ) : Prop where
  queue : s.queue = []
  conns : ∀ k c, s.conns k = some c →
    (c.setup = .added ∨ c.setup = .finished ∨ c.setup = .failed) ∧ c.reader ≠ .removed

/-- Some connection of `p` has ended. -/
def Disconnected (p : NodeId) (past : ConnPast γ δ) : Prop :=
  ∃ s k, (s, .conn k (.hangUp p)) ∈ past

/-! ## One loop for a peer -/

/-- What each step of a loop needs and does. -/
theorem Loop.of_act {n n' : FlowNode γ δ} {loop : Loop} {act : LoopAct} {loop' : Option Loop}
    {dialled : Option (Nat × Conn)} (h : loop.act n act = some (n', loop', dialled)) :
    match act with
    | .check => loop.phase = .checking ∧ n' = n ∧
        loop' = some { loop with phase := if n.isConnected loop.peer then .leaving else .sleeping } ∧
        dialled = none
    | .wake => loop.phase = .sleeping ∧ n' = n ∧
        loop' = some { loop with phase := if n.isConnected loop.peer then .leaving else .dialling } ∧
        dialled = none
    | .redial k => loop.phase = .dialling ∧ n'.reconnectingPeers = n.reconnectingPeers ∧
        loop' = some { loop with phase := .leaving } ∧
        dialled = some (k, .opened loop.addr (some loop.peer))
    | .redialFails => loop.phase = .dialling ∧ n'.reconnectingPeers = n.reconnectingPeers ∧
        loop' = some { loop with phase := .checking } ∧ dialled = none
    | .leave => loop.phase = .leaving ∧
        n'.reconnectingPeers = n.reconnectingPeers.filter (fun p => p ≠ loop.peer) ∧
        loop' = none ∧ dialled = none := by
  cases act <;>
    simp only [Loop.act, Option.ite_none_right_eq_some, Option.some.injEq, Prod.mk.injEq] at h <;>
    obtain ⟨hphase, rfl, rfl, rfl⟩ := h <;>
    exact ⟨hphase, rfl, rfl, rfl⟩

/-- `reconnecting_peers` has the peers of the loops, each once. -/
structure LoopsInv (s : ConnState γ δ) : Prop where
  mem_iff : ∀ p, p ∈ s.node.reconnectingPeers ↔ p ∈ s.loops.map Loop.peer
  nodup : (s.loops.map Loop.peer).Nodup

theorem LoopsInv.congr {s s' : ConnState γ δ} (h : LoopsInv s)
    (hpeers : s'.node.reconnectingPeers = s.node.reconnectingPeers)
    (hloops : s'.loops.map Loop.peer = s.loops.map Loop.peer) : LoopsInv s' := by
  refine ⟨fun p => ?_, ?_⟩
  · rw [hpeers, hloops]
    exact h.mem_iff p
  · rw [hloops]
    exact h.nodup

/-- A loop takes a step: it stays a loop of its peer, or leaves. -/
theorem LoopsInv.act {s : ConnState γ δ} {n : FlowNode γ δ} {l₁ l₂ : List Loop} {loop : Loop}
    {act : LoopAct} {loop' : Option Loop} {dialled : Option (Nat × Conn)}
    {conns : Nat → Option Conn} (h : LoopsInv s) (hl : s.loops = l₁ ++ loop :: l₂)
    (hact : loop.act s.node act = some (n, loop', dialled)) :
    LoopsInv ⟨n, s.queue, conns, l₁ ++ loop'.toList ++ l₂⟩ := by
  have hof := Loop.of_act hact
  cases act with
  | leave =>
    obtain ⟨-, hpeers, rfl, -⟩ := hof
    have hnodup := h.nodup
    have hmem := h.mem_iff
    simp only [hl, List.map_append, List.map_cons] at hnodup hmem
    rw [List.nodup_middle, List.nodup_cons, List.mem_append, not_or] at hnodup
    obtain ⟨⟨h₁, h₂⟩, hnodup⟩ := hnodup
    refine ⟨fun p => ?_, by simpa using hnodup⟩
    have hp : p = loop.peer → p ∉ l₁.map Loop.peer ∧ p ∉ l₂.map Loop.peer := by
      rintro rfl
      exact ⟨h₁, h₂⟩
    simp only [hpeers, List.mem_filter, hmem p, List.mem_append, List.mem_cons, Option.toList_none,
      List.append_nil, List.map_append, decide_eq_true_eq]
    tauto
  | _ =>
    obtain ⟨-, hpeers, rfl, -⟩ := hof
    refine h.congr (by first | exact hpeers | rw [hpeers]) ?_
    simp [hl]

variable [PetGraph γ] {s s' init : ConnState γ δ} {l : ConnLabel} {past : ConnPast γ δ}

theorem LoopsInv.process (h : LoopsInv s) (clock : Clock) (event : ControlEvent)
    (rest : List ControlEvent) :
    LoopsInv { s with
      node := (s.node.controlStep clock event).1
      queue := rest
      loops := s.loops ++ (s.node.startsLoop event).toList } := by
  cases event with
  | peerConnected id tx => exact h.congr rfl (by simp [FlowNode.startsLoop])
  | controlMsgReceived sender msg =>
    exact h.congr (sameLinks_of_onMessage rfl).reconnectingPeers (by simp [FlowNode.startsLoop])
  | peerDisconnected id =>
    cases haddr : s.node.peerAddresses.lookup id with
    | none =>
      refine h.congr ?_ (by simp [FlowNode.startsLoop, haddr])
      simp [FlowNode.controlStep, haddr]
    | some a =>
      have hpeers : (s.node.controlStep clock (.peerDisconnected id)).1.reconnectingPeers =
          s.node.reconnectingPeers.insert id := by
        simp [FlowNode.controlStep, haddr]
      by_cases hid : id ∈ s.node.reconnectingPeers
      · refine h.congr ?_ (by simp [FlowNode.startsLoop, haddr, hid])
        rw [hpeers, List.insert_of_mem hid]
      · have hfresh : id ∉ s.loops.map Loop.peer := fun hmem => hid ((h.mem_iff id).mpr hmem)
        have hloops : (s.loops ++ (s.node.startsLoop (.peerDisconnected id)).toList).map Loop.peer =
            s.loops.map Loop.peer ++ [id] := by
          simp [FlowNode.startsLoop, haddr, hid]
        refine ⟨fun p => ?_, ?_⟩
        · rw [hpeers, hloops, List.mem_insert_iff, List.mem_append, List.mem_singleton, h.mem_iff p,
            or_comm]
        · rw [hloops, List.nodup_append_comm, List.singleton_append, List.nodup_cons]
          exact ⟨hfresh, h.nodup⟩

theorem LoopsInv.step (h : LoopsInv s) (hs : ConnStep s l s') : LoopsInv s' := by
  cases hs with
  | conn _ hact _ => exact h.congr (Conn.act_view hact).2 rfl
  | process _ => exact h.process _ _ _
  | loop hl hact => exact h.act hl hact
  | redial hl hact _ => exact h.act hl hact
  | _ => exact h.congr rfl rfl

theorem LoopsInv.run (hinit : init.Initial) (h : History ConnStep init past s) : LoopsInv s := by
  refine h.invariant LoopsInv ⟨fun p => ?_, ?_⟩ fun _ _ _ => LoopsInv.step
  · rw [hinit.reconnectingPeers, hinit.loops]
    rfl
  · rw [hinit.loops]
    exact List.nodup_nil

/-! ## Covers -/

theorem ConnState.Redialling.step {p : NodeId} {k : Nat} (h : s.Redialling p k)
    (hstore : StoreInv past s) (hs : ConnStep s l s') :
    s'.Serves p k ∨ l = .conn k .fail ∨ ∃ q, q ≠ p ∧ l = .conn k (.complete q) := by
  obtain ⟨c, hk, hsetup, hd⟩ := h
  rcases hs.conn_cases hk with hmoved | ⟨act, c', event, rfl, hact, hmoved⟩
  · exact Or.inl (Or.inr ⟨c, hmoved, hsetup, hd⟩)
  · obtain ⟨hpeer, hreader⟩ := (hstore.at hk).1.of_handshaking hsetup
    have hof := Conn.of_act hact
    cases act with
    | fail => exact Or.inr (Or.inl rfl)
    | complete q =>
      by_cases hq : q = p
      · subst hq
        obtain ⟨-, -, rfl, -⟩ := hof
        refine Or.inl (Or.inl ⟨_, hmoved, rfl, ?_⟩)
        show c.reader ≠ .ended
        rw [hreader]
        decide
      · exact Or.inr (Or.inr ⟨q, hq, rfl⟩)
    | writeError =>
      obtain ⟨-, -, rfl, -⟩ := hof
      exact Or.inl (Or.inr ⟨_, hmoved, hsetup, hd⟩)
    -- the reader is not spawned yet
    | receive _ => rw [hreader] at hof; exact absurd hof.1 (by decide)
    | readError => rw [hreader] at hof; exact absurd hof.1 (by decide)
    | hangUp _ => rw [hreader] at hof; exact absurd hof.1.1 (by decide)
    | _ => rw [hsetup] at hof; exact absurd hof.1 (by decide)

/-- A hang-up is queued. -/
theorem ConnStep.hangUp_queued {p : NodeId} {k : Nat} (hs : ConnStep s (.conn k (.hangUp p)) s') :
    .peerDisconnected p ∈ s'.queue := by
  cases hs with
  | conn _ hact _ =>
    obtain ⟨-, -, -, rfl⟩ := Conn.of_act hact
    exact List.mem_append_right _ (List.mem_singleton_self _)

/-- A loop is left alone, or takes a step. -/
theorem ConnStep.loops_cases {loop : Loop} (hs : ConnStep s l s') (hl : loop ∈ s.loops) :
    loop ∈ s'.loops ∨ ∃ act n loop' dialled, l = .loop loop.peer act ∧
      loop.act s.node act = some (n, loop', dialled) ∧ (∀ x ∈ loop', x ∈ s'.loops) ∧
      s'.queue = s.queue ∧ match dialled with
        | none => s'.conns = s.conns
        | some (k, c) => s'.conns k = some c := by
  cases hs with
  | process _ => exact Or.inl (List.mem_append_left _ hl)
  | @loop l₁ l₂ loop₀ act n loop' heq hact =>
    rw [heq, List.mem_append, List.mem_cons] at hl
    rcases hl with hl | rfl | hl
    · exact Or.inl (by simp [hl])
    · refine Or.inr ⟨act, n, loop', none, rfl, hact, fun x hx => ?_, rfl, rfl⟩
      simp [Option.mem_def.mp hx]
    · exact Or.inl (by simp [hl])
  | @redial l₁ l₂ loop₀ act n loop' k c heq hact hk =>
    rw [heq, List.mem_append, List.mem_cons] at hl
    rcases hl with hl | rfl | hl
    · exact Or.inl (by simp [hl])
    · refine Or.inr ⟨act, n, loop', some (k, c), rfl, hact, fun x hx => ?_, rfl, ?_⟩
      · simp [Option.mem_def.mp hx]
      · exact Function.update_self k (some c) s.conns
    · exact Or.inl (by simp [hl])
  | _ => exact Or.inl hl

/-- An event stays in the queue, or the control loop takes it. -/
theorem ConnStep.queue_cases {event : ControlEvent} (hs : ConnStep s l s')
    (he : event ∈ s.queue) : event ∈ s'.queue ∨ ∃ rest, l = .process ∧ s.queue = event :: rest ∧
      s'.queue = rest ∧ s'.conns = s.conns ∧
      s'.loops = s.loops ++ (s.node.startsLoop event).toList := by
  cases hs with
  | conn _ _ _ => exact Or.inl (List.mem_append_left _ he)
  | post _ => exact Or.inl (List.mem_append_left _ he)
  | @process clock event₀ rest hq =>
    rw [hq] at he
    rcases List.mem_cons.mp he with rfl | he
    · exact Or.inr ⟨rest, rfl, hq, rfl, rfl, rfl⟩
    · exact Or.inl he
  | _ => exact Or.inl he

omit [PetGraph γ] in
theorem ConnState.Serves.congr {p : NodeId} {k : Nat} (h : s.Serves p k)
    (hconns : s'.conns = s.conns) : s'.Serves p k := by
  unfold ConnState.Serves ConnState.Open ConnState.Redialling at h ⊢
  rw [hconns]
  exact h

theorem covered_of_looping {p : NodeId} (hs : ConnStep s l s') (hkeeps : Keeps s l)
    (h : s.Looping p) : s'.Covered p := by
  obtain ⟨loop, hmem, rfl, hphase⟩ := h
  rcases hs.loops_cases hmem with hmem' | ⟨act, n, loop', dialled, rfl, hact, hin, hq, hconns⟩
  · exact Or.inl ⟨loop, hmem', rfl, hphase⟩
  · have hof := Loop.of_act hact
    -- what covers the peer when the loop decides to leave
    have hkept : (.peerDisconnected loop.peer ∈ s.queue ∨ ∃ k, s.Serves loop.peer k) →
        s'.conns = s.conns → s'.Covered loop.peer := by
      rintro (hd | ⟨k, hk⟩) hsame
      · exact Or.inr (Or.inl (hq ▸ hd))
      · exact Or.inr (Or.inr ⟨k, hk.congr hsame⟩)
    cases act with
    | check =>
      obtain ⟨-, -, rfl, rfl⟩ := hof
      by_cases hc : s.node.isConnected loop.peer
      · exact hkept (hkeeps hc) hconns
      · exact Or.inl ⟨_, hin _ rfl, rfl, by simp [hc]⟩
    | wake =>
      obtain ⟨-, -, rfl, rfl⟩ := hof
      by_cases hc : s.node.isConnected loop.peer
      · exact hkept (hkeeps hc) hconns
      · exact Or.inl ⟨_, hin _ rfl, rfl, by simp [hc]⟩
    | redial k =>
      obtain ⟨-, -, -, rfl⟩ := hof
      exact Or.inr (Or.inr ⟨k, Or.inr ⟨_, hconns, rfl, rfl⟩⟩)
    | redialFails =>
      obtain ⟨-, -, rfl, -⟩ := hof
      exact Or.inl ⟨_, hin _ rfl, rfl, by simp⟩
    | leave => exact absurd hof.1 hphase

theorem covered_of_queued {p : NodeId} (hs : ConnStep s l s') (hkeeps : Keeps s l)
    (hloops : LoopsInv s) (hp : p ∈ s.node.peerAddresses) (h : .peerDisconnected p ∈ s.queue) :
    s'.Covered p := by
  rcases hs.queue_cases h with hq | ⟨rest, rfl, hq, hq', hconns, hl⟩
  · exact Or.inr (Or.inl hq)
  · obtain ⟨a, ha⟩ := Option.isSome_iff_exists.mp (AList.lookup_isSome.mpr hp)
    by_cases hrec : p ∈ s.node.reconnectingPeers
    · obtain ⟨loop, hmem, rfl⟩ := List.mem_map.mp ((hloops.mem_iff p).mp hrec)
      by_cases hphase : loop.phase = .leaving
      · rcases hkeeps _ rest hq ⟨loop, hmem, rfl, hphase⟩ with hd | ⟨k, hk⟩
        · exact Or.inr (Or.inl (hq' ▸ hd))
        · exact Or.inr (Or.inr ⟨k, hk.congr hconns⟩)
      · exact Or.inl ⟨loop, by rw [hl]; exact List.mem_append_left _ hmem, rfl, hphase⟩
    · refine Or.inl ⟨⟨p, a.1, a.2, .checking⟩, ?_, rfl, nofun⟩
      rw [hl]
      simp [FlowNode.startsLoop, ha, hrec]

/-- If connection `k` is lost, what covers the peer beside it stays. -/
theorem covered_of_beside {p : NodeId} {k : Nat} {act : ConnAct} (hs : ConnStep s (.conn k act) s')
    (hstore : StoreInv past s) (h : s.CoveredBeside p k) : s'.Covered p := by
  rcases h with ⟨loop, hmem, hpeer, hphase⟩ | hd | ⟨j, hj, hserves⟩
  · rcases hs.loops_cases hmem with hmem' | ⟨_, _, _, _, hl, -⟩
    · exact Or.inl ⟨loop, hmem', hpeer, hphase⟩
    · cases hl
  · rcases hs.queue_cases hd with hq | ⟨_, hl, -⟩
    · exact Or.inr (Or.inl hq)
    · cases hl
  · have hother : ∀ act', ConnLabel.conn k act ≠ .conn j act' := by
      rintro act' heq
      cases heq
      exact hj rfl
    refine Or.inr (Or.inr ⟨j, ?_⟩)
    rcases hserves with hopen | hre
    · exact Or.inl ((hopen.step hstore hs).resolve_right (hother _))
    · rcases hre.step hstore hs with hserves | hl | ⟨q, -, hl⟩
      · exact hserves
      · exact absurd hl (hother _)
      · exact absurd hl (hother _)

theorem covered_of_serves {p : NodeId} {k : Nat} (hs : ConnStep s l s') (hkeeps : Keeps s l)
    (hstore : StoreInv past s) (h : s.Serves p k) : s'.Covered p := by
  rcases h with hopen | hre
  · rcases hopen.step hstore hs with hopen | rfl
    · exact Or.inr (Or.inr ⟨k, Or.inl hopen⟩)
    · exact Or.inr (Or.inl hs.hangUp_queued)
  · rcases hre.step hstore hs with hserves | rfl | ⟨q, hq, rfl⟩
    · exact Or.inr (Or.inr ⟨k, hserves⟩)
    · exact covered_of_beside hs hstore (hkeeps p hre)
    · exact covered_of_beside hs hstore (hkeeps p hre hq)

theorem ConnState.Covered.step {p : NodeId} (h : s.Covered p) (hs : ConnStep s l s')
    (hkeeps : Keeps s l) (hstore : StoreInv past s) (hloops : LoopsInv s)
    (hp : p ∈ s.node.peerAddresses) : s'.Covered p := by
  rcases h with hl | hq | ⟨k, hk⟩
  · exact covered_of_looping hs hkeeps hl
  · exact covered_of_queued hs hkeeps hloops hp hq
  · exact covered_of_serves hs hkeeps hstore hk

/-- An address becomes known when a handshake with its peer completes. -/
theorem ConnStep.known_cases {p : NodeId} (hs : ConnStep s l s')
    (hstore : StoreInv past s) (hp : p ∈ s'.node.peerAddresses) :
    p ∈ s.node.peerAddresses ∨ ∃ k, s'.Open p k := by
  cases hs with
  | @conn k act c c' n event hk hact _ =>
    have hof := Conn.of_act hact
    cases act with
    | complete q =>
      obtain ⟨hsetup, rfl, rfl, -⟩ := hof
      rcases (AList.mem_insert _).mp hp with rfl | hp
      · refine Or.inr ⟨k, _, Function.update_self .., rfl, ?_⟩
        show c.reader ≠ .ended
        rw [((hstore.at hk).1.of_handshaking hsetup).2]
        decide
      · exact Or.inl hp
    | _ =>
      obtain ⟨-, rfl, -⟩ := hof
      exact Or.inl hp
  | process _ =>
    rw [(controlStep_links _ _ _).2] at hp
    exact Or.inl hp
  | loop _ hact =>
    rw [(Loop.act_view hact).2.2] at hp
    exact Or.inl hp
  | redial _ hact _ =>
    rw [(Loop.act_view hact).2.2] at hp
    exact Or.inl hp
  | _ => exact Or.inl hp

/-- Every peer that has been disconnected is covered, as long as every step keeps its cover. -/
theorem covered_run (hinit : init.Initial) (h : History ConnStep init past s)
    (hkeeps : ∀ e ∈ past, Keeps e.1 e.2) :
    ∀ p ∈ s.node.peerAddresses, Disconnected p past → s.Covered p := by
  induction h with
  | start =>
    rintro p - ⟨s, k, hmem⟩
    exact absurd hmem List.not_mem_nil
  | @step past s s' l hrun hs ih =>
    obtain ⟨hnow, hbefore⟩ := List.forall_mem_cons.mp hkeeps
    rintro p hp ⟨s₀, k, hmem⟩
    rcases List.mem_cons.mp hmem with heq | hmem
    · obtain ⟨rfl, rfl⟩ := Prod.mk.inj heq
      exact Or.inr (Or.inl hs.hangUp_queued)
    · rcases hs.known_cases (StoreInv.run hinit hrun) hp with hknown | ⟨j, hj⟩
      · exact (ih hbefore p hknown ⟨s₀, k, hmem⟩).step hs hnow (StoreInv.run hinit hrun)
          (LoopsInv.run hinit hrun) hknown
      · exact Or.inr (Or.inr ⟨j, Or.inl hj⟩)

omit [PetGraph γ] in
/-- When all is quiet, a connection that serves a peer is in the store, and its reader runs. -/
theorem ConnState.Quiet.stored {p : NodeId} {k : Nat} (h : s.Quiet) (hstore : StoreInv past s)
    (hserves : s.Serves p k) : ∃ c, s.conns k = some c ∧ c.reader = .running ∧
      s.node.store.lookup k = some (some p) := by
  rcases hserves with ⟨c, hk, hp, hr⟩ | ⟨c, hk, hsetup, -⟩
  · obtain ⟨hsetup, hremoved⟩ := h.conns k c hk
    refine ⟨c, hk, ?_⟩
    have hfits := (hstore.at hk).1
    generalize s.node.store.lookup k = entry at hfits ⊢
    cases hfits with
    | live _ =>
      cases hp
      exact ⟨rfl, rfl⟩
    | dead _ hdead _ =>
      rcases hdead with rfl | rfl
      · exact absurd rfl hremoved
      · exact absurd rfl hr
    | _ => simp_all
  · have := (h.conns k c hk).1
    rw [hsetup] at this
    simp at this

/-- **No peer is orphaned.**  There are never two reconnection loops for a peer.  If no step takes
away the last cover of a peer, then, whenever no control event is pending and no connection is
being set up, every known peer that has been disconnected has an open connection in the store,
or a reconnection loop that has not decided to leave. -/
theorem no_peer_orphaned (hinit : init.Initial) (h : History ConnStep init past s)
    (hkeeps : ∀ e ∈ past, Keeps e.1 e.2) : (s.loops.map Loop.peer).Nodup ∧
      (s.Quiet → ∀ p ∈ s.node.peerAddresses, Disconnected p past →
        (∃ k c, s.conns k = some c ∧ c.reader = .running ∧
          s.node.store.lookup k = some (some p)) ∨ s.Looping p) := by
  refine ⟨(LoopsInv.run hinit h).nodup, fun hquiet p hp hdisc => ?_⟩
  rcases covered_run hinit h hkeeps p hp hdisc with hl | hq | ⟨k, hk⟩
  · exact Or.inr hl
  · rw [hquiet.queue] at hq
    exact absurd hq List.not_mem_nil
  · exact Or.inl ⟨k, hquiet.stored (StoreInv.run hinit h) hk⟩

end

/-! ## A redial whose handshake fails -/

section
variable {γ δ : Type} [PetGraph γ] {init s : ConnState γ δ} {past : ConnPast γ δ}

theorem looped (h : History ConnStep init past s) (act : LoopAct) {loop : Loop}
    {n : FlowNode γ δ} {loop' : Option Loop} (hl : s.loops = [loop])
    (hact : loop.act s.node act = some (n, loop', none)) :
    History ConnStep init ((s, .loop loop.peer act) :: past)
      { s with node := n, loops := loop'.toList } := by
  have hs := ConnStep.loop (show s.loops = [] ++ loop :: [] from hl) hact
  rw [List.nil_append, List.append_nil] at hs
  exact h.step hs

theorem redialled (h : History ConnStep init past s) (k : Nat) {loop : Loop}
    {n : FlowNode γ δ} {loop' : Option Loop} {c : Conn} (hl : s.loops = [loop])
    (hact : loop.act s.node (.redial k) = some (n, loop', some (k, c))) (hk : s.conns k = none) :
    History ConnStep init ((s, .loop loop.peer (.redial k)) :: past)
      { s with node := n, loops := loop'.toList, conns := Function.update s.conns k (some c) } := by
  have hs := ConnStep.redial (show s.loops = [] ++ loop :: [] from hl) hact hk
  rw [List.nil_append, List.append_nil] at hs
  exact h.step hs

end

/-- The peer hangs up, its loop dials it again and leaves, and then the handshake fails: nothing
is left that would reconnect to the peer. -/
theorem peer_orphaned : ∃ past s, History ConnStep bare past s ∧ s.Quiet ∧
    "b" ∈ s.node.peerAddresses ∧ Disconnected "b" past ∧ s.node.store = ∅ ∧ s.loops = [] := by
  have h1 := accepted (.start : History ConnStep bare [] bare) 1 "x" rfl
  have h2 := acted h1 1 (.complete "b") rfl rfl (by decide)
  have h3 := acted h2 1 .spawn rfl rfl (by decide)
  have h4 := acted h3 1 .add rfl rfl (by decide)
  have h5 := acted h4 1 .finish rfl rfl (by decide)
  have h6 := acted h5 1 .readError rfl rfl (by decide)
  have h7 := acted h6 1 (.hangUp "b") rfl rfl (by decide)
  have h8 := processed (processed h7 rfl) rfl
  have h9 := looped (looped h8 .check rfl rfl) .wake rfl rfl
  have h10 := looped (redialled h9 2 rfl rfl rfl) .leave rfl rfl
  have h11 := acted h10 2 .fail rfl rfl (by decide)
  refine ⟨_, _, h11, ⟨rfl, ?_⟩, by decide, ⟨_, 1,
    List.mem_of_mem_drop (i := 7) (.head _)⟩, rfl, rfl⟩
  exact forall_conns _ rfl rfl (fun k h1 h2 => by simp [h1, h2, bare])
    ⟨Or.inr (Or.inl rfl), by decide⟩ ⟨Or.inr (Or.inr rfl), by decide⟩

/-- If the handshake succeeds, the peer has its connection in the store. -/
theorem peer_reconnected : ∃ past s, History ConnStep bare past s ∧ s.Quiet ∧
    "b" ∈ s.node.peerAddresses ∧ Disconnected "b" past ∧
    ((∃ k c, s.conns k = some c ∧ c.reader = .running ∧
      s.node.store.lookup k = some (some "b")) ∨ s.Looping "b") := by
  have h1 := accepted (.start : History ConnStep bare [] bare) 1 "x" rfl
  have h2 := acted h1 1 (.complete "b") rfl rfl (by decide)
  have h3 := acted h2 1 .spawn rfl rfl (by decide)
  have h4 := acted h3 1 .add rfl rfl (by decide)
  have h5 := acted h4 1 .finish rfl rfl (by decide)
  have h6 := acted h5 1 .readError rfl rfl (by decide)
  have h7 := acted h6 1 (.hangUp "b") rfl rfl (by decide)
  have h8 := processed (processed h7 rfl) rfl
  have h9 := looped (looped h8 .check rfl rfl) .wake rfl rfl
  have h10 := looped (redialled h9 2 rfl rfl rfl) .leave rfl rfl
  have h11 := acted h10 2 (.complete "b") rfl rfl (by decide)
  have h12 := acted h11 2 .spawn rfl rfl (by decide)
  have h13 := acted h12 2 .add rfl rfl (by decide)
  have h14 := acted h13 2 .finish rfl rfl (by decide)
  have h15 := processed h14 rfl
  refine ⟨_, _, h15, ?quiet, by decide, ?disconnected,
    (no_peer_orphaned bare_initial h15 ?keeps).2 ?quiet "b" (by decide) ?disconnected⟩
  case disconnected =>
    refine ⟨_, 1, List.mem_of_mem_drop (i := 11) (.head _)⟩
  case quiet =>
    exact ⟨rfl, forall_conns _ rfl rfl (fun k h1 h2 => by simp [h1, h2, bare])
      ⟨Or.inr (Or.inl rfl), by decide⟩ ⟨Or.inr (Or.inl rfl), by decide⟩⟩
  case keeps =>
    simp only [List.forall_mem_cons]
    refine ⟨?_, trivial, trivial, trivial, ?_, trivial, trivial, ?_, ?_, ?_, ?_, trivial, trivial,
      trivial, trivial, trivial, ?_, trivial, fun e he => absurd he List.not_mem_nil⟩
    · rintro p rest hq
      cases hq
    · rintro p ⟨c, hk, -, hd⟩ hne
      cases hk
      cases hd
      exact absurd rfl hne
    · exact fun h => absurd h (by decide)
    · exact fun h => absurd h (by decide)
    · rintro p rest - ⟨loop, hmem, -⟩
      exact absurd hmem List.not_mem_nil
    · rintro p rest hq
      cases hq
    · rintro p ⟨c, hk, -, hd⟩
      cases hk
      cases hd

end Stric.Flow
