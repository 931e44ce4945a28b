import Stric.Flow.Mesh

/-!
# Session state in a mesh

Every node holds the session `sid`; the application calls `sync_session_state` at any of
them, and the control loops pass `StateSync`s on.  This module says once what the two
operations do to the record of the session, with (`mergeSync`) and without a merge
function, and that relaying to all peers but the one the message came from is enough
(`tells_of_gossip`).  A call that the merge function refuses has already stamped the session
(`syncSessionState_atomic_iff`).
-/

namespace Stric.Flow

open Stric.Pool

/-- A call of `sync_session_state`, with the version it gives the session. -/
structure Write where
  clock : Clock
  data : Bytes
  version : UInt64

section
variable {γ δ : Type} [PetGraph γ]

/-- Control loops, and calls of `sync_session_state` that meet `Guard` in the state of the
session before the call. -/
def syncs (g : PeerGraph) (sid : String) (Guard : Session → Write → Prop) :
    Protocol NodeId (FlowNode γ δ) ControlMessage Write where
  recv _ sender msg n n' outs := receives sender msg n n' outs
  own v w n n' outs := v ∈ g.nodes ∧ ∃ session result, n.sessions.lookup sid = some session ∧
    w.version = session.stateVersion + 1 ∧ Guard session w ∧
    n.syncSessionState w.clock sid w.data = (n', outs, result)

/-- The calls of a trace, the latest first. -/
def writes (trace : List (Event NodeId ControlMessage Write)) : List Write :=
  trace.filterMap fun e => match e with
    | .own _ w _ => some w
    | .deliver _ _ => none

@[simp] theorem writes_own (v : NodeId) (w : Write) (outs : List Send)
    (trace : List (Event NodeId ControlMessage Write)) :
    writes (.own v w outs :: trace) = w :: writes trace := rfl

/-! ## The two operations -/

/-- The message a node relays when a sync has changed its session. -/
def relayed (n : FlowNode γ δ) (sync : SessionStateSync) (session : Session) : ControlMessage :=
  .ofSession (.stateSync { sync with
    sender := n.nodeId
    timestamp := session.stateTimestamp
    version := session.stateVersion
    data := session.stateData })

/-- A `StateSync` for a session the node holds is merged in and relayed, or dropped. -/
theorem onMessage_stateSync (clock : Clock) (n : FlowNode γ δ) (sender : NodeId)
    (sync : SessionStateSync) {session : Session}
    (hs : n.sessions.lookup sync.sessionId = some session) {n' : FlowNode γ δ} {outs : List Send}
    (h : n.onMessage clock sender (.ofSession (.stateSync sync)) = (n', outs)) :
    (∃ session', FlowNode.mergeSync (n.mergeFns.lookup sync.sessionId) session sync = some session' ∧
      n'.sessions.lookup sync.sessionId = some session' ∧
      outs = n.gossip sender sync.sender (relayed n sync session')) ∨
    (FlowNode.mergeSync (n.mergeFns.lookup sync.sessionId) session sync = none ∧
      n'.sessions.lookup sync.sessionId = some session ∧ outs = []) := by
  change (FlowNode.seen clock n sender).onStateSync sender sync = _ at h
  unfold FlowNode.onStateSync at h
  simp only [FlowNode.seen, hs] at h
  cases hm : FlowNode.mergeSync (n.mergeFns.lookup sync.sessionId) session sync with
  | none =>
    simp only [hm, Prod.mk.injEq] at h
    obtain ⟨rfl, rfl⟩ := h
    exact Or.inr ⟨rfl, hs, rfl⟩
  | some session' =>
    simp only [hm, Prod.mk.injEq] at h
    obtain ⟨rfl, rfl⟩ := h
    exact Or.inl ⟨session', rfl, AList.lookup_insert _, rfl⟩

/-- The message a write broadcasts. -/
def announced (n : FlowNode γ δ) (sid : String) (w : Write) : ControlMessage :=
  .ofSession (.stateSync
    { sessionId := sid
      sender := n.nodeId
      mode := SyncMode.snapshot.toI32
      timestamp := w.clock.millis
      version := w.version
      data := w.data
      codec := Codec.raw.toI32 })

omit [PetGraph γ] in
/-- A write that the merge function does not refuse. -/
theorem syncSessionState_ok {n n' : FlowNode γ δ} {sid : String} {w : Write} {session : Session}
    {outs : List Send} {result : Except FlowError Unit} (merged : Bytes)
    (hs : n.sessions.lookup sid = some session) (hw : w.version = session.stateVersion + 1)
    (hm : FlowNode.mergeLocal (n.mergeFns.lookup sid) session.stateData w.data = .ok merged)
    (h : n.syncSessionState w.clock sid w.data = (n', outs, result)) :
    SameHost n n' ∧
    n'.sessions.lookup sid = some { session with
      stateVersion := w.version, stateTimestamp := w.clock.millis, stateData := merged } ∧
    outs = n.broadcast (announced n sid w) := by
  unfold FlowNode.syncSessionState at h
  simp only [hs, hm, Prod.mk.injEq] at h
  obtain ⟨rfl, rfl, -⟩ := h
  refine ⟨⟨rfl, rfl, rfl, rfl⟩, ?_, ?_⟩
  · rw [hw]
    exact AList.lookup_insert _
  · unfold announced
    rw [hw]
    rfl

/-! ## Calls that fail -/

/-- A call that returns an error has changed no session and sent nothing. -/
def AtomicOnError (n : FlowNode γ δ)
    (call : FlowNode γ δ × List Send × Except FlowError Unit) : Prop :=
  ∀ e, call.2.2 = .error e → call.1.sessions = n.sessions ∧ call.2.1 = []

/-- The stamp that a call of `sync_session_state` gives the session before it merges. -/
def stamped (clock : Clock) (session : Session) : Session :=
  { session with stateVersion := session.stateVersion + 1, stateTimestamp := clock.millis }

theorem u64_succ_ne (v : UInt64) : v + 1 ≠ v := by
  intro h
  have := congrArg UInt64.toNat h
  rw [UInt64.toNat_add] at this
  have hlt := v.toNat_lt
  have hone : (1 : UInt64).toNat = 1 := rfl
  omega

omit [PetGraph γ] in
/-- A merge failure leaves the session with a new version and timestamp. -/
theorem syncSessionState_refused {n : FlowNode γ δ} (clock : Clock) {sid : String} {data : Bytes}
    {session : Session} {e : String} (hs : n.sessions.lookup sid = some session)
    (hm : FlowNode.mergeLocal (n.mergeFns.lookup sid) session.stateData data = .error e) :
    n.syncSessionState clock sid data =
      ({ n with sessions := n.sessions.insert sid (stamped clock session) }, [],
        .error (.session ("Local merge error: " ++ e))) := by
  unfold FlowNode.syncSessionState
  simp only [hs, hm]
  rfl

omit [PetGraph γ] in
/-- **When `sync_session_state` is atomic on error**: an unknown session leaves everything as it
was, but a merge failure does not. -/
theorem syncSessionState_atomic_iff (clock : Clock) (n : FlowNode γ δ) (sid : String)
    (data : Bytes) : AtomicOnError n (n.syncSessionState clock sid data) ↔
      ∀ session e, n.sessions.lookup sid = some session →
        FlowNode.mergeLocal (n.mergeFns.lookup sid) session.stateData data ≠ .error e := by
  constructor
  · intro h session e hs hm
    have hcall := syncSessionState_refused clock hs hm
    rw [hcall] at h
    obtain ⟨hsame, -⟩ := h _ rfl
    -- the session found afterwards has another version
    have hl : (n.sessions.insert sid (stamped clock session)).lookup sid = some session := by
      rw [show n.sessions.insert sid (stamped clock session) = n.sessions from hsame]
      exact hs
    rw [AList.lookup_insert] at hl
    have hversion := congrArg Session.stateVersion (Option.some.inj hl)
    exact u64_succ_ne session.stateVersion hversion
  · intro h e he
    unfold FlowNode.syncSessionState at he ⊢
    cases hs : n.sessions.lookup sid with
    | none => exact ⟨rfl, rfl⟩
    | some session =>
      simp only [hs] at he
      cases hm : FlowNode.mergeLocal (n.mergeFns.lookup sid) session.stateData data with
      | error e' => exact absurd hm (h session e' hs)
      | ok merged => simp [hm] at he

/-- A node with one session, whose merge function refuses everything. -/
def refusing : FlowNode VecGraph Unit :=
  ((FlowNode.new "a" ∅).createSession ⟨0, 10⟩ ⟨0, 10⟩ "s" [] ∅).1.registerMergeFn "s"
    fun _ _ => .error "no"

/-- The call returns an error, and the session has moved from version 0 to version 1 and from
timestamp 0 to the time of the call. -/
theorem refused_write_stamps : ¬ AtomicOnError refusing (refusing.syncSessionState ⟨5, 20⟩ "s" [1]) ∧
    (refusing.syncSessionState ⟨5, 20⟩ "s" [1]).2.2 = .error (.session "Local merge error: no") ∧
    (refusing.sessions.lookup "s").map (fun s => (s.stateVersion, s.stateTimestamp)) =
      some (0, 0) ∧
    ((refusing.syncSessionState ⟨5, 20⟩ "s" [1]).1.sessions.lookup "s").map
      (fun s => (s.stateVersion, s.stateTimestamp)) = some (1, 20) := by
  have hversion : ((refusing.syncSessionState ⟨5, 20⟩ "s" [1]).1.sessions.lookup "s").map
      (fun s => (s.stateVersion, s.stateTimestamp)) = some (1, 20) := by decide +kernel
  have hbefore : (refusing.sessions.lookup "s").map (fun s => (s.stateVersion, s.stateTimestamp)) =
      some (0, 0) := by decide +kernel
  refine ⟨fun h => ?_, rfl, hbefore, hversion⟩
  obtain ⟨hsame, -⟩ := h _ rfl
  rw [hsame, hbefore] at hversion
  exact absurd hversion (by decide)

/-! ## What a step at one node keeps -/

section
variable {g : PeerGraph} {net : Net NodeId (FlowNode γ δ) ControlMessage} {sid : String}
  {v : NodeId} {n' : FlowNode γ δ} {rest : List (Packet NodeId ControlMessage)} {outs : List Send}

omit [PetGraph γ] in
theorem mergeFns_act {mergeFn : Option StateMergeFn} (hsame : SameHost (net.state v) n')
    (h : ∀ u ∈ g.nodes, (net.state u).mergeFns.lookup sid = mergeFn) :
    ∀ u ∈ g.nodes, ((Net.act net.state rest v n' outs).state u).mergeFns.lookup sid = mergeFn := by
  refine Net.act_forall (fun u (n : FlowNode γ δ) => u ∈ g.nodes → n.mergeFns.lookup sid = mergeFn)
    (fun hv => ?_) h
  rw [hsame.mergeFns]
  exact h v hv

omit [PetGraph γ] in
theorem holds_act {session : Session} (hs : n'.sessions.lookup sid = some session)
    (h : ∀ u ∈ g.nodes, ∃ session, (net.state u).sessions.lookup sid = some session) :
    ∀ u ∈ g.nodes, ∃ session,
      ((Net.act net.state rest v n' outs).state u).sessions.lookup sid = some session :=
  Net.act_forall
    (fun u (n : FlowNode γ δ) => u ∈ g.nodes → ∃ session, n.sessions.lookup sid = some session)
    (fun _ => ⟨session, hs⟩) h

end

/-! ## Telling the peers -/

section
variable {L : Type} [Preorder L] {val : FlowNode γ δ → L} {dat : ControlMessage → L}
  {g : PeerGraph} {net : Net NodeId (FlowNode γ δ) ControlMessage} {v sender : NodeId}
  {n' : FlowNode γ δ} {msg : ControlMessage}

omit [PetGraph γ] in
/-- Relaying its whole value to all peers but the sender, whose value and the old one bound
the new. -/
theorem tells_of_gossip (hh : Hosted g id net) (hv : v ∈ g.nodes)
    (hgrows : val (net.state v) ≤ val n') (hmsg : dat msg ≤ val n') (hmsg' : val n' ≤ dat msg)
    (hsender : ∀ b, val (net.state v) ≤ b → val (net.state sender) ≤ b → val n' ≤ b) :
    Tells val dat g.Link net.state v n' ((net.state v).gossip sender sender msg) := by
  refine ⟨hgrows, fun o ho => ?_, fun t ht _ b hb htb hob => ?_⟩
  · rw [(FlowNode.mem_gossip.mp ho).2.2.2]
    exact hmsg
  · by_cases hts : t = sender
    · subst hts
      exact hsender b hb htb
    · have hpeer : t ∈ (net.state v).peers := by
        rw [show (net.state v).peers = g.peers v from hh.peers v hv]
        exact ht.2
      exact hmsg'.trans (hob (t, msg) (FlowNode.mem_gossip.mpr ⟨hpeer, hts, hts, rfl⟩) rfl)

omit [PetGraph γ] in
/-- Broadcasting what, with the old value, bounds the new one. -/
theorem tells_of_broadcast (hh : Hosted g id net) (hv : v ∈ g.nodes)
    (hgrows : val (net.state v) ≤ val n') (hmsg : dat msg ≤ val n')
    (hnew : ∀ b, val (net.state v) ≤ b → dat msg ≤ b → val n' ≤ b) :
    Tells val dat g.Link net.state v n' ((net.state v).broadcast msg) := by
  refine ⟨hgrows, fun o ho => ?_, fun t ht _ b hb _ hob => ?_⟩
  · rw [(FlowNode.mem_broadcast.mp ho).2]
    exact hmsg
  · have hpeer : t ∈ (net.state v).peers := by
      rw [show (net.state v).peers = g.peers v from hh.peers v hv]
      exact ht.2
    exact hnew b hb (hob (t, msg) (FlowNode.mem_broadcast.mpr ⟨hpeer, rfl⟩) rfl)

omit [PetGraph γ] in
/-- A step that changes nothing tells everybody. -/
theorem tells_of_eq (hval : val n' = val (net.state v)) :
    Tells val dat g.Link net.state v n' [] :=
  ⟨le_of_eq hval.symm, (fun _ ho => nomatch ho), fun _ _ _ _ hb _ _ => hval ▸ hb⟩

end

end

end Stric.Flow
