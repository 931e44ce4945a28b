import Stric.Flow.SessionFlood

/-!
# Sessions that are closed

`create_session` and `close_session` flood a `Create` and a `Close`.  A node takes in a
`Create` of a session it does not have and passes it on; a `Close` removes the session and is
passed on if there was one to remove.  Nothing is left behind by a `Close`.

This module says what calls and messages do to one session (`onMessage_effect`,
`onMessage_create`, `onMessage_close`, `call_effect`), what it means that a session stays
closed (`StaysClosed`), and what is on a link of the peer graph while it is opened and closed
around a tree (`Due`).
-/

namespace Stric.Flow

open Stric.Pool Relation

/-! ## Messages about a session -/

/-- What a message does to a session: make it or close it. -/
inductive Mark where
  | create
  | close
deriving DecidableEq

def ControlMessage.mark (sid : String) (msg : ControlMessage) : Option Mark :=
  match msg.message with
  | some (.sessionControl ⟨some (.create c)⟩) => if c.sessionId = sid then some .create else none
  | some (.sessionControl ⟨some (.close c)⟩) => if c.sessionId = sid then some .close else none
  | _ => none

theorem mark_create {sid : String} {c : SessionCreate} (h : c.sessionId = sid) :
    (ControlMessage.ofSession (.create c)).mark sid = some .create := if_pos h

theorem mark_close {sid : String} {c : SessionClose} (h : c.sessionId = sid) :
    (ControlMessage.ofSession (.close c)).mark sid = some .close := if_pos h

theorem mark_eq_create {sid : String} {msg : ControlMessage} (h : msg.mark sid = some .create) :
    ∃ c, msg = .ofSession (.create c) ∧ c.sessionId = sid := by
  unfold ControlMessage.mark at h
  split at h
  · next c hc =>
    refine ⟨c, congrArg ControlMessage.mk hc, ?_⟩
    by_contra hne
    rw [if_neg hne] at h
    cases h
  · split at h <;> cases h
  · cases h

theorem mark_eq_close {sid : String} {msg : ControlMessage} (h : msg.mark sid = some .close) :
    ∃ c, msg = .ofSession (.close c) ∧ c.sessionId = sid := by
  unfold ControlMessage.mark at h
  split at h
  · split at h <;> cases h
  · next c hc =>
    refine ⟨c, congrArg ControlMessage.mk hc, ?_⟩
    by_contra hne
    rw [if_neg hne] at h
    cases h
  · cases h

namespace FlowNode

variable {γ δ : Type} {n n' : FlowNode γ δ} {sid : String}

/-- The node has the session. -/
def Holds (n : FlowNode γ δ) (sid : String) : Prop := sid ∈ n.sessions

theorem holds_insert {key : String} {session : Session}
    (h : n'.sessions = n.sessions.insert key session) :
    n'.Holds sid ↔ sid = key ∨ n.Holds sid := by
  unfold Holds
  rw [h, AList.mem_insert]

theorem holds_erase {key : String} (h : n'.sessions = n.sessions.erase key) :
    n'.Holds sid ↔ sid ≠ key ∧ n.Holds sid := by
  unfold Holds
  rw [h, AList.mem_erase]

/-- One message to each peer of a list. -/
theorem sentTo_map {l : List NodeId} (hl : l.Nodup) (w : NodeId) (msg : ControlMessage) :
    sentTo (l.map fun peer => (peer, msg)) w = if w ∈ l then [msg] else [] := by
  rw [sentTo, List.filter_map, List.map_map]
  show (l.filter fun peer => peer == w).map (fun _ => msg) = _
  rw [List.filter_beq, List.map_replicate, hl.count]
  split <;> rfl

theorem sentTo_gossip (n : FlowNode γ δ) (sender about w : NodeId) (msg : ControlMessage) :
    sentTo (n.gossip sender about msg) w =
      if w ∈ n.peers ∧ w ≠ sender ∧ w ≠ about then [msg] else [] := by
  have hnodup : n.peers.Nodup := n.peerWriters.nodupKeys
  rw [gossip, sentTo_map (hnodup.filter _)]
  simp [List.mem_filter]

theorem sentTo_broadcast (n : FlowNode γ δ) (w : NodeId) (msg : ControlMessage) :
    sentTo (n.broadcast msg) w = if w ∈ n.peers then [msg] else [] :=
  sentTo_map n.peerWriters.nodupKeys w msg

/-- A session message about another session leaves this one; and whatever is sent goes to
peers and is the message itself, or about no session's making or closing. -/
theorem onSession_effect {sender : NodeId} {m : SessionMessage} {outs : List Send}
    (h : n.onSession sender m = (n', outs)) :
    (∀ sid, (ControlMessage.ofSession m).mark sid = none → (n'.Holds sid ↔ n.Holds sid)) ∧
      ∀ o ∈ outs, o.1 ∈ n.peers ∧ (o.2 = .ofSession m ∨ ∀ sid, o.2.mark sid = none) := by
  have hgossip : ∀ (k : FlowNode γ δ) about, k.peers = n.peers →
      ∀ o ∈ k.gossip sender about (.ofSession m),
        o.1 ∈ n.peers ∧ (o.2 = .ofSession m ∨ ∀ sid, o.2.mark sid = none) := by
    intro k about hk o ho
    obtain ⟨h1, -, -, h2⟩ := mem_gossip.mp ho
    exact ⟨hk ▸ h1, Or.inl h2⟩
  cases m with
  | create c =>
    have hne : ∀ sid, (ControlMessage.ofSession (.create c)).mark sid = none →
        sid ≠ c.sessionId := by
      rintro sid hm rfl
      rw [mark_create rfl] at hm
      cases hm
    change n.onCreate sender c = _ at h
    unfold onCreate at h
    split at h
    · cases h
      exact ⟨fun _ _ => Iff.rfl, fun o ho => absurd ho List.not_mem_nil⟩
    · cases h
      exact ⟨fun sid hm => (holds_insert rfl).trans (or_iff_right (hne sid hm)), hgossip _ _ rfl⟩
  | join j =>
    cases h
    exact ⟨fun _ _ => Iff.rfl, hgossip _ _ rfl⟩
  | leave l =>
    cases h
    exact ⟨fun _ _ => Iff.rfl, hgossip _ _ rfl⟩
  | close c =>
    have hne : ∀ sid, (ControlMessage.ofSession (.close c)).mark sid = none →
        sid ≠ c.sessionId := by
      rintro sid hm rfl
      rw [mark_close rfl] at hm
      cases hm
    change n.onClose sender c = _ at h
    unfold onClose at h
    simp only at h
    split at h
    · cases h
      exact ⟨fun sid hm => (holds_erase rfl).trans (and_iff_right (hne sid hm)), hgossip _ _ rfl⟩
    · cases h
      exact ⟨fun sid hm => (holds_erase rfl).trans (and_iff_right (hne sid hm)),
        fun o ho => absurd ho List.not_mem_nil⟩
  | stateSync s =>
    change n.onStateSync sender s = _ at h
    unfold onStateSync at h
    split at h
    · cases h
      exact ⟨fun _ _ => Iff.rfl, fun o ho => absurd ho List.not_mem_nil⟩
    · next session hs =>
      split at h
      · cases h
        exact ⟨fun _ _ => Iff.rfl, fun o ho => absurd ho List.not_mem_nil⟩
      · cases h
        refine ⟨fun sid _ => (holds_insert rfl).trans (or_iff_right_of_imp ?_), fun o ho => ?_⟩
        · rintro rfl
          exact AList.lookup_isSome.mp (by rw [hs]; rfl)
        · obtain ⟨h1, -, -, h2⟩ := mem_gossip.mp ho
          exact ⟨h1, Or.inr fun sid => by rw [h2]; rfl⟩

variable [PetGraph γ]

/-- The same of any message. -/
theorem onMessage_effect {clock : Clock} {sender : NodeId} {msg : ControlMessage} {outs : List Send}
    (h : n.onMessage clock sender msg = (n', outs)) :
    (∀ sid, msg.mark sid = none → (n'.Holds sid ↔ n.Holds sid)) ∧
      ∀ o ∈ outs, o.1 ∈ n.peers ∧ (o.2 = msg ∨ ∀ sid, o.2.mark sid = none) := by
  rcases msg.cases with ⟨u, rfl⟩ | ⟨u, rfl⟩ | ⟨p, rfl⟩ | hp
  · obtain ⟨t, ⟨-, rfl, rfl⟩ | ⟨-, rfl, rfl⟩⟩ := onMessage_topology clock n sender u h
    · refine ⟨fun _ _ => Iff.rfl, fun o ho => ?_⟩
      obtain ⟨h1, -, -, h2⟩ := mem_gossip.mp ho
      exact ⟨h1, Or.inl h2⟩
    · exact ⟨fun _ _ => Iff.rfl, fun o ho => absurd ho List.not_mem_nil⟩
  · obtain ⟨t, ⟨-, rfl, rfl⟩ | ⟨-, rfl, rfl⟩⟩ := onMessage_subscription clock n sender u h
    · refine ⟨fun _ _ => Iff.rfl, fun o ho => ?_⟩
      obtain ⟨h1, -, -, h2⟩ := mem_gossip.mp ho
      exact ⟨h1, Or.inl h2⟩
    · exact ⟨fun _ _ => Iff.rfl, fun o ho => absurd ho List.not_mem_nil⟩
  · obtain ⟨t, link, ⟨-, rfl, rfl⟩ | ⟨-, hn', rfl⟩⟩ := onMessage_pong clock n sender p h
    · exact ⟨fun _ _ => Iff.rfl, fun o ho => absurd ho List.not_mem_nil⟩
    · refine ⟨fun _ _ => by rw [hn']; exact Iff.rfl, fun o ho => ?_⟩
      obtain ⟨h1, h2⟩ := mem_broadcast.mp ho
      rw [hn'] at h1
      exact ⟨h1, Or.inr fun sid => by rw [h2]; rfl⟩
  · rcases n.onMessage_plain_cases clock sender hp h with
      ⟨m, rfl, hm⟩ | ⟨tx, p, htx, rfl, rfl⟩ | ⟨limiters, rfl, rfl⟩
    · exact onSession_effect (n := n.seen clock sender) hm
    · refine ⟨fun _ _ => Iff.rfl, fun o ho => ?_⟩
      rw [List.mem_singleton.mp ho]
      have hpeer : sender ∈ n.peers := by
        refine AList.lookup_isSome.mp ?_
        rw [htx]
        rfl
      exact ⟨hpeer, Or.inr fun _ => rfl⟩
    · exact ⟨fun _ _ => Iff.rfl, fun o ho => absurd ho List.not_mem_nil⟩

/-- A `Create` is taken in and passed on by a node that does not have the session. -/
theorem onMessage_create {clock : Clock} {sender : NodeId} {c : SessionCreate} {outs : List Send}
    (hn : ¬ n.Holds c.sessionId)
    (h : n.onMessage clock sender (.ofSession (.create c)) = (n', outs)) :
    n'.Holds c.sessionId ∧
      outs = n.gossip sender c.creatorNode (.ofSession (.create c)) := by
  change (n.seen clock sender).onCreate sender c = _ at h
  unfold onCreate at h
  have hnone : (n.seen clock sender).sessions.lookup c.sessionId = none :=
    AList.lookup_eq_none.mpr hn
  simp only [hnone] at h
  cases h
  exact ⟨(holds_insert rfl).mpr (Or.inl rfl), rfl⟩

/-- A `Close` removes the session, and is passed on if there was one. -/
theorem onMessage_close {clock : Clock} {sender : NodeId} {c : SessionClose} {outs : List Send}
    (h : n.onMessage clock sender (.ofSession (.close c)) = (n', outs)) :
    ¬ n'.Holds c.sessionId ∧
      (n.Holds c.sessionId → outs = n.gossip sender c.closedBy (.ofSession (.close c))) ∧
      (¬ n.Holds c.sessionId → c.closedBy ≠ n.nodeId → outs = []) := by
  change (n.seen clock sender).onClose sender c = _ at h
  unfold onClose at h
  simp only at h
  have hgone : ∀ k : FlowNode γ δ, k.sessions = n.sessions.erase c.sessionId →
      ¬ k.Holds c.sessionId := fun k hk hh => ((holds_erase hk).mp hh).1 rfl
  split at h
  · next hcond =>
    cases h
    refine ⟨hgone _ rfl, fun _ => rfl, fun hn hne => ?_⟩
    rcases hcond with hcond | hcond
    · exact absurd (AList.lookup_isSome.mp hcond) hn
    · exact absurd hcond hne
  · next hcond =>
    cases h
    exact ⟨hgone _ rfl, fun hn => absurd (Or.inl (AList.lookup_isSome.mpr hn)) hcond, fun _ _ => rfl⟩

end FlowNode

/-! ## Calls of the application -/

/-- What a node does besides receiving: the session calls, its heartbeat, and the turn of its
control loop on an update of its own subscriptions. -/
inductive Call where
  | create (clock sentClock : Clock) (sessionId : String) (flowIds : List String)
      (metadata : HashMap String String)
  | join (sessionId : String)
  | leave (sessionId : String)
  | close (sessionId reason : String)
  | sync (clock : Clock) (sessionId : String) (data : Bytes)
  | ping (sentAt : UInt64)
  | update (clock : Clock) (update : SubscriptionUpdate)

def Call.mark (sid : String) : Call → Option Mark
  | .create _ _ sessionId _ _ => if sessionId = sid then some .create else none
  | .close sessionId _ => if sessionId = sid then some .close else none
  | _ => none

section
variable {γ δ : Type} [PetGraph γ]

def FlowNode.call (n : FlowNode γ δ) : Call → FlowNode γ δ × List Send
  | .create clock sentClock sessionId flowIds metadata =>
    n.createSession clock sentClock sessionId flowIds metadata
  | .join sessionId => n.joinSession sessionId
  | .leave sessionId => n.leaveSession sessionId
  | .close sessionId reason =>
    let (n, outs, _) := n.closeSession sessionId reason
    (n, outs)
  | .sync clock sessionId data =>
    let (n, outs, _) := n.syncSessionState clock sessionId data
    (n, outs)
  | .ping sentAt => (n, n.broadcast (.of (.ping ⟨sentAt⟩)))
  | .update clock update => n.onMessage clock n.nodeId (.of (.subscriptionUpdate update))

/-- Control loops beside the calls of their applications.  Those of one node do not overlap: a call
or a turn of the loop has changed the node and handed over its messages before the next begins. -/
def sessionCalls (g : PeerGraph) : Protocol NodeId (FlowNode γ δ) ControlMessage Call where
  recv _ sender msg n n' outs := receives sender msg n n' outs
  own v call n n' outs := v ∈ g.nodes ∧ n.call call = (n', outs)

variable {n n' : FlowNode γ δ} {sid : String} {outs : List Send}

omit [PetGraph γ] in
theorem closeSession_holds (hn : n.Holds sid) (reason : String) :
    n.closeSession sid reason = ({ n with sessions := n.sessions.erase sid },
      n.broadcast (.ofSession (.close ⟨sid, n.nodeId, reason⟩)), .ok ()) := by
  obtain ⟨session, hs⟩ := Option.isSome_iff_exists.mp (AList.lookup_isSome.mpr hn)
  unfold FlowNode.closeSession
  simp only [hs]
  rfl

omit [PetGraph γ] in
theorem closeSession_not_holds (hn : ¬ n.Holds sid) (reason : String) :
    n.closeSession sid reason = (n, [], .error (FlowNode.sessionNotFound sid)) := by
  unfold FlowNode.closeSession
  simp only [AList.lookup_eq_none.mpr hn]

omit [PetGraph γ] in
/-- A write makes no session and closes none. -/
theorem syncSessionState_effect (clock : Clock) (key : String) (data : Bytes) :
    ∃ sessions, (n.syncSessionState clock key data).1 = { n with sessions := sessions } ∧
      (∀ sid, sid ∈ sessions ↔ sid ∈ n.sessions) ∧
      ∀ o ∈ (n.syncSessionState clock key data).2.1,
        o.1 ∈ n.peers ∧ ∃ sync, o.2 = .ofSession (.stateSync sync) := by
  unfold FlowNode.syncSessionState
  split
  · exact ⟨_, rfl, fun _ => Iff.rfl, fun o ho => absurd ho List.not_mem_nil⟩
  · next session hs =>
    have hkey : key ∈ n.sessions := AList.lookup_isSome.mp (by rw [hs]; rfl)
    have hkeep : ∀ (s : Session) sid, sid ∈ n.sessions.insert key s ↔ sid ∈ n.sessions := by
      intro s sid
      rw [AList.mem_insert]
      exact or_iff_right_of_imp fun heq => heq ▸ hkey
    simp only
    split
    · exact ⟨_, rfl, hkeep _, fun o ho => absurd ho List.not_mem_nil⟩
    · refine ⟨_, rfl, hkeep _, fun o ho => ?_⟩
      obtain ⟨h1, h2⟩ := FlowNode.mem_broadcast.mp ho
      exact ⟨h1, _, h2⟩

/-- A call makes and closes no other session than its own, and what is sent about others
neither. -/
theorem call_effect (sid : String) {call : Call} (h : n.call call = (n', outs)) :
    SameHost n n' ∧ (∀ o ∈ outs, o.1 ∈ n.peers) ∧
      (call.mark sid = none → (n'.Holds sid ↔ n.Holds sid) ∧ ∀ o ∈ outs, o.2.mark sid = none) := by
  have hbroadcast : ∀ (k : FlowNode γ δ) msg, k.peers = n.peers →
      ∀ o ∈ k.broadcast msg, o.1 ∈ n.peers := fun k msg hk o ho => hk ▸ (FlowNode.mem_broadcast.mp ho).1
  have hunmarked : ∀ (k : FlowNode γ δ) msg, msg.mark sid = none →
      ∀ o ∈ k.broadcast msg, o.2.mark sid = none := by
    intro k msg hm o ho
    rw [(FlowNode.mem_broadcast.mp ho).2]
    exact hm
  cases call with
  | create clock sentClock key flowIds metadata =>
    cases h
    refine ⟨⟨rfl, rfl, rfl, rfl⟩, hbroadcast _ _ rfl, fun hm => ?_⟩
    have hne : key ≠ sid := fun heq => by simp [Call.mark, heq] at hm
    exact ⟨(FlowNode.holds_insert rfl).trans (or_iff_right (Ne.symm hne)),
      hunmarked _ _ (if_neg hne)⟩
  | join key =>
    cases h
    exact ⟨SameHost.refl n, hbroadcast _ _ rfl, fun _ => ⟨Iff.rfl, hunmarked _ _ rfl⟩⟩
  | leave key =>
    cases h
    exact ⟨SameHost.refl n, hbroadcast _ _ rfl, fun _ => ⟨Iff.rfl, hunmarked _ _ rfl⟩⟩
  | close key reason =>
    by_cases hn : n.Holds key
    · simp only [FlowNode.call, closeSession_holds hn] at h
      cases h
      refine ⟨⟨rfl, rfl, rfl, rfl⟩, hbroadcast _ _ rfl, fun hm => ?_⟩
      have hne : key ≠ sid := fun heq => by simp [Call.mark, heq] at hm
      exact ⟨(FlowNode.holds_erase rfl).trans (and_iff_right (Ne.symm hne)),
        hunmarked _ _ (if_neg hne)⟩
    · simp only [FlowNode.call, closeSession_not_holds hn] at h
      cases h
      exact ⟨SameHost.refl n, fun o ho => absurd ho List.not_mem_nil,
        fun _ => ⟨Iff.rfl, fun o ho => absurd ho List.not_mem_nil⟩⟩
  | sync clock key data =>
    obtain ⟨sessions, hstate, hkeys, houts⟩ := syncSessionState_effect (n := n) clock key data
    have hfst : (n.syncSessionState clock key data).1 = n' := congrArg Prod.fst h
    have hsnd : (n.syncSessionState clock key data).2.1 = outs := congrArg Prod.snd h
    rw [hfst] at hstate
    rw [hsnd] at houts
    subst hstate
    refine ⟨⟨rfl, rfl, rfl, rfl⟩, fun o ho => (houts o ho).1, fun _ => ⟨hkeys sid, fun o ho => ?_⟩⟩
    obtain ⟨sync, h2⟩ := (houts o ho).2
    rw [h2]
    rfl
  | ping sentAt =>
    cases h
    exact ⟨SameHost.refl n, hbroadcast _ _ rfl, fun _ => ⟨Iff.rfl, hunmarked _ _ rfl⟩⟩
  | update clock update =>
    change n.onMessage clock n.nodeId (.of (.subscriptionUpdate update)) = _ at h
    have heffect := FlowNode.onMessage_effect h
    refine ⟨FlowNode.sameHost_of_onMessage h, fun o ho => (heffect.2 o ho).1, fun _ =>
      ⟨heffect.1 sid rfl, fun o ho => ?_⟩⟩
    rcases (heffect.2 o ho).2 with h2 | h2
    · rw [h2]
      rfl
    · exact h2 sid

/-- The call that creates the session. -/
theorem call_create {call : Call} (hm : call.mark sid = some .create)
    (h : n.call call = (n', outs)) :
    n'.Holds sid ∧ ∃ c : SessionCreate, c.sessionId = sid ∧ c.creatorNode = n.nodeId ∧
      outs = n.broadcast (.ofSession (.create c)) := by
  cases call with
  | create clock sentClock key flowIds metadata =>
    obtain rfl : key = sid := by
      by_contra hne
      rw [Call.mark, if_neg hne] at hm
      cases hm
    cases h
    exact ⟨(FlowNode.holds_insert rfl).mpr (Or.inl rfl), _, rfl, rfl, rfl⟩
  | close key reason =>
    rw [Call.mark] at hm
    split at hm <;> cases hm
  | _ => cases hm

/-- A call that closes the session does so, and tells the peers, if the node has it. -/
theorem call_close {call : Call} (hm : call.mark sid = some .close)
    (h : n.call call = (n', outs)) :
    ¬ n'.Holds sid ∧
      ((n.Holds sid ∧ ∃ c : SessionClose, c.sessionId = sid ∧ c.closedBy = n.nodeId ∧
        outs = n.broadcast (.ofSession (.close c))) ∨ (¬ n.Holds sid ∧ outs = [])) := by
  cases call with
  | close key reason =>
    obtain rfl : key = sid := by
      by_contra hne
      rw [Call.mark, if_neg hne] at hm
      cases hm
    by_cases hn : n.Holds key
    · simp only [FlowNode.call, closeSession_holds hn] at h
      cases h
      exact ⟨fun hh => ((FlowNode.holds_erase rfl).mp hh).1 rfl, Or.inl ⟨hn, _, rfl, rfl, rfl⟩⟩
    · simp only [FlowNode.call, closeSession_not_holds hn] at h
      cases h
      exact ⟨hn, Or.inr ⟨hn, rfl⟩⟩
  | create clock sentClock key flowIds metadata =>
    rw [Call.mark] at hm
    split at hm <;> cases hm
  | _ => cases hm

end

/-! ## What has happened to a session -/

/-- Whoever created the session by this event. -/
def creator (sid : String) : Event NodeId ControlMessage Call → Option NodeId
  | .own v call _ => if call.mark sid = some .create then some v else none
  | .deliver _ _ => none

def creators (sid : String) (trace : List (Event NodeId ControlMessage Call)) : List NodeId :=
  trace.filterMap (creator sid)

/-- `o` has called `close_session` after it created the session. -/
def ClosedBy (o : NodeId) (sid : String) (trace : List (Event NodeId ControlMessage Call)) : Prop :=
  ∃ later earlier call outs, trace = later ++ .own o call outs :: earlier ∧
    call.mark sid = some .close ∧ o ∈ creators sid earlier

/-- `v` has processed a `Close` of the session. -/
def Processed (sid : String) (v : NodeId) (trace : List (Event NodeId ControlMessage Call)) : Prop :=
  ∃ p outs, .deliver p outs ∈ trace ∧ p.dst = v ∧ p.msg.mark sid = some .close

theorem creators_cons (sid : String) (e : Event NodeId ControlMessage Call)
    (trace : List (Event NodeId ControlMessage Call)) :
    creators sid (e :: trace) = (creator sid e).toList ++ creators sid trace := by
  rw [creators, List.filterMap_cons]
  cases creator sid e <;> rfl

theorem processed_cons {sid : String} {v : NodeId} {e : Event NodeId ControlMessage Call}
    {trace : List (Event NodeId ControlMessage Call)} :
    Processed sid v (e :: trace) ↔
      (∃ p outs, e = .deliver p outs ∧ p.dst = v ∧ p.msg.mark sid = some .close) ∨
        Processed sid v trace := by
  constructor
  · rintro ⟨p, outs, hp, hd, hm⟩
    rcases List.mem_cons.mp hp with heq | hp
    · exact Or.inl ⟨p, outs, heq.symm, hd, hm⟩
    · exact Or.inr ⟨p, outs, hp, hd, hm⟩
  · rintro (⟨p, outs, rfl, hd, hm⟩ | ⟨p, outs, hp, hd, hm⟩)
    · exact ⟨p, outs, List.mem_cons_self, hd, hm⟩
    · exact ⟨p, outs, List.mem_cons_of_mem _ hp, hd, hm⟩

theorem closedBy_cons {sid : String} {o : NodeId} {e : Event NodeId ControlMessage Call}
    {trace : List (Event NodeId ControlMessage Call)} :
    ClosedBy o sid (e :: trace) ↔
      (∃ call outs, e = .own o call outs ∧ call.mark sid = some .close ∧ o ∈ creators sid trace) ∨
        ClosedBy o sid trace := by
  constructor
  · rintro ⟨later, earlier, call, outs, htrace, hm, ho⟩
    cases later with
    | nil =>
      obtain ⟨rfl, rfl⟩ := List.cons.inj htrace
      exact Or.inl ⟨call, outs, rfl, hm, ho⟩
    | cons e' later =>
      obtain ⟨-, rfl⟩ := List.cons.inj htrace
      exact Or.inr ⟨later, earlier, call, outs, rfl, hm, ho⟩
  · rintro (⟨call, outs, rfl, hm, ho⟩ | ⟨later, earlier, call, outs, rfl, hm, ho⟩)
    · exact ⟨[], trace, call, outs, rfl, hm, ho⟩
    · exact ⟨e :: later, earlier, call, outs, rfl, hm, ho⟩

theorem ClosedBy.created {sid : String} {o : NodeId}
    {trace : List (Event NodeId ControlMessage Call)} (h : ClosedBy o sid trace) :
    o ∈ creators sid trace := by
  obtain ⟨later, earlier, call, outs, rfl, -, ho⟩ := h
  rw [creators, List.filterMap_append, List.filterMap_cons]
  refine List.mem_append_right _ ?_
  split
  · exact ho
  · exact List.mem_cons_of_mem _ ho

/-- Nobody who has closed the session has it; and once its creator has, and nothing is in
flight, nobody has it. -/
structure StaysClosed {γ δ : Type} (g : PeerGraph) (sid : String) (o : NodeId)
    (trace : List (Event NodeId ControlMessage Call))
    (net : Net NodeId (FlowNode γ δ) ControlMessage) : Prop where
  processed : ∀ v, Processed sid v trace → ¬ (net.state v).Holds sid
  creator : ClosedBy o sid trace → ¬ (net.state o).Holds sid
  gone : ClosedBy o sid trace → net.flight = [] → ∀ v ∈ g.nodes, ¬ (net.state v).Holds sid

/-! ## What is on the links -/

section
variable {S : Type} {sid : String} {net : Net NodeId S ControlMessage} {e : NodeId × NodeId}

/-- The marks on a link, the one sent first in front. -/
def marks (sid : String) (net : Net NodeId S ControlMessage) (e : NodeId × NodeId) : List Mark :=
  (net.onLink e).filterMap (ControlMessage.mark sid)

/-- The marks sent to `w`. -/
def sentMarks (sid : String) (outs : List Send) (w : NodeId) : List Mark :=
  (sentTo outs w).filterMap (ControlMessage.mark sid)

theorem marks_act (sid : String) (state : NodeId → S) (rest : List (Packet NodeId ControlMessage))
    (v : NodeId) (s : S) (outs : List Send) (e : NodeId × NodeId) :
    marks sid (Net.act state rest v s outs) e =
      marks sid (⟨state, rest⟩ : Net NodeId S ControlMessage) e ++
        if e.1 = v then sentMarks sid outs e.2 else [] := by
  rw [marks, Net.onLink_act, List.filterMap_append]
  split <;> rfl

theorem marks_deliver {l₁ l₂ : List (Packet NodeId ControlMessage)}
    {p : Packet NodeId ControlMessage} (hf : net.flight = l₁ ++ p :: l₂)
    (hfirst : ∀ q ∈ l₁, q.link ≠ p.link) (sid : String) (e : NodeId × NodeId) :
    marks sid net e = (if e = p.link then (p.msg.mark sid).toList else []) ++
      marks sid (⟨net.state, l₁ ++ l₂⟩ : Net NodeId S ControlMessage) e := by
  rw [marks, Net.onLink_deliver hf hfirst]
  split
  · rw [List.filterMap_cons]
    cases p.msg.mark sid <;> rfl
  · rfl

theorem sentMarks_unmarked {outs : List Send} (h : ∀ o ∈ outs, o.2.mark sid = none) (w : NodeId) :
    sentMarks sid outs w = [] := by
  refine List.filterMap_eq_nil_iff.mpr fun m hm => ?_
  obtain ⟨o, ho, rfl⟩ := List.mem_map.mp hm
  exact h o (List.mem_of_mem_filter ho)

variable {γ δ : Type} {msg : ControlMessage} {m : Mark}

theorem sentMarks_gossip (n : FlowNode γ δ) (sender about : NodeId) (hm : msg.mark sid = some m)
    (w : NodeId) : sentMarks sid (n.gossip sender about msg) w =
      if w ∈ n.peers ∧ w ≠ sender ∧ w ≠ about then [m] else [] := by
  rw [sentMarks, FlowNode.sentTo_gossip]
  split <;> simp [hm]

theorem sentMarks_broadcast (n : FlowNode γ δ) (hm : msg.mark sid = some m) (w : NodeId) :
    sentMarks sid (n.broadcast msg) w = if w ∈ n.peers then [m] else [] := by
  rw [sentMarks, FlowNode.sentTo_broadcast]
  split <;> simp [hm]

end

/-- How far a node has come with the session. -/
inductive Phase where
  | fresh
  | opened
  | closed
deriving DecidableEq

/-- The marks on their way between a node and the next one outward: `down` to that, `up`
back.  Until the next node has taken in the `Create`, all that has happened is still on the
link; after that, a `Close` is, if only one of the two has closed. -/
inductive Due : Phase → Phase → List Mark → List Mark → Prop
  | idle : Due .fresh .fresh [] []
  | opening : Due .opened .fresh [.create] []
  | passing : Due .closed .fresh [.create, .close] []
  | met {near far : Phase} {down up : List Mark} : near ≠ .fresh → far ≠ .fresh →
      .create ∉ down → .create ∉ up → (.close ∈ down → near = .closed) →
      (.close ∈ up → far = .closed) → (near = .closed → far = .opened → .close ∈ down) →
      (far = .closed → near = .opened → .close ∈ up) → Due near far down up

namespace Due

variable {near far : Phase} {down up : List Mark}

theorem of_fresh (h : Due .fresh far down up) : far = .fresh ∧ down = [] ∧ up = [] := by
  cases h with
  | idle => exact ⟨rfl, rfl, rfl⟩
  | met hnear => exact absurd rfl hnear

theorem take_create (h : Due near far (.create :: down) up) :
    far = .fresh ∧ Due near .opened down up := by
  cases h with
  | opening => exact ⟨rfl, .met (by decide) (by decide) (by simp) (by simp) (by simp) (by simp)
      (by decide) (by decide)⟩
  | passing => exact ⟨rfl, .met (by decide) (by decide) (by simp) (by simp) (by simp) (by simp)
      (by simp) (by decide)⟩
  | met _ _ hdown => exact absurd List.mem_cons_self hdown

/-- The far node takes in a `Close`. -/
theorem take_close_down (h : Due near far (.close :: down) up) :
    far ≠ .fresh ∧ Due near .closed down up := by
  cases h with
  | met h1 h2 h3 h4 h5 h6 h7 h8 =>
    have hnear : near = .closed := h5 List.mem_cons_self
    refine ⟨h2, .met h1 (by decide) (fun h => h3 (List.mem_cons_of_mem _ h)) h4 (fun _ => hnear)
      (fun _ => rfl) (fun _ h => by cases h) fun _ h => ?_⟩
    rw [hnear] at h
    cases h

/-- The near node takes in a `Close`. -/
theorem take_close_up (h : Due near far down (.close :: up)) :
    near ≠ .fresh ∧ Due .closed far down up := by
  cases h with
  | met h1 h2 h3 h4 h5 h6 h7 h8 =>
    have hfar : far = .closed := h6 List.mem_cons_self
    refine ⟨h1, .met (by decide) h2 h3 (fun h => h4 (List.mem_cons_of_mem _ h)) (fun _ => rfl)
      (fun _ => hfar) (fun _ h => ?_) fun _ h => by cases h⟩
    rw [hfar] at h
    cases h

/-- The near node closes, and tells the far one. -/
theorem close_near (h : Due .opened far down up) : Due .closed far (down ++ [.close]) up := by
  cases h with
  | opening => exact .passing
  | met h1 h2 h3 h4 h5 h6 h7 h8 =>
    refine .met (by decide) h2 ?_ h4 (fun _ => rfl) h6 (fun _ _ => by simp) fun _ h => by cases h
    simpa using h3

/-- The far node closes, and tells the near one. -/
theorem close_far (h : Due near .opened down up) : Due near .closed down (up ++ [.close]) := by
  cases h with
  | met h1 h2 h3 h4 h5 h6 h7 h8 =>
    refine .met h1 (by decide) h3 ?_ h5 (fun _ => rfl) (fun _ h => by cases h) fun _ _ => by simp
    simpa using h4

/-- With nothing on the link, both ends are equally far. -/
theorem eq_of_empty (h : Due near far [] []) : near = far := by
  cases h with
  | idle => rfl
  | met h1 h2 _ _ _ _ h7 h8 =>
    cases near <;> cases far <;> first | rfl | exact absurd rfl h1 | exact absurd rfl h2 | skip
    · exact absurd (h8 rfl rfl) List.not_mem_nil
    · exact absurd (h7 rfl rfl) List.not_mem_nil

end Due

end Stric.Flow
