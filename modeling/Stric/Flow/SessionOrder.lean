import Stric.Flow.SessionClose
import Stric.Flow.SessionLww
import Stric.Pool.Outbox

/-!
# The order of what is sent of a session

A `StateSync` for a session that the receiver does not have is dropped for good.  The control stream
of a connection keeps the order of what is sent, but a node has the session before it has sent its
`Create` to all peers: `create_session` and the control loop insert it first, and then send message
by message.  What is written in between may be sent first, and then it is lost
(`unpaced_write_lost`).  So the runs here are those of tasks that send message by message
(`Protocol.tasked`), and they are `Paced`: a `StateSync` is made for no peer that a `Create` still
waits for.  Then what a node sends of a session to a peer starts with the `Create`, and a node that
has not had the `Create` from anyone has had nothing (`Order`).  Whoever creates the session,
however often, and whatever else goes on, a `StateSync` that comes out of a link finds the session,
and once nothing is on its way all nodes have it, if one has (`sync_finds_session`).
-/

namespace Stric.Flow

open Stric.Pool Relation

/-! ## Messages and calls about a session -/

/-- What a message is to a session. -/
inductive Deed where
  | create
  | write
  | close
deriving DecidableEq

def ControlMessage.deed (sid : String) (msg : ControlMessage) : Option Deed :=
  match msg.message with
  | some (.sessionControl ⟨some (.create c)⟩) => if c.sessionId = sid then some .create else none
  | some (.sessionControl ⟨some (.close c)⟩) => if c.sessionId = sid then some .close else none
  | some (.sessionControl ⟨some (.stateSync s)⟩) => if s.sessionId = sid then some .write else none
  | _ => none

def Call.deed (sid : String) : Call → Option Deed
  | .create _ _ sessionId _ _ => if sessionId = sid then some .create else none
  | .close sessionId _ => if sessionId = sid then some .close else none
  | .sync _ sessionId _ => if sessionId = sid then some .write else none
  | _ => none

section
variable {sid : String} {msg : ControlMessage}

theorem deed_create {c : SessionCreate} (h : c.sessionId = sid) :
    (ControlMessage.ofSession (.create c)).deed sid = some .create := if_pos h

theorem deed_stateSync_eq (s : SessionStateSync) :
    (ControlMessage.ofSession (.stateSync s)).deed sid =
      if s.sessionId = sid then some .write else none := rfl

theorem deed_stateSync {s : SessionStateSync} (h : s.sessionId = sid) :
    (ControlMessage.ofSession (.stateSync s)).deed sid = some .write := if_pos h

/-- A message that does something to the session is one of three. -/
theorem ControlMessage.deed_cases (sid : String) (msg : ControlMessage) :
    msg.deed sid = none ∨
    (∃ c, msg = .ofSession (.create c) ∧ c.sessionId = sid) ∨
    (∃ s, msg = .ofSession (.stateSync s) ∧ s.sessionId = sid) ∨ msg.deed sid = some .close := by
  unfold ControlMessage.deed
  split
  · next c hc =>
    split
    · next h => exact Or.inr (Or.inl ⟨c, congrArg ControlMessage.mk hc, h⟩)
    · exact Or.inl rfl
  · split
    · exact Or.inr (Or.inr (Or.inr rfl))
    · exact Or.inl rfl
  · next s hs =>
    split
    · next h => exact Or.inr (Or.inr (Or.inl ⟨s, congrArg ControlMessage.mk hs, h⟩))
    · exact Or.inl rfl
  · exact Or.inl rfl

end

namespace FlowNode

variable {γ δ : Type} {n n' : FlowNode γ δ} {sid : String} {outs : List Send}

theorem holds_iff : n.Holds sid ↔ ∃ session, n.sessions.lookup sid = some session := by
  rw [← Option.isSome_iff_exists, AList.lookup_isSome]
  exact Iff.rfl

theorem holds_congr (h : n'.sessions.lookup sid = n.sessions.lookup sid) :
    n'.Holds sid ↔ n.Holds sid := by
  rw [holds_iff, holds_iff, h]

theorem deed_of_mem_nil : ∀ o ∈ ([] : List Send), o.2.deed sid = none :=
  fun _ ho => absurd ho List.not_mem_nil

/-- What is passed on about no session is about none. -/
theorem deed_of_mem_gossip (n : FlowNode γ δ) (sender about : NodeId) (msg : ControlMessage)
    (hd : msg.deed sid = none) : ∀ o ∈ n.gossip sender about msg, o.2.deed sid = none := by
  intro o ho
  rw [(mem_gossip.mp ho).2.2.2]
  exact hd

theorem deed_of_mem_broadcast (n : FlowNode γ δ) (msg : ControlMessage)
    (hd : msg.deed sid = none) : ∀ o ∈ n.broadcast msg, o.2.deed sid = none := by
  intro o ho
  rw [(mem_broadcast.mp ho).2]
  exact hd

/-- Session messages about other sessions leave this one as it is, and nothing is sent about
it. -/
theorem onSession_other {sender : NodeId} {m : SessionMessage}
    (hd : (ControlMessage.ofSession m).deed sid = none) (h : n.onSession sender m = (n', outs)) :
    n'.sessions.lookup sid = n.sessions.lookup sid ∧ ∀ o ∈ outs, o.2.deed sid = none := by
  cases m with
  | create c =>
    have hne : sid ≠ c.sessionId := by
      rintro rfl
      rw [deed_create rfl] at hd
      cases hd
    change n.onCreate sender c = _ at h
    unfold onCreate at h
    split at h
    · cases h
      exact ⟨rfl, deed_of_mem_nil⟩
    · cases h
      exact ⟨AList.lookup_insert_ne hne, deed_of_mem_gossip _ _ _ _ hd⟩
  | join j =>
    cases h
    exact ⟨rfl, deed_of_mem_gossip _ _ _ _ hd⟩
  | leave l =>
    cases h
    exact ⟨rfl, deed_of_mem_gossip _ _ _ _ hd⟩
  | close c =>
    have hne : sid ≠ c.sessionId := by
      rintro rfl
      rw [show (ControlMessage.ofSession (.close c)).deed c.sessionId = some .close from
        if_pos rfl] at hd
      cases hd
    change n.onClose sender c = _ at h
    unfold onClose at h
    simp only at h
    split at h
    · cases h
      exact ⟨AList.lookup_erase_ne hne, deed_of_mem_gossip _ _ _ _ hd⟩
    · cases h
      exact ⟨AList.lookup_erase_ne hne, deed_of_mem_nil⟩
  | stateSync s =>
    have hne : sid ≠ s.sessionId := by
      rintro rfl
      rw [deed_stateSync rfl] at hd
      cases hd
    change n.onStateSync sender s = _ at h
    unfold onStateSync at h
    split at h
    · cases h
      exact ⟨rfl, deed_of_mem_nil⟩
    · split at h
      · cases h
        exact ⟨rfl, deed_of_mem_nil⟩
      · cases h
        exact ⟨AList.lookup_insert_ne hne, deed_of_mem_gossip _ _ _ _ (if_neg (Ne.symm hne))⟩

variable [PetGraph γ]

theorem onMessage_other {clock : Clock} {sender : NodeId} {msg : ControlMessage}
    (hd : msg.deed sid = none) (h : n.onMessage clock sender msg = (n', outs)) :
    n'.sessions.lookup sid = n.sessions.lookup sid ∧ ∀ o ∈ outs, o.2.deed sid = none := by
  rcases msg.cases with ⟨u, rfl⟩ | ⟨u, rfl⟩ | ⟨p, rfl⟩ | hp
  · obtain ⟨t, ⟨-, rfl, rfl⟩ | ⟨-, rfl, rfl⟩⟩ := onMessage_topology clock n sender u h
    · exact ⟨rfl, deed_of_mem_gossip _ _ _ _ hd⟩
    · exact ⟨rfl, deed_of_mem_nil⟩
  · obtain ⟨t, ⟨-, rfl, rfl⟩ | ⟨-, rfl, rfl⟩⟩ := onMessage_subscription clock n sender u h
    · exact ⟨rfl, deed_of_mem_gossip _ _ _ _ hd⟩
    · exact ⟨rfl, deed_of_mem_nil⟩
  · obtain ⟨t, link, ⟨-, rfl, rfl⟩ | ⟨-, rfl, rfl⟩⟩ := onMessage_pong clock n sender p h
    · exact ⟨rfl, deed_of_mem_nil⟩
    · exact ⟨rfl, deed_of_mem_broadcast _ _ rfl⟩
  · rcases n.onMessage_plain_cases clock sender hp h with
      ⟨m, rfl, hm⟩ | ⟨tx, p, -, rfl, rfl⟩ | ⟨limiters, rfl, rfl⟩
    · exact onSession_other (n := n.seen clock sender) hd hm
    · refine ⟨rfl, fun o ho => ?_⟩
      rw [List.mem_singleton.mp ho]
      rfl
    · exact ⟨rfl, deed_of_mem_nil⟩

/-- A `Create` of a session the node has is dropped; otherwise the session is made as it is
new, and the `Create` passed on. -/
theorem onMessage_create_cases {clock : Clock} {sender : NodeId} {c : SessionCreate}
    (h : n.onMessage clock sender (.ofSession (.create c)) = (n', outs)) :
    (n.Holds c.sessionId ∧ n'.sessions.lookup c.sessionId = n.sessions.lookup c.sessionId ∧
      outs = []) ∨
    (¬ n.Holds c.sessionId ∧ (∃ session, n'.sessions.lookup c.sessionId = some session ∧
        session.record = ⟨[], 0, 0⟩) ∧
      outs = n.gossip sender c.creatorNode (.ofSession (.create c))) := by
  change (n.seen clock sender).onCreate sender c = _ at h
  unfold onCreate at h
  split at h
  · next session hs =>
    cases h
    exact Or.inl ⟨holds_iff.mpr ⟨session, hs⟩, rfl, rfl⟩
  · next hs =>
    cases h
    refine Or.inr ⟨fun hn => ?_, ⟨_, AList.lookup_insert _, rfl⟩, rfl⟩
    obtain ⟨session, hsome⟩ := holds_iff.mp hn
    rw [show n.sessions.lookup c.sessionId = none from hs] at hsome
    cases hsome

/-- Calls about other sessions. -/
theorem call_other {call : Call} (hd : call.deed sid = none) (h : n.call call = (n', outs)) :
    n'.sessions.lookup sid = n.sessions.lookup sid ∧ ∀ o ∈ outs, o.2.deed sid = none := by
  cases call with
  | create clock sentClock key flowIds metadata =>
    have hne : key ≠ sid := fun heq => by simp [Call.deed, heq] at hd
    cases h
    exact ⟨AList.lookup_insert_ne (Ne.symm hne), deed_of_mem_broadcast _ _ (if_neg hne)⟩
  | join key =>
    cases h
    exact ⟨rfl, deed_of_mem_broadcast _ _ rfl⟩
  | leave key =>
    cases h
    exact ⟨rfl, deed_of_mem_broadcast _ _ rfl⟩
  | close key reason =>
    have hne : key ≠ sid := fun heq => by simp [Call.deed, heq] at hd
    by_cases hn : n.Holds key
    · simp only [FlowNode.call, closeSession_holds hn] at h
      cases h
      exact ⟨AList.lookup_erase_ne (Ne.symm hne), deed_of_mem_broadcast _ _ (if_neg hne)⟩
    · simp only [FlowNode.call, closeSession_not_holds hn] at h
      cases h
      exact ⟨rfl, deed_of_mem_nil⟩
  | sync clock key data =>
    have hne : key ≠ sid := fun heq => by simp [Call.deed, heq] at hd
    simp only [FlowNode.call] at h
    unfold FlowNode.syncSessionState at h
    split at h
    · cases h
      exact ⟨rfl, deed_of_mem_nil⟩
    · simp only at h
      split at h
      · cases h
        exact ⟨AList.lookup_insert_ne (Ne.symm hne), deed_of_mem_nil⟩
      · cases h
        exact ⟨AList.lookup_insert_ne (Ne.symm hne), deed_of_mem_broadcast _ _ (if_neg hne)⟩
  | ping sentAt =>
    cases h
    exact ⟨rfl, deed_of_mem_broadcast _ _ rfl⟩
  | update clock update =>
    change n.onMessage clock n.nodeId (.of (.subscriptionUpdate update)) = _ at h
    exact onMessage_other rfl h

end FlowNode

/-- A call that does something to the session is one of three. -/
theorem Call.deed_cases (sid : String) (call : Call) :
    call.deed sid = none ∨ call.mark sid = some .create ∨
    (∃ clock data, call = .sync clock sid data) ∨ call.mark sid = some .close := by
  cases call with
  | create clock sentClock key flowIds metadata =>
    by_cases h : key = sid
    · exact Or.inr (Or.inl (if_pos h))
    · exact Or.inl (if_neg h)
  | close key reason =>
    by_cases h : key = sid
    · exact Or.inr (Or.inr (Or.inr (if_pos h)))
    · exact Or.inl (if_neg h)
  | sync clock key data =>
    by_cases h : key = sid
    · subst h
      exact Or.inr (Or.inr (Or.inl ⟨clock, data, rfl⟩))
    · exact Or.inl (if_neg h)
  | _ => exact Or.inl rfl

/-! ## What is on the links -/

/-- What is on a link about the session, the one sent first in front. -/
def deeds {S : Type} (sid : String) (net : Net NodeId S ControlMessage) (e : NodeId × NodeId) :
    List Deed :=
  (net.onLink e).filterMap (ControlMessage.deed sid)

/-- What is sent to `w` about the session. -/
def sentDeeds (sid : String) (outs : List Send) (w : NodeId) : List Deed :=
  (sentTo outs w).filterMap (ControlMessage.deed sid)

section
variable {S : Type} {sid : String}

theorem deeds_act (sid : String) (state : NodeId → S) (rest : List (Packet NodeId ControlMessage))
    (v : NodeId) (s : S) (outs : List Send) (e : NodeId × NodeId) :
    deeds sid (Net.act state rest v s outs) e =
      deeds sid (⟨state, rest⟩ : Net NodeId S ControlMessage) e ++
        if e.1 = v then sentDeeds sid outs e.2 else [] := by
  rw [deeds, Net.onLink_act, List.filterMap_append]
  split <;> rfl

theorem deeds_deliver {net : Net NodeId S ControlMessage}
    {l₁ l₂ : List (Packet NodeId ControlMessage)} {p : Packet NodeId ControlMessage}
    (hf : net.flight = l₁ ++ p :: l₂) (hfirst : ∀ q ∈ l₁, q.link ≠ p.link) (sid : String)
    (e : NodeId × NodeId) :
    deeds sid net e = (if e = p.link then (p.msg.deed sid).toList else []) ++
      deeds sid (⟨net.state, l₁ ++ l₂⟩ : Net NodeId S ControlMessage) e := by
  rw [deeds, Net.onLink_deliver hf hfirst]
  split
  · rw [List.filterMap_cons]
    cases p.msg.deed sid <;> rfl
  · rfl

theorem deeds_congr {S' : Type} {net : Net NodeId S ControlMessage}
    {net' : Net NodeId S' ControlMessage} (h : net'.flight = net.flight) (sid : String)
    (e : NodeId × NodeId) : deeds sid net' e = deeds sid net e := by
  simp only [deeds, Net.onLink, h]

theorem sentDeeds_singleton (sid : String) (o : Send) (w : NodeId) :
    sentDeeds sid [o] w = if o.1 = w then (o.2.deed sid).toList else [] := by
  by_cases how : o.1 = w
  · cases hd : o.2.deed sid <;> simp [sentDeeds, sentTo, how, hd]
  · simp [sentDeeds, sentTo, how]

theorem mem_sentDeeds {outs : List Send} {w : NodeId} {d : Deed} :
    d ∈ sentDeeds sid outs w ↔ ∃ o ∈ outs, o.1 = w ∧ o.2.deed sid = some d := by
  simp [sentDeeds, sentTo, List.mem_filterMap, and_assoc]

end

/-- What a node's turn does about the session: it does not lose it, sends nothing about it if it
does not have it, closes it nowhere, and if it has just got it, sends a `Create` to every peer
that is not known to have it, and nothing that is written to it. -/
structure Turn {γ δ : Type} (sid : String) (Knows : NodeId → Prop) (n n' : FlowNode γ δ)
    (outs : List Send) : Prop where
  keeps : n.Holds sid → n'.Holds sid
  silent : ¬ n'.Holds sid → ∀ o ∈ outs, o.2.deed sid = none
  opens : ¬ n.Holds sid → n'.Holds sid → ∀ t ∈ n.peers, Knows t ∨ sentDeeds sid outs t = [.create]
  fresh : ¬ n.Holds sid → ∀ o ∈ outs, o.2.deed sid ≠ some .write
  noClose : ∀ o ∈ outs, o.2.deed sid ≠ some .close
  creators : ∀ o ∈ outs, ∀ c, o.2 = .ofSession (.create c) → c.sessionId = sid →
    c.creatorNode = n.nodeId ∨ Knows c.creatorNode

namespace Turn

variable {γ δ : Type} {sid : String} {Knows : NodeId → Prop} {n n' : FlowNode γ δ}
  {outs : List Send}

theorem of_other (hlookup : n'.sessions.lookup sid = n.sessions.lookup sid)
    (houts : ∀ o ∈ outs, o.2.deed sid = none) : Turn sid Knows n n' outs := by
  have hholds := FlowNode.holds_congr hlookup
  refine ⟨hholds.mpr, fun _ => houts, fun hn hn' => absurd (hholds.mp hn') hn, fun _ o ho hd => ?_,
    fun o ho hd => ?_, fun o ho c hc hsid => ?_⟩
  · rw [houts o ho] at hd
    cases hd
  · rw [houts o ho] at hd
    cases hd
  · have hd := houts o ho
    rw [hc, deed_create hsid] at hd
    cases hd

/-- The node has the session, and sends others what is written to it. -/
theorem of_write (hn : n.Holds sid) (hn' : n'.Holds sid)
    (houts : ∀ o ∈ outs, ∃ sync, o.2 = .ofSession (.stateSync sync)) :
    Turn sid Knows n n' outs := by
  refine ⟨fun _ => hn', fun h => absurd hn' h, fun h => absurd hn h, fun h => absurd hn h,
    fun o ho hd => ?_, fun o ho c hc => ?_⟩
  · obtain ⟨sync, hs⟩ := houts o ho
    rw [hs, deed_stateSync_eq] at hd
    split at hd <;> cases hd
  · obtain ⟨sync, hs⟩ := houts o ho
    rw [hs] at hc
    cases hc

end Turn

/-! ## What is on its way -/

/-- Who has the session, and what is on its way of it: it travels along the links, comes from nodes
that have the session, and closes it nowhere. -/
structure Traffic {γ δ : Type} (g : PeerGraph) (sid : String)
    (net : Net NodeId (FlowNode γ δ) ControlMessage) : Prop where
  hosted : Hosted g id net
  linked : ∀ p ∈ net.flight, g.Link p.src p.dst
  backed : ∀ p ∈ net.flight, p.msg.deed sid ≠ none → (net.state p.src).Holds sid
  creators : ∀ p ∈ net.flight, ∀ c, p.msg = .ofSession (.create c) → c.sessionId = sid →
    (net.state c.creatorNode).Holds sid
  noClose : ∀ p ∈ net.flight, p.msg.deed sid ≠ some .close

/-- Nobody has the session, and nothing about it is in flight. -/
structure Unopened {γ δ : Type} (g : PeerGraph) (sid : String)
    (net : Net NodeId (FlowNode γ δ) ControlMessage) : Prop where
  hosted : Hosted g id net
  linked : ∀ p ∈ net.flight, g.Link p.src p.dst
  absent : ∀ v ∈ g.nodes, ¬ (net.state v).Holds sid
  silent : ∀ p ∈ net.flight, p.msg.deed sid = none

section
variable {γ δ : Type} {g : PeerGraph} {sid : String} {v : NodeId}
  {net net' : Net NodeId (FlowNode γ δ) ControlMessage} {n' : FlowNode γ δ} {outs : List Send}

theorem Unopened.traffic (h : Unopened g sid net) : Traffic g sid net := by
  refine ⟨h.hosted, h.linked, fun p hp hd => absurd (h.silent p hp) hd, fun p hp c hc hsid => ?_,
    fun p hp hd => ?_⟩
  · have hd := h.silent p hp
    rw [hc, deed_create hsid] at hd
    cases hd
  · rw [h.silent p hp] at hd
    cases hd

theorem Traffic.alike (h : Traffic g sid net) (ha : Alike net net') : Traffic g sid net' := by
  obtain ⟨state, flight⟩ := net'
  obtain ⟨rfl, hflight⟩ := ha
  exact ⟨⟨h.hosted.id, h.hosted.peers, fun p hp => h.hosted.ends p ((hflight p).mpr hp)⟩,
    fun p hp => h.linked p ((hflight p).mpr hp), fun p hp => h.backed p ((hflight p).mpr hp),
    fun p hp => h.creators p ((hflight p).mpr hp), fun p hp => h.noClose p ((hflight p).mpr hp)⟩

/-- No node loses the session. -/
theorem Turn.holds_act {Knows : NodeId → Prop} (h : Turn sid Knows (net.state v) n' outs)
    (rest : List (Packet NodeId ControlMessage)) (u : NodeId) : (net.state u).Holds sid →
      ((Net.act net.state rest v n' outs).state u).Holds sid :=
  Net.act_forall (fun u (n : FlowNode γ δ) => (net.state u).Holds sid → n.Holds sid) h.keeps
    (fun _ hu => hu) u

theorem Traffic.act (h : Traffic g sid net) (hv : v ∈ g.nodes)
    {rest : List (Packet NodeId ControlMessage)} (hrest : ∀ p ∈ rest, p ∈ net.flight)
    (hsame : SameHost (net.state v) n') (hpeers : ∀ o ∈ outs, o.1 ∈ (net.state v).peers)
    (hturn : Turn sid (fun t => (net.state t).Holds sid) (net.state v) n' outs) :
    Traffic g sid (Net.act net.state rest v n' outs) := by
  have hmono := hturn.holds_act rest
  refine ⟨h.hosted.act hv hrest hsame hpeers, fun p hp => ?_, fun p hp hd => ?_,
    fun p hp c hc hsid => ?_, fun p hp => ?_⟩
  · rcases Net.mem_act.mp hp with hp | ⟨o, ho, rfl⟩
    · exact h.linked p (hrest p hp)
    · refine ⟨hv, ?_⟩
      rw [← show (net.state v).peers = g.peers v from h.hosted.peers v hv]
      exact hpeers o ho
  · rcases Net.mem_act.mp hp with hp | ⟨o, ho, rfl⟩
    · exact hmono _ (h.backed p (hrest p hp) hd)
    · rw [Net.act_state_self]
      by_contra hn'
      exact hd (hturn.silent hn' o ho)
  · rcases Net.mem_act.mp hp with hp | ⟨o, ho, rfl⟩
    · exact hmono _ (h.creators p (hrest p hp) c hc hsid)
    · rcases hturn.creators o ho c hc hsid with hself | hknows
      · rw [hself, show (net.state v).nodeId = v from h.hosted.id v hv, Net.act_state_self]
        by_contra hn'
        have hd := hturn.silent hn' o ho
        rw [show o.2 = _ from hc, deed_create hsid] at hd
        cases hd
      · exact hmono _ hknows
  · rcases Net.mem_act.mp hp with hp | ⟨o, ho, rfl⟩
    · exact h.noClose p (hrest p hp)
    · exact hturn.noClose o ho

variable [PetGraph γ]

/-- The turn of a node that gets a message. -/
theorem Traffic.turn_message (h : Traffic g sid net) {p : Packet NodeId ControlMessage}
    (hp : p ∈ net.flight)
    (hfound : p.msg.deed sid = some .write → (net.state p.dst).Holds sid) {clock : Clock}
    (hr : (net.state p.dst).onMessage clock p.src p.msg = (n', outs)) :
    Turn sid (fun t => (net.state t).Holds sid) (net.state p.dst) n' outs ∧
      (p.msg.deed sid = none ∨ n'.Holds sid) := by
  rcases p.msg.deed_cases sid with hd | ⟨c, hc, hsid⟩ | ⟨s, hs, hsid⟩ | hd
  · obtain ⟨hlookup, houts⟩ := FlowNode.onMessage_other hd hr
    exact ⟨.of_other hlookup houts, Or.inl hd⟩
  · subst hsid
    rw [hc] at hr
    have hsender : (net.state p.src).Holds c.sessionId :=
      h.backed p hp (by rw [hc, deed_create rfl]; exact Option.some_ne_none _)
    have hcreator := h.creators p hp c hc rfl
    rcases FlowNode.onMessage_create_cases hr with ⟨hn, hlookup, rfl⟩ | ⟨hn, ⟨session, hl, -⟩, rfl⟩
    · exact ⟨.of_other hlookup fun o ho => absurd ho List.not_mem_nil,
        Or.inr ((FlowNode.holds_congr hlookup).mpr hn)⟩
    · -- the session is new here: all but the sender and the creator are told
      have hn' : n'.Holds c.sessionId := FlowNode.holds_iff.mpr ⟨session, hl⟩
      have hdeed : ∀ o ∈ (net.state p.dst).gossip p.src c.creatorNode (.ofSession (.create c)),
          o.2.deed c.sessionId = some .create := by
        intro o ho
        rw [(FlowNode.mem_gossip.mp ho).2.2.2, deed_create rfl]
      refine ⟨⟨fun _ => hn', fun hnot => absurd hn' hnot, fun _ _ t ht => ?_, fun _ o ho hd => ?_,
        fun o ho hd => ?_, fun o ho c' hc' hsid' => Or.inr ?_⟩, Or.inr hn'⟩
      · by_cases hts : t = p.src
        · exact Or.inl (hts ▸ hsender)
        · by_cases htc : t = c.creatorNode
          · exact Or.inl (htc ▸ hcreator)
          · refine Or.inr ?_
            rw [sentDeeds, FlowNode.sentTo_gossip, if_pos ⟨ht, hts, htc⟩]
            simp [deed_create]
      · rw [hdeed o ho] at hd
        cases hd
      · rw [hdeed o ho] at hd
        cases hd
      · rw [(FlowNode.mem_gossip.mp ho).2.2.2] at hc'
        cases hc'
        exact hcreator
  · subst hsid
    have hn := hfound (by rw [hs]; exact deed_stateSync rfl)
    obtain ⟨session, hl⟩ := FlowNode.holds_iff.mp hn
    rw [hs] at hr
    rcases onMessage_stateSync clock _ p.src s hl hr with ⟨s', -, hl', rfl⟩ | ⟨-, hl', rfl⟩
    · have hn' := FlowNode.holds_iff.mpr ⟨s', hl'⟩
      refine ⟨.of_write hn hn' fun o ho => ⟨_, (FlowNode.mem_gossip.mp ho).2.2.2⟩, Or.inr hn'⟩
    · have hn' := FlowNode.holds_iff.mpr ⟨session, hl'⟩
      exact ⟨.of_write hn hn' fun o ho => absurd ho List.not_mem_nil, Or.inr hn'⟩
  · exact absurd hd (h.noClose p hp)

/-- The turn of a node whose application calls it. -/
theorem turn_call {Knows : NodeId → Prop} {n : FlowNode γ δ} {call : Call}
    (hclose : call.mark sid ≠ some .close) (hr : n.call call = (n', outs)) :
    Turn sid Knows n n' outs := by
  rcases call.deed_cases sid with hd | hm | ⟨clock, data, rfl⟩ | hm
  · obtain ⟨hlookup, houts⟩ := FlowNode.call_other hd hr
    exact .of_other hlookup houts
  · obtain ⟨hn', c, hsid, hby, rfl⟩ := call_create hm hr
    have hdeed : ∀ o ∈ n.broadcast (.ofSession (.create c)), o.2.deed sid = some .create := by
      intro o ho
      rw [(FlowNode.mem_broadcast.mp ho).2, deed_create hsid]
    refine ⟨fun _ => hn', fun hnot => absurd hn' hnot, fun _ _ t ht => Or.inr ?_,
      fun _ o ho hd => ?_, fun o ho hd => ?_, fun o ho c' hc' hsid' => Or.inl ?_⟩
    · rw [sentDeeds, FlowNode.sentTo_broadcast, if_pos ht]
      simp [deed_create hsid]
    · rw [hdeed o ho] at hd
      cases hd
    · rw [hdeed o ho] at hd
      cases hd
    · rw [(FlowNode.mem_broadcast.mp ho).2] at hc'
      cases hc'
      exact hby
  · by_cases hn : n.Holds sid
    · obtain ⟨sessions, hstate, hkeys, houts⟩ := syncSessionState_effect (n := n) clock sid data
      rw [show (n.syncSessionState clock sid data).1 = n' from congrArg Prod.fst hr] at hstate
      rw [show (n.syncSessionState clock sid data).2.1 = outs from congrArg Prod.snd hr] at houts
      subst hstate
      exact .of_write hn ((hkeys sid).mpr hn) fun o ho => (houts o ho).2
    · have hnone : n.sessions.lookup sid = none := AList.lookup_eq_none.mpr hn
      simp only [FlowNode.call, FlowNode.syncSessionState, hnone] at hr
      cases hr
      exact .of_other rfl fun o ho => absurd ho List.not_mem_nil
  · exact absurd hm hclose

end

/-! ## The order of what is sent -/

/-- A mesh whose nodes send message by message. -/
abbrev TaskMesh (γ δ : Type) :=
  Net NodeId (Tasks NodeId (FlowNode γ δ) ControlMessage) ControlMessage

section
variable {γ δ : Type}

/-- What is written to the session is for no peer that a `Create` of it still waits for. -/
def Paced (sid : String) (b : Tasks NodeId (FlowNode γ δ) ControlMessage) (outs : List Send) :
    Prop :=
  ∀ o ∈ outs, o.2.deed sid = some .write →
    ∀ o' ∈ b.waiting, o'.1 = o.1 → o'.2.deed sid ≠ some .create

instance (sid : String) (b : Tasks NodeId (FlowNode γ δ) ControlMessage) (outs : List Send) :
    Decidable (Paced sid b outs) :=
  inferInstanceAs (Decidable (∀ o ∈ outs, o.2.deed sid = some .write →
    ∀ o' ∈ b.waiting, o'.1 = o.1 → o'.2.deed sid ≠ some .create))

/-- Over the link `u → v`: `v` has the session; or `u` has not, and nothing about it is on the
link; or what is on the link starts with the `Create`; or nothing is on the link, and the `Create`
still waits, but nothing that was written. -/
inductive Order (sid : String) (net : TaskMesh γ δ) (u v : NodeId) : Prop
  | has : (net.state v).node.Holds sid → Order sid net u v
  | lacks : ¬ (net.state u).node.Holds sid → deeds sid net (u, v) = [] → Order sid net u v
  | sent {later : List Deed} : (net.state u).node.Holds sid →
      deeds sid net (u, v) = .create :: later → Order sid net u v
  | waits {o : Send} : (net.state u).node.Holds sid → deeds sid net (u, v) = [] →
      o ∈ (net.state u).waiting → o.1 = v → o.2.deed sid = some .create →
      (∀ o' ∈ (net.state u).waiting, o'.1 = v → o'.2.deed sid ≠ some .write) → Order sid net u v

structure SessionInv (g : PeerGraph) (sid : String) (net : TaskMesh γ δ) : Prop where
  traffic : Traffic g sid (net.whole g.nodes)
  order : ∀ u v, g.Link u v → Order sid net u v

variable {g : PeerGraph} {sid : String} {v : NodeId} {net net' : TaskMesh γ δ}
  {n' : FlowNode γ δ} {outs : List Send}

theorem Unopened.sessionInv {init : Net NodeId (FlowNode γ δ) ControlMessage}
    (h : Unopened g sid init) : SessionInv g sid init.tasked := by
  refine ⟨(Net.whole_tasked g.nodes init).symm ▸ h.traffic, fun u w hl => .lacks (h.absent u hl.1) ?_⟩
  refine List.filterMap_eq_nil_iff.mpr fun m hm => ?_
  obtain ⟨p, hp, rfl⟩ := List.mem_map.mp hm
  exact h.silent p (List.mem_of_mem_filter hp)

/-- What waits about the session waits at a node that has it. -/
theorem SessionInv.holds_of_waiting (h : SessionInv g sid net) (hv : v ∈ g.nodes) {o : Send}
    (ho : o ∈ (net.state v).waiting) (hd : o.2.deed sid ≠ none) :
    (net.state v).node.Holds sid :=
  h.traffic.backed ⟨v, o.1, o.2⟩ (Net.mem_whole.mpr (.inr ⟨hv, ho⟩)) hd

/-- When `v` has just got the session, the `Create` waits for a peer that has not. -/
theorem SessionInv.order_opened (h : SessionInv g sid net)
    {rest : List (Packet NodeId ControlMessage)} (hc : Changed net rest v n' outs net')
    (hturn : Turn sid (fun t => (net.state t).node.Holds sid) (net.state v).node n' outs)
    {w : NodeId} (hl : g.Link v w) (hnot : ¬ (net.state v).node.Holds sid) (hn' : n'.Holds sid)
    (hw : ¬ (net.state w).node.Holds sid) (hnil : deeds sid net' (v, w) = []) :
    Order sid net' v w := by
  have hpeer : w ∈ (net.state v).node.peers := by
    rw [show (net.state v).node.peers = g.peers v from h.traffic.hosted.peers v hl.1]
    exact hl.2
  have hsent : sentDeeds sid outs w = [.create] :=
    (hturn.opens hnot hn' w hpeer).resolve_left hw
  obtain ⟨o, ho, how, hd⟩ := mem_sentDeeds.mp
    (show Deed.create ∈ sentDeeds sid outs w by rw [hsent]; exact List.mem_singleton_self _)
  refine .waits (hc.node ▸ hn') hnil ((hc.waiting o).mpr (.inr ho)) how hd fun o' ho' _ hd' => ?_
  rcases (hc.waiting o').mp ho' with hold | hnew
  · exact hnot (h.holds_of_waiting hl.1 hold (by rw [hd']; exact Option.some_ne_none _))
  · exact hturn.fresh hnot o' hnew hd'

/-- A turn of `v` keeps the order on each link, if what it takes off a link is about another
session, or leaves `v` with the session. -/
theorem SessionInv.order_changed (h : SessionInv g sid net)
    {rest : List (Packet NodeId ControlMessage)} (hc : Changed net rest v n' outs net')
    (hturn : Turn sid (fun t => (net.state t).node.Holds sid) (net.state v).node n' outs)
    (hpaced : Paced sid (net.state v) outs) {a b : NodeId} (hl : g.Link a b)
    (hqueue : deeds sid (⟨net.state, rest⟩ : TaskMesh γ δ) (a, b) = deeds sid net (a, b) ∨
      (b = v ∧ n'.Holds sid)) : Order sid net' a b := by
  have hmono : ∀ u, (net.state u).node.Holds sid → (net'.state u).node.Holds sid := by
    intro u hu
    by_cases huv : u = v
    · subst huv
      rw [hc.node]
      exact hturn.keeps hu
    · rw [hc.others u huv]
      exact hu
  by_cases hb : (net'.state b).node.Holds sid
  · exact .has hb
  have hstays : deeds sid net' (a, b) = deeds sid net (a, b) := by
    rw [← hqueue.resolve_right]
    · exact deeds_congr hc.flight sid (a, b)
    · rintro ⟨rfl, hn'⟩
      rw [hc.node] at hb
      exact hb hn'
  cases h.order a b hl with
  | has hbefore => exact absurd (hmono b hbefore) hb
  | lacks hnot hnil =>
    by_cases hav : a = v
    · subst hav
      by_cases hn' : n'.Holds sid
      · exact h.order_opened hc hturn hl hnot hn' (fun hheld => hb (hmono b hheld))
          (hstays.trans hnil)
      · exact .lacks (hc.node ▸ hn') (hstays.trans hnil)
    · exact .lacks (by rw [hc.others a hav]; exact hnot) (hstays.trans hnil)
  | sent hheld hq => exact .sent (hmono a hheld) (hstays.trans hq)
  | @waits o hheld hnil ho hob hd hno =>
    by_cases hav : a = v
    · subst hav
      refine .waits (hmono a hheld) (hstays.trans hnil) ((hc.waiting o).mpr (.inl ho)) hob hd
        fun o' ho' hb' hd' => ?_
      rcases (hc.waiting o').mp ho' with hold | hnew
      · exact hno o' hold hb' hd'
      · exact hpaced o' hnew hd' o ho (hob.trans hb'.symm) hd
    · have hsame := hc.others a hav
      exact .waits (hmono a hheld) (hstays.trans hnil) (hsame ▸ ho) hob hd (hsame ▸ hno)

/-- A change of `v` keeps the invariant. -/
theorem SessionInv.changed (h : SessionInv g sid net) (hv : v ∈ g.nodes)
    {rest : List (Packet NodeId ControlMessage)} (hrest : ∀ p ∈ rest, p ∈ net.flight)
    (hc : Changed net rest v n' outs net') (hsame : SameHost (net.state v).node n')
    (hpeers : ∀ o ∈ outs, o.1 ∈ (net.state v).node.peers)
    (hturn : Turn sid (fun t => (net.state t).node.Holds sid) (net.state v).node n' outs)
    (hpaced : Paced sid (net.state v) outs)
    (hqueue : ∀ a b, deeds sid (⟨net.state, rest⟩ : TaskMesh γ δ) (a, b) = deeds sid net (a, b) ∨
      (b = v ∧ n'.Holds sid)) : SessionInv g sid net' := by
  refine ⟨?_, fun a b hl => h.order_changed hc hturn hpaced hl (hqueue a b)⟩
  have hrest' : ∀ p ∈ rest ++ net.unsent g.nodes, p ∈ (net.whole g.nodes).flight := by
    intro p hp
    rcases List.mem_append.mp hp with hp | hp
    · exact List.mem_append_left _ (hrest p hp)
    · exact List.mem_append_right _ hp
  exact (h.traffic.act hv hrest' hsame hpeers hturn).alike (hc.whole hv)

/-- What is first on its link and writes to the session finds it. -/
theorem SessionInv.holds_of_write (h : SessionInv g sid net) {u w : NodeId} (hl : g.Link u w)
    (hq : (deeds sid net (u, w)).head? = some .write) : (net.state w).node.Holds sid := by
  cases h.order u w hl with
  | has hheld => exact hheld
  | lacks hnot hnil =>
    rw [hnil] at hq
    cases hq
  | sent hheld hcreate =>
    rw [hcreate] at hq
    cases hq
  | waits hheld hnil =>
    rw [hnil] at hq
    cases hq

/-- A packet that is first on its link and writes to the session finds it. -/
theorem SessionInv.found (h : SessionInv g sid net) {l₁ l₂ : List (Packet NodeId ControlMessage)}
    {p : Packet NodeId ControlMessage} (hf : net.flight = l₁ ++ p :: l₂)
    (hfirst : ∀ q ∈ l₁, q.link ≠ p.link) (hd : p.msg.deed sid = some .write) :
    (net.state p.dst).node.Holds sid := by
  have hp : p ∈ net.flight := by rw [hf]; simp
  refine h.holds_of_write (h.traffic.linked p (Net.mem_whole.mpr (.inl hp))) ?_
  rw [deeds_deliver hf hfirst, if_pos (show (p.src, p.dst) = p.link from rfl), hd]
  rfl

theorem deeds_send (sid : String) (net : TaskMesh γ δ) (v : NodeId)
    (b : Tasks NodeId (FlowNode γ δ) ControlMessage) (o : Send) (u w : NodeId) :
    deeds sid (Net.act net.state net.flight v b [o]) (u, w) =
      deeds sid net (u, w) ++ if u = v ∧ o.1 = w then (o.2.deed sid).toList else [] := by
  rw [deeds_act, sentDeeds_singleton]
  by_cases huv : u = v
  · simp only [huv, if_true, true_and]
  · simp only [huv, if_false, false_and]

/-- While a `Create` for `w` waits, what `v` sends to `w` about the session is a `Create`. -/
theorem SessionInv.order_send (h : SessionInv g sid net) (hv : v ∈ g.nodes) {o c : Send}
    {b : Tasks NodeId (FlowNode γ δ) ControlMessage} (hs : (net.state v).Sends o b) {w : NodeId}
    (hheld : (net.state v).node.Holds sid) (hnil : deeds sid net (v, w) = [])
    (hc : c ∈ (net.state v).waiting) (hcw : c.1 = w) (hd : c.2.deed sid = some .create)
    (hno : ∀ o' ∈ (net.state v).waiting, o'.1 = w → o'.2.deed sid ≠ some .write) :
    Order sid (Net.act net.state net.flight v b [o]) v w := by
  have hheld' : ((Net.act net.state net.flight v b [o]).state v).node.Holds sid := by
    rw [Net.act_state_self, hs.node_eq]
    exact hheld
  have ho : o ∈ (net.state v).waiting := (hs.mem_waiting o).mpr (.inl rfl)
  have hdeeds := deeds_send sid net v b o v w
  rw [hnil, List.nil_append] at hdeeds
  -- unless it is the `Create` that is sent, it goes on waiting
  have hstays : c ≠ o → deeds sid (Net.act net.state net.flight v b [o]) (v, w) = [] →
      Order sid (Net.act net.state net.flight v b [o]) v w := by
    intro hne hempty
    refine .waits hheld' hempty ?_ hcw hd ?_
    · rw [Net.act_state_self]
      exact ((hs.mem_waiting c).mp hc).resolve_left hne
    · rw [Net.act_state_self]
      exact fun o' ho' => hno o' ((hs.mem_waiting o').mpr (.inr ho'))
  by_cases how : o.1 = w
  · rw [if_pos ⟨rfl, how⟩] at hdeeds
    cases hdo : o.2.deed sid with
    | none =>
      rw [hdo] at hdeeds
      refine hstays (fun heq => ?_) hdeeds
      rw [heq, hdo] at hd
      cases hd
    | some deed =>
      rw [hdo] at hdeeds
      cases deed with
      | create => exact .sent hheld' hdeeds
      | write => exact absurd hdo (hno o ho how)
      | close =>
        exact absurd hdo (h.traffic.noClose ⟨v, o.1, o.2⟩ (Net.mem_whole.mpr (.inr ⟨hv, ho⟩)))
  · rw [if_neg fun hboth => how hboth.2] at hdeeds
    exact hstays (fun heq => how (heq ▸ hcw)) hdeeds

/-- A message that is sent keeps the order. -/
theorem SessionInv.send (h : SessionInv g sid net) (hv : v ∈ g.nodes) {o : Send}
    {b : Tasks NodeId (FlowNode γ δ) ControlMessage} (hs : (net.state v).Sends o b) :
    SessionInv g sid (Net.act net.state net.flight v b [o]) := by
  have hnode : ∀ u, ((Net.act net.state net.flight v b [o]).state u).node = (net.state u).node :=
    Net.act_forall (fun u (b' : Tasks NodeId (FlowNode γ δ) ControlMessage) =>
      b'.node = (net.state u).node) hs.node_eq fun _ => rfl
  refine ⟨h.traffic.alike (whole_send hv hs), fun u w hl => ?_⟩
  have hdeeds := deeds_send sid net v b o u w
  cases h.order u w hl with
  | has hheld => exact .has (hnode w ▸ hheld)
  | lacks hnot hnil =>
    refine .lacks (hnode u ▸ hnot) ?_
    rw [hdeeds, hnil]
    split
    · next hboth =>
      -- what waits at `u` is about other sessions
      obtain rfl : u = v := hboth.1
      have hother : o.2.deed sid = none := by
        by_contra hd
        exact hnot (h.holds_of_waiting hv ((hs.mem_waiting o).mpr (.inl rfl)) hd)
      rw [hother]
      rfl
    · rfl
  | sent hheld hq =>
    rw [hq, List.cons_append] at hdeeds
    exact .sent (hnode u ▸ hheld) hdeeds
  | @waits c hheld hnil hc hcw hd hno =>
    by_cases huv : u = v
    · subst huv
      exact h.order_send hv hs hheld hnil hc hcw hd hno
    · rw [hnil, List.nil_append, if_neg fun hboth => huv hboth.1] at hdeeds
      have hsame : (Net.act net.state net.flight v b [o]).state u = net.state u :=
        Net.act_state_ne huv
      exact .waits (hnode u ▸ hheld) hdeeds (hsame ▸ hc) hcw hd (hsame ▸ hno)

variable [PetGraph γ]

/-- A delivery: what it takes off the link is about another session, or leaves the receiver with
this one. -/
theorem SessionInv.deliver (h : SessionInv g sid net) {l₁ l₂ : List (Packet NodeId ControlMessage)}
    {p : Packet NodeId ControlMessage} (hf : net.flight = l₁ ++ p :: l₂)
    (hfirst : ∀ q ∈ l₁, q.link ≠ p.link) {clock : Clock}
    (hr : (net.state p.dst).node.onMessage clock p.src p.msg = (n', outs))
    (hpaced : Paced sid (net.state p.dst) outs)
    (hc : Changed net (l₁ ++ l₂) p.dst n' outs net') : SessionInv g sid net' := by
  have hp : p ∈ (net.whole g.nodes).flight := Net.mem_whole.mpr (.inl (by rw [hf]; simp))
  have hqueue := deeds_deliver hf hfirst sid
  obtain ⟨hturn, hwhy⟩ := h.traffic.turn_message hp (h.found hf hfirst) hr
  refine h.changed (h.traffic.hosted.ends p hp).2 (fun q hq => mem_of_mem_rest hf hq) hc
    (FlowNode.sameHost_of_onMessage hr) (fun o ho => ((FlowNode.onMessage_effect hr).2 o ho).1)
    hturn hpaced fun a b => ?_
  by_cases he : (a, b) = p.link
  · rcases hwhy with hd | hn'
    · refine Or.inl ?_
      rw [hqueue (a, b), hd]
      split <;> rfl
    · exact Or.inr ⟨congrArg Prod.snd he, hn'⟩
  · refine Or.inl ?_
    rw [hqueue (a, b), if_neg he]
    rfl

theorem SessionInv.call (h : SessionInv g sid net) (hv : v ∈ g.nodes) {call : Call}
    (hclose : call.mark sid ≠ some .close) (hr : (net.state v).node.call call = (n', outs))
    (hpaced : Paced sid (net.state v) outs) (hc : Changed net net.flight v n' outs net') :
    SessionInv g sid net' := by
  obtain ⟨hsame, hpeers, -⟩ := call_effect sid hr
  exact h.changed hv (fun p hp => hp) hc hsame hpeers (turn_call hclose hr) hpaced
    fun a b => Or.inl rfl

/-- The calls of a trace. -/
def called (trace : List (Event NodeId ControlMessage (TaskAct Call))) : List Call :=
  trace.filterMap fun e => match e with
    | .own _ (.call call) _ => some call
    | _ => none

/-- No node has called `close_session` for the session. -/
def NeverClosed (sid : String) (trace : List (Event NodeId ControlMessage (TaskAct Call))) : Prop :=
  ∀ call ∈ called trace, call.mark sid ≠ some .close

/-- Control loops and calls that send message by message, with nothing written to the session for a
peer that a `Create` waits for. -/
def sessionTasks (g : PeerGraph) (sid : String) :
    Protocol NodeId (Tasks NodeId (FlowNode γ δ) ControlMessage) ControlMessage (TaskAct Call) :=
  (sessionCalls g).tasked g.nodes (Paced sid)

theorem SessionInv.run {init : Net NodeId (FlowNode γ δ) ControlMessage}
    (hinit : Unopened g sid init) {trace : List (Event NodeId ControlMessage (TaskAct Call))}
    (hrun : FifoRun (sessionTasks g sid) init.tasked trace net) (hclose : NeverClosed sid trace) :
    SessionInv g sid net := by
  induction hrun with
  | nil => exact hinit.sessionInv
  | @step trace net net' e _ he ih =>
    rcases he.tasked_cases with ⟨l₁, l₂, p, n', outs, rfl, hf, hfirst, ⟨clock, hr⟩, hpaced, hc⟩ |
      ⟨v, call, n', outs, rfl, hv, hr, hpaced, hc⟩ | ⟨v, o, b, rfl, hv, hs, rfl⟩
    · exact (ih hclose).deliver hf hfirst hr hpaced hc
    · obtain ⟨hcall, hclose⟩ := List.forall_mem_cons.mp hclose
      exact (ih hclose).call hv hcall hr.2 hpaced hc
    · exact (ih hclose).send hv hs

end

/-- **If the pace is not kept, a write is lost.**  "a" creates the session and writes before it has
sent the `Create`; the `StateSync` goes first, "b" does not have the session, and when nothing is on
its way any more "b" has it without the write. -/
theorem unpaced_write_lost : ∃ trace net,
    FifoRun ((sessionCalls pairGraph).tasked pairGraph.nodes fun _ _ => True)
      (⟨pairNode, []⟩ : Net NodeId (FlowNode VecGraph Unit) ControlMessage).tasked trace net ∧
    net.flight = [] ∧ (∀ v ∈ pairGraph.nodes, (net.state v).waiting = []) ∧
    (((net.state "a").node.sessions.lookup "s").map fun session => session.stateData) = some [1] ∧
    (((net.state "b").node.sessions.lookup "s").map fun session => session.stateData) = some [] := by
  have h0 : FifoRun ((sessionCalls pairGraph).tasked pairGraph.nodes fun _ _ => True)
    (⟨pairNode, []⟩ : Net NodeId (FlowNode VecGraph Unit) ControlMessage).tasked [] _ := .nil
  have h1 := h0.act_own "a" (.call (.create ⟨0, 0⟩ ⟨0, 0⟩ "s" [] ∅)) _ _
    ⟨by decide, rfl, _, _, ⟨by decide, rfl⟩, trivial, rfl⟩
  have h2 := h1.act_own "a" (.call (.sync ⟨0, 5⟩ "s" [1])) _ _
    ⟨by decide, rfl, _, _, ⟨by decide, rfl⟩, trivial, rfl⟩
  have h3 := h2.act_own "a" .send _ _ ⟨by decide, _, .call [[_]], rfl⟩
  have h4 := h3.act_own "a" .send _ _ ⟨by decide, _, .call [], rfl⟩
  have h5 := h4.deliver_head rfl _ _ ⟨rfl, rfl, _, _, ⟨⟨0, 0⟩, rfl⟩, trivial, rfl⟩
  have h6 := h5.deliver_head rfl _ _ ⟨rfl, rfl, _, _, ⟨⟨0, 0⟩, rfl⟩, trivial, rfl⟩
  exact ⟨_, _, h6, rfl, by decide, rfl, rfl⟩

end Stric.Flow
