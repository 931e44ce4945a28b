import Mathlib.Order.WithBot
import Stric.Flow.SessionOrder

/-!
# A session from its creation to agreement

The runs are those of `SessionOrder`, where no write to a session is lost.  Without a merge
function, if writes go ahead of the records they replace, all nodes hold the last write once nothing
is on its way (`session_replicates`).
-/

namespace Stric.Flow

open Stric.Pool Relation

/-! ## The last write -/

/-- The record of a session nobody has written to. -/
def Record.blank : Record := ⟨[], 0, 0⟩

/-- The write of a call of `sync_session_state`, with the version it gives the session. -/
def FlowNode.write {γ δ : Type} (sid : String) (n : FlowNode γ δ) : Call → Option Write
  | .sync clock key data =>
    if key = sid then
      (n.sessions.lookup sid).map fun session => ⟨clock, data, session.stateVersion + 1⟩
    else none
  | _ => none

/-- A call that creates the session makes it blank, and writes nothing. -/
theorem call_create_record {γ δ : Type} [PetGraph γ] {sid : String} {n n' : FlowNode γ δ}
    {call : Call} {outs : List Send} (hm : call.mark sid = some .create)
    (h : n.call call = (n', outs)) :
    (∃ session, n'.sessions.lookup sid = some session ∧ session.record = .blank) ∧
      (∀ k : FlowNode γ δ, k.write sid call = none) ∧
      ∃ c : SessionCreate, c.sessionId = sid ∧ outs = n.broadcast (.ofSession (.create c)) := by
  cases call with
  | create clock sentClock key flowIds metadata =>
    obtain rfl : key = sid := by
      by_contra hne
      rw [Call.mark, if_neg hne] at hm
      cases hm
    cases h
    exact ⟨⟨_, AList.lookup_insert _, rfl⟩, fun _ => rfl, _, rfl, rfl⟩
  | close key reason =>
    rw [Call.mark] at hm
    split at hm <;> cases hm
  | _ => cases hm

/-- A write to a session without a merge function. -/
theorem call_write {γ δ : Type} [PetGraph γ] {sid : String} {n n' : FlowNode γ δ} {clock : Clock}
    {data : Bytes} {outs : List Send} {session : Session}
    (hs : n.sessions.lookup sid = some session) (hno : n.mergeFns.lookup sid = none)
    (h : n.call (.sync clock sid data) = (n', outs)) :
    ∃ w, n.write sid (.sync clock sid data) = some w ∧
      (∃ s, n'.sessions.lookup sid = some s ∧ s.record = w.record) ∧
      outs = n.broadcast (announced n sid w) := by
  have hcall : n.syncSessionState clock sid data =
      (n', outs, (n.syncSessionState clock sid data).2.2) := by
    obtain ⟨rfl, rfl⟩ := Prod.mk.inj h
    rfl
  obtain ⟨-, hl, houts⟩ := syncSessionState_ok (w := ⟨clock, data, session.stateVersion + 1⟩) data
    hs rfl (by rw [hno]; rfl) hcall
  exact ⟨_, by simp [FlowNode.write, hs], ⟨_, hl, rfl⟩, houts⟩

/-- A node does not create the session over its own, nor close it, and what it writes is ahead of
the record it replaces. -/
structure Orderly {γ δ : Type} (sid : String) (n : FlowNode γ δ) (call : Call) (w : Option Write) :
    Prop where
  creates : call.mark sid = some .create → ¬ n.Holds sid
  closes : call.mark sid ≠ some .close
  ahead : ∀ session, n.sessions.lookup sid = some session → ∀ write, w = some write →
    Ahead session write

theorem FlowNode.write_other {γ δ : Type} {sid : String} (n : FlowNode γ δ) {call : Call}
    (h : call.deed sid = none) : n.write sid call = none := by
  cases call with
  | sync clock key data =>
    have hne : key ≠ sid := fun heq => by simp [Call.deed, heq] at h
    exact if_neg hne
  | _ => rfl

/-- Control loops beside orderly calls, each with the write it makes to the session. -/
def replicating {γ δ : Type} [PetGraph γ] (g : PeerGraph) (sid : String) :
    Protocol NodeId (FlowNode γ δ) ControlMessage (Call × Option Write) where
  recv _ sender msg n n' outs := receives sender msg n n' outs
  own v a n n' outs :=
    v ∈ g.nodes ∧ n.call a.1 = (n', outs) ∧ a.2 = n.write sid a.1 ∧ Orderly sid n a.1 a.2

/-- The writes of a trace, the latest first. -/
def written (trace : List (Event NodeId ControlMessage (TaskAct (Call × Option Write)))) :
    List Write :=
  trace.filterMap fun e => match e with
    | .own _ (.call a) _ => a.2
    | _ => none

theorem written_call (v : NodeId) (a : Call × Option Write) (outs : List Send)
    (trace : List (Event NodeId ControlMessage (TaskAct (Call × Option Write)))) :
    written (.own v (.call a) outs :: trace) = a.2.toList ++ written trace := by
  obtain ⟨call, w⟩ := a
  cases w <;> rfl

/-- The record is that of the write with the greatest stamp, or blank if there is none. -/
def Record.IsLast (r : Record) (ws : List Write) : Prop :=
  (ws = [] ∧ r = .blank) ∨ ∃ w ∈ ws, r = w.record ∧ ∀ w' ∈ ws, w'.record.stamp ≤ w.record.stamp

/-- The stamp of the record a node has, if it has one. -/
def heldStamp {γ δ : Type} (sid : String) (n : FlowNode γ δ) : WithBot Nat :=
  match n.sessions.lookup sid with
  | some session => (session.record.stamp : Nat)
  | none => ⊥

/-- The stamp of the record a message brings; a `Create` brings the blank one. -/
def toldStamp (sid : String) (msg : ControlMessage) : WithBot Nat :=
  match msg.message with
  | some (.sessionControl ⟨some (.create c)⟩) => if c.sessionId = sid then (0 : Nat) else ⊥
  | some (.sessionControl ⟨some (.stateSync s)⟩) =>
    if s.sessionId = sid then (s.record.stamp : Nat) else ⊥
  | _ => ⊥

theorem toldStamp_other {sid : String} {msg : ControlMessage} (h : msg.deed sid = none) :
    toldStamp sid msg = ⊥ := by
  unfold toldStamp
  split
  · next c hc =>
    refine if_neg fun hsid => ?_
    simp [ControlMessage.deed, hc, hsid] at h
  · next s hs =>
    refine if_neg fun hsid => ?_
    simp [ControlMessage.deed, hs, hsid] at h
  · rfl

theorem toldStamp_create {sid : String} {c : SessionCreate} (h : c.sessionId = sid) :
    toldStamp sid (.ofSession (.create c)) = (0 : Nat) := if_pos h

theorem toldStamp_stateSync {sid : String} {s : SessionStateSync} (h : s.sessionId = sid) :
    toldStamp sid (.ofSession (.stateSync s)) = (s.record.stamp : Nat) := if_pos h

section
variable {γ δ : Type} {sid : String} {n n' : FlowNode γ δ}

theorem heldStamp_some {session : Session} (h : n.sessions.lookup sid = some session) :
    heldStamp sid n = (session.record.stamp : Nat) := by
  simp only [heldStamp, h]

theorem heldStamp_congr (h : n'.sessions.lookup sid = n.sessions.lookup sid) :
    heldStamp sid n' = heldStamp sid n := by
  simp only [heldStamp, h]

theorem heldStamp_none (h : ¬ n.Holds sid) : heldStamp sid n = ⊥ := by
  simp only [heldStamp, AList.lookup_eq_none.mpr h]

theorem zero_le_heldStamp (h : n.Holds sid) : ((0 : Nat) : WithBot Nat) ≤ heldStamp sid n := by
  obtain ⟨session, hs⟩ := FlowNode.holds_iff.mp h
  rw [heldStamp_some hs]
  exact WithBot.coe_le_coe.mpr (Nat.zero_le _)

end

/-- The record is the blank one or was written. -/
def Genuine (ws : List Write) (r : Record) : Prop := r = .blank ∨ ∃ w ∈ ws, r = w.record

/-- Every record stems from a write, and none that was written is forgotten. -/
structure ReplicaInv {γ δ : Type} (g : PeerGraph) (sid : String) (ws : List Write)
    (net : Net NodeId (FlowNode γ δ) ControlMessage) : Prop where
  traffic : Traffic g sid net
  noMerge : ∀ v ∈ g.nodes, (net.state v).mergeFns.lookup sid = none
  covered : Covered (heldStamp sid) (toldStamp sid) g.Link net
  held : ∀ v ∈ g.nodes, ∀ session, (net.state v).sessions.lookup sid = some session →
    Genuine ws session.record
  flight : ∀ p ∈ net.flight, ∀ sync, p.msg = .ofSession (.stateSync sync) → sync.sessionId = sid →
    sync.sender = p.src ∧ ∃ w ∈ ws, sync.record = w.record
  reached : ∀ w ∈ ws, 0 < w.record.stamp ∧
    ∃ v ∈ g.nodes, (w.record.stamp : WithBot Nat) ≤ heldStamp sid (net.state v)

section
variable {γ δ : Type} {g : PeerGraph} {sid : String} {v : NodeId} {ws ws' : List Write}
  {net net' : Net NodeId (FlowNode γ δ) ControlMessage} {n' : FlowNode γ δ} {outs : List Send}

theorem ReplicaInv.alike (h : ReplicaInv g sid ws net) (ha : Alike net net') :
    ReplicaInv g sid ws net' := by
  have htraffic := h.traffic.alike ha
  obtain ⟨state, flight⟩ := net'
  obtain ⟨rfl, hflight⟩ := ha
  exact ⟨htraffic, h.noMerge, ⟨fun p hp => h.covered.backed p ((hflight p).mpr hp),
    fun u w hl b hw hb => h.covered.link u w hl b hw fun p hp => hb p ((hflight p).mp hp)⟩, h.held,
    fun p hp => h.flight p ((hflight p).mpr hp), h.reached⟩

/-- What a step at `v` keeps, once `v`'s record and what it sends are genuine. -/
theorem ReplicaInv.act (h : ReplicaInv g sid ws net) (hv : v ∈ g.nodes)
    {rest : List (Packet NodeId ControlMessage)} (hrest : ∀ p ∈ rest, p ∈ net.flight)
    (hsame : SameHost (net.state v) n') (hsub : ∀ w ∈ ws, w ∈ ws')
    (htraffic : Traffic g sid (Net.act net.state rest v n' outs))
    (hcov : Covered (heldStamp sid) (toldStamp sid) g.Link (Net.act net.state rest v n' outs))
    (hgrows : heldStamp sid (net.state v) ≤ heldStamp sid n')
    (hheld : ∀ session, n'.sessions.lookup sid = some session → Genuine ws' session.record)
    (hsent : ∀ o ∈ outs, ∀ sync, o.2 = .ofSession (.stateSync sync) → sync.sessionId = sid →
      sync.sender = v ∧ ∃ w ∈ ws', sync.record = w.record)
    (hnew : ∀ w ∈ ws', w ∈ ws ∨
      (0 < w.record.stamp ∧ (w.record.stamp : WithBot Nat) ≤ heldStamp sid n')) :
    ReplicaInv g sid ws' (Net.act net.state rest v n' outs) := by
  refine ⟨htraffic, mergeFns_act hsame h.noMerge, hcov, fun u hu => ?_, fun p hp => ?_,
    fun w hw => ?_⟩
  · refine Net.act_forall (fun u (n : FlowNode γ δ) => u ∈ g.nodes → ∀ session,
      n.sessions.lookup sid = some session → Genuine ws' session.record) (fun _ => hheld)
      (fun u hu session hs => (h.held u hu session hs).imp_right ?_) u hu
    rintro ⟨w, hw, hr⟩
    exact ⟨w, hsub w hw, hr⟩
  · rcases Net.mem_act.mp hp with hp | ⟨o, ho, rfl⟩
    · intro sync hmsg hsid
      obtain ⟨hsender, w, hw, hr⟩ := h.flight p (hrest p hp) sync hmsg hsid
      exact ⟨hsender, w, hsub w hw, hr⟩
    · exact hsent o ho
  · have hmono : ∀ u, heldStamp sid (net.state u) ≤
        heldStamp sid ((Net.act net.state rest v n' outs).state u) :=
      Net.act_forall (fun u (n : FlowNode γ δ) => heldStamp sid (net.state u) ≤ heldStamp sid n)
        hgrows fun _ => le_rfl
    rcases hnew w hw with hw | ⟨hpos, hle⟩
    · obtain ⟨hpos, u, hu, hle⟩ := h.reached w hw
      exact ⟨hpos, u, hu, hle.trans (hmono u)⟩
    · refine ⟨hpos, v, hv, ?_⟩
      rw [Net.act_state_self]
      exact hle

/-- A step that leaves the session and sends nothing about it tells everybody. -/
theorem tells_of_other (hlookup : n'.sessions.lookup sid = (net.state v).sessions.lookup sid)
    (houts : ∀ o ∈ outs, o.2.deed sid = none) :
    Tells (heldStamp sid) (toldStamp sid) g.Link net.state v n' outs := by
  have hval : heldStamp sid n' = heldStamp sid (net.state v) := heldStamp_congr hlookup
  refine ⟨le_of_eq hval.symm, fun o ho => ?_, fun _ _ _ b hb _ _ => hval ▸ hb⟩
  rw [toldStamp_other (houts o ho)]
  exact bot_le

/-- A step that leaves the session, sends nothing about it and writes nothing. -/
theorem ReplicaInv.act_other (h : ReplicaInv g sid ws net) (hv : v ∈ g.nodes)
    {rest : List (Packet NodeId ControlMessage)} (hrest : ∀ p ∈ rest, p ∈ net.flight)
    (hsame : SameHost (net.state v) n') (hws : ws' = ws)
    (htraffic : Traffic g sid (Net.act net.state rest v n' outs))
    (hlookup : n'.sessions.lookup sid = (net.state v).sessions.lookup sid)
    (houts : ∀ o ∈ outs, o.2.deed sid = none)
    (hcov : Tells (heldStamp sid) (toldStamp sid) g.Link net.state v n' outs →
      Covered (heldStamp sid) (toldStamp sid) g.Link (Net.act net.state rest v n' outs)) :
    ReplicaInv g sid ws' (Net.act net.state rest v n' outs) := by
  have ht := tells_of_other (g := g) hlookup houts
  refine h.act hv hrest hsame (fun w hw => hws ▸ hw) htraffic (hcov ht) ht.grows
    (fun session hs => ?_) (fun o ho sync hmsg hsid => ?_) fun w hw => Or.inl (hws ▸ hw)
  · rw [hlookup] at hs
    unfold Genuine
    rw [hws]
    exact h.held v hv session hs
  · have hd := houts o ho
    rw [hmsg, deed_stateSync hsid] at hd
    cases hd

/-- A step that makes the session, and sends nothing of it but its `Create`. -/
theorem ReplicaInv.act_blank (h : ReplicaInv g sid ws net) (hv : v ∈ g.nodes)
    {rest : List (Packet NodeId ControlMessage)} (hrest : ∀ p ∈ rest, p ∈ net.flight)
    (hsame : SameHost (net.state v) n') (hws : ws' = ws)
    (htraffic : Traffic g sid (Net.act net.state rest v n' outs)) {session : Session}
    (hl : n'.sessions.lookup sid = some session) (hblank : session.record = .blank)
    {c : SessionCreate} (houts : ∀ o ∈ outs, o.2 = .ofSession (.create c))
    (ht : Tells (heldStamp sid) (toldStamp sid) g.Link net.state v n' outs)
    (hcov : Covered (heldStamp sid) (toldStamp sid) g.Link (Net.act net.state rest v n' outs)) :
    ReplicaInv g sid ws' (Net.act net.state rest v n' outs) := by
  refine h.act hv hrest hsame (fun w hw => hws ▸ hw) htraffic hcov ht.grows
    (fun session' hs' => ?_) (fun o ho sync hmsg _ => ?_) fun w hw => Or.inl (hws ▸ hw)
  · rw [hl] at hs'
    cases hs'
    exact Or.inl hblank
  · rw [houts o ho] at hmsg
    cases hmsg

/-- Passing on a `Create`: the sender and the creator have the session already. -/
theorem tells_of_create (hh : Hosted g id net) (hv : v ∈ g.nodes) {sender : NodeId}
    {c : SessionCreate} (hsid : c.sessionId = sid) {session : Session}
    (hn : ¬ (net.state v).Holds sid) (hl : n'.sessions.lookup sid = some session)
    (hblank : session.record = .blank) (hsender : (net.state sender).Holds sid)
    (hcreator : (net.state c.creatorNode).Holds sid) :
    Tells (heldStamp sid) (toldStamp sid) g.Link net.state v n'
      ((net.state v).gossip sender c.creatorNode (.ofSession (.create c))) := by
  have hnew : heldStamp sid n' = (0 : Nat) := by
    rw [heldStamp_some hl, hblank]
    rfl
  refine ⟨?_, fun o ho => ?_, fun t ht _ b _ htb hob => ?_⟩
  · rw [heldStamp_none hn]
    exact bot_le
  · rw [(FlowNode.mem_gossip.mp ho).2.2.2, toldStamp_create hsid, hnew]
  · rw [hnew]
    by_cases hts : t = sender
    · exact (zero_le_heldStamp (hts ▸ hsender)).trans htb
    · by_cases htc : t = c.creatorNode
      · exact (zero_le_heldStamp (htc ▸ hcreator)).trans htb
      · have hpeer : t ∈ (net.state v).peers := by
          rw [show (net.state v).peers = g.peers v from hh.peers v hv]
          exact ht.2
        rw [← toldStamp_create hsid]
        exact hob (t, _) (FlowNode.mem_gossip.mpr ⟨hpeer, hts, htc, rfl⟩) rfl

/-- Broadcasting the new record. -/
theorem tells_of_news (hh : Hosted g id net) (hv : v ∈ g.nodes) {msg : ControlMessage}
    (hgrows : heldStamp sid (net.state v) ≤ heldStamp sid n')
    (hmsg : toldStamp sid msg = heldStamp sid n') :
    Tells (heldStamp sid) (toldStamp sid) g.Link net.state v n' ((net.state v).broadcast msg) :=
  tells_of_broadcast hh hv hgrows (le_of_eq hmsg) fun _ _ hb => hmsg ▸ hb

/-- Taking over a record and relaying it: its sender has it, or a later one. -/
theorem tells_of_relay (hh : Hosted g id net) (hv : v ∈ g.nodes) {sender : NodeId}
    {sync : SessionStateSync} {session session' : Session}
    (hold : (net.state v).sessions.lookup sync.sessionId = some session)
    (hl : n'.sessions.lookup sync.sessionId = some session') (hrec : session'.record = sync.record)
    (hlt : session.record.stamp < sync.record.stamp)
    (hback : (sync.record.stamp : WithBot Nat) ≤ heldStamp sync.sessionId (net.state sender)) :
    Tells (heldStamp sync.sessionId) (toldStamp sync.sessionId) g.Link net.state v n'
      ((net.state v).gossip sender sender (relayed (net.state v) sync session')) := by
  have hnew : heldStamp sync.sessionId n' = (sync.record.stamp : Nat) := by
    rw [heldStamp_some hl, hrec]
  have hrel : toldStamp sync.sessionId (relayed (net.state v) sync session') =
      (sync.record.stamp : Nat) := by
    rw [← hrec]
    exact if_pos rfl
  refine tells_of_gossip hh hv ?_ ?_ ?_ fun b _ hb => ?_
  · rw [heldStamp_some hold, hnew]
    exact WithBot.coe_le_coe.mpr (Nat.le_of_lt hlt)
  · rw [hrel, hnew]
  · rw [hrel, hnew]
  · rw [hnew]
    exact hback.trans hb

variable [PetGraph γ]

/-- A delivery, if what writes to the session finds it. -/
theorem ReplicaInv.deliver (h : ReplicaInv g sid ws net)
    {l₁ l₂ : List (Packet NodeId ControlMessage)} {p : Packet NodeId ControlMessage}
    (hf : net.flight = l₁ ++ p :: l₂)
    (hfound : p.msg.deed sid = some .write → (net.state p.dst).Holds sid) {clock : Clock}
    (hr : (net.state p.dst).onMessage clock p.src p.msg = (n', outs)) :
    ReplicaInv g sid ws (Net.act net.state (l₁ ++ l₂) p.dst n' outs) := by
  have hp : p ∈ net.flight := by rw [hf]; simp
  have hv := (h.traffic.hosted.ends p hp).2
  have hsame := FlowNode.sameHost_of_onMessage hr
  have hrest : ∀ q ∈ l₁ ++ l₂, q ∈ net.flight := fun q hq => mem_of_mem_rest hf hq
  have htraffic := h.traffic.act hv hrest hsame
    (fun o ho => ((FlowNode.onMessage_effect hr).2 o ho).1) (h.traffic.turn_message hp hfound hr).1
  -- a step that leaves the session as it is
  have hother : n'.sessions.lookup sid = (net.state p.dst).sessions.lookup sid →
      (∀ o ∈ outs, o.2.deed sid = none) → toldStamp sid p.msg ≤ heldStamp sid n' →
      ReplicaInv g sid ws (Net.act net.state (l₁ ++ l₂) p.dst n' outs) := by
    intro hlookup houts htaken
    exact h.act_other hv hrest hsame rfl htraffic hlookup houts fun ht =>
      h.covered.deliver hf ht htaken
  rcases p.msg.deed_cases sid with hd | ⟨c, hc, rfl⟩ | ⟨s, hs, rfl⟩ | hd
  · obtain ⟨hlookup, houts⟩ := FlowNode.onMessage_other hd hr
    refine hother hlookup houts ?_
    rw [toldStamp_other hd]
    exact bot_le
  · have hcreator := h.traffic.creators p hp c hc rfl
    have hsender := h.traffic.backed p hp (by rw [hc, deed_create rfl]; exact Option.some_ne_none _)
    rw [hc] at hr
    rcases FlowNode.onMessage_create_cases hr with
      ⟨hn, hlookup, rfl⟩ | ⟨hn, ⟨session, hl, hblank⟩, rfl⟩
    · refine hother hlookup FlowNode.deed_of_mem_nil ?_
      rw [hc, toldStamp_create rfl]
      exact zero_le_heldStamp ((FlowNode.holds_congr hlookup).mpr hn)
    · have ht := tells_of_create h.traffic.hosted hv rfl hn hl hblank hsender hcreator
      refine h.act_blank hv hrest hsame rfl htraffic hl hblank
        (fun o ho => (FlowNode.mem_gossip.mp ho).2.2.2) ht (h.covered.deliver hf ht ?_)
      rw [hc, toldStamp_create rfl]
      exact zero_le_heldStamp (FlowNode.holds_iff.mpr ⟨session, hl⟩)
  · obtain ⟨session, hses⟩ := FlowNode.holds_iff.mp (hfound (by rw [hs]; exact deed_stateSync rfl))
    obtain ⟨hsender, w, hw, hrec⟩ := h.flight p hp s hs rfl
    have hback := h.covered.backed p hp
    rw [hs, toldStamp_stateSync rfl] at hback
    rw [hs] at hr
    rcases onMessage_lww clock _ p.src s hses (h.noMerge p.dst hv) hr with
      ⟨hlt, s', hs', hl, rfl⟩ | ⟨hle, hl, rfl⟩
    · have ht : Tells (heldStamp s.sessionId) (toldStamp s.sessionId) g.Link net.state p.dst n'
          ((net.state p.dst).gossip p.src s.sender (relayed (net.state p.dst) s s')) := by
        rw [hsender]
        exact tells_of_relay h.traffic.hosted hv hses hl hs' hlt hback
      refine h.act hv hrest hsame (fun x hx => hx) htraffic (h.covered.deliver hf ht ?_) ht.grows
        (fun session' hs'' => ?_) (fun o ho sync hmsg hsid => ?_) fun x hx => Or.inl hx
      · rw [hs, toldStamp_stateSync rfl, heldStamp_some hl, hs']
      · rw [hl] at hs''
        cases hs''
        exact Or.inr ⟨w, hw, hs'.trans hrec⟩
      · rw [(FlowNode.mem_gossip.mp ho).2.2.2] at hmsg
        cases hmsg
        exact ⟨h.traffic.hosted.id p.dst hv, w, hw, hs'.trans hrec⟩
    · refine hother (hl.trans hses.symm) FlowNode.deed_of_mem_nil ?_
      rw [hs, toldStamp_stateSync rfl, heldStamp_some hl]
      exact WithBot.coe_le_coe.mpr hle
  · exact absurd hd (h.traffic.noClose p hp)

theorem Traffic.call (h : Traffic g sid net) (hv : v ∈ g.nodes) {call : Call}
    (hclose : call.mark sid ≠ some .close) (hr : (net.state v).call call = (n', outs)) :
    Traffic g sid (Net.act net.state net.flight v n' outs) := by
  obtain ⟨hsame, hpeers, -⟩ := call_effect sid hr
  exact h.act hv (fun p hp => hp) hsame hpeers (turn_call hclose hr)

/-- A write at a node that has the session. -/
theorem ReplicaInv.write (h : ReplicaInv g sid ws net) (hv : v ∈ g.nodes) {clock : Clock}
    {data : Bytes} {session : Session} {w : Write}
    (hses : (net.state v).sessions.lookup sid = some session)
    (hw : (net.state v).write sid (.sync clock sid data) = some w) (hahead : Ahead session w)
    (hr : (net.state v).call (.sync clock sid data) = (n', outs)) :
    ReplicaInv g sid (w :: ws) (Net.act net.state net.flight v n' outs) := by
  obtain ⟨hsame, -, -⟩ := call_effect sid hr
  have htraffic := h.traffic.call hv (fun hm => by cases hm) hr
  obtain ⟨w', hw', ⟨s, hl, hrec⟩, rfl⟩ := call_write hses (h.noMerge v hv) hr
  obtain rfl : w' = w := Option.some.inj (hw'.symm.trans hw)
  have hahead : session.record.stamp < w'.record.stamp := hahead
  have hnew : heldStamp sid n' = (w'.record.stamp : Nat) := by
    rw [heldStamp_some hl, hrec]
  have hmsg : toldStamp sid (announced (net.state v) sid w') = (w'.record.stamp : Nat) := if_pos rfl
  have hgrows : heldStamp sid (net.state v) ≤ heldStamp sid n' := by
    rw [heldStamp_some hses, hnew]
    exact WithBot.coe_le_coe.mpr (Nat.le_of_lt hahead)
  have ht := tells_of_news h.traffic.hosted hv hgrows (hmsg.trans hnew.symm)
  refine h.act hv (fun p hp => hp) hsame (fun x hx => List.mem_cons_of_mem _ hx) htraffic
    (h.covered.own ht) ht.grows (fun session' hs' => ?_) (fun o ho sync hsync _ => ?_)
    fun x hx => ?_
  · rw [hl] at hs'
    cases hs'
    exact Or.inr ⟨w', List.mem_cons_self, hrec⟩
  · rw [(FlowNode.mem_broadcast.mp ho).2] at hsync
    cases hsync
    exact ⟨h.traffic.hosted.id v hv, w', List.mem_cons_self, rfl⟩
  · rcases List.mem_cons.mp hx with rfl | hx
    · exact Or.inr ⟨Nat.zero_lt_of_lt hahead, le_of_eq hnew.symm⟩
    · exact Or.inl hx

theorem ReplicaInv.call (h : ReplicaInv g sid ws net) {a : Call × Option Write}
    (hr : (replicating g sid).own v a (net.state v) n' outs) :
    ReplicaInv g sid (a.2.toList ++ ws) (Net.act net.state net.flight v n' outs) := by
  obtain ⟨call, w⟩ := a
  obtain ⟨hv, hr, hw, horderly⟩ := hr
  simp only at hr hw horderly
  have htraffic := h.traffic.call hv horderly.closes hr
  obtain ⟨hsame, -, -⟩ := call_effect sid hr
  -- a call that leaves the session as it is
  have hother : n'.sessions.lookup sid = (net.state v).sessions.lookup sid →
      (∀ o ∈ outs, o.2.deed sid = none) → w = none →
      ReplicaInv g sid (w.toList ++ ws) (Net.act net.state net.flight v n' outs) := by
    rintro hlookup houts rfl
    exact h.act_other hv (fun p hp => hp) hsame rfl htraffic hlookup houts h.covered.own
  rcases call.deed_cases sid with hd | hm | ⟨clock, data, rfl⟩ | hm
  · obtain ⟨hlookup, houts⟩ := FlowNode.call_other hd hr
    exact hother hlookup houts (hw.trans (FlowNode.write_other _ hd))
  · obtain ⟨⟨session, hl, hblank⟩, hnowrite, c, hsid, rfl⟩ := call_create_record hm hr
    obtain rfl : w = none := hw.trans (hnowrite _)
    have hnew : heldStamp sid n' = (0 : Nat) := by
      rw [heldStamp_some hl, hblank]
      rfl
    have hgrows : heldStamp sid (net.state v) ≤ heldStamp sid n' := by
      rw [heldStamp_none (horderly.creates hm)]
      exact bot_le
    have ht := tells_of_news h.traffic.hosted hv hgrows ((toldStamp_create hsid).trans hnew.symm)
    exact h.act_blank hv (fun p hp => hp) hsame rfl htraffic hl hblank
      (fun o ho => (FlowNode.mem_broadcast.mp ho).2) ht (h.covered.own ht)
  · by_cases hn : (net.state v).Holds sid
    · obtain ⟨session, hses⟩ := FlowNode.holds_iff.mp hn
      obtain ⟨write, hwrite, -, -⟩ := call_write hses (h.noMerge v hv) hr
      obtain rfl : w = some write := hw.trans hwrite
      exact h.write hv hses hwrite (horderly.ahead session hses write rfl) hr
    · have hlookup : (net.state v).sessions.lookup sid = none := AList.lookup_eq_none.mpr hn
      have hwnone : w = none := by
        rw [hw]
        simp [FlowNode.write, hlookup]
      simp only [FlowNode.call, FlowNode.syncSessionState, hlookup] at hr
      cases hr
      exact hother rfl FlowNode.deed_of_mem_nil hwnone
  · exact absurd hm horderly.closes

omit [PetGraph γ] in
theorem Unopened.replicaInv {init : Net NodeId (FlowNode γ δ) ControlMessage}
    (h : Unopened g sid init)
    (hnoMerge : ∀ v ∈ g.nodes, (init.state v).mergeFns.lookup sid = none) :
    ReplicaInv g sid [] init := by
  refine ⟨h.traffic, hnoMerge, ⟨fun p hp => ?_, fun a b hl c _ _ => ?_⟩, fun v hv session hs => ?_,
    fun p hp sync hmsg hsid => ?_, fun w hw => nomatch hw⟩
  · rw [toldStamp_other (h.silent p hp)]
    exact bot_le
  · rw [heldStamp_none (h.absent a hl.1)]
    exact bot_le
  · exact absurd (FlowNode.holds_iff.mpr ⟨session, hs⟩) (h.absent v hv)
  · have hd := h.silent p hp
    rw [hmsg, deed_stateSync hsid] at hd
    cases hd

/-- Of writes that do not contradict each other, only one record can be the last. -/
theorem Record.IsLast.unique {ws : List Write} (hcons : Consistent ws) {r r' : Record}
    (h : r.IsLast ws) (h' : r'.IsLast ws) : r = r' := by
  rcases h with ⟨rfl, rfl⟩ | ⟨w, hw, rfl, hmax⟩
  · rcases h' with ⟨-, rfl⟩ | ⟨w', hw', -, -⟩
    · rfl
    · cases hw'
  · rcases h' with ⟨rfl, -⟩ | ⟨w', hw', rfl, hmax'⟩
    · cases hw
    · have hstamp := Nat.le_antisymm (hmax' w hw) (hmax w' hw')
      obtain ⟨ht, hv⟩ := stamp_inj hstamp
      have hdata := hcons w hw w' hw' hstamp
      unfold Write.record at ht hv ⊢
      simp only at ht hv
      rw [hdata, ht, hv]

/-- Orderly calls and control loops that send message by message, with nothing written to the session
for a peer that a `Create` waits for. -/
def replicatingTasks (g : PeerGraph) (sid : String) :
    Protocol NodeId (Tasks NodeId (FlowNode γ δ) ControlMessage) ControlMessage
      (TaskAct (Call × Option Write)) :=
  (replicating g sid).tasked g.nodes (Paced sid)

/-- Seen with all that waits in flight, a run keeps both invariants. -/
theorem ReplicaInv.run {init : Net NodeId (FlowNode γ δ) ControlMessage}
    (hinit : Unopened g sid init)
    (hnoMerge : ∀ v ∈ g.nodes, (init.state v).mergeFns.lookup sid = none)
    {trace : List (Event NodeId ControlMessage (TaskAct (Call × Option Write)))}
    {net : TaskMesh γ δ} (hrun : FifoRun (replicatingTasks g sid) init.tasked trace net) :
    SessionInv g sid net ∧ ReplicaInv g sid (written trace) (net.whole g.nodes) := by
  induction hrun with
  | nil =>
    refine ⟨hinit.sessionInv, ?_⟩
    rw [Net.whole_tasked]
    exact hinit.replicaInv hnoMerge
  | @step trace net net' e _ he ih =>
    obtain ⟨hsession, hreplica⟩ := ih
    rcases he.tasked_cases with ⟨l₁, l₂, p, n', outs, rfl, hf, hfirst, ⟨clock, hr⟩, hpaced, hc⟩ |
      ⟨v, a, n', outs, rfl, hv, hr, hpaced, hc⟩ | ⟨v, o, b, rfl, hv, hs, rfl⟩
    · have hf' : (net.whole g.nodes).flight = l₁ ++ p :: (l₂ ++ net.unsent g.nodes) := by
        show net.flight ++ _ = _
        rw [hf, List.append_assoc, List.cons_append]
      have hv := (hsession.traffic.hosted.ends p (by rw [hf']; simp)).2
      have hstep := hreplica.deliver hf' (hsession.found hf hfirst) hr
      rw [← List.append_assoc] at hstep
      exact ⟨hsession.deliver hf hfirst hr hpaced hc, hstep.alike (hc.whole hv)⟩
    · have hstep := hreplica.call hr
      rw [written_call]
      exact ⟨hsession.call hv hr.2.2.2.closes hr.2.1 hpaced hc, hstep.alike (hc.whole hv)⟩
    · exact ⟨hsession.send hv hs, hreplica.alike (whole_send hv hs)⟩

end

end Stric.Flow
