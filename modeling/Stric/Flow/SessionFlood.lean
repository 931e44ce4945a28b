import Stric.Flow.SessionMerge
import Stric.Flow.VecGraph
import Stric.Pool.Relay

/-!
# Session messages that nothing stops

`Join`, `Leave` and, under a merge function, `StateSync` are relayed without any check
whether the node has seen them: to every peer but the one they came from (and, for `Join`
and `Leave`, the node they are about).  So they die out only where the peer graph makes
them:

* merged state dies out exactly if the peer graph is a forest (`merged_gossip_ends_iff`);
  on a triangle one write is enough to keep the nodes busy for ever
  (`triangle_never_rests`);
* the announcement of a node dies out exactly if every cycle that can be reached from that
  node goes through it (`announcement_ends_iff`); it does not if the node hangs off a
  triangle (`join_never_rests`).
-/

namespace Stric.Flow

open Stric.Pool Relation

/-- No walk that never turns straight back comes round to a link it has passed. -/
def PeerGraph.Forest (g : PeerGraph) : Prop :=
  ∀ e, ¬ TransGen (Onward g.Link fun _ => False) e e

/-- For peers that are mutual, and nobody's own, this is a forest in the usual sense. -/
theorem PeerGraph.forest_iff (g : PeerGraph) (hsymm : ∀ v w, g.Link v w → g.Link w v)
    (hself : ∀ v, ¬ g.Link v v) :
    g.Forest ↔ (SimpleGraph.mk g.Link ⟨hsymm⟩ ⟨hself⟩).IsAcyclic :=
  not_onward_loop_iff (G := SimpleGraph.mk g.Link ⟨hsymm⟩ ⟨hself⟩)

theorem PeerGraph.finite_onward (g : PeerGraph) (Skip : NodeId → Prop) (e : NodeId × NodeId) :
    {e' | ReflTransGen (Onward g.Link Skip) e e'}.Finite :=
  Pool.finite_onward g.nodes (fun _ _ h => ⟨h.1, h.right⟩) e

theorem PeerGraph.fades_iff (g : PeerGraph) (Skip : NodeId → Prop) (e : NodeId × NodeId) :
    Fades (Onward g.Link Skip) e ↔ ¬ ComesRound (Onward g.Link Skip) e :=
  Pool.fades_iff (g.finite_onward Skip e)

section
variable {γ δ : Type} [PetGraph γ]

/-- Control loops that only react to what they receive. -/
def controlLoops : Protocol NodeId (FlowNode γ δ) ControlMessage Empty where
  recv _ sender msg n n' outs := receives sender msg n n' outs
  own _ a := nomatch a

omit [PetGraph γ] in
/-- The gossip of a node goes onward from the link the message came over. -/
theorem onward_gossip {g : PeerGraph} {net : Net NodeId (FlowNode γ δ) ControlMessage}
    (hh : Hosted g id net) {p : Packet NodeId ControlMessage} (hp : p ∈ net.flight)
    (about w : NodeId) (msg : ControlMessage) :
    Onward g.Link (fun x => x = about) p.link (p.dst, w) ↔
      ∃ o ∈ (net.state p.dst).gossip p.src about msg, o.1 = w := by
  have hd := (hh.ends p hp).2
  have hpeers : (net.state p.dst).peers = g.peers p.dst := hh.peers p.dst hd
  constructor
  · rintro ⟨-, hl, hne, hskip⟩
    exact ⟨(w, msg), FlowNode.mem_gossip.mpr ⟨by rw [hpeers]; exact hl.2, hne, hskip, rfl⟩, rfl⟩
  · rintro ⟨o, ho, rfl⟩
    obtain ⟨h1, h2, h3, -⟩ := FlowNode.mem_gossip.mp ho
    rw [hpeers] at h1
    exact ⟨rfl, ⟨hd, h1⟩, h2, h3⟩

/-! ## Merged state -/

/-- Every node holds the session, merges it by a function that never fails, and only
`StateSync`s are in flight, each with its sender on it. -/
structure SyncInv (join : Bytes → Bytes → Bytes) (g : PeerGraph) (sid : String)
    (net : Net NodeId (FlowNode γ δ) ControlMessage) : Prop where
  hosted : Hosted g id net
  merges : ∀ v ∈ g.nodes, (net.state v).mergeFns.lookup sid = some fun x y => .ok (join x y)
  holds : ∀ v ∈ g.nodes, ∃ session, (net.state v).sessions.lookup sid = some session
  flight : ∀ p ∈ net.flight, ∃ sync, p.msg = .ofSession (.stateSync sync) ∧
    sync.sessionId = sid ∧ sync.sender = p.src

section
variable {join : Bytes → Bytes → Bytes} {g : PeerGraph} {sid : String} {v : NodeId}
  {net net' : Net NodeId (FlowNode γ δ) ControlMessage} {n' : FlowNode γ δ} {outs : List Send}

omit [PetGraph γ] in
theorem SyncInv.act (h : SyncInv join g sid net) (hv : v ∈ g.nodes)
    {rest : List (Packet NodeId ControlMessage)} (hrest : ∀ p ∈ rest, p ∈ net.flight)
    (hsame : SameHost (net.state v) n') {session : Session}
    (hs : n'.sessions.lookup sid = some session)
    (hout : ∀ o ∈ outs, o.1 ∈ (net.state v).peers ∧ ∃ sync, o.2 = .ofSession (.stateSync sync) ∧
      sync.sessionId = sid ∧ sync.sender = v) :
    SyncInv join g sid (Net.act net.state rest v n' outs) := by
  refine ⟨h.hosted.act hv hrest hsame fun o ho => (hout o ho).1, mergeFns_act hsame h.merges,
    holds_act hs h.holds, fun p hp => ?_⟩
  rcases Net.mem_act.mp hp with hp | ⟨o, ho, rfl⟩
  · exact h.flight p (hrest p hp)
  · exact (hout o ho).2

/-- A merged `StateSync` is always relayed. -/
theorem SyncInv.relays (h : SyncInv join g sid net) {p : Packet NodeId ControlMessage}
    (hp : p ∈ net.flight) (hr : receives p.src p.msg (net.state p.dst) n' outs) :
    ∃ sync session, sync.sessionId = sid ∧ n'.sessions.lookup sid = some session ∧
      outs = (net.state p.dst).gossip p.src p.src (relayed (net.state p.dst) sync session) := by
  obtain ⟨sync, hmsg, rfl, hsender⟩ := h.flight p hp
  have hd := (h.hosted.ends p hp).2
  obtain ⟨session, hses⟩ := h.holds p.dst hd
  obtain ⟨clock, hr⟩ := hr
  rw [hmsg] at hr
  have hcases := onMessage_stateSync clock _ p.src sync hses hr
  rw [h.merges p.dst hd] at hcases
  rcases hcases with ⟨s, hm, hl, hout⟩ | ⟨hm, -, -⟩
  · rw [hsender] at hout
    exact ⟨sync, s, rfl, hl, hout⟩
  · cases hm

theorem SyncInv.deliver (h : SyncInv join g sid net)
    {l₁ l₂ : List (Packet NodeId ControlMessage)} {p : Packet NodeId ControlMessage}
    (hf : net.flight = l₁ ++ p :: l₂) (hr : receives p.src p.msg (net.state p.dst) n' outs) :
    SyncInv join g sid (Net.act net.state (l₁ ++ l₂) p.dst n' outs) := by
  have hp : p ∈ net.flight := by rw [hf]; simp
  have hd := (h.hosted.ends p hp).2
  obtain ⟨sync, session, hsid, hl, rfl⟩ := h.relays hp hr
  obtain ⟨clock, hr⟩ := hr
  refine h.act hd (fun q hq => mem_of_mem_rest hf hq) (FlowNode.sameHost_of_onMessage hr) hl
    fun o ho => ?_
  obtain ⟨h1, -, -, h2⟩ := FlowNode.mem_gossip.mp ho
  exact ⟨h1, _, h2, hsid, h.hosted.id p.dst hd⟩

theorem SyncInv.write (h : SyncInv join g sid net) {w : Write}
    (hr : (syncs g sid fun _ _ => True).own v w (net.state v) n' outs) :
    SyncInv join g sid (Net.act net.state net.flight v n' outs) := by
  obtain ⟨hv, session, result, hses, hver, -, hr⟩ := hr
  obtain ⟨hsame, hl, rfl⟩ := syncSessionState_ok (join session.stateData w.data) hses hver
    (by rw [h.merges v hv]; rfl) hr
  refine h.act hv (fun _ hp => hp) hsame hl fun o ho => ?_
  obtain ⟨h1, h2⟩ := FlowNode.mem_broadcast.mp ho
  exact ⟨h1, _, h2, rfl, h.hosted.id v hv⟩

theorem SyncInv.run {init : Net NodeId (FlowNode γ δ) ControlMessage}
    {trace : List (Event NodeId ControlMessage Write)} (h : SyncInv join g sid init)
    (hrun : Run (syncs g sid fun _ _ => True) init trace net) : SyncInv join g sid net := by
  induction hrun with
  | nil => exact h
  | step _ he ih =>
    cases he with
    | deliver hf hr => exact ih.deliver hf hr
    | own hr => exact ih.write hr

/-- Deliveries of merged state go on for ever exactly from a link whose onward chains do. -/
theorem SyncInv.endless_iff (h : SyncInv join g sid net) :
    Endless controlLoops net ↔
      ∃ p ∈ net.flight, ¬ Fades (Onward g.Link fun _ => False) p.link := by
  have hskip : ∀ p : Packet NodeId ControlMessage, ∀ w,
      Onward g.Link (fun _ => False) p.link (p.dst, w) ↔
        Onward g.Link (fun x => x = p.src) p.link (p.dst, w) := by
    intro p w
    exact ⟨fun ⟨h1, h2, h3, _⟩ => ⟨h1, h2, h3, h3⟩, fun ⟨h1, h2, h3, _⟩ => ⟨h1, h2, h3, id⟩⟩
  refine Pool.endless_iff (SyncInv join g sid) h ?_ ?_ ?_ fun e e' he => he.1
  · intro net e net' hI hs
    cases hs with
    | deliver hf hr => exact hI.deliver hf hr
    | own h => nomatch h
  · intro net p _ _
    exact ⟨_, _, ⟨0, 0⟩, rfl⟩
  · intro net p n' outs hI hp hr w
    obtain ⟨sync, session, -, -, rfl⟩ := hI.relays hp hr
    rw [hskip]
    exact onward_gossip hI.hosted hp p.src w _

end

/-- A write puts a `StateSync` on every link of the node. -/
theorem exists_write {join : Bytes → Bytes → Bytes} {g : PeerGraph} {sid : String} {v w : NodeId}
    {net : Net NodeId (FlowNode γ δ) ControlMessage} (h : SyncInv join g sid net)
    (hl : g.Link v w) : ∃ trace net', Run (syncs g sid fun _ _ => True) net trace net' ∧
      ∃ p ∈ net'.flight, p.link = (v, w) := by
  obtain ⟨session, hses⟩ := h.holds v hl.1
  let wr : Write := ⟨⟨0, 0⟩, [], session.stateVersion + 1⟩
  obtain ⟨⟨n', outs, result⟩, hcall⟩ :
      ∃ r, (net.state v).syncSessionState wr.clock sid wr.data = r := ⟨_, rfl⟩
  have hown : (syncs g sid fun _ _ => True).own v wr (net.state v) n' outs :=
    ⟨hl.1, session, result, hses, rfl, trivial, hcall⟩
  have houts := (syncSessionState_ok (join session.stateData wr.data) hses rfl
    (by rw [h.merges v hl.1]; rfl) hcall).2.2
  refine ⟨_, _, Run.nil.act_own v wr n' outs hown, ⟨v, w, announced (net.state v) sid wr⟩,
    Net.mem_act.mpr (Or.inr ⟨(w, announced (net.state v) sid wr), ?_, rfl⟩), rfl⟩
  rw [houts]
  refine FlowNode.mem_broadcast.mpr ⟨?_, rfl⟩
  rw [show (net.state v).peers = g.peers v from h.hosted.peers v hl.1]
  exact hl.2

/-- **Merged state dies out exactly on forests.**  Every node holds the session and merges it
by one function that never fails.  After any calls of `sync_session_state` and deliveries,
every run of deliveries ends, exactly if the peer graph has no cycle. -/
theorem merged_gossip_ends_iff (g : PeerGraph) (join : Bytes → Bytes → Bytes) {sid : String}
    {init : Net NodeId (FlowNode γ δ) ControlMessage} (hhosted : Hosted g id init)
    (hmerges : ∀ v ∈ g.nodes, (init.state v).mergeFns.lookup sid = some fun x y => .ok (join x y))
    (hholds : ∀ v ∈ g.nodes, ∃ session, (init.state v).sessions.lookup sid = some session)
    (hflight : init.flight = []) :
    (∀ trace net, Run (syncs g sid fun _ _ => True) init trace net →
      ¬ Endless controlLoops net) ↔ g.Forest := by
  have hinit : SyncInv join g sid init := by
    refine ⟨hhosted, hmerges, hholds, ?_⟩
    rw [hflight]
    exact fun p hp => absurd hp List.not_mem_nil
  constructor
  · intro h e hloop
    -- the loop starts with a link, and a write at its source sets it off
    obtain ⟨x, -, hx⟩ := TransGen.tail'_iff.mp hloop
    obtain ⟨hx1, hx2, -, -⟩ := hx
    rw [← hx1] at hx2
    obtain ⟨trace, net, hrun, p, hp, hpe⟩ := exists_write hinit hx2
    refine h trace net hrun ((hinit.run hrun).endless_iff.mpr ⟨p, hp, ?_⟩)
    rw [hpe]
    exact fun hf => hf.irrefl hloop
  · intro hforest trace net hrun hend
    obtain ⟨p, -, hp⟩ := (hinit.run hrun).endless_iff.mp hend
    refine hp ((g.fades_iff _ _).mpr ?_)
    rintro ⟨e, -, he⟩
    exact hforest e he

/-! ## Announcements -/

/-- A call of `join_session` or `leave_session`. -/
inductive Announcement where
  | join (sessionId : String)
  | leave (sessionId : String)

def FlowNode.announce (n : FlowNode γ δ) : Announcement → FlowNode γ δ × List Send
  | .join sessionId => n.joinSession sessionId
  | .leave sessionId => n.leaveSession sessionId

/-- What the call of the node `origin` sends around. -/
def Announcement.message (origin : NodeId) : Announcement → ControlMessage
  | .join sessionId => .ofSession (.join ⟨sessionId, origin⟩)
  | .leave sessionId => .ofSession (.leave ⟨sessionId, origin⟩)

omit [PetGraph γ] in
theorem announce_eq (n : FlowNode γ δ) (a : Announcement) :
    n.announce a = (n, n.broadcast (a.message n.nodeId)) := by
  cases a <;> rfl

theorem onMessage_announcement (clock : Clock) (n : FlowNode γ δ) (sender origin : NodeId)
    (a : Announcement) : n.onMessage clock sender (a.message origin) =
      (n.seen clock sender, n.gossip sender origin (a.message origin)) := by
  cases a <;> rfl

/-- Only copies of the announcement are in flight. -/
structure AnnounceInv (g : PeerGraph) (msg : ControlMessage)
    (net : Net NodeId (FlowNode γ δ) ControlMessage) : Prop where
  hosted : Hosted g id net
  flight : ∀ p ∈ net.flight, p.msg = msg

theorem AnnounceInv.step {g : PeerGraph} {origin : NodeId} {a : Announcement}
    {net net' : Net NodeId (FlowNode γ δ) ControlMessage} {e : Event NodeId ControlMessage Empty}
    (h : AnnounceInv g (a.message origin) net) (hs : Step controlLoops net e net') :
    AnnounceInv g (a.message origin) net' := by
  cases hs with
  | own h => nomatch h
  | @deliver l₁ l₂ p n' outs hf hr =>
    have hp : p ∈ net.flight := by rw [hf]; simp
    obtain ⟨clock, hr⟩ := hr
    have hsame := FlowNode.sameHost_of_onMessage hr
    rw [h.flight p hp, onMessage_announcement] at hr
    obtain ⟨-, rfl⟩ := Prod.mk.inj hr
    refine ⟨h.hosted.act (h.hosted.ends p hp).2 (fun q hq => mem_of_mem_rest hf hq) hsame
      fun o ho => (FlowNode.mem_gossip.mp ho).1, fun q hq => ?_⟩
    rcases Net.mem_act.mp hq with hq | ⟨o, ho, rfl⟩
    · exact h.flight q (mem_of_mem_rest hf hq)
    · exact (FlowNode.mem_gossip.mp ho).2.2.2

theorem AnnounceInv.endless_iff {g : PeerGraph} {origin : NodeId} {a : Announcement}
    {net : Net NodeId (FlowNode γ δ) ControlMessage} (h : AnnounceInv g (a.message origin) net) :
    Endless controlLoops net ↔
      ∃ p ∈ net.flight, ¬ Fades (Onward g.Link fun x => x = origin) p.link := by
  refine Pool.endless_iff (AnnounceInv g (a.message origin)) h (fun _ _ _ hI hs => hI.step hs) ?_ ?_
    fun e e' he => he.1
  · intro net p _ _
    exact ⟨_, _, ⟨0, 0⟩, rfl⟩
  · rintro net p n' outs hI hp ⟨clock, hr⟩ w
    rw [hI.flight p hp, onMessage_announcement] at hr
    obtain ⟨-, rfl⟩ := Prod.mk.inj hr
    exact onward_gossip hI.hosted hp origin w _

omit [PetGraph γ] in
theorem AnnounceInv.init {g : PeerGraph} {origin : NodeId} (a : Announcement)
    {net : Net NodeId (FlowNode γ δ) ControlMessage} (hh : Hosted g id net) (ho : origin ∈ g.nodes) :
    AnnounceInv g (a.message origin) (Net.act net.state [] origin
      ((net.state origin).announce a).1 ((net.state origin).announce a).2) := by
  have hid : (net.state origin).nodeId = origin := hh.id origin ho
  rw [announce_eq, hid]
  refine ⟨hh.act ho (fun p hp => absurd hp List.not_mem_nil) ⟨rfl, rfl, rfl, rfl⟩
    fun o hoo => (FlowNode.mem_broadcast.mp hoo).1, fun p hp => ?_⟩
  rcases Net.mem_act.mp hp with hp | ⟨o, hoo, rfl⟩
  · exact absurd hp List.not_mem_nil
  · exact (FlowNode.mem_broadcast.mp hoo).2

omit [PetGraph γ] in
/-- The announcement is on its way over every link of the node, and over no other. -/
theorem link_announced {g : PeerGraph} {origin : NodeId} (a : Announcement)
    {net : Net NodeId (FlowNode γ δ) ControlMessage} (hh : Hosted g id net) (ho : origin ∈ g.nodes)
    (e : NodeId × NodeId) :
    (∃ p ∈ (Net.act net.state [] origin ((net.state origin).announce a).1
      ((net.state origin).announce a).2).flight, p.link = e) ↔
      ∃ w ∈ g.peers origin, e = (origin, w) := by
  have hpeers : (net.state origin).peers = g.peers origin := hh.peers origin ho
  rw [announce_eq]
  constructor
  · rintro ⟨p, hp, rfl⟩
    rcases Net.mem_act.mp hp with hp | ⟨o, hoo, rfl⟩
    · exact absurd hp List.not_mem_nil
    · refine ⟨o.1, ?_, rfl⟩
      rw [← hpeers]
      exact (FlowNode.mem_broadcast.mp hoo).1
  · rintro ⟨w, hw, rfl⟩
    rw [← hpeers] at hw
    exact ⟨⟨origin, w, _⟩, Net.mem_act.mpr (Or.inr ⟨(w, _), FlowNode.mem_broadcast.mpr ⟨hw, rfl⟩,
      rfl⟩), rfl⟩

/-- **Announcements die out exactly if every cycle within reach goes through the node that
made them.**  After one call of `join_session` or `leave_session`, every run of deliveries
ends, exactly if no walk from the node that never turns straight back nor returns to the
node comes round. -/
theorem announcement_ends_iff (g : PeerGraph) {init : Net NodeId (FlowNode γ δ) ControlMessage}
    (hhosted : Hosted g id init) {origin : NodeId} (horigin : origin ∈ g.nodes)
    (a : Announcement) :
    ¬ Endless controlLoops (Net.act init.state [] origin ((init.state origin).announce a).1
      ((init.state origin).announce a).2) ↔
    ∀ w ∈ g.peers origin, ¬ ComesRound (Onward g.Link fun x => x = origin) (origin, w) := by
  rw [(AnnounceInv.init a hhosted horigin).endless_iff]
  constructor
  · intro h w hw hround
    obtain ⟨p, hp, hpe⟩ := (link_announced a hhosted horigin (origin, w)).mpr ⟨w, hw, rfl⟩
    refine h ⟨p, hp, fun hf => ?_⟩
    rw [hpe, g.fades_iff] at hf
    exact hf hround
  · rintro h ⟨p, hp, hnot⟩
    obtain ⟨w, hw, hpe⟩ := (link_announced a hhosted horigin p.link).mp ⟨p, hp, rfl⟩
    rw [hpe, g.fades_iff, not_not] at hnot
    exact h w hw hnot

end

/-! ## A triangle -/

/-- A fresh node of the graph, connected to its peers. -/
def PeerGraph.freshNode (g : PeerGraph) (id : NodeId) : FlowNode VecGraph Unit :=
  { (FlowNode.new id ∅ : FlowNode VecGraph Unit) with
    peerWriters := (g.peers id).foldr (fun peer m => m.insert peer 0) ∅ }

/-- `a`, `b` and `c`, each a peer of the others, and `d`, a peer of `a`. -/
def triangle : PeerGraph where
  nodes := ["a", "b", "c", "d"].toFinset
  peers v := if v = "a" then ["b", "c", "d"] else if v = "b" then ["a", "c"]
    else if v = "c" then ["a", "b"] else if v = "d" then ["a"] else []
  closed := by decide

/-- Once round the triangle. -/
theorem triangle_comes_round (Skip : NodeId → Prop) (ha : ¬ Skip "a") (hb : ¬ Skip "b")
    (hc : ¬ Skip "c") : TransGen (Onward triangle.Link Skip) ("a", "b") ("a", "b") := by
  have h1 : Onward triangle.Link Skip ("a", "b") ("b", "c") :=
    ⟨rfl, ⟨by decide, by decide⟩, by decide, hc⟩
  have h2 : Onward triangle.Link Skip ("b", "c") ("c", "a") :=
    ⟨rfl, ⟨by decide, by decide⟩, by decide, ha⟩
  have h3 : Onward triangle.Link Skip ("c", "a") ("a", "b") :=
    ⟨rfl, ⟨by decide, by decide⟩, by decide, hb⟩
  exact ((TransGen.single h1).tail h2).tail h3

/-- The nodes hold a fresh session and merge it as counters. -/
def triangleSessions : Net NodeId (FlowNode VecGraph Unit) ControlMessage where
  state v := { triangle.freshNode v with
    sessions := (∅ : HashMap String Session).insert "s" ⟨"s", "a", [], 0, ∅, [], 0, 0⟩
    mergeFns := (∅ : HashMap String StateMergeFn).insert "s" counters.mergeFn }
  flight := []

/-- After a write at `a`, merged state goes round the triangle for ever. -/
theorem triangle_never_rests : ∃ trace net,
    Run (syncs triangle "s" fun _ _ => True) triangleSessions trace net ∧
      Endless controlLoops net := by
  have hinit : SyncInv counters.join triangle "s" triangleSessions :=
    ⟨⟨by decide, by decide, by decide⟩, fun _ _ => rfl, fun _ _ => ⟨_, rfl⟩,
      fun p hp => absurd hp List.not_mem_nil⟩
  obtain ⟨trace, net, hrun, p, hp, hpe⟩ :=
    exists_write hinit (show triangle.Link "a" "b" from ⟨by decide, by decide⟩)
  refine ⟨trace, net, hrun, (hinit.run hrun).endless_iff.mpr ⟨p, hp, ?_⟩⟩
  rw [hpe]
  exact fun hf => hf.irrefl (triangle_comes_round _ id id id)

/-- `d` joins a session, and the announcement goes round the triangle for ever. -/
theorem join_never_rests : ∃ n outs,
    (triangle.freshNode "d").joinSession "s" = (n, outs) ∧
      Endless controlLoops (Net.act triangle.freshNode [] "d" n outs) := by
  have hh : Hosted triangle id (⟨triangle.freshNode, []⟩ : Net NodeId (FlowNode VecGraph Unit) _) :=
    ⟨by decide, by decide, fun p hp => absurd hp List.not_mem_nil⟩
  refine ⟨_, _, rfl, ?_⟩
  have hinit := AnnounceInv.init (.join "s") hh (show "d" ∈ triangle.nodes by decide)
  obtain ⟨p, hp, hpe⟩ := (link_announced (.join "s") hh (show "d" ∈ triangle.nodes by decide)
    ("d", "a")).mpr ⟨"a", by decide, rfl⟩
  refine hinit.endless_iff.mpr ⟨p, hp, ?_⟩
  rw [hpe]
  have h1 : Onward triangle.Link (fun x => x = "d") ("d", "a") ("a", "b") :=
    ⟨rfl, ⟨by decide, by decide⟩, by decide, by decide⟩
  exact fun hf => (hf.next h1).irrefl (triangle_comes_round _ (by decide) (by decide) (by decide))

/-! ## Two peers -/

/-- Nothing is passed on between two peers. -/
theorem pairGraph_not_onward {Skip : NodeId → Prop} {e e' : NodeId × NodeId}
    (he : pairGraph.Link e.1 e.2) : ¬ Onward pairGraph.Link Skip e e' := by
  rintro ⟨-, hl, hne, -⟩
  have h : ∀ u ∈ pairGraph.nodes, ∀ v ∈ pairGraph.peers u, ∀ w ∈ pairGraph.peers v, w = u := by
    decide
  exact hne (h e.1 he.1 e.2 he.2 e'.2 hl.2)

theorem pairGraph_forest : pairGraph.Forest := by
  intro e hloop
  obtain ⟨x, -, hx⟩ := TransGen.tail'_iff.mp hloop
  obtain ⟨y, hy, -⟩ := TransGen.head'_iff.mp hloop
  refine pairGraph_not_onward ?_ hy
  rw [hx.1]
  exact hx.2.1

theorem pair_merged_gossip_ends : pairGraph.Forest ∧ ∀ trace net,
    Run (syncs pairGraph "s" fun _ _ => True) pairCounters trace net →
      ¬ Endless controlLoops net :=
  ⟨pairGraph_forest, (merged_gossip_ends_iff pairGraph counters.join
    ⟨by decide, by decide, by decide⟩ (fun _ _ => rfl) (fun _ _ => ⟨_, rfl⟩) rfl).mpr
      pairGraph_forest⟩

theorem pair_join_ends : ¬ Endless controlLoops (Net.act pairNode [] "a"
    ((pairNode "a").announce (.join "s")).1 ((pairNode "a").announce (.join "s")).2) := by
  have hh : Hosted pairGraph id (⟨pairNode, []⟩ : Net NodeId (FlowNode VecGraph Unit) _) :=
    ⟨by decide, by decide, fun p hp => absurd hp List.not_mem_nil⟩
  refine (announcement_ends_iff pairGraph hh (by decide) (.join "s")).mpr ?_
  rintro w hw ⟨e, hreach, hloop⟩
  have hl : pairGraph.Link "a" w := ⟨by decide, hw⟩
  obtain ⟨y, hy, -⟩ := TransGen.head'_iff.mp hloop
  rcases ReflTransGen.cases_head hreach with rfl | ⟨z, hz, -⟩
  · exact pairGraph_not_onward hl hy
  · exact pairGraph_not_onward hl hz

end Stric.Flow
