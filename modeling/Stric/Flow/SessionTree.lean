import Stric.Flow.SessionClose

/-!
# A session that is closed around a tree

Where the peer graph around the creator is a tree, each node is reached over one link only.
The `Create` comes over it before any `Close` does, and nothing else makes the session: what
is on the links is `Due` (`CloseInv`).  Every call and every delivery keeps that, so a session
that is created once stays closed (`staysClosed_of_tree`).
-/

namespace Stric.Flow

open Stric.Pool Relation

section
variable {γ δ : Type}

/-- What is in flight about the session: the `Create` of `o`, on links that lead away from
`o`; and `Close`s of nodes in reach, on links that lead away from these. -/
def Carried (g : PeerGraph) (sid : String) (o : NodeId) (e : NodeId × NodeId)
    (msg : ControlMessage) : Prop :=
  (∀ c, msg = .ofSession (.create c) → c.sessionId = sid →
    c.creatorNode = o ∧ Outward g.Link o e) ∧
  ∀ c, msg = .ofSession (.close c) → c.sessionId = sid →
    ReflTransGen g.Link o c.closedBy ∧ Outward g.Link c.closedBy e

theorem carried_of_unmarked {g : PeerGraph} {sid : String} {o : NodeId} {e : NodeId × NodeId}
    {msg : ControlMessage} (h : msg.mark sid = none) : Carried g sid o e msg := by
  refine ⟨fun c hc hsid => ?_, fun c hc hsid => ?_⟩
  · rw [hc, mark_create hsid] at h
    cases h
  · rw [hc, mark_close hsid] at h
    cases h

structure CloseInv (g : PeerGraph) (sid : String) (o : NodeId) (phase : NodeId → Phase)
    (net : Net NodeId (FlowNode γ δ) ControlMessage) : Prop where
  hosted : Hosted g id net
  held : ∀ v ∈ g.nodes, (net.state v).Holds sid ↔ phase v = .opened
  due : ∀ y x, Outward g.Link o (y, x) →
    Due (phase y) (phase x) (marks sid net (y, x)) (marks sid net (x, y))
  reach : ∀ v, phase v ≠ .fresh → ReflTransGen g.Link o v
  carried : ∀ p ∈ net.flight, Carried g sid o p.link p.msg

variable {g : PeerGraph} {sid : String} {o x : NodeId} {phase : NodeId → Phase}
  {net : Net NodeId (FlowNode γ δ) ControlMessage} {n' : FlowNode γ δ} {outs : List Send}

/-- A step at `x` has only the links of `x` to account for. -/
theorem CloseInv.act (h : CloseInv g sid o phase net) (htree : TreeAround g.Link o) {ph : Phase}
    {rest : List (Packet NodeId ControlMessage)} (hx : x ∈ g.nodes)
    (hrest : ∀ p ∈ rest, p ∈ net.flight)
    (hkept : ∀ e, e.2 ≠ x →
      marks sid (⟨net.state, rest⟩ : Net NodeId (FlowNode γ δ) _) e = marks sid net e)
    (hsame : SameHost (net.state x) n') (hpeers : ∀ s ∈ outs, s.1 ∈ (net.state x).peers)
    (hheld : n'.Holds sid ↔ ph = .opened) (hreach : ph ≠ .fresh → ReflTransGen g.Link o x)
    (hcarried : ∀ s ∈ outs, Carried g sid o (x, s.1) s.2)
    (hdown : ∀ u, Outward g.Link o (x, u) → Due ph (phase u)
      (marks sid net (x, u) ++ sentMarks sid outs u)
      (marks sid (⟨net.state, rest⟩ : Net NodeId (FlowNode γ δ) _) (u, x)))
    (hup : ∀ u, Outward g.Link o (u, x) → Due (phase u) ph
      (marks sid (⟨net.state, rest⟩ : Net NodeId (FlowNode γ δ) _) (u, x))
      (marks sid net (x, u) ++ sentMarks sid outs u)) :
    CloseInv g sid o (Function.update phase x ph) (Net.act net.state rest x n' outs) := by
  refine ⟨h.hosted.act hx hrest hsame hpeers, fun v hv => ?_, fun y z hyz => ?_, fun v => ?_,
    fun p hp => ?_⟩
  · by_cases hvx : v = x
    · subst hvx
      rw [Net.act_state_self, Function.update_self]
      exact hheld
    · rw [Net.act_state_ne hvx, Function.update_of_ne hvx]
      exact h.held v hv
  · have hne : y ≠ z := (htree _ hyz.reach hyz.peer).1
    rw [marks_act, marks_act]
    by_cases hy : y = x
    · subst hy
      rw [Function.update_self, Function.update_of_ne hne.symm, if_pos rfl, if_neg hne.symm,
        List.append_nil, hkept (y, z) hne.symm]
      exact hdown z hyz
    · by_cases hz : z = x
      · subst hz
        rw [Function.update_self, Function.update_of_ne hy, if_pos rfl, if_neg hy, List.append_nil,
          hkept (z, y) hy]
        exact hup y hyz
      · rw [Function.update_of_ne hy, Function.update_of_ne hz, if_neg hy, if_neg hz,
          List.append_nil, List.append_nil, hkept (y, z) hz, hkept (z, y) hy]
        exact h.due y z hyz
  · by_cases hvx : v = x
    · subst hvx
      rw [Function.update_self]
      exact hreach
    · rw [Function.update_of_ne hvx]
      exact h.reach v
  · rcases Net.mem_act.mp hp with hp | ⟨s, hs, rfl⟩
    · exact h.carried p (hrest p hp)
    · exact hcarried s hs

/-- A step that has nothing to do with the session. -/
theorem CloseInv.unmarked (h : CloseInv g sid o phase net) (htree : TreeAround g.Link o)
    {rest : List (Packet NodeId ControlMessage)} (hx : x ∈ g.nodes)
    (hrest : ∀ p ∈ rest, p ∈ net.flight)
    (hkept : ∀ e, marks sid (⟨net.state, rest⟩ : Net NodeId (FlowNode γ δ) _) e = marks sid net e)
    (hsame : SameHost (net.state x) n') (hpeers : ∀ s ∈ outs, s.1 ∈ (net.state x).peers)
    (hheld : n'.Holds sid ↔ (net.state x).Holds sid) (houts : ∀ s ∈ outs, s.2.mark sid = none) :
    CloseInv g sid o phase (Net.act net.state rest x n' outs) := by
  have hnew : CloseInv g sid o (Function.update phase x (phase x))
      (Net.act net.state rest x n' outs) := h.act htree hx hrest (fun e _ => hkept e) hsame hpeers
    (hheld.trans (h.held x hx)) (h.reach x) (fun s hs => carried_of_unmarked (houts s hs))
    (fun u hu => by
      rw [hkept, sentMarks_unmarked houts, List.append_nil]
      exact h.due x u hu)
    (fun u hu => by
      rw [hkept, sentMarks_unmarked houts, List.append_nil]
      exact h.due u x hu)
  rwa [Function.update_eq_self] at hnew

variable {l₁ l₂ : List (Packet NodeId ControlMessage)} {p : Packet NodeId ControlMessage}

/-- The marks that stay when the first packet of a link is delivered. -/
theorem marks_rest (hf : net.flight = l₁ ++ p :: l₂) (hfirst : ∀ q ∈ l₁, q.link ≠ p.link)
    {e : NodeId × NodeId} (he : e ≠ p.link) :
    marks sid (⟨net.state, l₁ ++ l₂⟩ : Net NodeId (FlowNode γ δ) _) e = marks sid net e := by
  rw [marks_deliver hf hfirst, if_neg he, List.nil_append]

variable [PetGraph γ]

theorem CloseInv.deliver_unmarked (h : CloseInv g sid o phase net) (htree : TreeAround g.Link o)
    (hf : net.flight = l₁ ++ p :: l₂) (hfirst : ∀ q ∈ l₁, q.link ≠ p.link)
    (hm : p.msg.mark sid = none) (hr : receives p.src p.msg (net.state p.dst) n' outs) :
    CloseInv g sid o phase (Net.act net.state (l₁ ++ l₂) p.dst n' outs) := by
  obtain ⟨clock, hr⟩ := hr
  have heffect := FlowNode.onMessage_effect hr
  refine h.unmarked htree (h.hosted.ends p (by rw [hf]; simp)).2 (fun q hq => mem_of_mem_rest hf hq)
    (fun e => ?_) (FlowNode.sameHost_of_onMessage hr) (fun s hs => (heffect.2 s hs).1)
    (heffect.1 sid hm) fun s hs => ?_
  · rw [marks_deliver hf hfirst, hm]
    split <;> rfl
  · rcases (heffect.2 s hs).2 with h2 | h2
    · rw [h2]
      exact hm
    · exact h2 sid

variable (hsymm : ∀ v w, g.Link v w → g.Link w v)
include hsymm

/-- A `Create` finds a node that has not had the session, and is passed on outward. -/
theorem CloseInv.deliver_create (h : CloseInv g sid o phase net) (htree : TreeAround g.Link o)
    (hf : net.flight = l₁ ++ p :: l₂) (hfirst : ∀ q ∈ l₁, q.link ≠ p.link)
    (hm : p.msg.mark sid = some .create) (hr : receives p.src p.msg (net.state p.dst) n' outs) :
    phase p.dst = .fresh ∧
      CloseInv g sid o (Function.update phase p.dst .opened)
        (Net.act net.state (l₁ ++ l₂) p.dst n' outs) := by
  have hp : p ∈ net.flight := by rw [hf]; simp
  have hfin := g.finite_onward fun _ => False
  obtain ⟨c, hmsg, rfl⟩ := mark_eq_create hm
  obtain ⟨rfl, hout⟩ := (h.carried p hp).1 c hmsg rfl
  have hd := (h.hosted.ends p hp).2
  have hhead := marks_deliver hf hfirst c.sessionId p.link
  rw [if_pos rfl, hm] at hhead
  have hdue := h.due p.src p.dst hout
  change marks _ _ (p.src, p.dst) = .create :: _ at hhead
  rw [hhead] at hdue
  obtain ⟨hfresh, hdue'⟩ := hdue.take_create
  have hn : ¬ (net.state p.dst).Holds c.sessionId := by
    rw [h.held p.dst hd, hfresh]
    decide
  obtain ⟨clock, hr⟩ := hr
  have hsame := FlowNode.sameHost_of_onMessage hr
  rw [hmsg] at hr
  obtain ⟨hholds, rfl⟩ := FlowNode.onMessage_create hn hr
  have hpeers : (net.state p.dst).peers = g.peers p.dst := h.hosted.peers p.dst hd
  refine ⟨hfresh, h.act htree hd (fun q hq => mem_of_mem_rest hf hq)
    (fun e he => marks_rest hf hfirst fun heq => he (congrArg Prod.snd heq)) hsame
    (fun s hs => (FlowNode.mem_gossip.mp hs).1) (iff_of_true hholds rfl)
    (fun _ => hout.reach.tail hout.peer) (fun s hs => ?_) (fun u hu => ?_) fun u hu => ?_⟩
  · obtain ⟨h1, h2, -, h4⟩ := FlowNode.mem_gossip.mp hs
    rw [hpeers] at h1
    rw [h4]
    refine ⟨fun c' hc' _ => ?_, fun c' hc' _ => by cases hc'⟩
    cases hc'
    exact ⟨rfl, hout.next ⟨hd, h1⟩ h2⟩
  · -- the next node outward has not had the session either
    have hne : u ≠ p.src := by
      rintro rfl
      exact htree.not_outward_swap hfin hsymm hout hu
    have hdu := h.due p.dst u hu
    rw [hfresh] at hdu
    obtain ⟨hu1, hu2, hu3⟩ := hdu.of_fresh
    rw [marks_rest hf hfirst fun heq => hne (congrArg Prod.fst heq), hu1, hu2, hu3,
      sentMarks_gossip _ _ _ (mark_create rfl), if_pos ⟨hpeers ▸ hu.peer.2, hne,
        htree.target_ne hfin hu⟩]
    exact .opening
  · obtain rfl := htree.source_unique hfin hsymm hu hout
    rw [sentMarks_gossip _ _ _ (mark_create rfl), if_neg fun hand => hand.2.1 rfl, List.append_nil]
    exact hdue'

/-- A `Close` finds a node that has had the session. -/
theorem CloseInv.deliver_close (h : CloseInv g sid o phase net) (htree : TreeAround g.Link o)
    (hf : net.flight = l₁ ++ p :: l₂) (hfirst : ∀ q ∈ l₁, q.link ≠ p.link)
    (hm : p.msg.mark sid = some .close) (hr : receives p.src p.msg (net.state p.dst) n' outs) :
    phase p.dst ≠ .fresh ∧
      CloseInv g sid o (Function.update phase p.dst .closed)
        (Net.act net.state (l₁ ++ l₂) p.dst n' outs) := by
  have hp : p ∈ net.flight := by rw [hf]; simp
  have hfin := g.finite_onward fun _ => False
  obtain ⟨c, hmsg, rfl⟩ := mark_eq_close hm
  obtain ⟨hby, hout⟩ := (h.carried p hp).2 c hmsg rfl
  have htree' := htree.of_reach hby
  have hd := (h.hosted.ends p hp).2
  have hhead := marks_deliver hf hfirst c.sessionId p.link
  rw [if_pos rfl, hm] at hhead
  change marks _ _ (p.src, p.dst) = .close :: _ at hhead
  -- whichever way the link leads, its other end has had the session, and now has closed it
  have hdown : Outward g.Link o (p.src, p.dst) → _ := fun hu =>
    (hhead ▸ h.due p.src p.dst hu).take_close_down
  have hup : Outward g.Link o (p.dst, p.src) → _ := fun hu =>
    (hhead ▸ h.due p.dst p.src hu).take_close_up
  have hnot : phase p.dst ≠ .fresh := by
    rcases outward_or_swap (hby.trans hout.reach) hout.peer with hu | hu
    · exact (hdown hu).1
    · exact (hup hu).1
  obtain ⟨clock, hr⟩ := hr
  have hsame := FlowNode.sameHost_of_onMessage hr
  have heffect := FlowNode.onMessage_effect hr
  rw [hmsg] at hr
  obtain ⟨hgone, hpass, hstop⟩ := FlowNode.onMessage_close hr
  have hpeers : (net.state p.dst).peers = g.peers p.dst := h.hosted.peers p.dst hd
  have hcases : (phase p.dst = .opened ∧
        outs = (net.state p.dst).gossip p.src c.closedBy (.ofSession (.close c))) ∨
      (phase p.dst = .closed ∧ outs = []) := by
    cases hph : phase p.dst with
    | fresh => exact absurd hph hnot
    | opened => exact Or.inl ⟨rfl, hpass ((h.held p.dst hd).mpr hph)⟩
    | closed =>
      refine Or.inr ⟨rfl, hstop (fun hn => ?_) ?_⟩
      · rw [(h.held p.dst hd).mp hn] at hph
        cases hph
      · rw [show (net.state p.dst).nodeId = p.dst from h.hosted.id p.dst hd]
        exact (htree'.target_ne hfin hout).symm
  have hback : sentMarks c.sessionId outs p.src = [] := by
    rcases hcases with ⟨-, rfl⟩ | ⟨-, rfl⟩
    · rw [sentMarks_gossip _ _ _ (mark_close rfl), if_neg fun hand => hand.2.1 rfl]
    · rfl
  refine ⟨hnot, h.act htree hd (fun q hq => mem_of_mem_rest hf hq)
    (fun e he => marks_rest hf hfirst fun heq => he (congrArg Prod.snd heq)) hsame
    (fun s hs => (heffect.2 s hs).1) (iff_of_false hgone (by decide)) (fun _ => h.reach _ hnot)
    (fun s hs => ?_) (fun u hu => ?_) fun u hu => ?_⟩
  · rcases hcases with ⟨-, rfl⟩ | ⟨-, rfl⟩
    · obtain ⟨h1, h2, -, h4⟩ := FlowNode.mem_gossip.mp hs
      rw [hpeers] at h1
      rw [h4]
      refine ⟨fun c' hc' _ => (by cases hc'), fun c' hc' _ => ?_⟩
      cases hc'
      exact ⟨hby, hout.next ⟨hd, h1⟩ h2⟩
    · exact absurd hs List.not_mem_nil
  · by_cases hne : u = p.src
    · subst hne
      rw [hback, List.append_nil]
      exact (hup hu).2
    · rw [marks_rest hf hfirst fun heq => hne (congrArg Prod.fst heq)]
      have hdu := h.due p.dst u hu
      rcases hcases with ⟨hopen, rfl⟩ | ⟨hclosed, rfl⟩
      · rw [sentMarks_gossip _ _ _ (mark_close rfl),
          if_pos ⟨hpeers ▸ hu.peer.2, hne, htree'.next_ne hfin hout hu.peer hne⟩]
        exact (hopen ▸ hdu).close_near
      · rw [hclosed] at hdu
        rwa [show sentMarks c.sessionId [] u = [] from rfl, List.append_nil]
  · by_cases hne : u = p.src
    · subst hne
      rw [hback, List.append_nil]
      exact (hdown hu).2
    · rw [marks_rest hf hfirst fun heq => hne (congrArg Prod.fst heq)]
      have hdu := h.due u p.dst hu
      have hlink : g.Link p.dst u := hsymm _ _ hu.peer
      rcases hcases with ⟨hopen, rfl⟩ | ⟨hclosed, rfl⟩
      · rw [sentMarks_gossip _ _ _ (mark_close rfl),
          if_pos ⟨hpeers ▸ hlink.2, hne, htree'.next_ne hfin hout hlink hne⟩]
        exact (hopen ▸ hdu).close_far
      · rw [hclosed] at hdu
        rwa [show sentMarks c.sessionId [] u = [] from rfl, List.append_nil]

omit hsymm in
/-- `o` creates the session. -/
theorem CloseInv.create (h : CloseInv g sid o phase net) (htree : TreeAround g.Link o)
    (ho : o ∈ g.nodes) (hfresh : phase o = .fresh) {call : Call}
    (hm : call.mark sid = some .create) (hr : (net.state o).call call = (n', outs)) :
    CloseInv g sid o (Function.update phase o .opened)
      (Net.act net.state net.flight o n' outs) := by
  have hfin := g.finite_onward fun _ => False
  obtain ⟨hsame, hto, -⟩ := call_effect sid hr
  have hpeers : (net.state o).peers = g.peers o := h.hosted.peers o ho
  obtain ⟨hholds, c, rfl, hby, rfl⟩ := call_create hm hr
  rw [show (net.state o).nodeId = o from h.hosted.id o ho] at hby
  refine h.act htree ho (fun _ hp => hp) (fun _ _ => rfl) hsame hto (iff_of_true hholds rfl)
    (fun _ => .refl) (fun s hs => ?_) (fun u hu => ?_) fun u hu => ?_
  · obtain ⟨h1, h2⟩ := FlowNode.mem_broadcast.mp hs
    rw [hpeers] at h1
    rw [h2]
    refine ⟨fun c' hc' _ => ?_, fun c' hc' _ => (by cases hc')⟩
    cases hc'
    exact ⟨hby, .first ⟨ho, h1⟩⟩
  · have hdu := h.due o u hu
    rw [hfresh] at hdu
    obtain ⟨hu1, hu2, hu3⟩ := hdu.of_fresh
    change Due _ _ _ (marks c.sessionId net (u, o))
    rw [hu1, hu2, hu3, sentMarks_broadcast _ (mark_create rfl), if_pos (hpeers ▸ hu.peer.2)]
    exact .opening
  · exact absurd rfl (htree.target_ne hfin hu)

/-- A node that has the session closes it. -/
theorem CloseInv.close (h : CloseInv g sid o phase net) (htree : TreeAround g.Link o)
    (hx : x ∈ g.nodes) (hopen : phase x = .opened) {call : Call}
    (hm : call.mark sid = some .close) (hr : (net.state x).call call = (n', outs)) :
    CloseInv g sid o (Function.update phase x .closed)
      (Net.act net.state net.flight x n' outs) := by
  obtain ⟨hsame, hto, -⟩ := call_effect sid hr
  have hpeers : (net.state x).peers = g.peers x := h.hosted.peers x hx
  have hreach := h.reach x (by rw [hopen]; decide)
  obtain ⟨hgone, ⟨-, c, rfl, hby, rfl⟩ | ⟨hn, -⟩⟩ := call_close hm hr
  · rw [show (net.state x).nodeId = x from h.hosted.id x hx] at hby
    refine h.act htree hx (fun _ hp => hp) (fun _ _ => rfl) hsame hto
      (iff_of_false hgone (by decide)) (fun _ => hreach) (fun s hs => ?_) (fun u hu => ?_)
      fun u hu => ?_
    · obtain ⟨h1, h2⟩ := FlowNode.mem_broadcast.mp hs
      rw [hpeers] at h1
      rw [h2]
      refine ⟨fun c' hc' _ => (by cases hc'), fun c' hc' _ => ?_⟩
      cases hc'
      rw [hby]
      exact ⟨hreach, .first ⟨hx, h1⟩⟩
    · rw [sentMarks_broadcast _ (mark_close rfl), if_pos (hpeers ▸ hu.peer.2)]
      exact (hopen ▸ h.due x u hu).close_near
    · rw [sentMarks_broadcast _ (mark_close rfl), if_pos (hpeers ▸ (hsymm _ _ hu.peer).2)]
      exact (hopen ▸ h.due u x hu).close_far
  · exact absurd ((h.held x hx).mpr hopen) hn

omit hsymm in
theorem CloseInv.call_unmarked (h : CloseInv g sid o phase net) (htree : TreeAround g.Link o)
    (hx : x ∈ g.nodes) {call : Call} (hr : (net.state x).call call = (n', outs))
    (hheld : n'.Holds sid ↔ (net.state x).Holds sid) (houts : ∀ s ∈ outs, s.2.mark sid = none) :
    CloseInv g sid o phase (Net.act net.state net.flight x n' outs) := by
  obtain ⟨hsame, hto, -⟩ := call_effect sid hr
  exact h.unmarked htree hx (fun _ hp => hp) (fun _ => rfl) hsame hto hheld houts

end

/-! ## Runs -/

section
variable {γ δ : Type} {g : PeerGraph} {sid : String} {o x : NodeId} {phase : NodeId → Phase}
  {net net' : Net NodeId (FlowNode γ δ) ControlMessage}
  {trace : List (Event NodeId ControlMessage Call)}

/-- The phases tell what has happened. -/
structure CloseRun (g : PeerGraph) (sid : String) (o : NodeId) (phase : NodeId → Phase)
    (trace : List (Event NodeId ControlMessage Call))
    (net : Net NodeId (FlowNode γ δ) ControlMessage) : Prop where
  inv : CloseInv g sid o phase net
  uncreated : creators sid trace = [] → phase o = .fresh
  created : o ∈ creators sid trace → phase o ≠ .fresh
  processed : ∀ v, Processed sid v trace → phase v = .closed
  closed : ClosedBy o sid trace → phase o = .closed

/-- One event moves one node on. -/
theorem CloseRun.advance (h : CloseRun g sid o phase trace net) {ph : Phase}
    {e : Event NodeId ControlMessage Call} (hinv : CloseInv g sid o (Function.update phase x ph) net')
    (hlast : phase x = .closed → ph = .closed) (hfirst : phase x ≠ .fresh → ph ≠ .fresh)
    (huncreated : creators sid (e :: trace) = [] → phase x = .fresh → x = o → ph = .fresh)
    (hcreated : o ∈ creators sid (e :: trace) → o ∈ creators sid trace ∨ (x = o ∧ ph ≠ .fresh))
    (hprocessed : ∀ p outs, e = .deliver p outs → p.msg.mark sid = some .close →
      x = p.dst ∧ ph = .closed)
    (hclosed : ∀ call outs, e = .own o call outs → call.mark sid = some .close →
      o ∈ creators sid trace → x = o ∧ ph = .closed) :
    CloseRun g sid o (Function.update phase x ph) (e :: trace) net' := by
  have hstays : ∀ v, phase v = .closed → Function.update phase x ph v = .closed := by
    intro v hv
    by_cases hvx : v = x
    · subst hvx
      rw [Function.update_self]
      exact hlast hv
    · rw [Function.update_of_ne hvx]
      exact hv
  refine ⟨hinv, fun hnil => ?_, fun hmem => ?_, fun v hv => ?_, fun hc => ?_⟩
  · have hnil' : creators sid trace = [] := by
      rw [creators_cons] at hnil
      exact (List.append_eq_nil_iff.mp hnil).2
    have ho := h.uncreated hnil'
    by_cases hox : o = x
    · subst hox
      rw [Function.update_self]
      exact huncreated hnil ho rfl
    · rw [Function.update_of_ne hox]
      exact ho
  · by_cases hox : o = x
    · subst hox
      rw [Function.update_self]
      rcases hcreated hmem with hmem | ⟨-, hph⟩
      · exact hfirst (h.created hmem)
      · exact hph
    · rw [Function.update_of_ne hox]
      rcases hcreated hmem with hmem | ⟨hxo, -⟩
      · exact h.created hmem
      · exact absurd hxo.symm hox
  · rcases processed_cons.mp hv with ⟨p, outs, he, rfl, hm⟩ | hv
    · obtain ⟨rfl, rfl⟩ := hprocessed p outs he hm
      exact Function.update_self _ _ _
    · exact hstays v (h.processed v hv)
  · rcases closedBy_cons.mp hc with ⟨call, outs, he, hm, ho⟩ | hc
    · obtain ⟨rfl, rfl⟩ := hclosed call outs he hm ho
      exact Function.update_self _ _ _
    · exact hstays o (h.closed hc)

variable [PetGraph γ]

theorem CloseRun.deliver (h : CloseRun g sid o phase trace net) (htree : TreeAround g.Link o)
    (hsymm : ∀ v w, g.Link v w → g.Link w v) {l₁ l₂ : List (Packet NodeId ControlMessage)}
    {p : Packet NodeId ControlMessage} {n' : FlowNode γ δ} {outs : List Send}
    (hf : net.flight = l₁ ++ p :: l₂) (hfirst : ∀ q ∈ l₁, q.link ≠ p.link)
    (hr : receives p.src p.msg (net.state p.dst) n' outs) :
    ∃ phase', CloseRun g sid o phase' (.deliver p outs :: trace)
      (Net.act net.state (l₁ ++ l₂) p.dst n' outs) := by
  have hmem : ∀ {q}, q ∈ creators sid (.deliver p outs :: trace) → q ∈ creators sid trace := id
  have hown : ∀ call outs', (Event.deliver p outs : Event _ _ Call) = .own o call outs' →
      call.mark sid = some .close → o ∈ creators sid trace → ∀ {P : Prop}, P :=
    fun _ _ he => nomatch he
  cases hm : p.msg.mark sid with
  | none =>
    have hinv := h.inv.deliver_unmarked htree hf hfirst hm hr
    rw [← Function.update_eq_self p.dst phase] at hinv
    refine ⟨_, h.advance hinv id id (fun _ hfresh _ => hfresh) (fun ho => Or.inl (hmem ho)) ?_
      fun call outs' he hc ho => hown call outs' he hc ho⟩
    rintro q outs' heq hq
    cases heq
    rw [hm] at hq
    cases hq
  | some m =>
    cases m with
    | create =>
      obtain ⟨hfresh, hinv⟩ := h.inv.deliver_create hsymm htree hf hfirst hm hr
      refine ⟨_, h.advance hinv (fun hc => ?_) (fun hne => absurd hfresh hne) (fun _ _ hd => ?_)
        (fun ho => Or.inl (hmem ho)) ?_ fun call outs' he hc ho => hown call outs' he hc ho⟩
      · rw [hfresh] at hc
        cases hc
      · -- a `Create` never comes back to `o`
        obtain ⟨c, hmsg, hsid⟩ := mark_eq_create hm
        have hout := ((h.inv.carried p (by rw [hf]; simp)).1 c hmsg hsid).2
        exact absurd hd (htree.target_ne (g.finite_onward fun _ => False) hout)
      · rintro q outs' heq hq
        cases heq
        rw [hm] at hq
        cases hq
    | close =>
      obtain ⟨hnot, hinv⟩ := h.inv.deliver_close hsymm htree hf hfirst hm hr
      refine ⟨_, h.advance hinv (fun _ => rfl) (fun _ => by decide)
        (fun _ hfresh _ => absurd hfresh hnot) (fun ho => Or.inl (hmem ho)) ?_
        fun call outs' he hc ho => hown call outs' he hc ho⟩
      rintro q outs' heq -
      cases heq
      exact ⟨rfl, rfl⟩

theorem CloseRun.call (h : CloseRun g sid o phase trace net) (htree : TreeAround g.Link o)
    (hsymm : ∀ v w, g.Link v w → g.Link w v) (hx : x ∈ g.nodes) {call : Call} {n' : FlowNode γ δ}
    {outs : List Send} (hr : (net.state x).call call = (n', outs))
    (honce : creators sid (.own x call outs :: trace) <:+ [o]) :
    ∃ phase', CloseRun g sid o phase' (.own x call outs :: trace)
      (Net.act net.state net.flight x n' outs) := by
  have heffect := (call_effect sid hr).2.2
  cases hm : call.mark sid with
  | none =>
    have hinv := h.inv.call_unmarked htree hx hr (heffect hm).1 (heffect hm).2
    rw [← Function.update_eq_self x phase] at hinv
    have hmem : creators sid (.own x call outs :: trace) = creators sid trace := by
      rw [creators_cons, creator, hm]
      rfl
    refine ⟨_, h.advance hinv id id (fun _ hfresh _ => hfresh) (fun ho => Or.inl (hmem ▸ ho))
      (fun _ _ he => nomatch he) ?_⟩
    rintro call' outs' heq hc -
    cases heq
    rw [hm] at hc
    cases hc
  | some m =>
    cases m with
    | create =>
      -- this is the one creation, so it is `o`'s, and nothing has happened yet
      have hcons : creators sid (.own x call outs :: trace) = x :: creators sid trace := by
        rw [creators_cons, creator, if_pos hm]
        rfl
      rw [hcons] at honce
      obtain ⟨rfl, hnil⟩ : x = o ∧ creators sid trace = [] := by
        rcases List.suffix_cons_iff.mp honce with heq | hsuf
        · exact List.cons.inj heq
        · exact absurd (List.suffix_nil.mp hsuf) (by simp)
      have hfresh := h.uncreated hnil
      have hinv := h.inv.create htree hx hfresh hm hr
      refine ⟨_, h.advance hinv (fun hc => ?_) (fun hne => absurd hfresh hne) (fun hnil' => ?_)
        (fun _ => Or.inr ⟨rfl, by decide⟩) (fun _ _ he => nomatch he) fun _ _ _ _ hmem => ?_⟩
      · rw [hfresh] at hc
        cases hc
      · rw [hcons] at hnil'
        cases hnil'
      · rw [hnil] at hmem
        exact absurd hmem List.not_mem_nil
    | close =>
      have hmem : creators sid (.own x call outs :: trace) = creators sid trace := by
        rw [creators_cons, creator, if_neg (by rw [hm]; decide)]
        rfl
      by_cases hopen : phase x = .opened
      · have hinv := h.inv.close hsymm htree hx hopen hm hr
        refine ⟨_, h.advance hinv (fun _ => rfl) (fun _ => by decide) (fun _ hfresh => ?_)
          (fun ho => Or.inl (hmem ▸ ho)) (fun _ _ he => nomatch he) fun _ _ heq _ _ => ?_⟩
        · rw [hopen] at hfresh
          cases hfresh
        · cases heq
          exact ⟨rfl, rfl⟩
      · have hn : ¬ (net.state x).Holds sid := fun hh => hopen ((h.inv.held x hx).mp hh)
        obtain ⟨hgone, ⟨hh, -⟩ | ⟨-, rfl⟩⟩ := call_close hm hr
        · exact absurd hh hn
        have hinv := h.inv.call_unmarked htree hx hr (iff_of_false hgone hn)
          fun s hs => absurd hs List.not_mem_nil
        rw [← Function.update_eq_self x phase] at hinv
        refine ⟨_, h.advance hinv id id (fun _ hfresh _ => hfresh) (fun ho => Or.inl (hmem ▸ ho))
          (fun _ _ he => nomatch he) fun _ _ heq _ hcreated => ?_⟩
        cases heq
        refine ⟨rfl, ?_⟩
        have hnot := h.created hcreated
        cases hph : phase o with
        | fresh => exact absurd hph hnot
        | opened => exact absurd hph hopen
        | closed => rfl

theorem CloseRun.run {init : Net NodeId (FlowNode γ δ) ControlMessage} (htree : TreeAround g.Link o)
    (hsymm : ∀ v w, g.Link v w → g.Link w v) (hinit : CloseRun g sid o phase [] init)
    (hrun : FifoRun (sessionCalls g) init trace net) (honce : creators sid trace <:+ [o]) :
    ∃ phase', CloseRun g sid o phase' trace net := by
  induction hrun with
  | nil => exact ⟨phase, hinit⟩
  | @step trace net net' e _ hs ih =>
    have hsuf : creators sid trace <:+ creators sid (e :: trace) := by
      rw [creators_cons]
      exact List.suffix_append _ _
    obtain ⟨phase', h⟩ := ih (hsuf.trans honce)
    cases hs with
    | deliver hf hfirst hr => exact h.deliver htree hsymm hf hfirst hr
    | own hr => exact h.call htree hsymm hr.1 hr.2 honce

omit [PetGraph γ] in
/-- With nothing in flight, all nodes in reach are equally far. -/
theorem CloseInv.phase_eq (h : CloseInv g sid o phase net) (hflight : net.flight = [])
    (hr : ReflTransGen g.Link o x) : phase x = phase o := by
  have hempty : ∀ e, marks sid net e = [] := by
    intro e
    rw [marks, Net.onLink, hflight]
    rfl
  induction hr with
  | refl => rfl
  | @tail y x hy hyx ih =>
    rw [← ih]
    rcases outward_or_swap hy hyx with hu | hu
    · have hd := h.due y x hu
      rw [hempty, hempty] at hd
      exact hd.eq_of_empty.symm
    · have hd := h.due x y hu
      rw [hempty, hempty] at hd
      exact hd.eq_of_empty

/-- **Around a tree a closed session stays closed.** -/
theorem staysClosed_of_tree {init : Net NodeId (FlowNode γ δ) ControlMessage}
    (hhosted : Hosted g id init) (hflight : init.flight = [])
    (hnone : ∀ v ∈ g.nodes, ¬ (init.state v).Holds sid) (ho : o ∈ g.nodes)
    (hsymm : ∀ v w, g.Link v w → g.Link w v) (htree : TreeAround g.Link o)
    (hrun : FifoRun (sessionCalls g) init trace net) (honce : creators sid trace = [o]) :
    StaysClosed g sid o trace net := by
  have hempty : ∀ e, marks sid init e = [] := by
    intro e
    rw [marks, Net.onLink, hflight]
    rfl
  have hinit : CloseRun g sid o (fun _ => .fresh) [] init := by
    refine ⟨⟨hhosted, fun v hv => iff_of_false (hnone v hv) (by decide), fun y x _ => ?_,
      fun v hv => absurd rfl hv, fun p hp => ?_⟩, fun _ => rfl,
      fun hmem => absurd hmem List.not_mem_nil, ?_, fun h => ?_⟩
    · rw [hempty, hempty]
      exact .idle
    · rw [hflight] at hp
      exact absurd hp List.not_mem_nil
    · rintro v ⟨p, outs, hp, -⟩
      exact absurd hp List.not_mem_nil
    · exact absurd h.created List.not_mem_nil
  obtain ⟨phase, h⟩ := hinit.run htree hsymm hrun (by rw [honce])
  have hclosed : ∀ v ∈ g.nodes, phase v = .closed → ¬ (net.state v).Holds sid := by
    intro v hv hph hh
    rw [(h.inv.held v hv).mp hh] at hph
    cases hph
  refine ⟨fun v hv => ?_, fun hc => hclosed o ho (h.closed hc), fun hc hq v hv hh => ?_⟩
  · have hph := h.processed v hv
    have hr := h.inv.reach v (by rw [hph]; decide)
    have hv : v ∈ g.nodes := by
      rcases ReflTransGen.cases_tail hr with rfl | ⟨y, -, hy⟩
      · exact ho
      · exact hy.right
    exact hclosed v hv hph
  · have hopen := (h.inv.held v hv).mp hh
    have heq := h.inv.phase_eq hq (h.inv.reach v (by rw [hopen]; decide))
    rw [hopen, h.closed hc] at heq
    cases heq

end

end Stric.Flow
