import Stric.Flow.SessionTree

/-!
# A session that is made again

Where the peer graph around the creator is not a tree, a closed session may come back.  Let
the `Create` spread until everybody in reach has the session.  Each node then has a parent,
from which it took the `Create`, and some node `x` has another peer `y`, from which a second
`Create` is still on its way to `x` (`Spread.exists_pending`).  Now the creator closes, and the
`Close` goes down from parent to child to `x` (`Closing.reach`).  When the second `Create`
arrives after it, `x` makes the session again.

So a closed session stays closed exactly around trees (`staysClosed_iff`).
-/

namespace Stric.Flow

open Stric.Pool Relation

section
variable {γ δ : Type} {g : PeerGraph} {sid : String} {o : NodeId} {c : SessionCreate}
  {init net : Net NodeId (FlowNode γ δ) ControlMessage}
  {trace : List (Event NodeId ControlMessage Call)}

/-! ## Everybody gets the session -/

/-- The nodes `H` have the session, each but `o` from its parent; and a node of `H` has sent
the `Create` to everybody who has not sent it to that node before. -/
structure Spread [PetGraph γ] (g : PeerGraph) (o : NodeId) (c : SessionCreate)
    (init : Net NodeId (FlowNode γ δ) ControlMessage) (H : Finset NodeId) (par : NodeId → NodeId)
    (rank : NodeId → Nat) (trace : List (Event NodeId ControlMessage Call))
    (net : Net NodeId (FlowNode γ δ) ControlMessage) : Prop where
  run : FifoRun (sessionCalls g) init trace net
  once : creators c.sessionId trace = [o]
  hosted : Hosted g id net
  root : o ∈ H
  sub : H ⊆ g.nodes
  holds : ∀ v ∈ g.nodes, (net.state v).Holds c.sessionId ↔ v ∈ H
  parent : ∀ v ∈ H, v ≠ o → par v ∈ H ∧ g.Link (par v) v ∧ rank (par v) < rank v
  idle : ∀ v ∈ H, v ≠ o → net.onLink (par v, v) = []
  silent : ∀ y, y ∉ H → ∀ x, net.onLink (y, x) = []
  pending : ∀ y ∈ H, ∀ x, g.Link y x → x ≠ o → (y ≠ o → par y ≠ x) → (x ∈ H → par x ≠ y) →
    net.onLink (y, x) = [.ofSession (.create c)]

variable [PetGraph γ] {H : Finset NodeId} {par : NodeId → NodeId} {rank : NodeId → Nat}

/-- The `Create` reaches one more node. -/
theorem Spread.grow (h : Spread g o c init H par rank trace net) (hc : c.creatorNode = o)
    {y w : NodeId} (hy : y ∈ H) (hl : g.Link y w) (hw : w ∉ H) :
    ∃ trace' net', Spread g o c init (insert w H) (Function.update par w y)
      (Function.update rank w (rank y + 1)) trace' net' := by
  have hwo : w ≠ o := fun heq => hw (heq ▸ h.root)
  have hyw : y ≠ w := fun heq => hw (heq ▸ hy)
  have hnotpar : ∀ v ∈ H, v ≠ o → par v ≠ w := fun v hv hvo heq => hw (heq ▸ (h.parent v hv hvo).1)
  have hpend := h.pending y hy w hl hwo (hnotpar y hy) fun hmem => absurd hmem hw
  have hn : ¬ (net.state w).Holds c.sessionId := fun hh => hw ((h.holds w hl.right).mp hh)
  obtain ⟨⟨n', outs⟩, hr⟩ : ∃ r,
      (net.state w).onMessage ⟨0, 0⟩ y (.ofSession (.create c)) = r := ⟨_, rfl⟩
  obtain ⟨rest, hrun, hrest, hlink⟩ := h.run.deliver_first hpend n' outs ⟨⟨0, 0⟩, hr⟩
  have hto := fun s hs => ((FlowNode.onMessage_effect hr).2 s hs).1
  obtain ⟨hholds, houts⟩ := FlowNode.onMessage_create hn hr
  have hpeers : (net.state w).peers = g.peers w := h.hosted.peers w hl.right
  -- only what `w` has taken and what it sends has changed
  have hother : ∀ a b, a ≠ w → (a, b) ≠ (y, w) →
      (Net.act net.state rest w n' outs).onLink (a, b) = net.onLink (a, b) := by
    intro a b ha hab
    rw [hlink, if_neg hab, if_neg ha, List.append_nil]
  refine ⟨_, _, hrun, h.once, h.hosted.act hl.right hrest (FlowNode.sameHost_of_onMessage hr) hto,
    Finset.mem_insert_of_mem h.root, Finset.insert_subset hl.right h.sub, fun v hv => ?_,
    fun v hv hvo => ?_, fun v hv hvo => ?_, fun a ha b => ?_, fun a ha b hab hbo hpa hpb => ?_⟩
  · by_cases hvw : v = w
    · subst hvw
      rw [Net.act_state_self]
      exact iff_of_true hholds (Finset.mem_insert_self _ _)
    · rw [Net.act_state_ne hvw, Finset.mem_insert, or_iff_right hvw]
      exact h.holds v hv
  · by_cases hvw : v = w
    · subst hvw
      rw [Function.update_self, Function.update_of_ne hyw, Function.update_self]
      exact ⟨Finset.mem_insert_of_mem hy, hl, Nat.lt_succ_self _⟩
    · obtain ⟨h1, h2, h3⟩ := h.parent v (Finset.mem_of_mem_insert_of_ne hv hvw) hvo
      have hne : par v ≠ w := hnotpar v (Finset.mem_of_mem_insert_of_ne hv hvw) hvo
      rw [Function.update_of_ne hvw, Function.update_of_ne hvw, Function.update_of_ne hne]
      exact ⟨Finset.mem_insert_of_mem h1, h2, h3⟩
  · by_cases hvw : v = w
    · subst hvw
      rw [Function.update_self, hlink, if_pos rfl, if_neg hyw, List.append_nil]
    · have hv' := Finset.mem_of_mem_insert_of_ne hv hvw
      rw [Function.update_of_ne hvw, hother _ _ (hnotpar v hv' hvo) fun heq =>
        hvw (congrArg Prod.snd heq)]
      exact h.idle v hv' hvo
  · rw [Finset.mem_insert, not_or] at ha
    have hay : a ≠ y := fun heq => ha.2 (heq ▸ hy)
    rw [hother a b ha.1 fun heq => hay (congrArg Prod.fst heq)]
    exact h.silent a ha.2 b
  · by_cases haw : a = w
    · subst haw
      have hby : b ≠ y := fun heq => hpa hwo (by rw [Function.update_self, heq])
      have hne : (a, b) ≠ (y, a) := fun heq => hyw (congrArg Prod.fst heq).symm
      rw [hlink, if_neg hne, h.silent a hw, if_pos rfl, houts, FlowNode.sentTo_gossip,
        if_pos ⟨hpeers ▸ hab.2, hby, hc ▸ hbo⟩]
      rfl
    · have ha' := Finset.mem_of_mem_insert_of_ne ha haw
      rw [Function.update_of_ne haw] at hpa
      have hne : (a, b) ≠ (y, w) := by
        rintro heq
        obtain ⟨rfl, rfl⟩ := Prod.mk.inj heq
        exact hpb (Finset.mem_insert_self _ _) (Function.update_self _ _ _)
      rw [hother a b haw hne]
      refine h.pending a ha' b hab hbo hpa fun hb => ?_
      have hbw : b ≠ w := fun heq => hw (heq ▸ hb)
      have := hpb (Finset.mem_insert_of_mem hb)
      rwa [Function.update_of_ne hbw] at this

/-- The `Create` reaches everybody it can reach. -/
theorem Spread.all (h : Spread g o c init H par rank trace net) (hc : c.creatorNode = o) :
    ∃ H par rank trace net, Spread g o c init H par rank trace net ∧
      ∀ v ∈ H, ∀ w, g.Link v w → w ∈ H := by
  induction hk : (g.nodes \ H).card using Nat.strong_induction_on generalizing H par rank trace net with
  | _ k ih =>
    by_cases hclosed : ∀ v ∈ H, ∀ w, g.Link v w → w ∈ H
    · exact ⟨H, par, rank, trace, net, h, hclosed⟩
    · push Not at hclosed
      obtain ⟨y, hy, w, hl, hw⟩ := hclosed
      obtain ⟨trace', net', h'⟩ := h.grow hc hy hl hw
      refine ih _ ?_ h' rfl
      rw [← hk]
      refine Finset.card_lt_card ((Finset.ssubset_iff_of_subset ?_).mpr ⟨w, ?_, ?_⟩)
      · exact Finset.sdiff_subset_sdiff (Finset.Subset.refl _) (Finset.subset_insert w H)
      · exact Finset.mem_sdiff.mpr ⟨hl.right, hw⟩
      · exact fun hmem => (Finset.mem_sdiff.mp hmem).2 (Finset.mem_insert_self w H)

/-- Unless the graph is a tree around `o`, a second `Create` is on its way to some node. -/
theorem Spread.exists_pending (h : Spread g o c init H par rank trace net)
    (hclosed : ∀ v ∈ H, ∀ w, g.Link v w → w ∈ H) (hsymm : ∀ v w, g.Link v w → g.Link w v)
    (hself : ¬ g.Link o o) (hnot : ¬ TreeAround g.Link o) :
    ∃ y x, x ∈ H ∧ x ≠ o ∧ par x ≠ y ∧ net.onLink (y, x) = [.ofSession (.create c)] := by
  by_contra hall
  push Not at hall
  -- then every link is one between a node and its parent
  have hfrom : ∀ y x, y ∈ H → g.Link y x → x ≠ o → FromParent par o (y, x) ∨ FromParent par o (x, y) := by
    intro y x hy hyx hxo
    by_cases hpx : par x = y
    · exact Or.inl ⟨hxo, hpx⟩
    · refine Or.inr ?_
      by_contra hno
      refine hall y x (hclosed y hy x hyx) hxo hpx
        (h.pending y hy x hyx hxo (fun hyo heq => hno ⟨hyo, heq⟩) fun _ => hpx)
  refine hnot (treeAround_of_parents (fun v => v ∈ H) h.root
    (fun v w hv hvw => hclosed v hv w hvw) (fun v hv hvo => (h.parent v hv hvo).2.2) fun y x hy hyx => ?_)
  by_cases hxo : x = o
  · subst hxo
    have hyo : y ≠ x := fun heq => hself (heq ▸ hyx)
    exact (hfrom x y h.root (hsymm _ _ hyx) hyo).symm
  · exact hfrom y x hy hyx hxo

/-- `o` creates the session. -/
theorem Spread.start (hhosted : Hosted g id init) (hflight : init.flight = [])
    (hnone : ∀ v ∈ g.nodes, ¬ (init.state v).Holds sid) (ho : o ∈ g.nodes) :
    ∃ c trace net, c.sessionId = sid ∧ c.creatorNode = o ∧
      Spread g o c init {o} id (fun _ => 0) trace net ∧
      ∀ w ∈ g.peers o, net.onLink (o, w) = [.ofSession (.create c)] := by
  obtain ⟨⟨n', outs⟩, hr⟩ : ∃ r, (init.state o).call (.create ⟨0, 0⟩ ⟨0, 0⟩ sid [] ∅) = r := ⟨_, rfl⟩
  have hm : (Call.create ⟨0, 0⟩ ⟨0, 0⟩ sid [] ∅).mark sid = some .create := if_pos rfl
  obtain ⟨hsame, hto, -⟩ := call_effect sid hr
  obtain ⟨hholds, c, rfl, hby, rfl⟩ := call_create hm hr
  rw [show (init.state o).nodeId = o from hhosted.id o ho] at hby
  have hpeers : (init.state o).peers = g.peers o := hhosted.peers o ho
  have hrun : FifoRun (sessionCalls g) init _ _ := .step .nil (.own ⟨ho, hr⟩)
  have hlink : ∀ e, (Net.act init.state init.flight o n' ((init.state o).broadcast
      (.ofSession (.create c)))).onLink e =
        if e.1 = o ∧ e.2 ∈ g.peers o then [.ofSession (.create c)] else [] := by
    intro e
    rw [Net.onLink_act, hflight, FlowNode.sentTo_broadcast, hpeers]
    by_cases he : e.1 = o
    · by_cases hw : e.2 ∈ g.peers o
      · rw [if_pos he, if_pos hw, if_pos ⟨he, hw⟩]
        rfl
      · rw [if_pos he, if_neg hw, if_neg fun hand => hw hand.2]
        rfl
    · rw [if_neg he, if_neg fun hand => he hand.1]
      rfl
  refine ⟨c, _, _, rfl, hby, ⟨hrun, ?_, hhosted.act ho (fun _ hp => hp) hsame hto,
    Finset.mem_singleton_self o, Finset.singleton_subset_iff.mpr ho, fun v hv => ?_,
    fun v hv hvo => ?_, fun v hv hvo => ?_, fun y hy x => ?_, fun y hy x hyx _ _ _ => ?_⟩,
    fun w hw => ?_⟩
  · rw [creators_cons, creator, if_pos hm]
    rfl
  · by_cases hvo : v = o
    · subst hvo
      rw [Net.act_state_self]
      exact iff_of_true hholds (Finset.mem_singleton_self v)
    · rw [Net.act_state_ne hvo]
      exact iff_of_false (hnone v hv) fun hmem => hvo (Finset.mem_singleton.mp hmem)
  · exact absurd (Finset.mem_singleton.mp hv) hvo
  · exact absurd (Finset.mem_singleton.mp hv) hvo
  · rw [hlink, if_neg fun hand => hy (Finset.mem_singleton.mpr hand.1)]
  · obtain rfl := Finset.mem_singleton.mp hy
    rw [hlink, if_pos ⟨rfl, hyx.2⟩]
  · rw [hlink, if_pos ⟨rfl, hw⟩]

/-! ## The session is closed along the parents -/

/-- The nodes `D` have closed, the others of `H` still have the session, and a `Close` is on
its way from those to the children that have not; meanwhile the second `Create` waits on the
link from `y` to `x`. -/
structure Closing (g : PeerGraph) (o : NodeId) (c : SessionCreate)
    (init : Net NodeId (FlowNode γ δ) ControlMessage) (H : Finset NodeId) (par : NodeId → NodeId)
    (y x : NodeId) (D : Finset NodeId) (trace : List (Event NodeId ControlMessage Call))
    (net : Net NodeId (FlowNode γ δ) ControlMessage) : Prop where
  run : FifoRun (sessionCalls g) init trace net
  once : creators c.sessionId trace = [o]
  closedBy : ClosedBy o c.sessionId trace
  hosted : Hosted g id net
  root : o ∈ D
  sub : D ⊆ g.nodes
  holds : ∀ v ∈ H, v ∉ D → (net.state v).Holds c.sessionId
  gone : ∀ v ∈ D, ¬ (net.state v).Holds c.sessionId
  due : ∀ v ∈ H, v ∉ D → par v ∈ D → ∃ close : SessionClose, close.sessionId = c.sessionId ∧
    close.closedBy = o ∧ net.onLink (par v, v) = [.ofSession (.close close)]
  idle : ∀ v ∈ H, v ∉ D → par v ∉ D → net.onLink (par v, v) = []
  waiting : ∃ ms, net.onLink (y, x) = .ofSession (.create c) :: ms
  processed : ∀ v ∈ D, v ≠ o → Processed c.sessionId v trace

variable {x y : NodeId} {D : Finset NodeId}

/-- `o` closes the session. -/
theorem Spread.close (h : Spread g o c init H par rank trace net)
    (hpend : net.onLink (y, x) = [.ofSession (.create c)]) :
    ∃ trace' net', Closing g o c init H par y x {o} trace' net' := by
  have ho : o ∈ g.nodes := h.sub h.root
  obtain ⟨⟨n', outs⟩, hr⟩ : ∃ r, (net.state o).call (.close c.sessionId "") = r := ⟨_, rfl⟩
  have hm : (Call.close c.sessionId "").mark c.sessionId = some .close := if_pos rfl
  obtain ⟨hsame, hto, -⟩ := call_effect c.sessionId hr
  obtain ⟨hgone, ⟨-, cl, hsid, hby, rfl⟩ | ⟨hn, -⟩⟩ := call_close hm hr
  · rw [show (net.state o).nodeId = o from h.hosted.id o ho] at hby
    have hpeers : (net.state o).peers = g.peers o := h.hosted.peers o ho
    have hlink := Net.onLink_act net.state net.flight o n'
      ((net.state o).broadcast (.ofSession (.close cl)))
    have hvo : ∀ v, v ∉ ({o} : Finset NodeId) → v ≠ o := fun v hv heq =>
      hv (Finset.mem_singleton.mpr heq)
    refine ⟨_, _, .step h.run (.own ⟨ho, hr⟩), ?_, ?_, h.hosted.act ho (fun _ hp => hp) hsame hto,
      Finset.mem_singleton_self o, Finset.singleton_subset_iff.mpr ho, fun v hv hvD => ?_,
      fun v hv => ?_, fun v hv hvD hpar => ?_, fun v hv hvD hpar => ?_, ?_, fun v hv hne => ?_⟩
    · rw [creators_cons, creator, if_neg (by rw [hm]; decide)]
      exact h.once
    · exact closedBy_cons.mpr (Or.inl ⟨_, _, rfl, hm, by rw [h.once]; exact List.mem_singleton_self o⟩)
    · rw [Net.act_state_ne (hvo v hvD)]
      exact (h.holds v (h.sub hv)).mpr hv
    · obtain rfl := Finset.mem_singleton.mp hv
      rw [Net.act_state_self]
      exact hgone
    · obtain hpo := Finset.mem_singleton.mp hpar
      obtain ⟨-, hl, -⟩ := h.parent v hv (hvo v hvD)
      have hidle := h.idle v hv (hvo v hvD)
      rw [hpo] at hl hidle
      refine ⟨cl, hsid, hby, ?_⟩
      rw [hpo, hlink, if_pos rfl, FlowNode.sentTo_broadcast, if_pos (hpeers ▸ hl.2)]
      change net.onLink (o, v) ++ _ = _
      rw [hidle]
      rfl
    · rw [hlink, if_neg fun heq => hpar (Finset.mem_singleton.mpr heq), List.append_nil]
      exact h.idle v hv (hvo v hvD)
    · rw [hlink]
      change ∃ ms, net.onLink (y, x) ++ _ = _
      rw [hpend]
      exact ⟨_, rfl⟩
    · exact absurd (Finset.mem_singleton.mp hv) hne
  · exact absurd ((h.holds o ho).mpr h.root) hn

/-- The `Close` reaches one more node. -/
theorem Closing.step (h : Closing g o c init H par y x D trace net) (hx : par x ≠ y)
    (hsub : H ⊆ g.nodes)
    (hparent : ∀ v ∈ H, v ≠ o → par v ∈ H ∧ g.Link (par v) v ∧ rank (par v) < rank v)
    {v : NodeId} (hv : v ∈ H) (hvD : v ∉ D) (hpar : par v ∈ D) :
    ∃ trace' net', Closing g o c init H par y x (insert v D) trace' net' := by
  have hne : ∀ u, u ∉ D → u ≠ o := fun u hu heq => hu (heq ▸ h.root)
  have hvn := hsub hv
  obtain ⟨cl, hsid, hby, hdue⟩ := h.due v hv hvD hpar
  obtain ⟨⟨n', outs⟩, hr⟩ : ∃ r,
      (net.state v).onMessage ⟨0, 0⟩ (par v) (.ofSession (.close cl)) = r := ⟨_, rfl⟩
  obtain ⟨rest, hrun, hrest, hlink⟩ := h.run.deliver_first hdue n' outs ⟨⟨0, 0⟩, hr⟩
  have hto := fun s hs => ((FlowNode.onMessage_effect hr).2 s hs).1
  obtain ⟨hgone, hpass, -⟩ := FlowNode.onMessage_close hr
  rw [hsid] at hgone hpass
  have houts := hpass (h.holds v hv hvD)
  have hpeers : (net.state v).peers = g.peers v := h.hosted.peers v hvn
  have hother : ∀ a b, a ≠ v → (a, b) ≠ (par v, v) →
      (Net.act net.state rest v n' outs).onLink (a, b) = net.onLink (a, b) := by
    intro a b ha hab
    rw [hlink, if_neg hab, if_neg ha, List.append_nil]
  refine ⟨_, _, hrun, h.once, closedBy_cons.mpr (Or.inr h.closedBy),
    h.hosted.act hvn hrest (FlowNode.sameHost_of_onMessage hr) hto, Finset.mem_insert_of_mem h.root,
    Finset.insert_subset hvn h.sub, fun u hu huD => ?_, fun u hu => ?_, fun u hu huD hpu => ?_,
    fun u hu huD hpu => ?_, ?_, fun u hu huo => ?_⟩
  · rw [Finset.mem_insert, not_or] at huD
    rw [Net.act_state_ne huD.1]
    exact h.holds u hu huD.2
  · by_cases huv : u = v
    · subst huv
      rw [Net.act_state_self]
      exact hgone
    · rw [Net.act_state_ne huv]
      exact h.gone u (Finset.mem_of_mem_insert_of_ne hu huv)
  · rw [Finset.mem_insert, not_or] at huD
    have hlast : (par u, u) ≠ (par v, v) := fun heq => huD.1 (congrArg Prod.snd heq)
    by_cases hpv : par u = v
    · -- a child of `v`: its link was idle, and `v` passes the `Close` on
      obtain ⟨-, hl, hlt⟩ := hparent u hu (hne u huD.2)
      have hidle := h.idle u hu huD.2 (by rw [hpv]; exact hvD)
      rw [hpv] at hl hidle hlt hlast
      have hup : u ≠ par v := by
        rintro rfl
        exact lt_asymm hlt (hparent v hv (hne v hvD)).2.2
      refine ⟨cl, hsid, hby, ?_⟩
      rw [hpv, hlink, if_neg hlast, hidle, if_pos rfl, houts, FlowNode.sentTo_gossip,
        if_pos ⟨hpeers ▸ hl.2, hup, hby ▸ hne u huD.2⟩]
      rfl
    · rw [hother _ _ hpv hlast]
      exact h.due u hu huD.2 (Finset.mem_of_mem_insert_of_ne hpu hpv)
  · rw [Finset.mem_insert, not_or] at huD hpu
    rw [hother _ _ hpu.1 fun heq => huD.1 (congrArg Prod.snd heq)]
    exact h.idle u hu huD.2 hpu.2
  · obtain ⟨ms, hms⟩ := h.waiting
    have hyx : (y, x) ≠ (par v, v) := by
      intro heq
      obtain ⟨rfl, rfl⟩ := Prod.mk.inj heq
      exact hx rfl
    rw [hlink, if_neg hyx, hms]
    exact ⟨_, rfl⟩
  · by_cases huv : u = v
    · subst huv
      exact processed_cons.mpr (Or.inl ⟨_, _, rfl, rfl, mark_close hsid⟩)
    · exact processed_cons.mpr (Or.inr (h.processed u (Finset.mem_of_mem_insert_of_ne hu huv) huo))

/-- The `Close` can be brought to any node, parent by parent. -/
theorem Closing.reach (h : Closing g o c init H par y x D trace net) (hx : par x ≠ y)
    (hsub : H ⊆ g.nodes)
    (hparent : ∀ v ∈ H, v ≠ o → par v ∈ H ∧ g.Link (par v) v ∧ rank (par v) < rank v)
    {v : NodeId} (hv : v ∈ H) :
    ∃ D trace net, Closing g o c init H par y x D trace net ∧ v ∈ D := by
  induction hk : rank v using Nat.strong_induction_on generalizing v with
  | _ k ih =>
    by_cases hvD : v ∈ D
    · exact ⟨D, trace, net, h, hvD⟩
    · have hvo : v ≠ o := fun heq => hvD (heq ▸ h.root)
      obtain ⟨hp, -, hlt⟩ := hparent v hv hvo
      obtain ⟨D', trace', net', h', hpD⟩ := ih (rank (par v)) (hk ▸ hlt) hp rfl
      by_cases hvD' : v ∈ D'
      · exact ⟨D', trace', net', h', hvD'⟩
      · obtain ⟨trace'', net'', h''⟩ := h'.step hx hsub hparent hv hvD' hpD
        exact ⟨_, _, _, h'', Finset.mem_insert_self _ _⟩

/-! ## The session is made again -/

/-- A `Create` that has waited on a link to a node without the session makes it. -/
theorem exists_delivery {v w : NodeId} {ms : List ControlMessage}
    (hrun : FifoRun (sessionCalls g) init trace net)
    (hl : net.onLink (v, w) = .ofSession (.create c) :: ms)
    (hn : ¬ (net.state w).Holds c.sessionId) :
    ∃ p outs net', FifoRun (sessionCalls g) init (.deliver p outs :: trace) net' ∧
      (net'.state w).Holds c.sessionId := by
  obtain ⟨⟨n', outs⟩, hr⟩ : ∃ r,
      (net.state w).onMessage ⟨0, 0⟩ v (.ofSession (.create c)) = r := ⟨_, rfl⟩
  obtain ⟨rest, hrun', -, -⟩ := hrun.deliver_first hl n' outs ⟨⟨0, 0⟩, hr⟩
  refine ⟨_, _, _, hrun', ?_⟩
  rw [Net.act_state_self]
  exact (FlowNode.onMessage_create hn hr).1

/-- **Unless the graph is a tree around the creator, a closed session can come back.** -/
theorem exists_reopening (hhosted : Hosted g id init) (hflight : init.flight = [])
    (hnone : ∀ v ∈ g.nodes, ¬ (init.state v).Holds sid) (ho : o ∈ g.nodes)
    (hsymm : ∀ v w, g.Link v w → g.Link w v) (hnot : ¬ TreeAround g.Link o) :
    ∃ trace net v, FifoRun (sessionCalls g) init trace net ∧ creators sid trace = [o] ∧
      ClosedBy o sid trace ∧ (v = o ∨ Processed sid v trace) ∧ (net.state v).Holds sid := by
  obtain ⟨c, trace, net, rfl, hby, hstart, hsent⟩ := Spread.start hhosted hflight hnone ho
  by_cases hself : g.Link o o
  · -- the creator has sent the `Create` to itself
    obtain ⟨trace, net, h⟩ := hstart.close (hsent o hself.2)
    obtain ⟨ms, hms⟩ := h.waiting
    obtain ⟨p, outs, net', hrun, hholds⟩ := exists_delivery h.run hms (h.gone o h.root)
    exact ⟨_, net', o, hrun, h.once, closedBy_cons.mpr (Or.inr h.closedBy), Or.inl rfl, hholds⟩
  · obtain ⟨H, par, rank, trace, net, hspread, hclosed⟩ := hstart.all hby
    obtain ⟨y, x, hx, hxo, hpar, hpend⟩ := hspread.exists_pending hclosed hsymm hself hnot
    obtain ⟨trace, net, hclosing⟩ := hspread.close hpend
    obtain ⟨D, trace, net, h, hxD⟩ := hclosing.reach hpar hspread.sub hspread.parent hx
    obtain ⟨ms, hms⟩ := h.waiting
    obtain ⟨p, outs, net', hrun, hholds⟩ := exists_delivery h.run hms (h.gone x hxD)
    exact ⟨_, net', x, hrun, h.once, closedBy_cons.mpr (Or.inr h.closedBy),
      Or.inr (processed_cons.mpr (Or.inr (h.processed x hxD hxo))), hholds⟩

/-- **A closed session stays closed exactly around trees.**  Peers are mutual, links keep the
order, nobody has the session and nothing is in flight.  In every run in which `o`, and nobody
else, creates the session, and that once, nobody who has closed it has it again, and once `o`
has closed it and nothing is in flight nobody has it, exactly if what can be reached from `o`
is a tree. -/
theorem staysClosed_iff (hhosted : Hosted g id init) (hflight : init.flight = [])
    (hnone : ∀ v ∈ g.nodes, ¬ (init.state v).Holds sid) (ho : o ∈ g.nodes)
    (hsymm : ∀ v w, g.Link v w → g.Link w v) :
    (∀ trace net, FifoRun (sessionCalls g) init trace net → creators sid trace = [o] →
      StaysClosed g sid o trace net) ↔ TreeAround g.Link o := by
  constructor
  · intro h
    by_contra hnot
    obtain ⟨trace, net, v, hrun, honce, hclosed, hv, hholds⟩ :=
      exists_reopening hhosted hflight hnone ho hsymm hnot
    rcases hv with rfl | hv
    · exact (h trace net hrun honce).creator hclosed hholds
    · exact (h trace net hrun honce).processed v hv hholds
  · intro htree trace net hrun honce
    exact staysClosed_of_tree hhosted hflight hnone ho hsymm htree hrun honce

end

/-! ## A triangle and a pair -/

theorem triangle_hosted : Hosted triangle id
    (⟨triangle.freshNode, []⟩ : Net NodeId (FlowNode VecGraph Unit) ControlMessage) :=
  ⟨by decide, by decide, fun p hp => absurd hp List.not_mem_nil⟩

/-- On the triangle, a session that `d` creates and closes comes back. -/
theorem triangle_reopens : ∃ trace net v,
    FifoRun (sessionCalls triangle)
      (⟨triangle.freshNode, []⟩ : Net NodeId (FlowNode VecGraph Unit) ControlMessage) trace net ∧
    creators "s" trace = ["d"] ∧ ClosedBy "d" "s" trace ∧
    (v = "d" ∨ Processed "s" v trace) ∧ (net.state v).Holds "s" := by
  have hsymm : ∀ v ∈ triangle.nodes, ∀ w ∈ triangle.peers v, triangle.Link w v := by decide
  refine exists_reopening triangle_hosted rfl (fun v _ h => ?_) (by decide)
    (fun v w h => hsymm v h.1 w h.2) fun htree => ?_
  · exact absurd h List.not_mem_nil
  · have hab : ReflTransGen triangle.Link "d" "a" := .single ⟨by decide, by decide⟩
    exact (htree ("a", "b") hab ⟨by decide, by decide⟩).2 (triangle_comes_round _ id id id)

theorem pair_staysClosed : TreeAround pairGraph.Link "a" ∧ ∀ trace net,
    FifoRun (sessionCalls pairGraph)
      (⟨pairNode, []⟩ : Net NodeId (FlowNode VecGraph Unit) ControlMessage) trace net →
    creators "s" trace = ["a"] → StaysClosed pairGraph "s" "a" trace net := by
  have hsymm : ∀ v ∈ pairGraph.nodes, ∀ w ∈ pairGraph.peers v, pairGraph.Link w v := by decide
  have hself : ∀ v ∈ pairGraph.nodes, ∀ w ∈ pairGraph.peers v, v ≠ w := by decide
  have htree : TreeAround pairGraph.Link "a" := by
    intro e _ hp
    exact ⟨hself e.1 hp.1 e.2 hp.2, pairGraph_forest e⟩
  exact ⟨htree, (staysClosed_iff ⟨by decide, by decide, fun p hp => absurd hp List.not_mem_nil⟩ rfl
    (fun v _ h => absurd h List.not_mem_nil) (by decide) fun v w h => hsymm v h.1 w h.2).mpr htree⟩

end Stric.Flow
