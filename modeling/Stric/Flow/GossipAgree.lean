import Mathlib.Algebra.Order.Monoid.WithTop
import Stric.Flow.GraphInv
import Stric.Flow.GossipBound

/-!
# Subscription flooding reaches agreement

One node `origin` announces its subscriptions with growing epochs; every node floods what
is news to it, but not back to where it came from, nor to the origin.  With nothing in
flight, all nodes of a connected mesh record the origin's latest epoch, and its descriptor
in their graphs carries exactly the subscriptions announced last
(`subscription_flood_agrees`).

The value a node holds is the epoch it records (`recordedEpoch`), below every number when
there is none.  Two things make the skipped peers harmless: who sent the update holds its
epoch already, and nobody records more than the origin (`FloodInv.below`).
-/

namespace Stric.Flow

open Stric.Pool

/-! ## The capabilities of an update -/

theorem mem_subscriptionCapabilities (u : SubscriptionUpdate) (key : String) :
    key ∈ FlowNode.subscriptionCapabilities u ↔
      ∃ entry ∈ u.entries, entry.action = SubscriptionAction.subscribe.toI32 ∧
        key = subKey entry.pattern := by
  have hfold : ∀ (entries : List SubscriptionEntry) (caps : HashMap String String),
      key ∈ entries.foldl (fun caps entry =>
        if entry.action = SubscriptionAction.subscribe.toI32 then caps.insert (subKey entry.pattern) ""
        else caps) caps ↔
      key ∈ caps ∨ ∃ entry ∈ entries, entry.action = SubscriptionAction.subscribe.toI32 ∧
        key = subKey entry.pattern := by
    intro entries
    induction entries with
    | nil => simp
    | cons entry entries ih =>
      intro caps
      rw [List.foldl_cons, ih]
      by_cases ha : entry.action = SubscriptionAction.subscribe.toI32
      · rw [if_pos ha]
        simp only [AList.mem_insert, List.mem_cons, exists_eq_or_imp, ha, true_and]
        rw [or_assoc, or_left_comm]
      · rw [if_neg ha]
        simp only [List.mem_cons, exists_eq_or_imp, ha, false_and, false_or]
  unfold FlowNode.subscriptionCapabilities
  rw [hfold]
  simp

/-- The update has a `Subscribe` entry for the pattern. -/
def SubscriptionUpdate.Lists (u : SubscriptionUpdate) (pattern : String) : Prop :=
  ∃ entry ∈ u.entries, entry.action = SubscriptionAction.subscribe.toI32 ∧ entry.pattern = pattern

theorem subKey_mem_subscriptionCapabilities (u : SubscriptionUpdate) (pattern : String) :
    subKey pattern ∈ FlowNode.subscriptionCapabilities u ↔ u.Lists pattern := by
  rw [mem_subscriptionCapabilities]
  constructor
  · rintro ⟨entry, he, ha, hk⟩
    exact ⟨entry, he, ha, (subKey_injective hk).symm⟩
  · rintro ⟨entry, he, ha, rfl⟩
    exact ⟨entry, he, ha, rfl⟩

section
variable {γ δ : Type}

/-- The epoch the node records for the origin. -/
def recordedEpoch (origin : NodeId) (n : FlowNode γ δ) : WithBot Nat :=
  match n.lastSubscriptionEpochs.lookup origin with
  | some e => (e.toNat : WithBot Nat)
  | none => ⊥

/-- The epoch of an update of the origin. -/
def announcedEpoch (origin : NodeId) (msg : ControlMessage) : WithBot Nat :=
  match msg.message with
  | some (.subscriptionUpdate u) => if u.nodeId = origin then (u.epoch.toNat : WithBot Nat) else ⊥
  | _ => ⊥

theorem announcedEpoch_self {origin : NodeId} {u : SubscriptionUpdate} (h : u.nodeId = origin) :
    announcedEpoch origin (.of (.subscriptionUpdate u)) = (u.epoch.toNat : WithBot Nat) := by
  simp [announcedEpoch, ControlMessage.of, h]

theorem announcedEpoch_other {origin : NodeId} {u : SubscriptionUpdate} (h : u.nodeId ≠ origin) :
    announcedEpoch origin (.of (.subscriptionUpdate u)) = ⊥ := by
  simp [announcedEpoch, ControlMessage.of, h]

theorem recordedEpoch_eq {origin : NodeId} {n : FlowNode γ δ} {e : UInt64}
    (h : n.lastSubscriptionEpochs.lookup origin = some e) :
    recordedEpoch origin n = (e.toNat : WithBot Nat) := by
  simp [recordedEpoch, h]

/-- What one subscription update does, seen from the origin. -/
theorem receives_subscription [PetGraph γ] (origin : NodeId) {sender : NodeId} {u : SubscriptionUpdate}
    {n n' : FlowNode γ δ} {outs : List Send}
    (h : receives sender (.of (.subscriptionUpdate u)) n n' outs) :
    (u.nodeId = origin ∧ recordedEpoch origin n < (u.epoch.toNat : WithBot Nat) ∧
      n'.lastSubscriptionEpochs.lookup origin = some u.epoch ∧
      (∃ d, n'.graph.nodeMetadata.lookup origin = some d ∧
        d.capabilities = FlowNode.subscriptionCapabilities u) ∧
      outs = n.gossip sender origin (.of (.subscriptionUpdate u))) ∨
    (n'.lastSubscriptionEpochs.lookup origin = n.lastSubscriptionEpochs.lookup origin ∧
      n'.graph.nodeMetadata.lookup origin = n.graph.nodeMetadata.lookup origin ∧
      (u.nodeId = origin → (u.epoch.toNat : WithBot Nat) ≤ recordedEpoch origin n ∧ outs = []) ∧
      ∀ o ∈ outs, o.1 ∈ n.peers ∧ o.2 = .of (.subscriptionUpdate u)) := by
  obtain ⟨clock, h⟩ := h
  obtain ⟨t, ⟨hnew, rfl, rfl⟩ | ⟨hold, rfl, rfl⟩⟩ := FlowNode.onMessage_subscription clock n sender u h
  · by_cases hu : u.nodeId = origin
    · left
      refine ⟨hu, ?_, ?_, ?_, by rw [hu]⟩
      · unfold FlowNode.isNewer at hnew
        rw [hu] at hnew
        unfold recordedEpoch
        cases hl : n.lastSubscriptionEpochs.lookup origin with
        | none => exact WithBot.bot_lt_coe _
        | some c =>
          rw [hl] at hnew
          simp only [decide_eq_true_eq] at hnew
          exact WithBot.coe_lt_coe.mpr (UInt64.lt_iff_toNat_lt.mp hnew)
      · simp only [FlowNode.acceptSubscription]
        rw [hu, AList.lookup_insert]
      · refine ⟨⟨u.nodeId, NodeRole.flow.toI32, FlowNode.subscriptionCapabilities u, clock.millis⟩,
          ?_, rfl⟩
        rw [← hu]
        exact GlobalGraph.lookup_metadata_addNode_self _ _
    · right
      refine ⟨?_, ?_, fun h => absurd h hu, fun o ho => ?_⟩
      · simp only [FlowNode.acceptSubscription]
        rw [AList.lookup_insert_ne (Ne.symm hu)]
      · exact GlobalGraph.lookup_metadata_addNode_ne _ _ (Ne.symm hu)
      · obtain ⟨h1, -, -, h2⟩ := FlowNode.mem_gossip.mp ho
        exact ⟨h1, h2⟩
  · right
    refine ⟨rfl, rfl, fun hu => ⟨?_, rfl⟩, fun o ho => absurd ho List.not_mem_nil⟩
    unfold FlowNode.isNewer at hold
    rw [hu] at hold
    cases hl : n.lastSubscriptionEpochs.lookup origin with
    | none =>
      rw [hl] at hold
      cases hold
    | some c =>
      rw [hl] at hold
      simp only [decide_eq_false_iff_not] at hold
      rw [recordedEpoch_eq hl]
      exact WithBot.coe_le_coe.mpr (UInt64.le_iff_toNat_le.mp (UInt64.not_lt.mp hold))

end

/-! ## The mesh -/

section
variable {γ δ : Type} [PetGraph γ]

/-- Control loops that exchange subscription updates; on its own, a node processes an update
of its own subscriptions. -/
def floods (g : PeerGraph) : Protocol NodeId (FlowNode γ δ) ControlMessage SubscriptionUpdate where
  recv _ sender msg n n' outs := receives sender msg n n' outs
  own v u n n' outs :=
    v ∈ g.nodes ∧ u.nodeId = v ∧ receives v (.of (.subscriptionUpdate u)) n n' outs

/-- The updates a node has processed of its own subscriptions, the latest first. -/
def ownUpdates (v : NodeId) (trace : List (Event NodeId ControlMessage SubscriptionUpdate)) :
    List SubscriptionUpdate :=
  trace.filterMap fun e => match e with
    | .own w u _ => if w = v then some u else none
    | .deliver _ _ => none

/-- Epochs grow from each announcement to the next. -/
def Growing (updates : List SubscriptionUpdate) : Prop :=
  updates.Pairwise fun newer older => older.epoch < newer.epoch

/-- Among growing epochs, the epoch names the update. -/
theorem Growing.eq_of_epoch {last x : SubscriptionUpdate} {earlier : List SubscriptionUpdate}
    (h : Growing (last :: earlier)) (hx : x ∈ last :: earlier) (he : x.epoch = last.epoch) :
    x = last := by
  rcases List.mem_cons.mp hx with rfl | hx
  · rfl
  · have := (List.pairwise_cons.mp h).1 x hx
    rw [he] at this
    exact absurd this (UInt64.lt_irrefl _)

structure FloodInv (g : PeerGraph) (origin : NodeId)
    (trace : List (Event NodeId ControlMessage SubscriptionUpdate))
    (net : Net NodeId (FlowNode γ δ) ControlMessage) : Prop where
  hosted : Hosted g id net
  updates : ∀ p ∈ net.flight, ∃ u, p.msg = .of (.subscriptionUpdate u) ∧
    (u.nodeId = origin → u ∈ ownUpdates origin trace)
  covered : Covered (recordedEpoch origin) (announcedEpoch origin) g.Link net
  below : ∀ v ∈ g.nodes, recordedEpoch origin (net.state v) ≤ recordedEpoch origin (net.state origin)
  latest : (net.state origin).lastSubscriptionEpochs.lookup origin =
    (ownUpdates origin trace).head?.map fun u => u.epoch
  content : ∀ v ∈ g.nodes, ∀ e, (net.state v).lastSubscriptionEpochs.lookup origin = some e →
    ∃ u ∈ ownUpdates origin trace, u.epoch = e ∧
      ∃ d, (net.state v).graph.nodeMetadata.lookup origin = some d ∧
        d.capabilities = FlowNode.subscriptionCapabilities u

section
variable {g : PeerGraph} {origin v sender : NodeId} {u : SubscriptionUpdate}
  {trace trace' : List (Event NodeId ControlMessage SubscriptionUpdate)}
  {net : Net NodeId (FlowNode γ δ) ControlMessage} {n' : FlowNode γ δ} {outs : List Send}

omit [PetGraph γ] in
/-- No announcement is above what the origin records. -/
theorem FloodInv.announced_le (h : FloodInv g origin trace net)
    (hgrow : Growing (ownUpdates origin trace)) {x : SubscriptionUpdate}
    (hx : x ∈ ownUpdates origin trace) :
    (x.epoch.toNat : WithBot Nat) ≤ recordedEpoch origin (net.state origin) := by
  cases hl : ownUpdates origin trace with
  | nil =>
    rw [hl] at hx
    cases hx
  | cons last rest =>
    have hlast := h.latest
    rw [hl] at hlast hx hgrow
    rw [recordedEpoch_eq hlast]
    rcases List.mem_cons.mp hx with rfl | hx
    · exact le_rfl
    · exact WithBot.coe_le_coe.mpr
        (UInt64.le_iff_toNat_le.mp (UInt64.le_of_lt ((List.pairwise_cons.mp hgrow).1 x hx)))

/-- The peers an update is not forwarded to know its epoch already. -/
theorem FloodInv.tells (h : FloodInv g origin trace net) (hv : v ∈ g.nodes)
    (hr : receives sender (.of (.subscriptionUpdate u)) (net.state v) n' outs)
    (hsender : u.nodeId = origin → sender ≠ v →
      (u.epoch.toNat : WithBot Nat) ≤ recordedEpoch origin (net.state sender))
    (horigin : u.nodeId = origin → origin ≠ v →
      (u.epoch.toNat : WithBot Nat) ≤ recordedEpoch origin (net.state origin)) :
    Tells (recordedEpoch origin) (announcedEpoch origin) g.Link net.state v n' outs := by
  rcases receives_subscription origin hr with
    ⟨hu, hlt, hl, -, rfl⟩ | ⟨hl, -, hold, hout⟩
  · have hval := recordedEpoch_eq hl
    refine ⟨?_, fun o ho => ?_, fun t ht htv b hb htb hob => ?_⟩
    · rw [hval]
      exact le_of_lt hlt
    · rw [hval, (FlowNode.mem_gossip.mp ho).2.2.2, announcedEpoch_self hu]
    · rw [hval]
      by_cases hts : t = sender
      · subst hts
        exact (hsender hu htv).trans htb
      · by_cases hto : t = origin
        · subst hto
          exact (horigin hu htv).trans htb
        · rw [← announcedEpoch_self hu]
          refine hob (t, .of (.subscriptionUpdate u)) (FlowNode.mem_gossip.mpr ⟨?_, hts, hto, rfl⟩) rfl
          rw [show (net.state v).peers = g.peers v from h.hosted.peers v hv]
          exact ht.2
  · have hval : recordedEpoch origin n' = recordedEpoch origin (net.state v) := by
      unfold recordedEpoch
      rw [hl]
    refine ⟨le_of_eq hval.symm, fun o ho => ?_, fun t ht htv b hb _ _ => by rw [hval]; exact hb⟩
    by_cases hu : u.nodeId = origin
    · rw [(hold hu).2] at ho
      cases ho
    · rw [(hout o ho).2, announcedEpoch_other hu]
      exact bot_le

/-- What a step at `v` keeps, whether the update was delivered or is `v`'s own. -/
theorem FloodInv.act (h : FloodInv g origin trace net) (hv : v ∈ g.nodes)
    (hr : receives sender (.of (.subscriptionUpdate u)) (net.state v) n' outs)
    {rest : List (Packet NodeId ControlMessage)} (hrest : ∀ p ∈ rest, p ∈ net.flight)
    (hcov : Covered (recordedEpoch origin) (announcedEpoch origin) g.Link
      (Net.act net.state rest v n' outs))
    (hgrows : recordedEpoch origin (net.state v) ≤ recordedEpoch origin n')
    (hsub : ∀ x ∈ ownUpdates origin trace, x ∈ ownUpdates origin trace')
    (hmem : u.nodeId = origin → u ∈ ownUpdates origin trace')
    (horigin : u.nodeId = origin → origin ≠ v →
      (u.epoch.toNat : WithBot Nat) ≤ recordedEpoch origin (net.state origin))
    (hlatest : ((Net.act net.state rest v n' outs).state origin).lastSubscriptionEpochs.lookup origin =
      (ownUpdates origin trace').head?.map fun u => u.epoch) :
    FloodInv g origin trace' (Net.act net.state rest v n' outs) := by
  have hcases := receives_subscription origin hr
  have hsent : ∀ o ∈ outs, o.1 ∈ (net.state v).peers ∧ o.2 = .of (.subscriptionUpdate u) := by
    intro o ho
    rcases hcases with ⟨-, -, -, -, rfl⟩ | ⟨-, -, -, hout⟩
    · obtain ⟨h1, -, -, h2⟩ := FlowNode.mem_gossip.mp ho
      exact ⟨h1, h2⟩
    · exact hout o ho
  have hsame : SameHost (net.state v) n' := by
    obtain ⟨clock, hr⟩ := hr
    exact FlowNode.sameHost_of_onMessage hr
  refine ⟨h.hosted.act hv hrest hsame fun o ho => (hsent o ho).1, fun p hp => ?_, hcov,
    fun w hw => ?_, hlatest, fun w hw e he => ?_⟩
  · rcases Net.mem_act.mp hp with hp | ⟨o, ho, rfl⟩
    · obtain ⟨x, hx, hxo⟩ := h.updates p (hrest p hp)
      exact ⟨x, hx, fun hxn => hsub x (hxo hxn)⟩
    · exact ⟨u, (hsent o ho).2, hmem⟩
  · have horig : recordedEpoch origin (net.state origin) ≤
        recordedEpoch origin ((Net.act net.state rest v n' outs).state origin) :=
      Net.act_forall (fun u n => recordedEpoch origin (net.state u) ≤ recordedEpoch origin n) hgrows
        (fun _ => le_refl _) origin
    by_cases hwv : w = v
    · subst hwv
      by_cases hov : origin = w
      · rw [hov]
      · rw [Net.act_state_self, Net.act_state_ne hov]
        rcases hcases with ⟨hu, -, hl, -, -⟩ | ⟨hl, -, -, -⟩
        · rw [recordedEpoch_eq hl]
          exact horigin hu hov
        · have := h.below w hw
          unfold recordedEpoch at this ⊢
          rwa [hl]
    · rw [Net.act_state_ne hwv]
      exact (h.below w hw).trans horig
  · by_cases hwv : w = v
    · subst hwv
      rw [Net.act_state_self] at he ⊢
      rcases hcases with ⟨hu, -, hl, hd, -⟩ | ⟨hl, hm, -, -⟩
      · rw [hl] at he
        cases he
        exact ⟨u, hmem hu, rfl, hd⟩
      · rw [hl] at he
        obtain ⟨x, hx, hxe, hd⟩ := h.content w hw e he
        exact ⟨x, hsub x hx, hxe, by rw [hm]; exact hd⟩
    · rw [Net.act_state_ne hwv] at he ⊢
      obtain ⟨x, hx, hxe, hd⟩ := h.content w hw e he
      exact ⟨x, hsub x hx, hxe, hd⟩

theorem FloodInv.deliver (h : FloodInv g origin trace net)
    (hgrow : Growing (ownUpdates origin trace)) {l₁ l₂ : List (Packet NodeId ControlMessage)}
    {p : Packet NodeId ControlMessage} (hf : net.flight = l₁ ++ p :: l₂)
    (hr : receives p.src p.msg (net.state p.dst) n' outs) :
    FloodInv g origin (.deliver p outs :: trace)
      (Net.act net.state (l₁ ++ l₂) p.dst n' outs) := by
  have hp : p ∈ net.flight := by rw [hf]; simp
  have hv := (h.hosted.ends p hp).2
  obtain ⟨u, hmsg, hmem⟩ := h.updates p hp
  rw [hmsg] at hr
  have htop : u.nodeId = origin →
      (u.epoch.toNat : WithBot Nat) ≤ recordedEpoch origin (net.state origin) :=
    fun hu => h.announced_le hgrow (hmem hu)
  have ht := h.tells hv hr (fun hu _ => by
    have := h.covered.backed p hp
    rwa [hmsg, announcedEpoch_self hu] at this) (fun hu _ => htop hu)
  refine h.act hv hr (fun q hq => mem_of_mem_rest hf hq) (h.covered.deliver hf ht ?_) ht.grows
    (fun x hx => hx) hmem (fun hu _ => htop hu) ?_
  · -- a node records at least the epochs it is handed
    rw [hmsg]
    by_cases hu : u.nodeId = origin
    · rw [announcedEpoch_self hu]
      rcases receives_subscription origin hr with ⟨-, -, hl, -, -⟩ | ⟨hl, -, hold, -⟩
      · rw [recordedEpoch_eq hl]
      · exact (hold hu).1.trans ht.grows
    · rw [announcedEpoch_other hu]
      exact bot_le
  · change _ = (ownUpdates origin trace).head?.map fun u => u.epoch
    rw [← h.latest]
    by_cases hov : origin = p.dst
    · subst hov
      rw [Net.act_state_self]
      rcases receives_subscription p.dst hr with ⟨hu, hlt, -, -, -⟩ | ⟨hl, -, -, -⟩
      · exact absurd (htop hu) (not_le_of_gt hlt)
      · exact hl
    · rw [Net.act_state_ne hov]

/-- An announcement newer than all before it is never dropped. -/
theorem FloodInv.recorded_own (h : FloodInv g origin trace net) (hu : u.nodeId = origin)
    (hgrow : Growing (u :: ownUpdates origin trace))
    (hr : receives sender (.of (.subscriptionUpdate u)) (net.state origin) n' outs) :
    n'.lastSubscriptionEpochs.lookup origin = some u.epoch := by
  rcases receives_subscription origin hr with ⟨-, -, hl, -, -⟩ | ⟨-, -, hold, -⟩
  · exact hl
  · exfalso
    have hle := (hold hu).1
    have hlatest := h.latest
    cases hprev : ownUpdates origin trace with
    | nil =>
      rw [hprev] at hlatest
      simp only [List.head?_nil, Option.map_none] at hlatest
      simp [recordedEpoch, hlatest] at hle
    | cons last rest =>
      rw [hprev] at hlatest hgrow
      rw [recordedEpoch_eq hlatest] at hle
      have hle : u.epoch.toNat ≤ last.epoch.toNat := WithBot.coe_le_coe.mp hle
      have := UInt64.lt_iff_toNat_lt.mp
        ((List.pairwise_cons.mp hgrow).1 last List.mem_cons_self)
      omega

theorem FloodInv.announce (h : FloodInv g origin trace net)
    (hgrow : Growing (ownUpdates origin (.own v u outs :: trace)))
    (hr : (floods g).own v u (net.state v) n' outs) :
    FloodInv g origin (.own v u outs :: trace) (Net.act net.state net.flight v n' outs) := by
  obtain ⟨hv, huv, hr⟩ := hr
  have hother : u.nodeId = origin → ¬ origin ≠ v := fun hu hne => hne (hu.symm.trans huv)
  have ht := h.tells hv hr (fun _ hne => absurd rfl hne) (fun hu hne => absurd hne (hother hu))
  have hown : ownUpdates origin (.own v u outs :: trace) =
      if v = origin then u :: ownUpdates origin trace else ownUpdates origin trace := by
    simp only [ownUpdates, List.filterMap_cons]
    split <;> simp_all
  refine h.act hv hr (fun q hq => hq) (h.covered.own ht) ht.grows ?_ ?_
    (fun hu hne => absurd hne (hother hu)) ?_
  · intro x hx
    rw [hown]
    split
    · exact List.mem_cons_of_mem _ hx
    · exact hx
  · intro hu
    rw [hown, if_pos (huv.symm.trans hu)]
    exact List.mem_cons_self
  · by_cases hov : v = origin
    · subst hov
      rw [hown, if_pos rfl] at hgrow ⊢
      rw [Net.act_state_self]
      exact h.recorded_own huv hgrow hr
    · rw [Net.act_state_ne (Ne.symm hov), hown, if_neg hov]
      exact h.latest

theorem FloodInv.step {net' : Net NodeId (FlowNode γ δ) ControlMessage}
    {e : Event NodeId ControlMessage SubscriptionUpdate} (h : FloodInv g origin trace net)
    (hgrow : Growing (ownUpdates origin (e :: trace))) (hs : Step (floods g) net e net') :
    FloodInv g origin (e :: trace) net' := by
  cases hs with
  | deliver hf hr => exact h.deliver hgrow hf hr
  | own hr => exact h.announce hgrow hr

omit [PetGraph γ] in
theorem FloodInv.init (horigin : origin ∈ g.nodes) (hhosted : Hosted g id net)
    (hnone : ∀ v ∈ g.nodes, (net.state v).lastSubscriptionEpochs.lookup origin = none)
    (hflight : ∀ p ∈ net.flight, ∃ u, p.msg = .of (.subscriptionUpdate u) ∧ u.nodeId ≠ origin) :
    FloodInv g origin [] net := by
  have hbot : ∀ v ∈ g.nodes, recordedEpoch origin (net.state v) = ⊥ := by
    intro v hv
    simp [recordedEpoch, hnone v hv]
  refine ⟨hhosted, fun p hp => ?_, ⟨fun p hp => ?_, fun a b hl c _ _ => ?_⟩, fun v hv => ?_, ?_,
    fun v hv e he => ?_⟩
  · obtain ⟨u, hu, hne⟩ := hflight p hp
    exact ⟨u, hu, fun h => absurd h hne⟩
  · obtain ⟨u, hu, hne⟩ := hflight p hp
    rw [hu, announcedEpoch_other hne]
    exact bot_le
  · rw [hbot a hl.1]
    exact bot_le
  · rw [hbot v hv]
    exact bot_le
  · rw [hnone origin horigin]
    rfl
  · rw [hnone v hv] at he
    cases he

end

/-- **Agreement.**  No node records an epoch of the origin at first; the origin processes
updates of its own with growing epochs, the other nodes process any of theirs, and messages
are delivered in any order.  Whenever nothing is in flight, every node records the greatest
epoch, and holds exactly the subscriptions announced with it. -/
theorem subscription_flood_agrees (g : PeerGraph) (hconn : g.Connected) {origin : NodeId}
    (horigin : origin ∈ g.nodes) {init net : Net NodeId (FlowNode γ δ) ControlMessage}
    (hhosted : Hosted g id init)
    (hnone : ∀ v ∈ g.nodes, (init.state v).lastSubscriptionEpochs.lookup origin = none)
    (hflight : ∀ p ∈ init.flight, ∃ u, p.msg = .of (.subscriptionUpdate u) ∧ u.nodeId ≠ origin)
    {trace : List (Event NodeId ControlMessage SubscriptionUpdate)}
    (hrun : Run (floods g) init trace net) (hgrow : Growing (ownUpdates origin trace))
    (hquiet : net.flight = []) {last : SubscriptionUpdate} {earlier : List SubscriptionUpdate}
    (hlast : ownUpdates origin trace = last :: earlier) :
    ∀ v ∈ g.nodes, (net.state v).lastSubscriptionEpochs.lookup origin = some last.epoch ∧
      ∃ d, (net.state v).graph.nodeMetadata.lookup origin = some d ∧
        ∀ pattern, subKey pattern ∈ d.capabilities ↔
          ∃ entry ∈ last.entries, entry.action = SubscriptionAction.subscribe.toI32 ∧
            entry.pattern = pattern := by
  have hinit := FloodInv.init horigin hhosted hnone hflight
  have hinv : FloodInv g origin trace net := by
    refine hrun.invariant (fun trace => Growing (ownUpdates origin trace)) (FloodInv g origin) ?_
      hinit (fun _ _ _ _ hg h hs => h.step hg hs) hgrow
    intro e trace hg
    refine List.Pairwise.sublist (List.Sublist.filterMap _ ?_) hg
    exact List.sublist_cons_self e trace
  intro v hv
  have horig := hinv.latest
  rw [hlast] at horig
  have hle := hinv.covered.agree hquiet (hconn origin horigin v hv)
  have heq := le_antisymm hle (hinv.below v hv)
  rw [recordedEpoch_eq horig] at heq
  cases hl : (net.state v).lastSubscriptionEpochs.lookup origin with
  | none =>
    simp [recordedEpoch, hl] at heq
  | some e =>
    rw [recordedEpoch_eq hl] at heq
    have he : last.epoch = e := UInt64.toNat_inj.mp (WithBot.coe_injective heq)
    subst he
    refine ⟨rfl, ?_⟩
    obtain ⟨x, hx, hxe, d, hd, hcaps⟩ := hinv.content v hv _ hl
    rw [hlast] at hx hgrow
    have hxl := hgrow.eq_of_epoch hx hxe
    subst hxl
    refine ⟨d, hd, fun pattern => ?_⟩
    rw [hcaps]
    exact subKey_mem_subscriptionCapabilities x pattern

end

/-- `a` subscribes to `t`. -/
def pairAnnouncement : SubscriptionUpdate :=
  ⟨"a", [⟨"", "t", SubscriptionAction.subscribe.toI32⟩], 1⟩

/-- `a` processes its update and sends it to `b`, who has nobody to forward it to. -/
theorem pair_flood_agrees : ∃ trace net,
    Run (floods pairGraph) ⟨pairNode, []⟩ trace net ∧ net.flight = [] ∧
    ∀ v ∈ pairGraph.nodes, (net.state v).lastSubscriptionEpochs.lookup "a" = some 1 ∧
      ∃ d, (net.state v).graph.nodeMetadata.lookup "a" = some d ∧
        ∀ pattern, subKey pattern ∈ d.capabilities ↔
          ∃ entry ∈ pairAnnouncement.entries,
            entry.action = SubscriptionAction.subscribe.toI32 ∧ entry.pattern = pattern := by
  have h0 : Run (floods pairGraph) ⟨pairNode, []⟩ [] ⟨pairNode, []⟩ := .nil
  have h1 := h0.act_own "a" pairAnnouncement _
    [("b", .of (.subscriptionUpdate pairAnnouncement))] ⟨by decide, rfl, ⟨⟨0, 0⟩, rfl⟩⟩
  have h2 := h1.deliver_head rfl _ [] ⟨⟨0, 0⟩, rfl⟩
  refine ⟨_, _, h2, rfl, ?_⟩
  exact subscription_flood_agrees pairGraph pairGraph_connected (show "a" ∈ pairGraph.nodes by decide)
    ⟨by decide, by decide, by decide⟩ (by decide) (by simp) h2
    (List.pairwise_singleton _ pairAnnouncement) rfl rfl

end Stric.Flow
