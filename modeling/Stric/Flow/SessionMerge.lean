import Mathlib.Order.Lattice
import Mathlib.Order.BoundedOrder.Basic
import Stric.Flow.SessionSync

/-!
# Sessions with a merge function

A write merges its data into the local state and broadcasts the data alone; a relay merges
what it receives and passes its whole state on.  If the merge function is the join of a
semilattice with the empty state at the bottom (`JoinFn`), both tell the peers enough: with
nothing in flight, every node holds the merge of all data ever written (`merge_converges`).

The states of such a session form a `SemilatticeSup` (`Merged`), and the values told along
the links are the states themselves.
-/

namespace Stric.Flow

open Stric.Pool

/-- An associative, commutative, idempotent merge of byte strings, with the empty one as
identity. -/
structure JoinFn where
  join : Bytes → Bytes → Bytes
  assoc : ∀ x y z, join (join x y) z = join x (join y z)
  comm : ∀ x y, join x y = join y x
  idem : ∀ x, join x x = x
  empty : ∀ x, join [] x = x

namespace JoinFn

/-- The registered function, which never fails. -/
def mergeFn (J : JoinFn) : StateMergeFn := fun x y => .ok (J.join x y)

/-- The states of a session that is merged by `J`. -/
def Merged (_ : JoinFn) : Type := Bytes

instance (J : JoinFn) : Max J.Merged := ⟨J.join⟩

instance (J : JoinFn) : SemilatticeSup J.Merged := SemilatticeSup.mk' J.comm J.assoc J.idem

instance (J : JoinFn) : OrderBot J.Merged where
  bot := ([] : Bytes)
  bot_le x := sup_eq_right.mp (J.empty x)

/-- A byte string as a state. -/
def state (J : JoinFn) (data : Bytes) : J.Merged := data

theorem state_join (J : JoinFn) (x y : Bytes) : J.state (J.join x y) = J.state x ⊔ J.state y := rfl

theorem state_empty (J : JoinFn) : J.state [] = ⊥ := rfl

/-- All data written, merged. -/
def mergeAll (J : JoinFn) (ws : List Write) : Bytes :=
  ws.foldr (fun w acc => J.join w.data acc) []

theorem state_mergeAll_cons (J : JoinFn) (w : Write) (ws : List Write) :
    J.state (J.mergeAll (w :: ws)) = J.state w.data ⊔ J.state (J.mergeAll ws) := rfl

theorem mergeAll_le (J : JoinFn) {ws : List Write} {b : J.Merged}
    (h : ∀ w ∈ ws, J.state w.data ≤ b) : J.state (J.mergeAll ws) ≤ b := by
  induction ws with
  | nil => exact bot_le
  | cons w ws ih =>
    rw [state_mergeAll_cons]
    exact sup_le (h w List.mem_cons_self) (ih fun x hx => h x (List.mem_cons_of_mem _ hx))

end JoinFn

section
variable {γ δ : Type} {J : JoinFn}

/-- The state of the node's session. -/
def nodeState (J : JoinFn) (sid : String) (n : FlowNode γ δ) : J.Merged :=
  match n.sessions.lookup sid with
  | some session => J.state session.stateData
  | none => ⊥

def messageState (J : JoinFn) (msg : ControlMessage) : J.Merged :=
  match msg.message with
  | some (.sessionControl ⟨some (.stateSync sync)⟩) => J.state sync.data
  | _ => ⊥

theorem nodeState_eq {sid : String} {n : FlowNode γ δ} {session : Session}
    (h : n.sessions.lookup sid = some session) : nodeState J sid n = J.state session.stateData := by
  simp [nodeState, h]

variable [PetGraph γ]

/-- A `StateSync` is joined to the session, and the join is relayed. -/
theorem onMessage_join (clock : Clock) (n : FlowNode γ δ) (sender : NodeId)
    (sync : SessionStateSync) {session : Session}
    (hs : n.sessions.lookup sync.sessionId = some session)
    (hfn : n.mergeFns.lookup sync.sessionId = some J.mergeFn) {n' : FlowNode γ δ}
    {outs : List Send} (h : n.onMessage clock sender (.ofSession (.stateSync sync)) = (n', outs)) :
    ∃ s, s.stateData = J.join session.stateData sync.data ∧
      n'.sessions.lookup sync.sessionId = some s ∧
      outs = n.gossip sender sync.sender (relayed n sync s) := by
  have hmsg := onMessage_stateSync clock n sender sync hs h
  rw [hfn] at hmsg
  rcases hmsg with ⟨s, hm, hl, hout⟩ | ⟨hm, -, -⟩
  · cases hm
    exact ⟨_, rfl, hl, hout⟩
  · cases hm

structure MergeInv (J : JoinFn) (g : PeerGraph) (sid : String)
    (trace : List (Event NodeId ControlMessage Write))
    (net : Net NodeId (FlowNode γ δ) ControlMessage) : Prop where
  hosted : Hosted g id net
  merges : ∀ v ∈ g.nodes, (net.state v).mergeFns.lookup sid = some J.mergeFn
  holds : ∀ v ∈ g.nodes, ∃ session, (net.state v).sessions.lookup sid = some session
  flight : ∀ p ∈ net.flight, ∃ sync, p.msg = .ofSession (.stateSync sync) ∧
    sync.sessionId = sid ∧ sync.sender = p.src
  covered : Covered (nodeState J sid) (messageState J) g.Link net
  below : ∀ v ∈ g.nodes, nodeState J sid (net.state v) ≤ J.state (J.mergeAll (writes trace))
  kept : ∀ w ∈ writes trace, ∃ v ∈ g.nodes, J.state w.data ≤ nodeState J sid (net.state v)

section
variable {g : PeerGraph} {sid : String} {v : NodeId}
  {trace trace' : List (Event NodeId ControlMessage Write)}
  {net : Net NodeId (FlowNode γ δ) ControlMessage} {n' : FlowNode γ δ} {outs : List Send}

omit [PetGraph γ] in
/-- What a step at `v` keeps, if `v`'s state grows and stays below the merge of all writes. -/
theorem MergeInv.act (h : MergeInv J g sid trace net) (hv : v ∈ g.nodes)
    {rest : List (Packet NodeId ControlMessage)} (hrest : ∀ p ∈ rest, p ∈ net.flight)
    (hsame : SameHost (net.state v) n') {session : Session}
    (hs : n'.sessions.lookup sid = some session)
    (hout : ∀ o ∈ outs, o.1 ∈ (net.state v).peers ∧ ∃ sync, o.2 = .ofSession (.stateSync sync) ∧
      sync.sessionId = sid ∧ sync.sender = v)
    (hcov : Covered (nodeState J sid) (messageState J) g.Link (Net.act net.state rest v n' outs))
    (hgrows : nodeState J sid (net.state v) ≤ nodeState J sid n')
    (hbelow : nodeState J sid n' ≤ J.state (J.mergeAll (writes trace')))
    (hmono : J.state (J.mergeAll (writes trace)) ≤ J.state (J.mergeAll (writes trace')))
    (hkept : ∀ w ∈ writes trace', w ∈ writes trace ∨ J.state w.data ≤ nodeState J sid n') :
    MergeInv J g sid trace' (Net.act net.state rest v n' outs) := by
  refine ⟨h.hosted.act hv hrest hsame fun o ho => (hout o ho).1, mergeFns_act hsame h.merges,
    holds_act hs h.holds, fun p hp => ?_, hcov, fun u hu => ?_, fun w hw => ?_⟩
  · rcases Net.mem_act.mp hp with hp | ⟨o, ho, rfl⟩
    · exact h.flight p (hrest p hp)
    · exact (hout o ho).2
  · exact Net.act_forall
      (fun u n => u ∈ g.nodes → nodeState J sid n ≤ J.state (J.mergeAll (writes trace')))
      (fun _ => hbelow) (fun u hu => (h.below u hu).trans hmono) u hu
  · rcases hkept w hw with hw | hw
    · obtain ⟨u, hu, hle⟩ := h.kept w hw
      refine ⟨u, hu, hle.trans ?_⟩
      exact Net.act_forall (fun u n => nodeState J sid (net.state u) ≤ nodeState J sid n) hgrows
        (fun _ => le_refl _) u
    · exact ⟨v, hv, by rw [Net.act_state_self]; exact hw⟩

theorem MergeInv.deliver (h : MergeInv J g sid trace net)
    {l₁ l₂ : List (Packet NodeId ControlMessage)} {p : Packet NodeId ControlMessage}
    (hf : net.flight = l₁ ++ p :: l₂) (hr : receives p.src p.msg (net.state p.dst) n' outs) :
    MergeInv J g sid (.deliver p outs :: trace) (Net.act net.state (l₁ ++ l₂) p.dst n' outs) := by
  have hp : p ∈ net.flight := by rw [hf]; simp
  have hv := (h.hosted.ends p hp).2
  have hsrc := (h.hosted.ends p hp).1
  obtain ⟨sync, hmsg, hsid, hsender⟩ := h.flight p hp
  obtain ⟨session, hses⟩ := h.holds p.dst hv
  obtain ⟨clock, hr⟩ := hr
  have hback := h.covered.backed p hp
  have hdat : messageState J p.msg = J.state sync.data := by rw [hmsg]; rfl
  rw [hdat] at hback
  have hsame := FlowNode.sameHost_of_onMessage hr
  rw [hmsg] at hr
  have hold := nodeState_eq (J := J) hses
  have hfn := h.merges p.dst hv
  rw [← hsid] at hses hfn
  obtain ⟨s, hd, hl, rfl⟩ := onMessage_join clock _ p.src sync hses hfn hr
  rw [hsid] at hl
  -- the new state is the join of the old one and what was received
  have hnew : nodeState J sid n' = nodeState J sid (net.state p.dst) ⊔ J.state sync.data := by
    rw [nodeState_eq hl, hd, J.state_join, hold]
  have hrel : messageState J (relayed (net.state p.dst) sync s) = nodeState J sid n' := by
    rw [nodeState_eq hl]
    rfl
  have ht : Tells (nodeState J sid) (messageState J) g.Link net.state p.dst n'
      ((net.state p.dst).gossip p.src sync.sender (relayed (net.state p.dst) sync s)) := by
    rw [hsender]
    refine tells_of_gossip h.hosted hv ?_ (le_of_eq hrel) (le_of_eq hrel.symm) fun b hb hb' => ?_
    · rw [hnew]
      exact le_sup_left
    · rw [hnew]
      exact sup_le hb (hback.trans hb')
  refine h.act hv (fun q hq => mem_of_mem_rest hf hq) hsame hl (fun o ho => ?_)
    (h.covered.deliver hf ht ?_) ht.grows ?_ le_rfl fun w hw => Or.inl hw
  · obtain ⟨h1, -, -, h2⟩ := FlowNode.mem_gossip.mp ho
    exact ⟨h1, _, h2, hsid, h.hosted.id p.dst hv⟩
  · rw [hdat, hnew]
    exact le_sup_right
  · rw [hnew]
    exact sup_le (h.below p.dst hv) (hback.trans (h.below p.src hsrc))

theorem MergeInv.write (h : MergeInv J g sid trace net) {w : Write}
    (hr : (syncs g sid fun _ _ => True).own v w (net.state v) n' outs) :
    MergeInv J g sid (.own v w outs :: trace) (Net.act net.state net.flight v n' outs) := by
  obtain ⟨hv, session, result, hses, hver, -, hr⟩ := hr
  obtain ⟨hsame, hl, rfl⟩ := syncSessionState_ok (J.join session.stateData w.data) hses hver
    (by rw [h.merges v hv]; rfl) hr
  have hold := nodeState_eq (J := J) hses
  have hnew : nodeState J sid n' = nodeState J sid (net.state v) ⊔ J.state w.data := by
    rw [nodeState_eq hl, hold, ← J.state_join]
  have hmsg : messageState J (announced (net.state v) sid w) = J.state w.data := rfl
  have ht : Tells (nodeState J sid) (messageState J) g.Link net.state v n'
      ((net.state v).broadcast (announced (net.state v) sid w)) := by
    refine tells_of_broadcast h.hosted hv ?_ ?_ fun b hb hb' => ?_
    · rw [hnew]
      exact le_sup_left
    · rw [hmsg, hnew]
      exact le_sup_right
    · rw [hnew]
      exact sup_le hb hb'
  refine h.act hv (fun q hq => hq) hsame hl (fun o ho => ?_) (h.covered.own ht) ht.grows ?_ ?_
    fun x hx => ?_
  · obtain ⟨h1, h2⟩ := FlowNode.mem_broadcast.mp ho
    exact ⟨h1, _, h2, rfl, h.hosted.id v hv⟩
  · rw [hnew, writes_own, J.state_mergeAll_cons]
    exact sup_le ((h.below v hv).trans le_sup_right) le_sup_left
  · rw [writes_own, J.state_mergeAll_cons]
    exact le_sup_right
  · rcases List.mem_cons.mp hx with rfl | hx
    · right
      rw [hnew]
      exact le_sup_right
    · exact Or.inl hx

theorem MergeInv.step {net' : Net NodeId (FlowNode γ δ) ControlMessage}
    {e : Event NodeId ControlMessage Write} (h : MergeInv J g sid trace net)
    (hs : Step (syncs g sid fun _ _ => True) net e net') :
    MergeInv J g sid (e :: trace) net' := by
  cases hs with
  | deliver hf hr => exact h.deliver hf hr
  | own hr => exact h.write hr

omit [PetGraph γ] in
theorem MergeInv.init (hhosted : Hosted g id net)
    (hmerges : ∀ v ∈ g.nodes, (net.state v).mergeFns.lookup sid = some J.mergeFn)
    (hstart : ∀ v ∈ g.nodes, ∃ session, (net.state v).sessions.lookup sid = some session ∧
      session.stateData = []) (hflight : net.flight = []) : MergeInv J g sid [] net := by
  have hbot : ∀ v ∈ g.nodes, nodeState J sid (net.state v) = ⊥ := by
    intro v hv
    obtain ⟨s, hs, hd⟩ := hstart v hv
    rw [nodeState_eq hs, hd, J.state_empty]
  refine ⟨hhosted, hmerges, fun v hv => ?_, ?_, ⟨?_, fun a b hl c _ _ => ?_⟩, fun v hv => ?_,
    fun w hw => nomatch hw⟩
  · obtain ⟨s, hs, -⟩ := hstart v hv
    exact ⟨s, hs⟩
  · rw [hflight]
    exact fun p hp => nomatch hp
  · rw [hflight]
    exact fun p hp => nomatch hp
  · rw [hbot a hl.1]
    exact bot_le
  · rw [hbot v hv]
    exact bot_le

end

/-- **Convergence.**  Every node holds the session with empty state and has registered the
same semilattice join; calls and deliveries come in any order.  Whenever nothing is in
flight, every node's state is the merge of all data ever written. -/
theorem merge_converges (J : JoinFn) (g : PeerGraph) (hconn : g.Connected) {sid : String}
    {init net : Net NodeId (FlowNode γ δ) ControlMessage} (hhosted : Hosted g id init)
    (hmerges : ∀ v ∈ g.nodes, (init.state v).mergeFns.lookup sid = some J.mergeFn)
    (hstart : ∀ v ∈ g.nodes, ∃ session, (init.state v).sessions.lookup sid = some session ∧
      session.stateData = [])
    (hflight : init.flight = []) {trace : List (Event NodeId ControlMessage Write)}
    (hrun : Run (syncs g sid fun _ _ => True) init trace net) (hquiet : net.flight = []) :
    ∀ v ∈ g.nodes, ∃ session, (net.state v).sessions.lookup sid = some session ∧
      session.stateData = J.mergeAll (writes trace) := by
  have hinit := MergeInv.init hhosted hmerges hstart hflight
  have hinv : MergeInv J g sid trace net :=
    hrun.invariant (fun _ => True) (MergeInv J g sid) (fun _ _ _ => trivial) hinit
      (fun _ _ _ _ _ h hs => h.step hs) trivial
  intro v hv
  obtain ⟨s, hs⟩ := hinv.holds v hv
  refine ⟨s, hs, ?_⟩
  have hle : J.state (J.mergeAll (writes trace)) ≤ nodeState J sid (net.state v) := by
    refine J.mergeAll_le fun w hw => ?_
    obtain ⟨u, hu, hwu⟩ := hinv.kept w hw
    exact hwu.trans (hinv.covered.agree hquiet (hconn u hu v hv))
  have heq := le_antisymm (hinv.below v hv) hle
  rw [nodeState_eq hs] at heq
  exact heq

end

/-! ## Counters, merged by their maxima -/

def maxByte (x y : UInt8) : UInt8 := if x ≤ y then y else x

theorem toNat_maxByte (x y : UInt8) : (maxByte x y).toNat = max x.toNat y.toNat := by
  unfold maxByte
  split
  · next h =>
    rw [UInt8.le_iff_toNat_le] at h
    omega
  · next h =>
    rw [UInt8.le_iff_toNat_le] at h
    omega

/-- Position by position; a missing position counts as 0. -/
def maxBytes : Bytes → Bytes → Bytes
  | [], ys => ys
  | x :: xs, [] => x :: xs
  | x :: xs, y :: ys => maxByte x y :: maxBytes xs ys

theorem maxBytes_assoc (xs ys zs : Bytes) :
    maxBytes (maxBytes xs ys) zs = maxBytes xs (maxBytes ys zs) := by
  induction xs generalizing ys zs with
  | nil => rfl
  | cons x xs ih =>
    cases ys with
    | nil => cases zs <;> rfl
    | cons y ys =>
      cases zs with
      | nil => rfl
      | cons z zs =>
        have hhead : maxByte (maxByte x y) z = maxByte x (maxByte y z) := by
          apply UInt8.toNat_inj.mp
          simp only [toNat_maxByte]
          omega
        show maxByte (maxByte x y) z :: maxBytes (maxBytes xs ys) zs = _
        rw [hhead, ih]
        rfl

theorem maxBytes_comm (xs ys : Bytes) : maxBytes xs ys = maxBytes ys xs := by
  induction xs generalizing ys with
  | nil => cases ys <;> rfl
  | cons x xs ih =>
    cases ys with
    | nil => rfl
    | cons y ys =>
      have hhead : maxByte x y = maxByte y x := by
        apply UInt8.toNat_inj.mp
        simp only [toNat_maxByte]
        omega
      show maxByte x y :: maxBytes xs ys = _
      rw [hhead, ih]
      rfl

theorem maxBytes_idem (xs : Bytes) : maxBytes xs xs = xs := by
  induction xs with
  | nil => rfl
  | cons x xs ih =>
    have hhead : maxByte x x = x := by
      apply UInt8.toNat_inj.mp
      simp only [toNat_maxByte]
      omega
    show maxByte x x :: maxBytes xs xs = _
    rw [hhead, ih]

def counters : JoinFn where
  join := maxBytes
  assoc := maxBytes_assoc
  comm := maxBytes_comm
  idem := maxBytes_idem
  empty _ := rfl

/-- The two peers hold a fresh session and merge it as counters. -/
def pairCounters : Net NodeId (FlowNode VecGraph Unit) ControlMessage where
  state v := { pairNode v with
    sessions := (∅ : HashMap String Session).insert "s" ⟨"s", "a", [], 0, ∅, [], 0, 0⟩
    mergeFns := (∅ : HashMap String StateMergeFn).insert "s" counters.mergeFn }
  flight := []

/-- `a` and `b` write at once; each ends with the maxima of both. -/
theorem pair_merge_converges : ∃ trace net,
    Run (syncs pairGraph "s" fun _ _ => True) pairCounters trace net ∧ net.flight = [] ∧
    counters.mergeAll (writes trace) = [1, 2] ∧
    ∀ v ∈ pairGraph.nodes, ∃ session, (net.state v).sessions.lookup "s" = some session ∧
      session.stateData = counters.mergeAll (writes trace) := by
  have h0 : Run (syncs pairGraph "s" fun _ _ => True) pairCounters [] pairCounters := .nil
  have h1 := h0.act_own "a" ⟨⟨0, 5⟩, [1], 1⟩ _
    [("b", .ofSession (.stateSync ⟨"s", "a", 0, 5, 1, [1], 3⟩))]
    ⟨by decide, _, .ok (), rfl, rfl, trivial, rfl⟩
  have h2 := h1.act_own "b" ⟨⟨0, 5⟩, [0, 2], 1⟩ _
    [("a", .ofSession (.stateSync ⟨"s", "b", 0, 5, 1, [0, 2], 3⟩))]
    ⟨by decide, _, .ok (), rfl, rfl, trivial, rfl⟩
  have h3 := h2.deliver_head rfl _ [] ⟨⟨0, 0⟩, rfl⟩
  have h4 := h3.deliver_head rfl _ [] ⟨⟨0, 0⟩, rfl⟩
  refine ⟨_, _, h4, rfl, rfl, ?_⟩
  exact merge_converges counters pairGraph pairGraph_connected ⟨by decide, by decide, by decide⟩
    (fun _ _ => rfl) (fun _ _ => ⟨_, rfl, rfl⟩) rfl h4 rfl

end Stric.Flow
