import Stric.Flow.SessionSync
import Mathlib.Algebra.GroupWithZero.Nat

/-!
# Last-write-wins sessions

Without a merge function a node replaces its record by a received one if that has the later
`(timestamp, version)`, and a local write replaces it whatever the stamps say.  Two things
can then keep nodes apart for good: two writes with one stamp and different data, which
nobody exchanges (`same_stamp_diverges`), and a write under a clock that is behind the
record it replaces, which the peers drop.

These are the only ones.  If every write's stamp is above the stamp of the record it
replaces (`Ahead`), and no two writes of different data carry one stamp (`Consistent`), then
all nodes hold the same record whenever no `StateSync` is in flight (`lww_agrees`).

The stamp of one node's session goes back in the same case only: a received record never takes it
back, and a write does exactly if the clock is behind it, or stands still while the version wraps
around (`stamps_kept_iff`).
-/

namespace Stric.Flow

open Stric.Pool

/-- `(timestamp, version)`, as one number in lexicographic order. -/
def stamp (timestamp version : UInt64) : Nat :=
  timestamp.toNat * 18446744073709551616 + version.toNat

theorem stamp_lt_iff (t t' v v' : UInt64) :
    stamp t v < stamp t' v' ↔ t' > t ∨ (t' = t ∧ v' > v) := by
  have h := v.toNat_lt
  have h' := v'.toNat_lt
  unfold stamp
  rw [gt_iff_lt, gt_iff_lt, UInt64.lt_iff_toNat_lt, UInt64.lt_iff_toNat_lt, ← UInt64.toNat_inj]
  omega

theorem stamp_inj {t t' v v' : UInt64} (h : stamp t v = stamp t' v') : t = t' ∧ v = v' := by
  have h1 := v.toNat_lt
  have h2 := v'.toNat_lt
  unfold stamp at h
  rw [← UInt64.toNat_inj, ← UInt64.toNat_inj]
  omega

/-- What last-write-wins replicates of a session. -/
structure Record where
  data : Bytes
  version : UInt64
  timestamp : UInt64
deriving DecidableEq

def Record.stamp (r : Record) : Nat := Flow.stamp r.timestamp r.version

def Session.record (s : Session) : Record := ⟨s.stateData, s.stateVersion, s.stateTimestamp⟩

def SessionStateSync.record (s : SessionStateSync) : Record := ⟨s.data, s.version, s.timestamp⟩

def Write.record (w : Write) : Record := ⟨w.data, w.version, w.clock.millis⟩

/-- The write's stamp is above that of the record it replaces. -/
def Ahead (session : Session) (w : Write) : Prop := session.record.stamp < w.record.stamp

instance (session : Session) (w : Write) : Decidable (Ahead session w) :=
  inferInstanceAs (Decidable (_ < _))

/-- No two writes of different data carry the same stamp. -/
def Consistent (ws : List Write) : Prop :=
  ∀ w ∈ ws, ∀ w' ∈ ws, w.record.stamp = w'.record.stamp → w.data = w'.data

theorem consistent_pair {w w' : Write} (h : w.record.stamp ≠ w'.record.stamp) :
    Consistent [w, w'] := by
  intro x hx y hy hxy
  simp only [List.mem_cons, List.not_mem_nil, or_false] at hx hy
  rcases hx with rfl | rfl
  · rcases hy with rfl | rfl
    · rfl
    · exact absurd hxy h
  · rcases hy with rfl | rfl
    · exact absurd hxy.symm h
    · rfl

section
variable {γ δ : Type}

/-- The stamp of the node's record; 0 if it does not hold the session. -/
def nodeStamp (sid : String) (n : FlowNode γ δ) : Nat :=
  match n.sessions.lookup sid with
  | some session => session.record.stamp
  | none => 0

def messageStamp (msg : ControlMessage) : Nat :=
  match msg.message with
  | some (.sessionControl ⟨some (.stateSync sync)⟩) => sync.record.stamp
  | _ => 0

theorem nodeStamp_eq {sid : String} {n : FlowNode γ δ} {session : Session}
    (h : n.sessions.lookup sid = some session) : nodeStamp sid n = session.record.stamp := by
  simp [nodeStamp, h]

theorem messageStamp_eq (sync : SessionStateSync) :
    messageStamp (.ofSession (.stateSync sync)) = sync.record.stamp := rfl

/-- Without a merge function the record with the greater stamp wins. -/
theorem mergeSync_none (session : Session) (sync : SessionStateSync) :
    (session.record.stamp < sync.record.stamp ∧
      ∃ s, FlowNode.mergeSync none session sync = some s ∧ s.record = sync.record) ∨
    (sync.record.stamp ≤ session.record.stamp ∧ FlowNode.mergeSync none session sync = none) := by
  have hiff := stamp_lt_iff session.stateTimestamp sync.timestamp session.stateVersion sync.version
  unfold FlowNode.mergeSync
  by_cases h : session.record.stamp < sync.record.stamp
  · exact Or.inl ⟨h, _, if_pos (hiff.mp h), rfl⟩
  · exact Or.inr ⟨Nat.le_of_not_lt h, if_neg fun hc => h (hiff.mpr hc)⟩

variable [PetGraph γ]

/-- So a `StateSync` with a greater stamp replaces the record and is relayed, and any other is
dropped. -/
theorem onMessage_lww (clock : Clock) (n : FlowNode γ δ) (sender : NodeId)
    (sync : SessionStateSync) {session : Session}
    (hs : n.sessions.lookup sync.sessionId = some session)
    (hno : n.mergeFns.lookup sync.sessionId = none) {n' : FlowNode γ δ} {outs : List Send}
    (h : n.onMessage clock sender (.ofSession (.stateSync sync)) = (n', outs)) :
    (session.record.stamp < sync.record.stamp ∧ ∃ s, s.record = sync.record ∧
      n'.sessions.lookup sync.sessionId = some s ∧
      outs = n.gossip sender sync.sender (relayed n sync s)) ∨
    (sync.record.stamp ≤ session.record.stamp ∧
      n'.sessions.lookup sync.sessionId = some session ∧ outs = []) := by
  have hmsg := onMessage_stateSync clock n sender sync hs h
  rw [hno] at hmsg
  rcases mergeSync_none session sync with ⟨hlt, s, hm, hrec⟩ | ⟨hle, hm⟩
  · rw [hm] at hmsg
    rcases hmsg with ⟨s', hs', hl, hout⟩ | ⟨hnone, -, -⟩
    · cases hs'
      exact Or.inl ⟨hlt, s, hrec, hl, hout⟩
    · cases hnone
  · rw [hm] at hmsg
    rcases hmsg with ⟨s', hs', -, -⟩ | ⟨-, hl, hout⟩
    · cases hs'
    · exact Or.inr ⟨hle, hl, hout⟩

/-- Every record, on a node or in flight, is the initial one or that of a write. -/
structure LwwInv (g : PeerGraph) (sid : String) (start : Record)
    (trace : List (Event NodeId ControlMessage Write))
    (net : Net NodeId (FlowNode γ δ) ControlMessage) : Prop where
  hosted : Hosted g id net
  noMerge : ∀ v ∈ g.nodes, (net.state v).mergeFns.lookup sid = none
  holds : ∀ v ∈ g.nodes, ∃ session, (net.state v).sessions.lookup sid = some session ∧
    (session.record = start ∨ ∃ w ∈ writes trace, session.record = w.record)
  flight : ∀ p ∈ net.flight, ∃ sync, p.msg = .ofSession (.stateSync sync) ∧
    sync.sessionId = sid ∧ sync.sender = p.src ∧ ∃ w ∈ writes trace, sync.record = w.record
  covered : Covered (nodeStamp sid) messageStamp g.Link net
  above : ∀ v ∈ g.nodes, start.stamp ≤ nodeStamp sid (net.state v)
  later : ∀ w ∈ writes trace, start.stamp < w.record.stamp

section
variable {g : PeerGraph} {sid : String} {start : Record} {v : NodeId}
  {trace trace' : List (Event NodeId ControlMessage Write)}
  {net : Net NodeId (FlowNode γ δ) ControlMessage} {n' : FlowNode γ δ} {outs : List Send}

omit [PetGraph γ] in
/-- What a step at `v` keeps, once `v`'s new record and the messages it sends are those of
writes. -/
theorem LwwInv.act (h : LwwInv g sid start trace net) (hv : v ∈ g.nodes)
    {rest : List (Packet NodeId ControlMessage)} (hrest : ∀ p ∈ rest, p ∈ net.flight)
    (hsame : SameHost (net.state v) n') (hsub : ∀ w ∈ writes trace, w ∈ writes trace')
    {session : Session} (hs : n'.sessions.lookup sid = some session)
    (hrec : session.record = start ∨ ∃ w ∈ writes trace', session.record = w.record)
    (hout : ∀ o ∈ outs, o.1 ∈ (net.state v).peers ∧ ∃ sync, o.2 = .ofSession (.stateSync sync) ∧
      sync.sessionId = sid ∧ sync.sender = v ∧ ∃ w ∈ writes trace', sync.record = w.record)
    (hcov : Covered (nodeStamp sid) messageStamp g.Link (Net.act net.state rest v n' outs))
    (hgrows : nodeStamp sid (net.state v) ≤ nodeStamp sid n')
    (hlater : ∀ w ∈ writes trace', start.stamp < w.record.stamp) :
    LwwInv g sid start trace' (Net.act net.state rest v n' outs) := by
  refine ⟨h.hosted.act hv hrest hsame fun o ho => (hout o ho).1, mergeFns_act hsame h.noMerge,
    fun u hu => ?_, fun p hp => ?_, hcov, fun u hu => ?_, hlater⟩
  · by_cases huv : u = v
    · subst huv
      rw [Net.act_state_self]
      exact ⟨session, hs, hrec⟩
    · rw [Net.act_state_ne huv]
      obtain ⟨s, h1, h2⟩ := h.holds u hu
      refine ⟨s, h1, h2.imp_right ?_⟩
      rintro ⟨w, hw, hr⟩
      exact ⟨w, hsub w hw, hr⟩
  · rcases Net.mem_act.mp hp with hp | ⟨o, ho, rfl⟩
    · obtain ⟨sync, h1, h2, h3, w, hw, h4⟩ := h.flight p (hrest p hp)
      exact ⟨sync, h1, h2, h3, w, hsub w hw, h4⟩
    · obtain ⟨-, sync, h1, h2, h3, h4⟩ := hout o ho
      exact ⟨sync, h1, h2, h3, h4⟩
  · exact Net.act_forall (fun u n => u ∈ g.nodes → start.stamp ≤ nodeStamp sid n)
      (fun hv => (h.above v hv).trans hgrows) h.above u hu

theorem LwwInv.deliver (h : LwwInv g sid start trace net)
    {l₁ l₂ : List (Packet NodeId ControlMessage)} {p : Packet NodeId ControlMessage}
    (hf : net.flight = l₁ ++ p :: l₂) (hr : receives p.src p.msg (net.state p.dst) n' outs) :
    LwwInv g sid start (.deliver p outs :: trace)
      (Net.act net.state (l₁ ++ l₂) p.dst n' outs) := by
  have hp : p ∈ net.flight := by rw [hf]; simp
  have hv := (h.hosted.ends p hp).2
  obtain ⟨sync, hmsg, hsid, hsender, w, hw, hrec⟩ := h.flight p hp
  obtain ⟨session, hses, hsrec⟩ := h.holds p.dst hv
  obtain ⟨clock, hr⟩ := hr
  have hback := h.covered.backed p hp
  rw [hmsg, messageStamp_eq] at hback
  have hsame := FlowNode.sameHost_of_onMessage hr
  rw [hmsg] at hr
  have hold := nodeStamp_eq hses
  have hno := h.noMerge p.dst hv
  rw [← hsid] at hses hno
  rcases onMessage_lww clock _ p.src sync hses hno hr with
    ⟨hlt, s, hs, hl, rfl⟩ | ⟨hle, hl, rfl⟩
  · -- the received record is newer: it is taken over and relayed
    rw [hsid] at hl
    have hnew := nodeStamp_eq hl
    rw [hs] at hnew
    have hrel : messageStamp (relayed (net.state p.dst) sync s) = s.record.stamp := rfl
    have ht : Tells (nodeStamp sid) messageStamp g.Link net.state p.dst n'
        ((net.state p.dst).gossip p.src sync.sender (relayed (net.state p.dst) sync s)) := by
      rw [hsender]
      refine tells_of_gossip h.hosted hv ?_ ?_ ?_ fun b _ hb => ?_
      · rw [hold, hnew]
        exact Nat.le_of_lt hlt
      · rw [hrel, hs, hnew]
      · rw [hrel, hs, hnew]
      · rw [hnew]
        exact hback.trans hb
    refine h.act hv (fun q hq => mem_of_mem_rest hf hq) hsame (fun x hx => hx) hl
      (Or.inr ⟨w, hw, hs.trans hrec⟩) (fun o ho => ?_) (h.covered.deliver hf ht ?_) ht.grows
      h.later
    · obtain ⟨h1, -, -, h2⟩ := FlowNode.mem_gossip.mp ho
      exact ⟨h1, _, h2, hsid, h.hosted.id p.dst hv, w, hw, hs.trans hrec⟩
    · rw [hmsg, messageStamp_eq, hnew]
  · rw [hsid] at hl
    have hval : nodeStamp sid n' = nodeStamp sid (net.state p.dst) := by
      rw [hold, nodeStamp_eq hl]
    refine h.act hv (fun q hq => mem_of_mem_rest hf hq) hsame (fun x hx => hx) hl hsrec
      (fun o ho => nomatch ho) (h.covered.deliver hf (tells_of_eq hval) ?_) (le_of_eq hval.symm)
      h.later
    rw [hmsg, messageStamp_eq, hval, hold]
    exact hle

theorem LwwInv.write (h : LwwInv g sid start trace net) {w : Write}
    (hr : (syncs g sid Ahead).own v w (net.state v) n' outs) :
    LwwInv g sid start (.own v w outs :: trace) (Net.act net.state net.flight v n' outs) := by
  obtain ⟨hv, session, result, hses, hver, hahead, hr⟩ := hr
  obtain ⟨hsame, hl, rfl⟩ := syncSessionState_ok w.data hses hver
    (by rw [h.noMerge v hv]; rfl) hr
  have hold := nodeStamp_eq hses
  have hnew : nodeStamp sid n' = w.record.stamp :=
    (nodeStamp_eq hl).trans (congrArg Record.stamp rfl)
  have hmsg : messageStamp (announced (net.state v) sid w) = w.record.stamp := rfl
  have ht : Tells (nodeStamp sid) messageStamp g.Link net.state v n'
      ((net.state v).broadcast (announced (net.state v) sid w)) := by
    refine tells_of_broadcast h.hosted hv ?_ ?_ fun b _ hb => ?_
    · rw [hold, hnew]
      exact Nat.le_of_lt hahead
    · rw [hmsg, hnew]
    · rw [hnew]
      exact hb
  have hmem : w ∈ writes (.own v w ((net.state v).broadcast (announced (net.state v) sid w)) :: trace) :=
    List.mem_cons_self
  refine h.act hv (fun q hq => hq) hsame (fun x hx => List.mem_cons_of_mem _ hx) hl
    (Or.inr ⟨w, hmem, rfl⟩) (fun o ho => ?_) (h.covered.own ht) ht.grows (fun x hx => ?_)
  · obtain ⟨h1, h2⟩ := FlowNode.mem_broadcast.mp ho
    exact ⟨h1, _, h2, rfl, h.hosted.id v hv, w, hmem, rfl⟩
  · rcases List.mem_cons.mp hx with rfl | hx
    · have := h.above v hv
      rw [hold] at this
      exact Nat.lt_of_le_of_lt this hahead
    · exact h.later x hx

theorem LwwInv.step {net' : Net NodeId (FlowNode γ δ) ControlMessage}
    {e : Event NodeId ControlMessage Write} (h : LwwInv g sid start trace net)
    (hs : Step (syncs g sid Ahead) net e net') : LwwInv g sid start (e :: trace) net' := by
  cases hs with
  | deliver hf hr => exact h.deliver hf hr
  | own hr => exact h.write hr

omit [PetGraph γ] in
theorem LwwInv.init (hhosted : Hosted g id net)
    (hnoMerge : ∀ v ∈ g.nodes, (net.state v).mergeFns.lookup sid = none)
    (hstart : ∀ v ∈ g.nodes, ∃ session, (net.state v).sessions.lookup sid = some session ∧
      session.record = start) (hflight : net.flight = []) : LwwInv g sid start [] net := by
  have hval : ∀ v ∈ g.nodes, nodeStamp sid (net.state v) = start.stamp := by
    intro v hv
    obtain ⟨s, hs, hr⟩ := hstart v hv
    rw [nodeStamp_eq hs, hr]
  refine ⟨hhosted, hnoMerge, fun v hv => ?_, ?_, ⟨?_, fun a b hl c hc _ => ?_⟩, fun v hv => ?_,
    fun w hw => nomatch hw⟩
  · obtain ⟨s, hs, hr⟩ := hstart v hv
    exact ⟨s, hs, Or.inl hr⟩
  · rw [hflight]
    exact fun p hp => nomatch hp
  · rw [hflight]
    exact fun p hp => nomatch hp
  · rw [hval b hl.right] at hc
    rw [hval a hl.1]
    exact hc
  · rw [hval v hv]

end

/-- Any two nodes hold the session with the same data, version and timestamp. -/
def SameState (g : PeerGraph) (sid : String) (net : Net NodeId (FlowNode γ δ) ControlMessage) :
    Prop :=
  ∀ u ∈ g.nodes, ∀ v ∈ g.nodes, ∃ s s', (net.state u).sessions.lookup sid = some s ∧
    (net.state v).sessions.lookup sid = some s' ∧ s.stateData = s'.stateData ∧
    s.stateVersion = s'.stateVersion ∧ s.stateTimestamp = s'.stateTimestamp

/-- **Agreement under increasing, consistent stamps.**  All nodes start with one record of
the session and no merge function, and every write is ahead of the record it replaces.
Then all nodes hold the same state whenever nothing is in flight. -/
theorem lww_agrees (g : PeerGraph) (hconn : g.Connected) {sid : String} {start : Record}
    {init net : Net NodeId (FlowNode γ δ) ControlMessage} (hhosted : Hosted g id init)
    (hnoMerge : ∀ v ∈ g.nodes, (init.state v).mergeFns.lookup sid = none)
    (hstart : ∀ v ∈ g.nodes, ∃ session, (init.state v).sessions.lookup sid = some session ∧
      session.record = start)
    (hflight : init.flight = []) {trace : List (Event NodeId ControlMessage Write)}
    (hrun : Run (syncs g sid Ahead) init trace net) (hcons : Consistent (writes trace))
    (hquiet : net.flight = []) : SameState g sid net := by
  have hinit := LwwInv.init hhosted hnoMerge hstart hflight
  have hinv : LwwInv g sid start trace net :=
    hrun.invariant (fun _ => True) (LwwInv g sid start) (fun _ _ _ => trivial) hinit
      (fun _ _ _ _ _ h hs => h.step hs) trivial
  intro u hu v hv
  obtain ⟨s, hs, hr⟩ := hinv.holds u hu
  obtain ⟨s', hs', hr'⟩ := hinv.holds v hv
  have hstamp : s.record.stamp = s'.record.stamp := by
    rw [← nodeStamp_eq hs, ← nodeStamp_eq hs']
    exact Nat.le_antisymm (hinv.covered.agree hquiet (hconn u hu v hv))
      (hinv.covered.agree hquiet (hconn v hv u hu))
  obtain ⟨ht, hver⟩ := stamp_inj hstamp
  refine ⟨s, s', hs, hs', ?_, hver, ht⟩
  -- equal stamps: both records are the initial one, or both come from writes
  show s.record.data = s'.record.data
  rcases hr with hr | ⟨w, hw, hr⟩
  · rcases hr' with hr' | ⟨w', hw', hr'⟩
    · rw [hr, hr']
    · rw [hr, hr'] at hstamp
      exact absurd hstamp (Nat.ne_of_lt (hinv.later w' hw'))
  · rcases hr' with hr' | ⟨w', hw', hr'⟩
    · rw [hr, hr'] at hstamp
      exact absurd hstamp (Nat.ne_of_gt (hinv.later w hw))
    · rw [hr, hr'] at hstamp ⊢
      exact hcons w hw w' hw' hstamp

end

/-! ## The stamp of one session -/

/-- What changes the state of a session. -/
inductive StateOp where
  | write (clock : Clock) (data : Bytes)
  | receive (clock : Clock) (sender : NodeId) (sync : SessionStateSync)

/-- The node after the operation on session `sid`. -/
def StateOp.run {γ δ : Type} [PetGraph γ] (n : FlowNode γ δ) (sid : String) :
    StateOp → FlowNode γ δ
  | .write clock data => (n.syncSessionState clock sid data).1
  | .receive clock sender sync =>
    (n.onMessage clock sender (.ofSession (.stateSync { sync with sessionId := sid }))).1

/-- `(state_timestamp, state_version)` of the first is lexicographically less. -/
def StampLT (s s' : Session) : Prop :=
  s.stateTimestamp < s'.stateTimestamp ∨
    (s.stateTimestamp = s'.stateTimestamp ∧ s.stateVersion < s'.stateVersion)

def SameStamp (s s' : Session) : Prop :=
  s.stateTimestamp = s'.stateTimestamp ∧ s.stateVersion = s'.stateVersion

/-- The stamp has not gone back, and has grown if the data has changed. -/
def StampsKept (s s' : Session) : Prop :=
  (StampLT s s' ∨ SameStamp s s') ∧ (s'.stateData ≠ s.stateData → StampLT s s')

/-- The operation is not a write whose clock is behind the session's timestamp, nor one at that
timestamp whose version wraps around. -/
def StateOp.InOrder (session : Session) : StateOp → Prop
  | .write clock _ => session.stateTimestamp < clock.millis ∨
      (session.stateTimestamp = clock.millis ∧ session.stateVersion.toNat + 1 < 2 ^ 64)
  | .receive .. => True

theorem version_lt_succ_iff (v : UInt64) : v < v + 1 ↔ v.toNat + 1 < 2 ^ 64 := by
  have h := v.toNat_lt
  rw [UInt64.lt_iff_toNat_lt, UInt64.toNat_add]
  change v.toNat < (v.toNat + 1) % 2 ^ 64 ↔ _
  omega

theorem stampLT_iff (s s' : Session) : StampLT s s' ↔ s.record.stamp < s'.record.stamp := by
  unfold Record.stamp Session.record
  rw [stamp_lt_iff, eq_comm (a := s'.stateTimestamp)]
  exact Iff.rfl

/-- A write gives the session a greater stamp, or one that has gone back. -/
theorem stampsKept_stamped (clock : Clock) (session : Session) (data : Bytes) :
    StampsKept session { stamped clock session with stateData := data } ↔
      (StateOp.write clock data).InOrder session := by
  have hlt : StampLT session { stamped clock session with stateData := data } ↔
      (StateOp.write clock data).InOrder session := by
    unfold StampLT StateOp.InOrder stamped
    rw [← version_lt_succ_iff]
  have hne : ¬ SameStamp session { stamped clock session with stateData := data } := by
    rintro ⟨-, hv⟩
    have hv := congrArg UInt64.toNat hv
    have hbound := session.stateVersion.toNat_lt
    change session.stateVersion.toNat = (session.stateVersion + 1).toNat at hv
    rw [UInt64.toNat_add] at hv
    change session.stateVersion.toNat = (session.stateVersion.toNat + 1) % 2 ^ 64 at hv
    omega
  rw [← hlt]
  unfold StampsKept
  constructor
  · rintro ⟨h | h, -⟩
    · exact h
    · exact absurd h hne
  · intro h
    exact ⟨Or.inl h, fun _ => h⟩

/-- **When the stamp of a session goes back.**  At a session without a merge function, in any
state of the node, an operation keeps the stamps in order exactly if it is not a write under a
clock that is behind the session (or that stands still while the version wraps around). -/
theorem stamps_kept_iff {γ δ : Type} [PetGraph γ] (n : FlowNode γ δ) (sid : String)
    (session : Session) (hs : n.sessions.lookup sid = some session)
    (hno : n.mergeFns.lookup sid = none) (op : StateOp) :
    ∃ session', (op.run n sid).sessions.lookup sid = some session' ∧
      (StampsKept session session' ↔ op.InOrder session) := by
  cases op with
  | write clock data =>
    have hm : FlowNode.mergeLocal (n.mergeFns.lookup sid) session.stateData data = .ok data := by
      rw [hno]
      rfl
    obtain ⟨-, hl, -⟩ := syncSessionState_ok (w := ⟨clock, data, session.stateVersion + 1⟩) data
      hs rfl hm rfl
    exact ⟨_, hl, stampsKept_stamped clock session data⟩
  | receive clock sender sync =>
    rcases onMessage_lww clock n sender { sync with sessionId := sid } hs hno rfl with
      ⟨hlt, s, hrec, hl, -⟩ | ⟨-, hl, -⟩
    · have hlt : StampLT session s := by
        rw [stampLT_iff, hrec]
        exact hlt
      exact ⟨s, hl, iff_of_true ⟨Or.inl hlt, fun _ => hlt⟩ trivial⟩
    · exact ⟨session, hl, iff_of_true ⟨Or.inr ⟨rfl, rfl⟩, fun h => absurd rfl h⟩ trivial⟩

/-- `a` has created the session and taken over a record of `b` with timestamp 100, before its own
clock has got there. -/
def aheadNode : FlowNode VecGraph Unit :=
  StateOp.run (FlowNode.createSession ⟨0, 40⟩ ⟨0, 40⟩ (.new "a" ∅) "s" [] ∅).1 "s"
    (.receive ⟨1, 45⟩ "b" ⟨"s", "b", 0, 100, 1, [1], 3⟩)

/-- A write of `a` at its own millisecond 50 takes the timestamp back from 100 to 50. -/
theorem stamp_goes_back : ∃ session session',
    aheadNode.mergeFns.lookup "s" = none ∧ aheadNode.sessions.lookup "s" = some session ∧
    ((StateOp.write ⟨2, 50⟩ [2]).run aheadNode "s").sessions.lookup "s" = some session' ∧
    session.stateTimestamp = 100 ∧ session'.stateTimestamp = 50 ∧
    ¬ StampsKept session session' := by
  refine ⟨_, _, rfl, rfl, rfl, rfl, rfl, ?_⟩
  rintro ⟨h | h, -⟩
  · rcases h with h | h
    · exact absurd h (by decide)
    · exact absurd h.1 (by decide)
  · exact absurd h.1 (by decide)

/-- Once the clock of `a` has passed 100, its write is in order. -/
theorem later_write_in_order : ∃ session session', aheadNode.sessions.lookup "s" = some session ∧
    ((StateOp.write ⟨2, 101⟩ [2]).run aheadNode "s").sessions.lookup "s" = some session' ∧
    StampsKept session session' := by
  obtain ⟨session', hl, hiff⟩ := stamps_kept_iff aheadNode "s" _ rfl rfl (.write ⟨2, 101⟩ [2])
  exact ⟨_, session', rfl, hl, hiff.mpr (Or.inl (by decide))⟩

/-! ## Two writes in one millisecond -/

/-- A session as it is created. -/
def freshSession : Session := ⟨"s", "a", [], 0, ∅, [], 0, 0⟩

/-- The two peers hold it, and nothing is in flight. -/
def pairSession : Net NodeId (FlowNode VecGraph Unit) ControlMessage where
  state v := { pairNode v with sessions := (∅ : HashMap String Session).insert "s" freshSession }
  flight := []

def pairWrite (millis : UInt64) (data : Bytes) (version : UInt64) : Write := ⟨⟨0, millis⟩, data, version⟩

def pairSync (sender : NodeId) (w : Write) : ControlMessage :=
  .ofSession (.stateSync ⟨"s", sender, 0, w.clock.millis, w.version, w.data, 3⟩)

/-- `a` and `b` write different data at millisecond 5.  Each drops the other's write as not
newer than its own; nothing is in flight any more, and they hold different data. -/
theorem same_stamp_diverges : ∃ trace net,
    Run (syncs pairGraph "s" fun _ _ => True) pairSession trace net ∧ net.flight = [] ∧
    ¬ SameState pairGraph "s" net := by
  have h0 : Run (syncs pairGraph "s" fun _ _ => True) pairSession [] pairSession := .nil
  have h1 := h0.act_own "a" (pairWrite 5 [1] 1) _
    [("b", pairSync "a" (pairWrite 5 [1] 1))]
    ⟨by decide, freshSession, .ok (), rfl, rfl, trivial, rfl⟩
  have h2 := h1.act_own "b" (pairWrite 5 [2] 1) _ [("a", pairSync "b" (pairWrite 5 [2] 1))]
    ⟨by decide, freshSession, .ok (), rfl, rfl, trivial, rfl⟩
  have h3 := h2.deliver_head rfl _ [] ⟨⟨0, 0⟩, rfl⟩
  have h4 := h3.deliver_head rfl _ [] ⟨⟨0, 0⟩, rfl⟩
  refine ⟨_, _, h4, rfl, fun hsame => ?_⟩
  obtain ⟨s, s', hs, hs', hd, -⟩ := hsame "a" (by decide) "b" (by decide)
  cases hs
  cases hs'
  cases hd

/-- `b` writes at millisecond 5 over `a`'s record of millisecond 9, and `a` drops it. -/
theorem behind_clock_diverges : ∃ trace net,
    Run (syncs pairGraph "s" fun _ _ => True) pairSession trace net ∧ net.flight = [] ∧
    Consistent (writes trace) ∧ ¬ SameState pairGraph "s" net := by
  have h0 : Run (syncs pairGraph "s" fun _ _ => True) pairSession [] pairSession := .nil
  have h1 := h0.act_own "a" (pairWrite 9 [1] 1) _ [("b", pairSync "a" (pairWrite 9 [1] 1))]
    ⟨by decide, freshSession, .ok (), rfl, rfl, trivial, rfl⟩
  have h2 := h1.deliver_head rfl _ [] ⟨⟨0, 0⟩, rfl⟩
  have h3 := h2.act_own "b" (pairWrite 5 [2] 2) _ [("a", pairSync "b" (pairWrite 5 [2] 2))]
    ⟨by decide, { freshSession with stateData := [1], stateVersion := 1, stateTimestamp := 9 },
      .ok (), rfl, rfl, trivial, rfl⟩
  have h4 := h3.deliver_head rfl _ [] ⟨⟨0, 0⟩, rfl⟩
  refine ⟨_, _, h4, rfl, consistent_pair (by decide), fun hsame => ?_⟩
  obtain ⟨s, s', hs, hs', hd, -⟩ := hsame "a" (by decide) "b" (by decide)
  cases hs
  cases hs'
  cases hd

/-- `a` writes at millisecond 5, and after `b` has taken that over, `b` writes at 6. -/
theorem pair_lww_agrees : ∃ trace net,
    Run (syncs pairGraph "s" Ahead) pairSession trace net ∧ writes trace ≠ [] ∧
    SameState pairGraph "s" net := by
  have h0 : Run (syncs pairGraph "s" Ahead) pairSession [] pairSession := .nil
  have h1 := h0.act_own "a" (pairWrite 5 [1] 1) _ [("b", pairSync "a" (pairWrite 5 [1] 1))]
    ⟨by decide, freshSession, .ok (), rfl, rfl, by decide, rfl⟩
  have h2 := h1.deliver_head rfl _ [] ⟨⟨0, 0⟩, rfl⟩
  have h3 := h2.act_own "b" (pairWrite 6 [2] 2) _ [("a", pairSync "b" (pairWrite 6 [2] 2))]
    ⟨by decide, { freshSession with stateData := [1], stateVersion := 1, stateTimestamp := 5 },
      .ok (), rfl, rfl, by decide, rfl⟩
  have h4 := h3.deliver_head rfl _ [] ⟨⟨0, 0⟩, rfl⟩
  refine ⟨_, _, h4, List.cons_ne_nil _ _, ?_⟩
  exact lww_agrees pairGraph pairGraph_connected ⟨by decide, by decide, by decide⟩ (by decide)
    (fun v hv => ⟨freshSession, rfl, rfl⟩) rfl h4 (consistent_pair (by decide)) rfl

end Stric.Flow
