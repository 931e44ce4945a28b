import Stric.Flow.Connections
import Stric.Flow.SessionGc
import Stric.Flow.Snapshot

/-!
# Epochs and versions (`node.rs`)

A node counts its topology updates, its subscription updates and the writes to each session.  It
adds one at four places: `Pong` on a new link, the task of `subscribe`, `StateSync` with a merge
function, and `sync_session_state`.  The same maps and fields are also written from what peers
send, so a peer can move a counter to the last value a `u64` has (`epoch_wraps`).

`increments_strict` says how far that goes: if what arrives in the node's own name leaves room for
the increments of the run, every increment gives a greater value.  The invariant is that no
counter, nor any that waits in the queue, has passed the greatest number received by more than the
increments so far (`Running.Below`).
-/

namespace Stric.Flow

open Stric.Pool

/-! ## The counters of a node -/

section
variable {γ δ : Type}

namespace FlowNode

def topologyEpoch (n : FlowNode γ δ) : UInt64 := (n.lastEpochs.lookup n.nodeId).getD 0

def subscriptionEpoch (n : FlowNode γ δ) : UInt64 :=
  (n.lastSubscriptionEpochs.lookup n.nodeId).getD 0

def sessionVersion (n : FlowNode γ δ) (sid : String) : UInt64 :=
  ((n.sessions.lookup sid).map Session.stateVersion).getD 0

end FlowNode

/-- The value a counter of node `id` may take from the event. -/
def ControlEvent.carried (id : NodeId) : ControlEvent → Option UInt64
  | .controlMsgReceived _ ⟨some (.topologyUpdate u)⟩ =>
    if u.originNodeId = id then some u.epoch else none
  | .controlMsgReceived _ ⟨some (.subscriptionUpdate u)⟩ =>
    if u.nodeId = id then some u.epoch else none
  | .controlMsgReceived _ ⟨some (.sessionControl ⟨some (.stateSync sync)⟩)⟩ => some sync.version
  | _ => none

variable [PetGraph γ]

/-- The increment that the control loop makes on an event, given the node after it: the number one
is added to, and the number that is stored. -/
def FlowNode.eventIncrement (n n' : FlowNode γ δ) : ControlEvent → Option (UInt64 × UInt64)
  | .controlMsgReceived sender ⟨some (.pong _)⟩ =>
    if n.linkExists sender then none else some (n.topologyEpoch, n'.topologyEpoch)
  | .controlMsgReceived _ ⟨some (.sessionControl ⟨some (.stateSync sync)⟩)⟩ =>
    match n.sessions.lookup sync.sessionId, n.mergeFns.lookup sync.sessionId with
    | some session, some merge =>
      match merge session.stateData sync.data with
      | .ok _ => some (FlowNode.maxU64 session.stateVersion sync.version,
          n'.sessionVersion sync.sessionId)
      | .error _ => none
    | _, _ => none
  | _ => none

end

/-! ## The node as it runs -/

/-- A node with its control channel, the tasks of `subscribe` that wait for the lock of
`local_subscriptions`, and the update of the one that has it. -/
structure Running (γ δ : Type) where
  node : FlowNode γ δ
  queue : List ControlEvent
  spawned : List String
  built : Option SubscriptionUpdate

inductive NodeAct where
  | subscribe (pattern : String) (handler : Nat)
  | announce (pattern : String)
  | enqueue
  | arrive (event : ControlEvent)
  | process (clock : Clock)
  | create (clock sentClock : Clock) (sessionId : String) (flowIds : List String)
      (metadata : HashMap String String)
  | close (sessionId reason : String)
  | sync (clock : Clock) (sessionId : String) (data : Bytes)
  | registerMergeFn (sessionId : String) (mergeFn : StateMergeFn)
  | collect (now : Nat)

namespace Running

variable {γ δ : Type} [PetGraph γ]

/-- A node as it is built. -/
def fresh (id : NodeId) (registry : MessageRegistry δ) : Running γ δ :=
  ⟨FlowNode.new id registry, [], [], none⟩

/-- One step of the control loop, of a call of the application, or of another task.  Whatever comes
from a connection, or from the node's own garbage collection, arrives in the queue. -/
def act (s : Running γ δ) : NodeAct → Option (Running γ δ)
  | .subscribe pattern handler => some
      { s with
        node := { s.node with topicHandlers := s.node.topicHandlers.insert pattern handler }
        spawned := pattern :: s.spawned }
  | .announce pattern =>
    if pattern ∈ s.spawned ∧ s.built = none then
      let node := { s.node with localSubscriptions := s.node.localSubscriptions.insert pattern }
      some { s with node, spawned := s.spawned.erase pattern, built := some node.subscribeUpdate }
    else none
  | .enqueue =>
    match s.built with
    | some u =>
      if s.queue.length < channelSize then some
        { s with
          queue := s.queue ++ [.controlMsgReceived s.node.nodeId (.of (.subscriptionUpdate u))]
          built := none }
      else none
    | none => none
  | .arrive event =>
    if s.queue.length < channelSize then some { s with queue := s.queue ++ [event] } else none
  | .process clock =>
    match s.queue with
    | event :: rest => some { s with node := (s.node.controlStep clock event).1, queue := rest }
    | [] => none
  | .create clock sentClock sid flowIds metadata =>
    some { s with node := (s.node.createSession clock sentClock sid flowIds metadata).1 }
  | .close sid reason => some { s with node := (s.node.closeSession sid reason).1 }
  | .sync clock sid data => some { s with node := (s.node.syncSessionState clock sid data).1 }
  | .registerMergeFn sid mergeFn => some { s with node := s.node.registerMergeFn sid mergeFn }
  | .collect now => some { s with node := (s.node.collect now).1 }

def Step (s : Running γ δ) (a : NodeAct) (s' : Running γ δ) : Prop := s.act a = some s'

/-- The increment of a step that leads to `s'`. -/
def incrementTo (s s' : Running γ δ) : NodeAct → Option (UInt64 × UInt64)
  | .announce _ => s'.built.map fun u => (s.node.subscriptionEpoch, u.epoch)
  | .process _ => s.queue.head?.bind fun event => s.node.eventIncrement s'.node event
  | .sync _ sid _ => (s.node.sessions.lookup sid).map fun session =>
      (session.stateVersion, s'.node.sessionVersion sid)
  | _ => none

/-- The number that a step adds one to, and the number that is stored. -/
def increment (s : Running γ δ) (a : NodeAct) : Option (UInt64 × UInt64) :=
  (s.act a).bind fun s' => s.incrementTo s' a

/-- The increments of a run. -/
def increments (past : List (Running γ δ × NodeAct)) : Nat :=
  past.countP fun e => (e.1.increment e.2).isSome

/-- The step does not wrap a counter. -/
def Strict (s : Running γ δ) (a : NodeAct) : Prop :=
  ∀ old new, s.increment a = some (old, new) → old < new

end Running

/-! ## How far the counters get -/

theorem u64_succ {a : UInt64} {bound : Nat} (h : a.toNat ≤ bound) (hb : bound + 1 < 2 ^ 64) :
    (a + 1).toNat ≤ bound + 1 ∧ a < a + 1 := by
  have hone : (1 : UInt64).toNat = 1 := rfl
  have hsucc : (a + 1).toNat = a.toNat + 1 := by
    rw [UInt64.toNat_add, hone, Nat.mod_eq_of_lt (by omega)]
  rw [UInt64.lt_iff_toNat_lt, hsucc]
  omega

/-- Without an increment the bound holds on; with one it moves by one, and the increment is strict
if there is room for it. -/
def Advances (Within : Nat → Prop) (bound : Nat) : Option (UInt64 × UInt64) → Prop
  | none => Within bound
  | some (old, new) => bound + 1 < 2 ^ 64 → Within (bound + 1) ∧ old < new

theorem Advances.imp {Within Within' : Nat → Prop} {bound : Nat} {inc : Option (UInt64 × UInt64)}
    (h : ∀ bound', bound ≤ bound' → Within bound' → Within' bound')
    (hadv : Advances Within bound inc) : Advances Within' bound inc := by
  cases inc with
  | none => exact h bound (Nat.le_refl bound) hadv
  | some pair =>
    intro hroom
    obtain ⟨hwithin, hlt⟩ := hadv hroom
    exact ⟨h _ (Nat.le_succ bound) hwithin, hlt⟩

section
variable {γ δ : Type}

/-- No counter of the node is above the bound. -/
structure FlowNode.Below (n : FlowNode γ δ) (bound : Nat) : Prop where
  topology : n.topologyEpoch.toNat ≤ bound
  subscription : n.subscriptionEpoch.toNat ≤ bound
  version : ∀ sid session, n.sessions.lookup sid = some session → session.stateVersion.toNat ≤ bound

namespace FlowNode

variable {n n' : FlowNode γ δ} {bound : Nat}

theorem Below.mono {bound' : Nat} (h : n.Below bound) (hle : bound ≤ bound') : n.Below bound' :=
  ⟨h.topology.trans hle, h.subscription.trans hle, fun sid s hs => (h.version sid s hs).trans hle⟩

/-- The counters of the sessions alone change. -/
theorem Below.with_sessions {sessions : HashMap String Session} (h : n.Below bound)
    (hs : ∀ sid session, sessions.lookup sid = some session → session.stateVersion.toNat ≤ bound) :
    ({ n with sessions := sessions } : FlowNode γ δ).Below bound :=
  ⟨h.topology, h.subscription, hs⟩

theorem Below.insert_session (h : n.Below bound) {sid : String} {session : Session}
    (hs : session.stateVersion.toNat ≤ bound) :
    ({ n with sessions := n.sessions.insert sid session } : FlowNode γ δ).Below bound := by
  refine h.with_sessions fun key s hkey => ?_
  by_cases heq : key = sid
  · subst heq
    rw [AList.lookup_insert] at hkey
    cases hkey
    exact hs
  · rw [AList.lookup_insert_ne heq] at hkey
    exact h.version key s hkey

theorem Below.erase_session (h : n.Below bound) (sid : String) :
    ({ n with sessions := n.sessions.erase sid } : FlowNode γ δ).Below bound := by
  refine h.with_sessions fun key s hkey => ?_
  by_cases heq : key = sid
  · subst heq
    rw [AList.lookup_erase] at hkey
    cases hkey
  · rw [AList.lookup_erase_ne heq] at hkey
    exact h.version key s hkey

theorem sessionVersion_insert {sessions : HashMap String Session} {sid : String} {session : Session}
    (h : n'.sessions = sessions.insert sid session) :
    n'.sessionVersion sid = session.stateVersion := by
  unfold sessionVersion
  rw [h, AList.lookup_insert]
  rfl

/-- An epoch map after an insertion: the own entry is the new one or the old one. -/
theorem getD_insert_le {epochs : HashMap NodeId UInt64} {id origin : NodeId} {epoch : UInt64}
    (h : ((epochs.lookup id).getD 0).toNat ≤ bound) (he : origin = id → epoch.toNat ≤ bound) :
    (((epochs.insert origin epoch).lookup id).getD 0).toNat ≤ bound := by
  by_cases heq : origin = id
  · subst heq
    rw [AList.lookup_insert]
    exact he rfl
  · rw [AList.lookup_insert_ne (Ne.symm heq)]
    exact h

theorem maxU64_toNat_le {a b : UInt64} (ha : a.toNat ≤ bound) (hb : b.toNat ≤ bound) :
    (maxU64 a b).toNat ≤ bound := by
  unfold maxU64
  split
  · exact hb
  · exact ha

theorem onStateSync_below [PetGraph γ] {sender : NodeId} {sync : SessionStateSync}
    (h : n.Below bound) (hv : sync.version.toNat ≤ bound) :
    Advances (n.onStateSync sender sync).1.Below bound
      (n.eventIncrement (n.onStateSync sender sync).1
        (.controlMsgReceived sender (.ofSession (.stateSync sync)))) := by
  show Advances _ bound (match n.sessions.lookup sync.sessionId, n.mergeFns.lookup sync.sessionId with
    | some session, some merge => _
    | _, _ => none)
  unfold onStateSync
  cases hs : n.sessions.lookup sync.sessionId with
  | none => exact h
  | some session =>
    have hversion := h.version _ _ hs
    cases hm : n.mergeFns.lookup sync.sessionId with
    | none =>
      -- the later write wins, and its version is taken over
      simp only [mergeSync]
      split
      · exact h
      · next s hs' =>
        split at hs'
        · cases hs'
          exact h.insert_session hv
        · cases hs'
    | some merge =>
      simp only [mergeSync]
      cases merge session.stateData sync.data with
      | error e => exact h
      | ok merged =>
        intro hroom
        obtain ⟨hle, hlt⟩ := u64_succ (maxU64_toNat_le hversion hv) hroom
        refine ⟨(h.mono (Nat.le_succ bound)).insert_session hle, ?_⟩
        rw [sessionVersion_insert rfl]
        exact hlt

/-- A local write adds one to the version, whether the merge function then fails or not. -/
theorem syncSessionState_below (clock : Clock) (sid : String) (data : Bytes) (h : n.Below bound) :
    Advances (n.syncSessionState clock sid data).1.Below bound
      ((n.sessions.lookup sid).map fun session =>
        (session.stateVersion, (n.syncSessionState clock sid data).1.sessionVersion sid)) := by
  unfold syncSessionState
  cases hl : n.sessions.lookup sid with
  | none => exact h
  | some session =>
    intro hroom
    obtain ⟨hle, hlt⟩ := u64_succ (h.version sid session hl) hroom
    have hstored : ∀ s : Session, s.stateVersion = session.stateVersion + 1 →
        ({ n with sessions := n.sessions.insert sid s } : FlowNode γ δ).Below (bound + 1) ∧
          session.stateVersion < s.stateVersion := by
      intro s hs
      rw [hs]
      refine ⟨(h.mono (Nat.le_succ bound)).insert_session ?_, hlt⟩
      rw [hs]
      exact hle
    simp only
    split
    · rw [sessionVersion_insert rfl]
      exact hstored _ rfl
    · rw [sessionVersion_insert rfl]
      exact hstored _ rfl

variable [PetGraph γ]

theorem onSession_below (sender : NodeId) (m : SessionMessage) (h : n.Below bound)
    (hv : ∀ v, (ControlEvent.controlMsgReceived sender (.ofSession m)).carried n.nodeId = some v →
      v.toNat ≤ bound) :
    Advances (n.onSession sender m).1.Below bound
      (n.eventIncrement (n.onSession sender m).1 (.controlMsgReceived sender (.ofSession m))) := by
  cases m with
  | create c =>
    show (n.onCreate sender c).1.Below bound
    unfold onCreate
    split
    · exact h
    · exact h.insert_session (Nat.zero_le _)
  | join j => exact h
  | leave l => exact h
  | close c =>
    show (n.onClose sender c).1.Below bound
    unfold onClose
    simp only
    split <;> exact h.erase_session c.sessionId
  | stateSync sync => exact onStateSync_below h (hv _ rfl)

/-- One turn of the control loop. -/
theorem controlStep_below (clock : Clock) {event : ControlEvent} (h : n.Below bound)
    (hv : ∀ v, event.carried n.nodeId = some v → v.toNat ≤ bound) :
    Advances (n.controlStep clock event).1.Below bound
      (n.eventIncrement (n.controlStep clock event).1 event) := by
  cases event with
  | peerConnected id tx => exact ⟨h.topology, h.subscription, h.version⟩
  | peerDisconnected id =>
    show (n.controlStep clock (.peerDisconnected id)).1.Below bound
    unfold controlStep
    simp only
    split <;> exact ⟨h.topology, h.subscription, h.version⟩
  | controlMsgReceived sender msg =>
    show Advances (n.onMessage clock sender msg).1.Below bound
      (n.eventIncrement (n.onMessage clock sender msg).1 (.controlMsgReceived sender msg))
    obtain ⟨n', outs, hn'⟩ : ∃ n' outs, n.onMessage clock sender msg = (n', outs) := ⟨_, _, rfl⟩
    rw [hn']
    rcases msg.cases with ⟨u, rfl⟩ | ⟨u, rfl⟩ | ⟨p, rfl⟩ | hp
    · show n'.Below bound
      obtain ⟨t, ⟨-, rfl, -⟩ | ⟨-, rfl, -⟩⟩ := onMessage_topology clock n sender u hn'
      · refine ⟨getD_insert_le h.topology fun heq => hv _ ?_, h.subscription, h.version⟩
        exact if_pos heq
      · exact ⟨h.topology, h.subscription, h.version⟩
    · show n'.Below bound
      obtain ⟨t, ⟨-, rfl, -⟩ | ⟨-, rfl, -⟩⟩ := onMessage_subscription clock n sender u hn'
      · refine ⟨h.topology, getD_insert_le h.subscription fun heq => hv _ ?_, h.version⟩
        exact if_pos heq
      · exact ⟨h.topology, h.subscription, h.version⟩
    · show Advances n'.Below bound (if n.linkExists sender then none
        else some (n.topologyEpoch, n'.topologyEpoch))
      obtain ⟨t, link, ⟨hlink, rfl, -⟩ | ⟨hlink, rfl, -⟩⟩ := onMessage_pong clock n sender p hn'
      · rw [if_pos hlink]
        exact ⟨h.topology, h.subscription, h.version⟩
      · rw [if_neg (by rw [hlink]; decide)]
        intro hroom
        obtain ⟨hle, hlt⟩ := u64_succ h.topology hroom
        have hmore := h.mono (Nat.le_succ bound)
        refine ⟨⟨getD_insert_le hmore.topology fun _ => hle, hmore.subscription, hmore.version⟩, ?_⟩
        show n.topologyEpoch < ((n.lastEpochs.insert n.nodeId n.nextEpoch).lookup n.nodeId).getD 0
        rw [AList.lookup_insert]
        exact hlt
    · have hseen : (n.seen clock sender).Below bound := ⟨h.topology, h.subscription, h.version⟩
      obtain ⟨payload⟩ := msg
      cases payload with
      | none =>
        cases hn'
        exact hseen
      | some payload =>
        cases payload with
        | topologyUpdate u => exact absurd hp id
        | subscriptionUpdate u => exact absurd hp id
        | pong p => exact absurd hp id
        | sessionControl c =>
          obtain ⟨m | m⟩ := c
          · cases hn'
            exact hseen
          · change (n.seen clock sender).onSession sender m = _ at hn'
            have hsession := onSession_below sender m hseen hv
            rw [hn'] at hsession
            exact hsession
        | ping p =>
          change (n.seen clock sender).onPing clock sender p = _ at hn'
          unfold onPing at hn'
          split at hn' <;> (cases hn'; exact hseen)
        | _ =>
          cases hn'
          exact ⟨h.topology, h.subscription, h.version⟩

end FlowNode

/-! ## Runs -/

namespace Running

/-- No counter is above the bound, and none will be by what waits in the queue. -/
structure Below (s : Running γ δ) (bound : Nat) : Prop where
  node : s.node.Below bound
  built : ∀ u, s.built = some u → u.epoch.toNat ≤ bound
  queue : ∀ event ∈ s.queue, ∀ v, event.carried s.node.nodeId = some v → v.toNat ≤ bound

variable {s s' init : Running γ δ} {a : NodeAct} {bound : Nat}
  {past : List (Running γ δ × NodeAct)}

theorem Below.mono {bound' : Nat} (h : s.Below bound) (hle : bound ≤ bound') : s.Below bound' :=
  ⟨h.node.mono hle, fun u hu => (h.built u hu).trans hle,
    fun e he v hv => (h.queue e he v hv).trans hle⟩

theorem Below.of_node {node : FlowNode γ δ} (h : s.Below bound) (hid : node.nodeId = s.node.nodeId)
    (hnode : node.Below bound) : ({ s with node := node } : Running γ δ).Below bound :=
  ⟨hnode, h.built, by rw [hid]; exact h.queue⟩

theorem Below.push (h : s.Below bound) (event : ControlEvent)
    (hv : ∀ v, event.carried s.node.nodeId = some v → v.toNat ≤ bound) :
    ({ s with queue := s.queue ++ [event] } : Running γ δ).Below bound := by
  refine ⟨h.node, h.built, fun e he v hcarried => ?_⟩
  rcases List.mem_append.mp he with he | he
  · exact h.queue e he v hcarried
  · obtain rfl := List.mem_singleton.mp he
    exact hv v hcarried

theorem Below.pop {event : ControlEvent} {rest : List ControlEvent} (h : s.Below bound)
    (hq : s.queue = event :: rest) : ({ s with queue := rest } : Running γ δ).Below bound :=
  ⟨h.node, h.built, fun e he => h.queue e (by rw [hq]; exact List.mem_cons_of_mem _ he)⟩

/-- A step of the node alone, with an increment or without. -/
theorem Below.advances {node : FlowNode γ δ} {inc : Option (UInt64 × UInt64)} (h : s.Below bound)
    (hid : node.nodeId = s.node.nodeId) (hnode : Advances node.Below bound inc) :
    Advances ({ s with node := node } : Running γ δ).Below bound inc :=
  hnode.imp fun _ hle hbelow => (h.mono hle).of_node hid hbelow

variable [PetGraph γ]

/-- What arrives stays within the bound. -/
def Admits (bound : Nat) (s : Running γ δ) : NodeAct → Prop
  | .arrive event => ∀ v, event.carried s.node.nodeId = some v → v.toNat ≤ bound
  | _ => True

/-- One step.  Nothing but an increment, or what arrives, makes a counter greater. -/
theorem act_below (h : s.Below bound) (ha : s.Admits bound a) (hs : s.act a = some s') :
    Advances s'.Below bound (s.incrementTo s' a) := by
  cases a with
  | subscribe pattern handler =>
    cases hs
    exact ⟨⟨h.node.topology, h.node.subscription, h.node.version⟩, h.built, h.queue⟩
  | announce pattern =>
    simp only [act, Option.ite_none_right_eq_some, Option.some.injEq] at hs
    obtain ⟨-, rfl⟩ := hs
    intro hroom
    obtain ⟨hle, hlt⟩ := u64_succ h.node.subscription hroom
    have hmore := h.mono (Nat.le_succ bound)
    refine ⟨⟨⟨hmore.node.topology, hmore.node.subscription, hmore.node.version⟩, ?_,
      hmore.queue⟩, hlt⟩
    rintro u ⟨⟩
    exact hle
  | enqueue =>
    simp only [act] at hs
    split at hs
    · next u hu =>
      simp only [Option.ite_none_right_eq_some, Option.some.injEq] at hs
      obtain ⟨-, rfl⟩ := hs
      have hpush := h.push (.controlMsgReceived s.node.nodeId (.of (.subscriptionUpdate u))) (by
        intro v hv
        simp only [ControlEvent.carried, ControlMessage.of, Option.ite_none_right_eq_some,
          Option.some.injEq] at hv
        rw [← hv.2]
        exact h.built u hu)
      exact ⟨hpush.node, fun _ hnone => absurd hnone (Option.some_ne_none _).symm, hpush.queue⟩
    · cases hs
  | arrive event =>
    simp only [act, Option.ite_none_right_eq_some, Option.some.injEq] at hs
    obtain ⟨-, rfl⟩ := hs
    exact h.push event ha
  | process clock =>
    simp only [act] at hs
    split at hs
    · next event rest hq =>
      cases hs
      simp only [incrementTo, hq, List.head?_cons, Option.bind_some]
      refine (h.pop hq).advances (controlStep_turn clock s.node event rfl).1 ?_
      exact FlowNode.controlStep_below clock h.node
        (h.queue event (by rw [hq]; exact List.mem_cons_self))
    · cases hs
  | create clock sentClock sid flowIds metadata =>
    cases hs
    exact h.of_node rfl (h.node.insert_session (Nat.zero_le _))
  | close sid reason =>
    cases hs
    show Running.Below _ bound
    unfold FlowNode.closeSession
    split
    · exact h
    · exact h.of_node rfl (h.node.erase_session sid)
  | sync clock sid data =>
    cases hs
    obtain ⟨sessions, hstate, -⟩ := syncSessionState_effect (n := s.node) clock sid data
    refine h.advances ?_ (FlowNode.syncSessionState_below clock sid data h.node)
    rw [hstate]
  | registerMergeFn sid mergeFn =>
    cases hs
    exact h.of_node rfl ⟨h.node.topology, h.node.subscription, h.node.version⟩
  | collect now =>
    cases hs
    refine h.of_node rfl (h.node.with_sessions fun sid session hl => ?_)
    have hkept := (List.mem_filter.mp (AList.mem_lookup_iff.mp hl)).1
    exact h.node.version sid session (AList.mem_lookup_iff.mpr hkept)

theorem fresh_below (id : NodeId) (registry : MessageRegistry δ) (bound : Nat) :
    (fresh id registry : Running γ δ).Below bound := by
  refine ⟨⟨Nat.zero_le _, Nat.zero_le _, fun sid session hl => ?_⟩, fun u hu => ?_, ?_⟩
  · exact absurd hl (Option.some_ne_none _).symm
  · exact absurd hu (Option.some_ne_none _).symm
  · exact fun event hevent => absurd hevent List.not_mem_nil

omit [PetGraph γ] in
theorem Admits.mono {bound' : Nat} (h : s.Admits bound a) (hle : bound ≤ bound') :
    s.Admits bound' a := by
  cases a with
  | arrive event => exact fun v hv => (h v hv).trans hle
  | _ => trivial

theorem increments_cons :
    increments ((s, a) :: past) = increments past + if (s.increment a).isSome then 1 else 0 :=
  List.countP_cons

/-- A run that starts with every counter below the bound, and admits nothing above it. -/
theorem run_below (hinit : init.Below bound) (h : History Step init past s)
    (hadmits : ∀ e ∈ past, e.1.Admits bound e.2) (hroom : bound + increments past < 2 ^ 64) :
    s.Below (bound + increments past) ∧ ∀ e ∈ past, e.1.Strict e.2 := by
  induction h with
  | start => exact ⟨hinit, fun e he => absurd he List.not_mem_nil⟩
  | @step past s s' a hrun hs ih =>
    obtain ⟨hnow, hadmits⟩ := List.forall_mem_cons.mp hadmits
    rw [increments_cons] at hroom ⊢
    obtain ⟨hbelow, hstrict⟩ := ih hadmits (by omega)
    have hstep := act_below hbelow (hnow.mono (Nat.le_add_right _ _)) hs
    have hinc : s.increment a = s.incrementTo s' a := by
      unfold increment
      rw [show s.act a = some s' from hs]
      rfl
    rw [List.forall_mem_cons]
    rw [← hinc] at hstep
    cases hcase : s.increment a with
    | none =>
      rw [hcase] at hstep
      exact ⟨hstep, fun old new heq => absurd (hcase.symm.trans heq) (Option.some_ne_none _).symm,
        hstrict⟩
    | some pair =>
      rw [hcase] at hstep hroom
      obtain ⟨hbelow', hlt⟩ := hstep (by rw [Nat.add_assoc]; exact hroom)
      refine ⟨hbelow', fun old new heq => ?_, hstrict⟩
      obtain rfl : pair = (old, new) := Option.some.inj (hcase.symm.trans heq)
      exact hlt

/-- **No counter wraps** in a run of a node, if every number that arrives for one of its counters
is as far from the end of `u64` as the run makes increments. -/
theorem increments_strict (id : NodeId) (registry : MessageRegistry δ)
    (h : History Step (fresh id registry : Running γ δ) past s)
    (hroom : increments past < 2 ^ 64)
    (harrive : ∀ e ∈ past, ∀ event, e.2 = .arrive event →
      ∀ v, event.carried e.1.node.nodeId = some v → v.toNat + increments past < 2 ^ 64) :
    ∀ e ∈ past, e.1.Strict e.2 := by
  have hadmits : ∀ e ∈ past, e.1.Admits (2 ^ 64 - 1 - increments past) e.2 := by
    rintro ⟨s₀, a⟩ he
    cases a with
    | arrive event =>
      intro v hv
      have := harrive _ he event rfl v hv
      omega
    | _ => trivial
  exact (run_below (fresh_below id registry _) h hadmits (by omega)).2

end Running

end

/-! ## A peer at the end of `u64` -/

namespace Running

/-- The steps one after the other, with the state before each. -/
def follow {γ δ : Type} [PetGraph γ] (s : Running γ δ) (past : List (Running γ δ × NodeAct)) :
    List NodeAct → Option (List (Running γ δ × NodeAct) × Running γ δ)
  | [] => some (past, s)
  | a :: as => (s.act a).bind fun s' => follow s' ((s, a) :: past) as

theorem history_of_follow {γ δ : Type} [PetGraph γ] {init s s' : Running γ δ}
    {past past' : List (Running γ δ × NodeAct)} {as : List NodeAct}
    (h : History Step init past s) (hf : s.follow past as = some (past', s')) :
    History Step init past' s' := by
  induction as generalizing s past with
  | nil =>
    cases hf
    exact h
  | cons a as ih =>
    obtain ⟨s₁, hs₁, hf⟩ := Option.bind_eq_some_iff.mp hf
    exact ih (h.step hs₁) hf

def single : Running VecGraph Unit := fresh "a" ∅

/-- `b` connects, sends something, and answers a ping. -/
def talk (msg : ControlMessage) : List NodeAct :=
  [.arrive (.peerConnected "b" 1), .process ⟨0, 0⟩, .arrive (.controlMsgReceived "b" msg),
    .process ⟨0, 0⟩, .arrive (.controlMsgReceived "b" (.of (.pong ⟨0, 0⟩))), .process ⟨0, 0⟩]

/-- An update in the name of `a`, with nothing in it. -/
def named (epoch : UInt64) : ControlMessage := .of (.topologyUpdate ⟨"a", epoch, [], [], [], []⟩)

theorem carried_named {id sender : NodeId} {epoch v : UInt64}
    (h : (ControlEvent.controlMsgReceived sender (named epoch)).carried id = some v) : epoch = v := by
  simp only [ControlEvent.carried, named, ControlMessage.of, Option.ite_none_right_eq_some,
    Option.some.injEq] at h
  exact h.2

end Running

/-- `b` gossips an update in the name of `a` with the last epoch there is.  On the new link to `b`
the node then announces itself under epoch 0. -/
theorem epoch_wraps : ∃ past s, History Running.Step Running.single past s ∧
    ∃ e ∈ past, e.1.increment e.2 = some (18446744073709551615, 0) := by
  obtain ⟨⟨past, s⟩, hrun⟩ := Option.isSome_iff_exists.mp
    (show (Running.single.follow [] (Running.talk (Running.named 18446744073709551615))).isSome from
      rfl)
  refine ⟨past, s, Running.history_of_follow .start hrun, ?_⟩
  cases hrun
  exact ⟨_, List.mem_cons_self, rfl⟩

/-- With epoch 7 there is room. -/
theorem epoch_grows : ∃ past s, History Running.Step Running.single past s ∧
    (∃ e ∈ past, e.1.increment e.2 = some (7, 8)) ∧ ∀ e ∈ past, e.1.Strict e.2 := by
  obtain ⟨⟨past, s⟩, hrun⟩ := Option.isSome_iff_exists.mp
    (show (Running.single.follow [] (Running.talk (Running.named 7))).isSome from rfl)
  have hhistory := Running.history_of_follow .start hrun
  cases hrun
  refine ⟨_, _, hhistory, ⟨_, List.mem_cons_self, rfl⟩,
    Running.increments_strict "a" ∅ hhistory (by decide) ?_⟩
  simp only [List.forall_mem_cons]
  refine ⟨?_, ?_, ?_, ?_, ?_, ?_, fun e he => absurd he List.not_mem_nil⟩
  all_goals
    intro event heq v hv
    cases heq
  · cases hv
  · rw [← Running.carried_named hv]
    decide
  · cases hv

end Stric.Flow
