import Stric.Flow.ControlLink
import Stric.Flow.Multicast

/-!
# Data streams (`node.rs`)

Every copy of an envelope travels as one frame on a stream of its own.  The task of an incoming
stream reads the frame and decodes it; what it sends on is encoded again.

    readEnvelope stream          what the task makes of the bytes that have arrived
    wireRelays Up                the relays of `Multicast`, on bytes

A stream may end after any of its bytes.  Decoding does not keep the order of the forwarding table,
so the bytes of a copy change from hop to hop; their meaning and their number do not.  So a run on
bytes is a run on envelopes (`wire_refines`), in which the copies that are cut off, and all copies
of an envelope over 16 MiB, were never sent; and publishing is exactly once on the wire
(`publish_wire_exactly_once`).
-/

namespace Stric.Flow

open Stric.Pool Relation

/-! ## One stream -/

/-- What `write_frame` writes. -/
def Envelope.bytes [Prost] (e : Envelope) : Bytes := frame (Prost.encodeEnvelope e)

/-- `read_frame` accepts the envelope. -/
def Envelope.Fits [Prost] (e : Envelope) : Prop := (Prost.encodeEnvelope e).length ≤ maxFrameSize

instance [Prost] (e : Envelope) : Decidable e.Fits := Nat.decLe _ _

/-- `read_frame` and `Envelope::decode`. -/
def readEnvelope [Prost] (stream : Bytes) : Option Envelope :=
  match readFrame stream with
  | (.ok bytes, _) => Prost.decodeEnvelope bytes
  | (.error _, _) => none

/-! ## Equal envelopes -/

theorem RoutingHeader.Same.trans {h₁ h₂ h₃ : RoutingHeader} (h : h₁.Same h₂) (h' : h₂.Same h₃) :
    h₁.Same h₃ where
  sourceNodeId := h.sourceNodeId.trans h'.sourceNodeId
  flowId := h.flowId.trans h'.flowId
  topicId := h.topicId.trans h'.topicId
  sessionId := h.sessionId.trans h'.sessionId
  nonce := h.nonce.trans h'.nonce
  timestamp := h.timestamp.trans h'.timestamp
  deadline := h.deadline.trans h'.deadline
  deliveryMode := h.deliveryMode.trans h'.deliveryMode
  forwardingTable k := (h.forwardingTable k).trans (h'.forwardingTable k)

namespace Envelope.Same

variable {e e' e'' : Envelope}

theorem refl (e : Envelope) : e.Same e := by
  refine ⟨?_, rfl, rfl, rfl⟩
  cases e.header with
  | none => exact .none
  | some hd => exact .some ⟨rfl, rfl, rfl, rfl, rfl, rfl, rfl, rfl, fun _ => rfl⟩

theorem trans (h : e.Same e') (h' : e'.Same e'') : e.Same e'' := by
  refine ⟨?_, h.messageType.trans h'.messageType, h.codec.trans h'.codec, h.payload.trans h'.payload⟩
  rcases h.header_cases with ⟨hn, hn'⟩ | ⟨hd, hd', hs, hs', hsame⟩
  · rcases h'.header_cases with ⟨-, hn''⟩ | ⟨hd', hd'', hs', -, -⟩
    · rw [hn, hn'']
      exact .none
    · rw [hn'] at hs'
      cases hs'
  · rcases h'.header_cases with ⟨hn', -⟩ | ⟨hd₂, hd'', hs₂, hs'', hsame'⟩
    · rw [hs'] at hn'
      cases hn'
    · rw [hs'] at hs₂
      cases hs₂
      rw [hs, hs'']
      exact .some (hsame.trans hsame')

theorem lookup_table (h : e.Same e') (k : NodeId) : e.table.lookup k = e'.table.lookup k := by
  unfold Envelope.table
  rcases h.header_cases with ⟨hn, hn'⟩ | ⟨hd, hd', hs, hs', hsame⟩
  · rw [hn, hn']
  · rw [hs, hs']
    exact hsame.forwardingTable k

end Envelope.Same

section
variable [Prost]

theorem Envelope.Same.fits {e e' : Envelope} (h : e.Same e') : e.Fits ↔ e'.Fits := by
  unfold Envelope.Fits
  rw [Prost.envelope_length _ _ h]

theorem Envelope.Same.length_bytes {e e' : Envelope} (h : e.Same e') :
    e.bytes.length = e'.bytes.length := by
  rw [Envelope.bytes, Envelope.bytes, length_frame, length_frame, Prost.envelope_length _ _ h]

/-- The task reads the envelope, if it fits and all its bytes have arrived, and nothing if not. -/
theorem readEnvelope_take {e : Envelope} (hlen : (Prost.encodeEnvelope e).length < 2 ^ 32) (k : Nat) :
    (e.Fits ∧ e.bytes.length ≤ k ∧ ∃ e', readEnvelope (e.bytes.take k) = some e' ∧ e'.Same e) ∨
    (¬ (e.Fits ∧ e.bytes.length ≤ k) ∧ readEnvelope (e.bytes.take k) = none) := by
  by_cases h : e.Fits ∧ e.bytes.length ≤ k
  · obtain ⟨e', hdecode, hsame⟩ := Prost.envelope_lossless e
    refine Or.inl ⟨h.1, h.2, e', ?_, hsame⟩
    rw [List.take_of_length_le h.2]
    have hread := readFrame_frame h.1 []
    rw [List.append_nil] at hread
    rw [readEnvelope, Envelope.bytes, hread]
    exact hdecode
  · refine Or.inr ⟨h, ?_⟩
    obtain ⟨err, rest, hread⟩ := readFrame_fails hlen [] h
    rw [List.append_nil] at hread
    rw [readEnvelope, Envelope.bytes, hread]

end

/-! ## The relays on bytes -/

section
variable [Prost] {γ δ : Type}

omit [Prost] in
/-- A node does with an envelope what it does with an equal one. -/
theorem FlowNode.receive_same (n : FlowNode γ δ) {e e' : Envelope} (h : e.Same e') :
    (n.receive e).1 = (n.receive e').1 ∧
      (n.receive e).2 = (n.receive e').2.map fun o => (o.1, e) := by
  constructor
  · unfold FlowNode.receive
    rcases h.header_cases with ⟨hn, hn'⟩ | ⟨hd, hd', hs, hs', hsame⟩
    · rw [hn, hn']
    · rw [hs, hs']
      simp only [hsame.flowId, hsame.topicId, h.messageType, h.payload]
  · rw [n.receive_snd, n.receive_snd]
    unfold FlowNode.forward
    rw [h.lookup_table]
    cases e'.table.lookup n.nodeId with
    | none => rfl
    | some targets => simp only [List.map_map, Function.comp_def]

/-- A node, and how much of a copy arrives at each peer: nothing if no stream can be opened. -/
structure WireHost (γ δ : Type) where
  node : FlowNode γ δ
  arrives : NodeId → Option Nat

/-- The copies, as far as they arrive. -/
def WireHost.copies (h : WireHost γ δ) (outs : List (NodeId × Envelope)) : List (NodeId × Bytes) :=
  outs.filterMap fun o => (h.arrives o.1).map fun k => (o.1, o.2.bytes.take k)

/-- The task of an incoming data stream: the delivery attempt, if there is one, and the copies. -/
def WireHost.receive (h : WireHost γ δ) (stream : Bytes) :
    Option (Option (Delivery δ)) × List (NodeId × Bytes) :=
  match readEnvelope stream with
  | none => (none, [])
  | some e => (some (h.node.receive e).1, h.copies (h.node.receive e).2)

def wireRelays (Up : WireHost γ δ → Prop) :
    Protocol NodeId (List (Option (Delivery δ))) Bytes Empty where
  recv v _ stream s s' outs := ∃ h : WireHost γ δ, Up h ∧ h.node.nodeId = v ∧
    s' = (h.receive stream).1.toList ++ s ∧ outs = (h.receive stream).2
  own _ a := nomatch a

def wireLaunch (publisher : WireHost γ δ) (out : Published δ) :
    Net NodeId (List (Option (Delivery δ))) Bytes :=
  Net.act (fun _ => []) [] publisher.node.nodeId [] (publisher.copies out.sends)

/-! ## Seen as envelopes -/

/-- The host as it appears to one envelope: it reaches the peers at which the copy arrives whole. -/
def WireHost.host (h : WireHost γ δ) (e : Envelope) : Host γ δ where
  node := h.node
  writes c :=
    match h.arrives c with
    | none => false
    | some k => e.Fits ∧ e.bytes.length ≤ k

/-- A stream of which the task reads an envelope, as a copy of `e`. -/
def seenAs (e : Envelope) (o : NodeId × Bytes) : Option (NodeId × Envelope) :=
  (readEnvelope o.2).map fun _ => (o.1, e)

def packetAs (e : Envelope) (p : Packet NodeId Bytes) : Option (Packet NodeId Envelope) :=
  (readEnvelope p.msg).map fun _ => ⟨p.src, p.dst, e⟩

def netAs {S : Type} (e : Envelope) (net : Net NodeId S Bytes) : Net NodeId S Envelope :=
  ⟨net.state, net.flight.filterMap (packetAs e)⟩

def eventAs (e : Envelope) : Event NodeId Bytes Empty → Option (Event NodeId Envelope Empty)
  | .deliver p outs => (packetAs e p).map fun p' => .deliver p' (outs.filterMap (seenAs e))
  | .own _ a _ => nomatch a

theorem netAs_act {S : Type} (e : Envelope) (state : NodeId → S) (rest : List (Packet NodeId Bytes))
    (v : NodeId) (s : S) (outs : List (NodeId × Bytes)) :
    netAs e (Net.act state rest v s outs) =
      Net.act state (rest.filterMap (packetAs e)) v s (outs.filterMap (seenAs e)) := by
  unfold netAs Net.act
  rw [List.filterMap_append, List.filterMap_map, List.map_filterMap]
  congr 2
  refine List.filterMap_congr fun o _ => ?_
  simp only [Function.comp_apply, packetAs, seenAs, Option.map_map]
  rfl

/-- A copy is read exactly if the host reaches the peer. -/
theorem seenAs_copy {e e' : Envelope} (hlen : (Prost.encodeEnvelope e).length < 2 ^ 32)
    (hsame : e'.Same e) (h : WireHost γ δ) (c : NodeId) :
    ((h.arrives c).map fun k => (c, e'.bytes.take k)).bind (seenAs e) =
      if (h.host e).writes c then some (c, e) else none := by
  cases harr : h.arrives c with
  | none =>
    have hwrites : (h.host e).writes c = false := by simp only [WireHost.host, harr]
    rw [hwrites]
    rfl
  | some k =>
    have hwrites : (h.host e).writes c = true ↔ e'.Fits ∧ e'.bytes.length ≤ k := by
      simp only [WireHost.host, harr, decide_eq_true_eq, hsame.fits, hsame.length_bytes]
    rw [← Prost.envelope_length _ _ hsame] at hlen
    rw [Option.map_some, Option.bind_some, seenAs]
    rcases readEnvelope_take hlen k with ⟨hfits, hk, e'', hread, -⟩ | ⟨hnot, hread⟩
    · rw [hread, if_pos (hwrites.mpr ⟨hfits, hk⟩), Option.map_some]
    · rw [hread, if_neg fun hw => hnot (hwrites.mp hw), Option.map_none]

theorem filterMap_copies {e e' : Envelope} (hlen : (Prost.encodeEnvelope e).length < 2 ^ 32)
    (hsame : e'.Same e) (h : WireHost γ δ) {outs : List (NodeId × Envelope)}
    (houts : ∀ o ∈ outs, o.2 = e) :
    (h.copies (outs.map fun o => (o.1, e'))).filterMap (seenAs e) = (h.host e).copies outs := by
  unfold WireHost.copies Host.copies
  rw [List.filterMap_filterMap, List.filterMap_map, ← List.filterMap_eq_filter]
  refine List.filterMap_congr fun o ho => ?_
  rw [Function.comp_apply, seenAs_copy hlen hsame h o.1, Option.guard_apply]
  split
  · rw [← houts o ho]
  · rfl

omit [Prost] in
theorem FlowNode.receive_copies (n : FlowNode γ δ) (e : Envelope) :
    ∀ o ∈ (n.receive e).2, o.2 = e := by
  intro o ho
  rw [n.receive_snd] at ho
  unfold FlowNode.forward at ho
  split at ho
  · cases ho
  · obtain ⟨c, -, rfl⟩ := List.mem_map.mp ho
    rfl

/-- What is in flight is `e` or cannot be read, and what has been delivered is `e`. -/
structure Carries (Up : WireHost γ δ → Prop) (e : Envelope)
    (net : Net NodeId (List (Option (Delivery δ))) Bytes) : Prop where
  flight : ∀ p ∈ net.flight, ∀ e', readEnvelope p.msg = some e' → e.Fits ∧ e'.Same e
  log : ∀ v, ∀ d ∈ net.state v,
    e.Fits ∧ ∃ h, Up h ∧ h.node.nodeId = v ∧ d = (h.node.receive e).1

theorem readEnvelope_copies {e e' e'' : Envelope} (hlen : (Prost.encodeEnvelope e).length < 2 ^ 32)
    (hsame : e'.Same e) {h : WireHost γ δ} {outs : List (NodeId × Envelope)}
    (houts : ∀ o ∈ outs, o.2 = e') {o : NodeId × Bytes} (ho : o ∈ h.copies outs)
    (hread : readEnvelope o.2 = some e'') : e.Fits ∧ e''.Same e := by
  obtain ⟨out, hout, hcopy⟩ := List.mem_filterMap.mp ho
  obtain ⟨k, -, rfl⟩ := Option.map_eq_some_iff.mp hcopy
  rw [houts out hout] at hread
  rw [← Prost.envelope_length _ _ hsame] at hlen
  rcases readEnvelope_take hlen k with ⟨hfits, -, e₁, hread', hsame'⟩ | ⟨-, hnone⟩
  · rw [hread'] at hread
    cases hread
    exact ⟨hsame.fits.mp hfits, hsame'.trans hsame⟩
  · rw [hnone] at hread
    cases hread

section
variable {Up : WireHost γ δ → Prop} {e : Envelope}

theorem Carries.step (hlen : (Prost.encodeEnvelope e).length < 2 ^ 32)
    {net net' : Net NodeId (List (Option (Delivery δ))) Bytes} {ev : Event NodeId Bytes Empty}
    (hc : Carries Up e net) (hs : Step (wireRelays Up) net ev net') : Carries Up e net' := by
  cases hs with
  | @own v a s outs h => exact a.elim
  | @deliver l₁ l₂ p s outs hf hr =>
    obtain ⟨h, hup, hv, rfl, rfl⟩ := hr
    have hp : p ∈ net.flight := by
      rw [hf]
      exact List.mem_append_right _ List.mem_cons_self
    constructor
    · intro q hq e'' hread
      rcases Net.mem_act.mp hq with hq | ⟨o, ho, rfl⟩
      · exact hc.flight q (mem_of_mem_rest hf hq) e'' hread
      · unfold WireHost.receive at ho
        split at ho
        · cases ho
        · next e' he' =>
          exact readEnvelope_copies hlen (hc.flight p hp e' he').2 (h.node.receive_copies e') ho hread
    · refine Net.act_forall (fun v s => ∀ d ∈ s, e.Fits ∧ ∃ h : WireHost γ δ, Up h ∧
        h.node.nodeId = v ∧ d = (h.node.receive e).1) (fun d hd => ?_) hc.log
      rcases List.mem_append.mp hd with hd | hd
      · unfold WireHost.receive at hd
        split at hd
        · cases hd
        · next e' he' =>
          obtain ⟨hfits, hsame⟩ := hc.flight p hp e' he'
          have hd := List.mem_singleton.mp hd
          exact ⟨hfits, h, hup, hv, hd.trans (h.node.receive_same hsame).1⟩
      · exact hc.log _ d hd

/-- A step on bytes is a step on envelopes, or none if the stream cannot be read. -/
theorem step_wireRelays (hlen : (Prost.encodeEnvelope e).length < 2 ^ 32)
    {net net' : Net NodeId (List (Option (Delivery δ))) Bytes} {ev : Event NodeId Bytes Empty}
    (hc : Carries Up e net) (hs : Step (wireRelays Up) net ev net') :
    (eventAs e ev = none ∧ netAs e net' = netAs e net) ∨
      ∃ ev', eventAs e ev = some ev' ∧
        Step (relays fun h' => ∃ h, Up h ∧ h' = h.host e) (netAs e net) ev' (netAs e net') := by
  cases hs with
  | @own v a s outs h => exact a.elim
  | @deliver l₁ l₂ p s outs hf hr =>
    obtain ⟨h, hup, hv, rfl, rfl⟩ := hr
    have hp : p ∈ net.flight := by
      rw [hf]
      exact List.mem_append_right _ List.mem_cons_self
    have hflight : (netAs e net).flight =
        l₁.filterMap (packetAs e) ++ (p :: l₂).filterMap (packetAs e) := by
      show net.flight.filterMap _ = _
      rw [hf, List.filterMap_append]
    rw [netAs_act, List.filterMap_append]
    cases hread : readEnvelope p.msg with
    | none =>
      have hnone : packetAs e p = none := by rw [packetAs, hread, Option.map_none]
      refine Or.inl ⟨by rw [eventAs, hnone, Option.map_none], ?_⟩
      rw [List.filterMap_cons_none hnone] at hflight
      unfold WireHost.receive
      rw [hread, ← hflight]
      simp [Net.act, netAs]
    | some e' =>
      obtain ⟨-, hsame⟩ := hc.flight p hp e' hread
      have hsome : packetAs e p = some ⟨p.src, p.dst, e⟩ := by
        rw [packetAs, hread, Option.map_some]
      refine Or.inr ⟨_, by rw [eventAs, hsome, Option.map_some], ?_⟩
      rw [List.filterMap_cons_some hsome] at hflight
      refine .deliver hflight ⟨h.host e, ⟨h, hup, rfl⟩, hv, ?_, ?_⟩
      · unfold WireHost.receive
        rw [hread]
        show (h.node.receive e').1 :: _ = (h.node.receive e).1 :: _
        rw [(h.node.receive_same hsame).1]
        rfl
      · unfold WireHost.receive
        rw [hread]
        simp only [(h.node.receive_same hsame).2]
        exact filterMap_copies hlen hsame h (h.node.receive_copies e)

/-- **Relaying bytes is relaying envelopes.** -/
theorem wire_refines {publisher : WireHost γ δ} {out : Published δ}
    (hlen : (Prost.encodeEnvelope e).length < 2 ^ 32) (hsends : ∀ o ∈ out.sends, o.2 = e)
    {trace : List (Event NodeId Bytes Empty)}
    {net : Net NodeId (List (Option (Delivery δ))) Bytes}
    (h : Run (wireRelays Up) (wireLaunch publisher out) trace net) :
    Carries Up e net ∧
      Run (relays fun h' => ∃ h, Up h ∧ h' = h.host e) (launch (publisher.host e) out)
        (trace.filterMap (eventAs e)) (netAs e net) := by
  have hrefl : e.Same e := Envelope.Same.refl e
  have hstart : Carries Up e (wireLaunch publisher out) := by
    constructor
    · intro p hp e' hread
      rcases Net.mem_act.mp hp with hp | ⟨o, ho, rfl⟩
      · cases hp
      · exact readEnvelope_copies hlen hrefl hsends ho hread
    · intro v d hd
      simp [wireLaunch, Net.act] at hd
  have hview : netAs e (wireLaunch publisher out) = launch (publisher.host e) out := by
    unfold wireLaunch launch
    rw [netAs_act]
    congr 1
    have hmap : out.sends = out.sends.map fun o => (o.1, e) := by
      have hid : ∀ o ∈ out.sends, (o.1, e) = id o := fun o ho => Prod.ext rfl (hsends o ho).symm
      rw [List.map_congr_left hid, List.map_id]
    have hcopies := filterMap_copies hlen hrefl publisher hsends
    rw [← hmap] at hcopies
    exact hcopies
  rw [← hview]
  exact h.refines (Carries Up e) (netAs e) (eventAs e) hstart
    (fun _ _ _ hc hs => hc.step hlen hs) (fun _ _ _ hc hs => step_wireRelays hlen hc hs)

end

/-! ## Publishing on the wire -/

omit [Prost] in
theorem publish_envelope [PetGraph γ] {η : Type} [BinaryHeap η] {b : Build} {clock : Clock}
    {nonce : String} {n : FlowNode γ δ} {flowId topicId messageType : String} {codec : Codec}
    {payload : Bytes} {out : Published δ} {e : Envelope}
    (h : n.publish η b clock nonce flowId topicId messageType codec payload = .ok out)
    (he : out.envelope = some e) (n' : FlowNode γ δ) :
    (n'.receive e).1 = n'.deliverLocal flowId topicId messageType payload := by
  unfold FlowNode.publish at h
  by_cases hne : n.subscribers topicId = []
  · simp only [if_pos hne] at h
    cases h
    cases he
  · simp only [if_neg hne] at h
    cases htable : n.graph.computeForwardingTable η b n.nodeId (n.subscribers topicId) with
    | error f =>
      rw [htable] at h
      cases h
    | ok table =>
      rw [htable] at h
      cases h
      cases he
      rfl

/-- The whole copy arrives at the peer. -/
def WireHost.delivers (h : WireHost γ δ) (e : Envelope) (c : NodeId) : Prop :=
  (h.node.nextConn c).isSome ∧ ∃ k, h.arrives c = some k ∧ e.bytes.length ≤ k

/-- What publishing amounts to, by the delivery attempts of the nodes. -/
structure WireOnce [PetGraph γ] (publisher : WireHost γ δ) (Up : WireHost γ δ → Prop)
    (flowId topicId messageType : String) (payload : Bytes) (out : Published δ)
    (net : Net NodeId (List (Option (Delivery δ))) Bytes) : Prop where
  atMostOnce : ∀ v, (net.state v).length ≤ 1
  notPublisher : net.state publisher.node.nodeId = []
  intact : ∀ v, ∀ d ∈ net.state v, ∃ h, Up h ∧ h.node.nodeId = v ∧
    d = h.node.deliverLocal flowId topicId messageType payload
  complete : (∀ e, out.envelope = some e → e.Fits ∧ ∀ h, h = publisher ∨ Up h →
      ∀ c, TableEdge out.table h.node.nodeId c → h.delivers e c) → net.flight = [] →
    ∀ sub ∈ publisher.node.subscribers topicId, sub ≠ publisher.node.nodeId →
      (∃ c, Walk publisher.node.graph.Link publisher.node.nodeId sub c) →
      (net.state sub).length = 1
  refused : ∀ e, out.envelope = some e → ¬ e.Fits → ∀ v, net.state v = []

/-- What has been published with a table that routes it is delivered so. -/
theorem wireOnce_of_routes [PetGraph γ] {η : Type} [BinaryHeap η] {b : Build} {clock : Clock}
    {nonce : String} {n : FlowNode γ δ} {flowId topicId messageType : String} {codec : Codec}
    {payload : Bytes} {out : Published δ}
    (hout : n.publish η b clock nonce flowId topicId messageType codec payload = .ok out)
    (hroutes : Routes n topicId out.table)
    (hsent : out.sends = [] ∧ out.envelope = none ∨
      ∃ e, out.envelope = some e ∧ out.sends = n.forward e)
    (hshort : ∀ e, out.envelope = some e → (Prost.encodeEnvelope e).length < 2 ^ 32)
    {arrives : NodeId → Option Nat} {Up : WireHost γ δ → Prop}
    {trace : List (Event NodeId Bytes Empty)}
    {net : Net NodeId (List (Option (Delivery δ))) Bytes}
    (hrun : Run (wireRelays Up) (wireLaunch ⟨n, arrives⟩ out) trace net) :
    WireOnce ⟨n, arrives⟩ Up flowId topicId messageType payload out net := by
  rcases hsent with ⟨hnil, hnone⟩ | ⟨e, he, hforward⟩
  · -- nothing was published, so nothing is in flight
    have hflight : (wireLaunch ⟨n, arrives⟩ out).flight = [] := by
      simp [wireLaunch, Net.act, WireHost.copies, hnil]
    have hstate : ∀ v, net.state v = [] := by
      intro v
      rw [hrun.eq_of_flight_nil hflight]
      simp [wireLaunch, Net.act]
    refine ⟨fun v => by rw [hstate]; exact Nat.zero_le _, hstate _, fun v d hd => ?_,
      fun _ _ sub hsub hne hw => ?_, fun _ _ _ v => hstate v⟩
    · rw [hstate] at hd
      cases hd
    · have hreach := hroutes.reaches sub hsub hne hw
      rw [show out.table = ∅ by rw [Published.table, hnone]] at hreach
      rcases ReflTransGen.cases_tail hreach with rfl | ⟨p, -, hp⟩
      · exact absurd rfl hne
      · cases hp
  · have hsends : ∀ o ∈ out.sends, o.2 = e := by
      intro o ho
      rw [hforward, ← n.receive_snd] at ho
      exact n.receive_copies e o ho
    obtain ⟨hcarries, hrun'⟩ := wire_refines (hshort e he) hsends hrun
    have honce : ExactlyOnce (WireHost.host ⟨n, arrives⟩ e) topicId out
        (fun h' => ∃ h, Up h ∧ h' = h.host e) (trace.filterMap (eventAs e)) (netAs e net) :=
      exactlyOnce_of_routes hroutes (Or.inr ⟨e, he, hforward⟩) hrun'
    refine ⟨fun v => ?_, ?_, fun v d hd => ?_, fun hall hflight sub hsub hne hw => ?_,
      fun e' he' hnot v => ?_⟩
    · exact (honce.attempts v).trans_le (honce.atMostOnce v)
    · exact List.eq_nil_of_length_eq_zero
        ((honce.attempts _).trans (List.count_eq_zero.mpr honce.notPublisher))
    · obtain ⟨-, h, hup, hv, hd⟩ := hcarries.log v d hd
      exact ⟨h, hup, hv, hd.trans (publish_envelope hout he h.node)⟩
    · obtain ⟨hfits, hdelivers⟩ := hall e he
      refine (honce.attempts sub).trans
        ((honce.complete (fun h hh c hc => ?_) ?_).1 sub hsub hne hw)
      · obtain ⟨h', hh', rfl⟩ : ∃ h' : WireHost γ δ, (h' = ⟨n, arrives⟩ ∨ Up h') ∧ h = h'.host e := by
          rcases hh with rfl | ⟨h', hup, rfl⟩
          · exact ⟨_, Or.inl rfl, rfl⟩
          · exact ⟨h', Or.inr hup, rfl⟩
        obtain ⟨hconn, k, harr, hk⟩ := hdelivers h' hh' c hc
        refine ⟨hconn, ?_⟩
        simp only [WireHost.host, harr, decide_eq_true_eq]
        exact ⟨hfits, hk⟩
      · show net.flight.filterMap _ = []
        rw [hflight, List.filterMap_nil]
    · rw [he] at he'
      cases he'
      exact List.eq_nil_iff_forall_not_mem.mpr fun d hd => hnot (hcarries.log v d hd).1

/-- **Exactly once on the wire.**  Whatever the graph, the topic, the order of deliveries, and how
much of each copy arrives: no node attempts a second delivery and the publisher none, and what is
delivered is what was published.  If the envelope is at most 16 MiB and its copies arrive whole,
every reachable subscriber attempts one; if it is longer, nobody does. -/
theorem publish_wire_exactly_once [PetGraph γ] (η : Type) [BinaryHeap η] (b : Build)
    (clock : Clock) (nonce : String) (n : FlowNode γ δ) (hg : n.graph.Reachable)
    (htotal : n.graph.totalCost < u32Max.toNat) (flowId topicId messageType : String)
    (codec : Codec) (payload : Bytes) :
    ∃ out, n.publish η b clock nonce flowId topicId messageType codec payload = .ok out ∧
      ((∀ e, out.envelope = some e → (Prost.encodeEnvelope e).length < 2 ^ 32) →
        ∀ arrives Up trace net, Run (wireRelays Up) (wireLaunch ⟨n, arrives⟩ out) trace net →
          WireOnce ⟨n, arrives⟩ Up flowId topicId messageType payload out net) := by
  obtain ⟨out, hout, hroutes, hsent⟩ :=
    publish_spec η b clock nonce n hg htotal flowId topicId messageType codec payload
  exact ⟨out, hout, fun hshort arrives Up trace net hrun =>
    wireOnce_of_routes hout hroutes hsent hshort hrun⟩

end

section
open Protobuf

theorem starPublisher_wire_exactly_once :
    ∃ out, starPublisher.publish ListHeap .debug ⟨0, 0⟩ "7" "f" "t" "m" .raw [] = .ok out ∧
      ((∀ e, out.envelope = some e → (Prost.encodeEnvelope e).length < 2 ^ 32) →
        ∀ arrives Up trace net, Run (wireRelays Up) (wireLaunch ⟨starPublisher, arrives⟩ out) trace net →
          WireOnce ⟨starPublisher, arrives⟩ Up "f" "t" "m" [] out net) :=
  publish_wire_exactly_once ListHeap .debug ⟨0, 0⟩ "7" starPublisher
    (GlobalGraph.starGraph_reachable.addNode _) (by decide) "f" "t" "m" .raw []

end

end Stric.Flow
