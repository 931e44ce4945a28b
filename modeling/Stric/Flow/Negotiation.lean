import Stric.Flow.ControlLink
import Stric.Flow.VecGraph
import Stric.Pool.History

/-!
# Negotiating a control stream (`handle_new_connection` of `node.rs`)

Both ends of a new connection run the same code: write a `FlowHandshake`, read the other's, answer
with a `HandshakeAck`, read the other's.  After that the stream carries control messages.

    LinkStep hello s l s'        a step of one of the two ends

* The two ends take their steps in any order, and what is written arrives later; a read waits
  until its frame has arrived whole.  The acceptor sees the stream only after the initiator has
  written to it.
* An end may lose the connection at any step of its negotiation.
* `hello` says what each end announces.  The code announces version 1; a peer may announce another.

If an end has negotiated, the other end is who it says it is and has accepted it, and the messages
it receives are the other's, from the first after the handshake on (`negotiation_agrees`).  If no
connection is lost, both ends of version 1 negotiate in the end (`negotiation_completes`).
-/

namespace Stric.Flow

open Stric.Pool

/-- The end that dialled, and the other. -/
inductive End where
  | initiator
  | acceptor
deriving DecidableEq

def End.other : End → End
  | .initiator => .acceptor
  | .acceptor => .initiator

@[simp] theorem End.other_other (e : End) : e.other.other = e := by cases e <;> rfl

@[simp] theorem End.other_ne (e : End) : e.other ≠ e := by cases e <;> decide

theorem End.eq_or_other (e e' : End) : e' = e ∨ e' = e.other := by
  cases e <;> cases e' <;> decide

/-! ## The messages -/

/-- The `FlowHandshake` of a node. -/
def FlowNode.handshake {γ δ : Type} (n : FlowNode γ δ) : FlowHandshake where
  protocolVersion := 1
  nodeId := n.nodeId
  role := NodeRole.flow.toI32
  capabilities := ∅
  supportedCodecs := ["protobuf", "json"]
  subscribedTopics := n.localSubscriptions
  identityMode := IdentityMode.tlsDerived.toI32

def helloMessage (h : FlowHandshake) : Proto.ControlMessage := ⟨some (.handshake h)⟩

def ackMessage : Proto.ControlMessage := ⟨some (.handshakeAck ⟨true, "", 1⟩)⟩

def rejectMessage : Proto.ControlMessage :=
  ⟨some (.handshakeAck ⟨false, "Unsupported protocol version", 1⟩)⟩

section
variable [Prost]

inductive HandshakeError where
  | frame (e : FrameError)
  | decode
  | message (text : String)

/-- `read_frame` and `ControlMessage::decode`; `none` while the frame has not arrived whole. -/
def readMessage (reader : Bytes) : Option (Except HandshakeError Proto.ControlMessage × Bytes) :=
  match readFrame reader with
  | (.ok bytes, rest) =>
    match Prost.decodeControl bytes with
    | some msg => some (.ok msg, rest)
    | none => some (.error .decode, rest)
  | (.error .unexpectedEof, _) => none
  | (.error err, rest) => some (.error (.frame err), rest)

/-! ## One end -/

/-- Where `handle_new_connection` is. -/
inductive Negotiating where
  | openStream
  | writeHandshake
  | readHandshake
  | writeReject
  | writeAck (peerId : NodeId)
  | readAck (peerId : NodeId)
  | negotiated (peerId : NodeId)
  | failed (err : HandshakeError)

namespace Negotiating

/-- What an end makes of the other's handshake. -/
def onHandshake : Except HandshakeError Proto.ControlMessage → Negotiating
  | .ok ⟨some (.handshake h)⟩ => if h.protocolVersion ≠ 1 then writeReject else writeAck h.nodeId
  | .ok _ => failed (.message "Expected FlowHandshake")
  | .error err => failed err

/-- What an end makes of the other's answer. -/
def onAck (peerId : NodeId) : Except HandshakeError Proto.ControlMessage → Negotiating
  | .ok ⟨some (.handshakeAck a)⟩ =>
    if a.accepted then negotiated peerId
    else failed (.message ("Handshake rejected: " ++ a.rejectReason))
  | .ok _ => failed (.message "Expected HandshakeAck")
  | .error err => failed err

/-- The next step: where it leads, what is left to read, and what is written.  `ready` says that
the stream can be opened, or has come. -/
def act (hello : FlowHandshake) (ready : Bool) (reader : Bytes) :
    Negotiating → Option (Negotiating × Bytes × List Proto.ControlMessage)
  | openStream => if ready then some (writeHandshake, reader, []) else none
  | writeHandshake => some (readHandshake, reader, [helloMessage hello])
  | readHandshake => (readMessage reader).map fun r => (onHandshake r.1, r.2, [])
  | writeReject => some (failed (.message "Protocol version mismatch"), reader, [rejectMessage])
  | writeAck peerId => some (readAck peerId, reader, [ackMessage])
  | readAck peerId => (readMessage reader).map fun r => (onAck peerId r.1, r.2, [])
  | negotiated _ => none
  | failed _ => none

/-- The negotiation is over. -/
def Ended : Negotiating → Prop
  | negotiated _ => True
  | failed _ => True
  | _ => False

end Negotiating

/-! ## The two ends -/

structure Link where
  pc : End → Negotiating
  /-- What that end has written and the other has not read. -/
  wire : End → Bytes
  /-- All that end has written. -/
  written : End → List Proto.ControlMessage
  /-- What the reader of that end has handed to its control loop, and from whom. -/
  received : End → List (NodeId × Proto.ControlMessage)

def Link.start : Link := ⟨fun _ => .openStream, fun _ => [], fun _ => [], fun _ => []⟩

/-- `open_bi` succeeds; `accept_bi` returns when the other end has written. -/
def Link.ready (s : Link) : End → Bool
  | .initiator => true
  | .acceptor => !(s.written .initiator).isEmpty

inductive LinkLabel where
  | act (e : End)
  | lose (e : End)
  | send (e : End) (msg : Proto.ControlMessage)
  | receive (e : End)

/-- An end goes on to `pc`, leaves `rest` of what it reads, and writes. -/
def Link.move (s : Link) (e : End) (pc : Negotiating) (rest : Bytes)
    (outs : List Proto.ControlMessage) : Link where
  pc := Function.update s.pc e pc
  wire := Function.update (Function.update s.wire e.other rest) e (s.wire e ++ controlBytes outs)
  written := Function.update s.written e (s.written e ++ outs)
  received := s.received

inductive LinkStep (hello : End → FlowHandshake) (s : Link) : LinkLabel → Link → Prop
  | act {e : End} {pc : Negotiating} {rest : Bytes} {outs : List Proto.ControlMessage} :
      (s.pc e).act (hello e) (s.ready e) (s.wire e.other) = some (pc, rest, outs) →
      LinkStep hello s (.act e) (s.move e pc rest outs)
  | lose {e : End} {err : FrameError} : ¬ (s.pc e).Ended →
      LinkStep hello s (.lose e) (s.move e (.failed (.frame err)) (s.wire e.other) [])
  | send {e : End} {peerId : NodeId} {msg : Proto.ControlMessage} : s.pc e = .negotiated peerId →
      LinkStep hello s (.send e msg) (s.move e (s.pc e) (s.wire e.other) [msg])
  | receive {e : End} {peerId : NodeId} {msg : Proto.ControlMessage} {rest : Bytes} :
      s.pc e = .negotiated peerId → readMessage (s.wire e.other) = some (.ok msg, rest) →
      LinkStep hello s (.receive e)
        { s with
          wire := Function.update s.wire e.other rest
          received := Function.update s.received e (s.received e ++ [(peerId, msg)]) }

/-- No message is of 4 GiB or more, where the length in a frame is cut. -/
def LinkLabel.Short : LinkLabel → Prop
  | .send _ msg => (Prost.encodeControl msg).length < 2 ^ 32
  | _ => True

/-! ## Reading what an end has written -/

/-- The messages of the handshake are accepted by `read_frame`. -/
structure HandshakeFits (hello : End → FlowHandshake) : Prop where
  hello : ∀ e, Fits (helloMessage (hello e))
  ack : Fits ackMessage
  reject : Fits rejectMessage

/-- The next message, when its frame has arrived. -/
theorem readMessage_frame {msg : Proto.ControlMessage} (hfits : Fits msg)
    (msgs : List Proto.ControlMessage) :
    ∃ msg', readMessage (controlBytes (msg :: msgs)) = some (.ok msg', controlBytes msgs) ∧
      msg'.Same msg := by
  obtain ⟨msg', hdecode, hsame⟩ := Prost.control_lossless msg
  refine ⟨msg', ?_, hsame⟩
  have hcons : controlBytes (msg :: msgs) =
      frame (Prost.encodeControl msg) ++ controlBytes msgs := rfl
  rw [hcons, readMessage, readFrame_frame hfits]
  simp only [hdecode]

/-- What is read is the message in front. -/
theorem of_readMessage {msgs : List Proto.ControlMessage} {msg' : Proto.ControlMessage} {rest : Bytes}
    (hshort : ∀ msg ∈ msgs, (Prost.encodeControl msg).length < 2 ^ 32)
    (h : readMessage (controlBytes msgs) = some (.ok msg', rest)) :
    ∃ msg tail, msgs = msg :: tail ∧ rest = controlBytes tail ∧ msg'.Same msg := by
  cases msgs with
  | nil => cases h
  | cons msg tail =>
    by_cases hfits : Fits msg
    · obtain ⟨msg'', hread, hsame⟩ := readMessage_frame hfits tail
      rw [hread] at h
      obtain ⟨hmsg, hrest⟩ := Prod.mk.inj (Option.some.inj h)
      cases hmsg
      exact ⟨msg, tail, rfl, hrest.symm, hsame⟩
    · exfalso
      have hcons : controlBytes (msg :: tail) =
          frame (Prost.encodeControl msg) ++ controlBytes tail := rfl
      have hall : (frame (Prost.encodeControl msg) ++ controlBytes tail).take
          (controlBytes (msg :: tail)).length = controlBytes (msg :: tail) := by
        rw [← hcons, List.take_length]
      obtain ⟨err, rest', hread⟩ := readFrame_fails (n := (controlBytes (msg :: tail)).length)
        (hshort msg List.mem_cons_self) (controlBytes tail) fun hf => hfits hf.1
      rw [hall] at hread
      rw [readMessage, hread] at h
      cases err <;> cases h

/-! ## What each end has done -/

variable {hello : End → FlowHandshake}

/-- What an end may have written when it has lost the connection. -/
inductive Wrote (hello : End → FlowHandshake) (e : End) : List Proto.ControlMessage → Prop
  | nothing : Wrote hello e []
  | hello : Wrote hello e [helloMessage (hello e)]
  | accepted : (hello e.other).protocolVersion = 1 →
      Wrote hello e [helloMessage (hello e), ackMessage]

/-- The end has accepted the other, and gone on. -/
def Accepts (hello : End → FlowHandshake) (e : End) (mine : List Proto.ControlMessage) : Prop :=
  (hello e.other).protocolVersion = 1 ∧ [helloMessage (hello e), ackMessage] <+: mine

/-- What an end has written, by where it is; and what the other has, when that is known. -/
def EndOk (hello : End → FlowHandshake) (e : End) (pc : Negotiating)
    (mine theirs : List Proto.ControlMessage) : Prop :=
  match pc with
  | .openStream => mine = []
  | .writeHandshake => mine = []
  | .readHandshake => mine = [helloMessage (hello e)]
  | .writeReject => mine = [helloMessage (hello e)] ∧ (hello e.other).protocolVersion ≠ 1
  | .writeAck peerId => mine = [helloMessage (hello e)] ∧
      (hello e.other).protocolVersion = 1 ∧ peerId = (hello e.other).nodeId
  | .readAck peerId => mine = [helloMessage (hello e), ackMessage] ∧
      (hello e.other).protocolVersion = 1 ∧ peerId = (hello e.other).nodeId
  | .negotiated peerId => Accepts hello e mine ∧ Accepts hello e.other theirs ∧
      peerId = (hello e.other).nodeId
  | .failed (.frame _) => Wrote hello e mine
  | .failed .decode => False
  | .failed (.message text) =>
      (mine = [helloMessage (hello e), rejectMessage] ∧ (hello e.other).protocolVersion ≠ 1 ∧
        text = "Protocol version mismatch") ∨
      (mine = [helloMessage (hello e), ackMessage] ∧ (hello e).protocolVersion ≠ 1 ∧
        (hello e.other).protocolVersion = 1 ∧
        text = "Handshake rejected: Unsupported protocol version")

omit [Prost] in
/-- The other end may have written more. -/
theorem EndOk.mono {e : End} {pc : Negotiating} {mine theirs : List Proto.ControlMessage}
    (h : EndOk hello e pc mine theirs) (outs : List Proto.ControlMessage) :
    EndOk hello e pc mine (theirs ++ outs) := by
  cases pc with
  | negotiated peerId =>
    obtain ⟨hmine, ⟨hversion, hpre⟩, hpeer⟩ := h
    exact ⟨hmine, ⟨hversion, hpre.trans (List.prefix_append _ _)⟩, hpeer⟩
  | failed err => cases err <;> exact h
  | _ => exact h

/-- How many messages of the other an end has read. -/
def Negotiating.taken (received : Nat) : Negotiating → Option Nat
  | openStream => some 0
  | writeHandshake => some 0
  | readHandshake => some 0
  | writeReject => some 1
  | writeAck _ => some 1
  | readAck _ => some 1
  | negotiated _ => some (2 + received)
  | failed _ => none

structure LinkInv (hello : End → FlowHandshake) (s : Link) : Prop where
  ends : ∀ e, EndOk hello e (s.pc e) (s.written e) (s.written e.other)
  wire : ∀ e k, (s.pc e).taken (s.received e).length = some k →
    k ≤ (s.written e.other).length ∧ s.wire e.other = controlBytes ((s.written e.other).drop k)
  received : ∀ e, List.Forall₂ (fun r msg => r.1 = (hello e.other).nodeId ∧ r.2.Same msg)
    (s.received e) (((s.written e.other).drop 2).take (s.received e).length)
  idle : ∀ e, (∀ peerId, s.pc e ≠ .negotiated peerId) → s.received e = []
  short : ∀ e, ∀ msg ∈ s.written e, (Prost.encodeControl msg).length < 2 ^ 32

theorem LinkInv.start : LinkInv hello .start := by
  refine ⟨fun e => rfl, fun e k hk => ?_, fun e => .nil, fun e _ => rfl, fun e msg hmsg => ?_⟩
  · cases hk
    exact ⟨Nat.le_refl _, rfl⟩
  · exact absurd hmsg List.not_mem_nil

/-- What an end has received, the other has written after its handshake. -/
theorem LinkInv.received_le {s : Link} (h : LinkInv hello s) (e : End) :
    s.received e = [] ∨ 2 + (s.received e).length ≤ (s.written e.other).length := by
  by_cases hneg : ∀ peerId, s.pc e ≠ .negotiated peerId
  · exact Or.inl (h.idle e hneg)
  · push Not at hneg
    obtain ⟨peerId, hpc⟩ := hneg
    exact Or.inr (h.wire e _ (by rw [hpc]; rfl)).1

/-- What is left to show when an end moves on. -/
theorem LinkInv.move {s : Link} (h : LinkInv hello s) {e : End} {pc : Negotiating} {rest : Bytes}
    {outs : List Proto.ControlMessage}
    (hend : EndOk hello e pc (s.written e ++ outs) (s.written e.other))
    (hrest : ∀ k, pc.taken (s.received e).length = some k →
      k ≤ (s.written e.other).length ∧ rest = controlBytes ((s.written e.other).drop k))
    (hidle : (∀ peerId, pc ≠ .negotiated peerId) → s.received e = [])
    (hshort : ∀ msg ∈ outs, (Prost.encodeControl msg).length < 2 ^ 32) :
    LinkInv hello (s.move e pc rest outs) := by
  have hne := e.other_ne
  have hpc : (s.move e pc rest outs).pc e = pc := Function.update_self ..
  have hpc' : (s.move e pc rest outs).pc e.other = s.pc e.other := Function.update_of_ne hne ..
  have hw : (s.move e pc rest outs).written e = s.written e ++ outs := Function.update_self ..
  have hw' : (s.move e pc rest outs).written e.other = s.written e.other :=
    Function.update_of_ne hne ..
  have hwire : (s.move e pc rest outs).wire e = s.wire e ++ controlBytes outs :=
    Function.update_self ..
  have hwire' : (s.move e pc rest outs).wire e.other = rest := by
    show Function.update (Function.update s.wire e.other rest) e _ e.other = rest
    rw [Function.update_of_ne hne, Function.update_self]
  have hr : (s.move e pc rest outs).received = s.received := rfl
  have htaken := h.received_le e.other
  rw [End.other_other] at htaken
  refine ⟨fun e' => ?_, fun e' k hk => ?_, fun e' => ?_, fun e' he' => ?_, fun e' msg hmsg => ?_⟩
  · rcases e.eq_or_other e' with rfl | rfl
    · rw [hpc, hw, hw']
      exact hend
    · rw [hpc', hw', End.other_other, hw]
      have hother := h.ends e.other
      rw [End.other_other] at hother
      exact hother.mono outs
  · rcases e.eq_or_other e' with rfl | rfl
    · rw [hpc] at hk
      rw [hw', hwire']
      exact hrest k hk
    · rw [hpc'] at hk
      obtain ⟨hle, hold⟩ := h.wire e.other k hk
      rw [End.other_other] at hle hold ⊢
      rw [hw, hwire, hold, List.length_append, List.drop_append_of_le_length hle]
      exact ⟨by omega, (List.flatMap_append ..).symm⟩
  · rw [hr]
    rcases e.eq_or_other e' with rfl | rfl
    · rw [hw']
      exact h.received e'
    · have hold := h.received e.other
      rw [End.other_other] at hold ⊢
      rw [hw]
      rcases htaken with hnil | hle
      · rw [hnil]
        exact .nil
      · rw [List.drop_append_of_le_length (by omega), List.take_append_of_le_length]
        · exact hold
        · rw [List.length_drop]
          omega
  · rw [hr]
    rcases e.eq_or_other e' with rfl | rfl
    · rw [hpc] at he'
      exact hidle he'
    · rw [hpc'] at he'
      exact h.idle _ he'
  · rcases e.eq_or_other e' with rfl | rfl
    · rw [hw] at hmsg
      rcases List.mem_append.mp hmsg with hmsg | hmsg
      · exact h.short _ msg hmsg
      · exact hshort msg hmsg
    · rw [hw'] at hmsg
      exact h.short _ msg hmsg

omit [Prost] in
/-- What there is to read of an end. -/
theorem EndOk.cases {e : End} {pc : Negotiating} {mine theirs : List Proto.ControlMessage}
    (h : EndOk hello e pc mine theirs) :
    mine = [] ∨ mine = [helloMessage (hello e)] ∨
      (mine = [helloMessage (hello e), rejectMessage] ∧ (hello e.other).protocolVersion ≠ 1) ∨
      ∃ sent, mine = helloMessage (hello e) :: ackMessage :: sent ∧
        (hello e.other).protocolVersion = 1 := by
  cases pc with
  | openStream => exact Or.inl h
  | writeHandshake => exact Or.inl h
  | readHandshake => exact Or.inr (Or.inl h)
  | writeReject => exact Or.inr (Or.inl h.1)
  | writeAck peerId => exact Or.inr (Or.inl h.1)
  | readAck peerId => exact Or.inr (Or.inr (Or.inr ⟨[], h.1, h.2.1⟩))
  | negotiated peerId =>
    obtain ⟨hversion, sent, rfl⟩ := h.1
    exact Or.inr (Or.inr (Or.inr ⟨sent, rfl, hversion⟩))
  | failed err =>
    cases err with
    | frame err =>
      cases h with
      | nothing => exact Or.inl rfl
      | hello => exact Or.inr (Or.inl rfl)
      | accepted hversion => exact Or.inr (Or.inr (Or.inr ⟨[], rfl, hversion⟩))
    | decode => exact absurd h id
    | message text =>
      rcases h with ⟨hmine, hversion, -⟩ | ⟨hmine, -, hversion, -⟩
      · exact Or.inr (Or.inr (Or.inl ⟨hmine, hversion⟩))
      · exact Or.inr (Or.inr (Or.inr ⟨[], hmine, hversion⟩))

omit [Prost] in
theorem same_hello {msg : Proto.ControlMessage} {h : FlowHandshake}
    (hsame : msg.Same (helloMessage h)) : ∃ h', msg = ⟨some (.handshake h')⟩ ∧ h'.Same h := by
  obtain ⟨message⟩ := msg
  cases hsame with
  | some hsame =>
    cases hsame with
    | handshake h => exact ⟨_, rfl, h⟩
    | refl _ => exact ⟨h, rfl, rfl, rfl, rfl, fun _ => rfl, rfl, rfl, rfl⟩

omit [Prost] in
theorem same_ack {msg : Proto.ControlMessage} {a : HandshakeAck}
    (hsame : msg.Same ⟨some (.handshakeAck a)⟩) : msg = ⟨some (.handshakeAck a)⟩ := by
  obtain ⟨message⟩ := msg
  cases hsame with
  | some hsame =>
    cases hsame with
    | refl _ => rfl

theorem fits_short {msg : Proto.ControlMessage} (h : Fits msg) :
    (Prost.encodeControl msg).length < 2 ^ 32 := by
  unfold Fits maxFrameSize at h
  omega

/-- An end that waits for the other's handshake has it, once the other has written. -/
theorem LinkInv.readMessage_hello {s : Link} (hfits : HandshakeFits hello)
    (h : LinkInv hello s) {e : End} (hpc : s.pc e = .readHandshake) :
    (s.written e.other = [] ∧ readMessage (s.wire e.other) = none) ∨
    ∃ tail h', s.written e.other = helloMessage (hello e.other) :: tail ∧
      h'.Same (hello e.other) ∧
      readMessage (s.wire e.other) = some (.ok ⟨some (.handshake h')⟩, controlBytes tail) := by
  obtain ⟨-, hwire⟩ := h.wire e 0 (by rw [hpc]; rfl)
  rw [List.drop_zero] at hwire
  have hhead : s.written e.other = [] ∨
      ∃ tail, s.written e.other = helloMessage (hello e.other) :: tail := by
    rcases (h.ends e.other).cases with hw | hw | ⟨hw, -⟩ | ⟨sent, hw, -⟩
    · exact Or.inl hw
    · exact Or.inr ⟨_, hw⟩
    · exact Or.inr ⟨_, hw⟩
    · exact Or.inr ⟨_, hw⟩
  rw [hwire]
  rcases hhead with hw | ⟨tail, hw⟩
  · rw [hw]
    exact Or.inl ⟨rfl, rfl⟩
  · rw [hw]
    obtain ⟨msg, hread, hsame⟩ := readMessage_frame (hfits.hello e.other) tail
    obtain ⟨h', rfl, hh⟩ := same_hello hsame
    exact Or.inr ⟨tail, h', rfl, hh, hread⟩

/-- An end that waits for the other's answer has it, once the other has given one. -/
theorem LinkInv.readMessage_ack {s : Link} (hfits : HandshakeFits hello) (h : LinkInv hello s)
    {e : End} {peerId : NodeId} (hpc : s.pc e = .readAck peerId) :
    (s.written e.other = [helloMessage (hello e.other)] ∧ readMessage (s.wire e.other) = none) ∨
    (s.written e.other = [helloMessage (hello e.other), rejectMessage] ∧
      (hello e).protocolVersion ≠ 1 ∧
      readMessage (s.wire e.other) = some (.ok rejectMessage, controlBytes [])) ∨
    ∃ sent, s.written e.other = helloMessage (hello e.other) :: ackMessage :: sent ∧
      (hello e).protocolVersion = 1 ∧
      readMessage (s.wire e.other) = some (.ok ackMessage, controlBytes sent) := by
  obtain ⟨hle, hwire⟩ := h.wire e 1 (by rw [hpc]; rfl)
  have hother := (h.ends e.other).cases
  rw [End.other_other] at hother
  rw [hwire]
  rcases hother with hw | hw | ⟨hw, hversion⟩ | ⟨sent, hw, hversion⟩
  · rw [hw] at hle
    cases hle
  · rw [hw]
    exact Or.inl ⟨rfl, rfl⟩
  · rw [hw]
    obtain ⟨msg, hread, hsame⟩ := readMessage_frame hfits.reject []
    rw [same_ack hsame] at hread
    exact Or.inr (Or.inl ⟨rfl, hversion, hread⟩)
  · rw [hw]
    obtain ⟨msg, hread, hsame⟩ := readMessage_frame hfits.ack sent
    rw [same_ack hsame] at hread
    exact Or.inr (Or.inr ⟨sent, rfl, hversion, hread⟩)

/-- A step of the negotiation. -/
theorem LinkInv.act {s : Link} (hfits : HandshakeFits hello) (h : LinkInv hello s)
    {e : End} {pc : Negotiating} {rest : Bytes} {outs : List Proto.ControlMessage}
    (hact : (s.pc e).act (hello e) (s.ready e) (s.wire e.other) = some (pc, rest, outs)) :
    LinkInv hello (s.move e pc rest outs) := by
  have hend := h.ends e
  have hread := h.wire e
  have hidle : s.received e = [] := h.idle e fun peerId hpc => by
    rw [hpc] at hact
    cases hact
  cases hpc : s.pc e with
  | openStream =>
    rw [hpc] at hact hend hread
    obtain ⟨-, hact⟩ := Option.ite_none_right_eq_some.mp hact
    cases hact
    refine h.move ?_ hread (fun _ => hidle) fun msg hmsg => absurd hmsg List.not_mem_nil
    rw [List.append_nil]
    exact hend
  | writeHandshake =>
    rw [hpc] at hact hend hread
    cases hact
    refine h.move ?_ hread (fun _ => hidle) fun msg hmsg => ?_
    · rw [show s.written e = [] from hend]
      rfl
    · rw [List.mem_singleton.mp hmsg]
      exact fits_short (hfits.hello e)
  | readHandshake =>
    rw [hpc] at hact hend
    rcases h.readMessage_hello hfits hpc with ⟨-, hnone⟩ | ⟨tail, h', hw, hsame, hsome⟩
    · simp [Negotiating.act, hnone] at hact
    · simp only [Negotiating.act, hsome, Option.map_some, Negotiating.onHandshake,
        hsame.protocolVersion, hsame.nodeId] at hact
      have htail : controlBytes tail = controlBytes ((s.written e.other).drop 1) := by rw [hw]; rfl
      have hlen : 1 ≤ (s.written e.other).length := by rw [hw]; exact Nat.succ_le_succ (Nat.zero_le _)
      split at hact
      · next hversion =>
        cases hact
        refine h.move ?_ (fun k hk => ?_) (fun _ => hidle) fun msg hmsg => absurd hmsg List.not_mem_nil
        · rw [List.append_nil]
          exact ⟨hend, hversion⟩
        · cases hk
          exact ⟨hlen, htail⟩
      · next hversion =>
        cases hact
        refine h.move ?_ (fun k hk => ?_) (fun _ => hidle) fun msg hmsg => absurd hmsg List.not_mem_nil
        · rw [List.append_nil]
          exact ⟨hend, not_not.mp hversion, rfl⟩
        · cases hk
          exact ⟨hlen, htail⟩
  | writeReject =>
    rw [hpc] at hact hend hread
    cases hact
    refine h.move ?_ (fun k hk => by cases hk) (fun _ => hidle) fun msg hmsg => ?_
    · rw [show s.written e = _ from hend.1]
      exact Or.inl ⟨rfl, hend.2, rfl⟩
    · rw [List.mem_singleton.mp hmsg]
      exact fits_short hfits.reject
  | writeAck peerId =>
    rw [hpc] at hact hend hread
    cases hact
    refine h.move ?_ hread (fun _ => hidle) fun msg hmsg => ?_
    · rw [show s.written e = _ from hend.1]
      exact ⟨rfl, hend.2⟩
    · rw [List.mem_singleton.mp hmsg]
      exact fits_short hfits.ack
  | readAck peerId =>
    rw [hpc] at hact hend
    rcases h.readMessage_ack hfits hpc with ⟨-, hnone⟩ | ⟨hw, hversion, hsome⟩ | ⟨sent, hw, hversion, hsome⟩
    · simp [Negotiating.act, hnone] at hact
    · simp only [Negotiating.act, hsome, Option.map_some, Negotiating.onAck, rejectMessage] at hact
      cases hact
      refine h.move ?_ (fun k hk => by cases hk) (fun _ => hidle)
        fun msg hmsg => absurd hmsg List.not_mem_nil
      rw [List.append_nil]
      exact Or.inr ⟨hend.1, hversion, hend.2.1, rfl⟩
    · simp only [Negotiating.act, hsome, Option.map_some, Negotiating.onAck, ackMessage] at hact
      cases hact
      refine h.move ?_ (fun k hk => ?_) (fun _ => hidle) fun msg hmsg => absurd hmsg List.not_mem_nil
      · rw [List.append_nil]
        refine ⟨⟨hend.2.1, hend.1 ▸ List.prefix_refl _⟩, ⟨?_, ?_⟩, hend.2.2⟩
        · rw [End.other_other]
          exact hversion
        · rw [hw]
          exact ⟨sent, rfl⟩
      · rw [hidle] at hk
        cases hk
        rw [hw]
        exact ⟨Nat.le_add_left 2 _, rfl⟩
  | negotiated peerId =>
    rw [hpc] at hact
    cases hact
  | failed err =>
    rw [hpc] at hact
    cases hact

omit [Prost] in
theorem EndOk.wrote {e : End} {pc : Negotiating} {mine theirs : List Proto.ControlMessage}
    (h : EndOk hello e pc mine theirs) (hnot : ¬ pc.Ended) : Wrote hello e mine := by
  cases pc with
  | openStream | writeHandshake =>
    rw [show mine = [] from h]
    exact .nothing
  | readHandshake =>
    rw [show mine = _ from h]
    exact .hello
  | writeReject | writeAck =>
    rw [h.1]
    exact .hello
  | readAck =>
    rw [h.1]
    exact .accepted h.2.1
  | negotiated | failed => exact absurd trivial hnot

theorem LinkInv.lose {s : Link} (h : LinkInv hello s) {e : End} {err : FrameError}
    (hnot : ¬ (s.pc e).Ended) :
    LinkInv hello (s.move e (.failed (.frame err)) (s.wire e.other) []) := by
  have hidle : s.received e = [] := h.idle e fun peerId hpc => by
    rw [hpc] at hnot
    exact hnot trivial
  refine h.move ?_ (fun k hk => by cases hk) (fun _ => hidle)
    fun msg hmsg => absurd hmsg List.not_mem_nil
  rw [List.append_nil]
  exact (h.ends e).wrote hnot

theorem LinkInv.send {s : Link} (h : LinkInv hello s) {e : End} {peerId : NodeId}
    {msg : Proto.ControlMessage} (hpc : s.pc e = .negotiated peerId)
    (hshort : (Prost.encodeControl msg).length < 2 ^ 32) :
    LinkInv hello (s.move e (s.pc e) (s.wire e.other) [msg]) := by
  refine h.move ?_ (h.wire e) (h.idle e) fun m hm => by rw [List.mem_singleton.mp hm]; exact hshort
  have hend := h.ends e
  rw [hpc] at hend ⊢
  obtain ⟨⟨hversion, hpre⟩, htheirs, hpeer⟩ := hend
  exact ⟨⟨hversion, hpre.trans (List.prefix_append _ _)⟩, htheirs, hpeer⟩

/-- The reader of one end takes a message off what the other has written. -/
theorem LinkInv.receive {s : Link} (h : LinkInv hello s) {e : End} {peerId : NodeId}
    {msg : Proto.ControlMessage} {rest : Bytes} (hpc : s.pc e = .negotiated peerId)
    (hread : readMessage (s.wire e.other) = some (.ok msg, rest)) :
    LinkInv hello
      { s with
        wire := Function.update s.wire e.other rest
        received := Function.update s.received e (s.received e ++ [(peerId, msg)]) } := by
  have hpeer : peerId = (hello e.other).nodeId := by
    have hend := h.ends e
    rw [hpc] at hend
    exact hend.2.2
  obtain ⟨hle, hwire⟩ := h.wire e _ (by rw [hpc]; rfl)
  rw [hwire] at hread
  obtain ⟨msg₀, tail, hdrop, rfl, hsame⟩ :=
    of_readMessage (fun m hm => h.short _ m (List.mem_of_mem_drop hm)) hread
  have hne := e.other_ne
  have hlen := congrArg List.length hdrop
  rw [List.length_drop, List.length_cons] at hlen
  have htail : (s.written e.other).drop (2 + ((s.received e).length + 1)) = tail := by
    rw [← Nat.add_assoc, ← List.tail_drop, hdrop]
    rfl
  refine ⟨h.ends, fun e' k hk => ?_, fun e' => ?_, fun e' he' => ?_, h.short⟩
  · rcases e.eq_or_other e' with rfl | rfl
    · simp only [hpc, Function.update_self, List.length_append, List.length_singleton] at hk ⊢
      cases hk
      exact ⟨by omega, by rw [htail]⟩
    · simp only [End.other_other, Function.update_of_ne hne, Function.update_of_ne hne.symm] at hk ⊢
      have hold := h.wire e.other k hk
      rw [End.other_other] at hold
      exact hold
  · rcases e.eq_or_other e' with rfl | rfl
    · simp only [Function.update_self, List.length_append, List.length_singleton]
      have hget : ((s.written e'.other).drop 2)[(s.received e').length]? = some msg₀ := by
        rw [List.getElem?_drop, ← List.head?_drop, hdrop]
        rfl
      rw [List.take_add_one, hget]
      exact List.rel_append (h.received e') (.cons ⟨hpeer, hsame⟩ .nil)
    · simp only [Function.update_of_ne hne]
      exact h.received e.other
  · rcases e.eq_or_other e' with rfl | rfl
    · exact absurd hpc (he' peerId)
    · simp only [Function.update_of_ne hne]
      exact h.idle e.other he'

/-- One step. -/
theorem LinkInv.step (hfits : HandshakeFits hello) {s s' : Link} {l : LinkLabel}
    (h : LinkInv hello s) (hl : l.Short) (hs : LinkStep hello s l s') : LinkInv hello s' := by
  cases hs with
  | act hact => exact h.act hfits hact
  | lose hnot => exact h.lose hnot
  | send hpc => exact h.send hpc hl
  | receive hpc hread => exact h.receive hpc hread

/-- A run. -/
theorem LinkInv.run (hfits : HandshakeFits hello) {s : Link}
    {past : List (Link × LinkLabel)} (h : History (LinkStep hello) .start past s)
    (hshort : ∀ x ∈ past, x.2.Short) : LinkInv hello s := by
  induction h with
  | start => exact .start
  | step _ hs ih =>
    obtain ⟨hl, hpast⟩ := List.forall_mem_cons.mp hshort
    exact (ih hpast).step hfits hl hs

/-! ## A run -/

/-- The ends take these steps. -/
def Link.acts (hello : End → FlowHandshake) : List End → Link → Option Link
  | [], s => some s
  | e :: es, s =>
    match (s.pc e).act (hello e) (s.ready e) (s.wire e.other) with
    | some (pc, rest, outs) => Link.acts hello es (s.move e pc rest outs)
    | none => none

theorem History.acts {es : List End} {past : List (Link × LinkLabel)} {s s' : Link}
    (h : History (LinkStep hello) .start past s) (hshort : ∀ x ∈ past, x.2.Short)
    (hacts : s.acts hello es = some s') :
    ∃ past', History (LinkStep hello) .start past' s' ∧ ∀ x ∈ past', x.2.Short := by
  induction es generalizing past s with
  | nil =>
    cases hacts
    exact ⟨past, h, hshort⟩
  | cons e es ih =>
    unfold Link.acts at hacts
    split at hacts
    · next hact => exact ih (.step h (.act hact)) (List.forall_mem_cons.mpr ⟨trivial, hshort⟩) hacts
    · cases hacts

/-- Whom an end has negotiated with. -/
def Negotiating.peer : Negotiating → Option NodeId
  | negotiated peerId => some peerId
  | _ => none

omit [Prost] in
theorem Negotiating.of_peer {pc : Negotiating} {peerId : NodeId} (h : pc.peer = some peerId) :
    pc = .negotiated peerId := by
  cases pc <;> cases h
  rfl

end

section
open Protobuf

/-- Two fresh nodes, "a" and "b", as they announce themselves. -/
def twoHellos : End → FlowHandshake
  | .initiator => (FlowNode.new "a" ∅ : FlowNode VecGraph Unit).handshake
  | .acceptor => (FlowNode.new "b" ∅ : FlowNode VecGraph Unit).handshake

theorem fits_twoHellos : HandshakeFits twoHellos where
  hello e := by cases e <;> decide +kernel
  ack := by decide +kernel
  reject := by decide +kernel

theorem exists_negotiated : ∃ past s, History (LinkStep twoHellos) .start past s ∧
    (∀ x ∈ past, x.2.Short) ∧ ∀ e, s.pc e = .negotiated (twoHellos e.other).nodeId := by
  have hrun : (Link.start.acts twoHellos [.initiator, .initiator, .acceptor, .acceptor, .acceptor,
      .acceptor, .initiator, .initiator, .initiator, .acceptor]).map
        (fun s => ((s.pc .initiator).peer, (s.pc .acceptor).peer)) = some (some "b", some "a") := by
    decide +kernel
  obtain ⟨s, hacts, hpeers⟩ := Option.map_eq_some_iff.mp hrun
  obtain ⟨hb, ha⟩ := Prod.mk.inj hpeers
  obtain ⟨past, h, hshort⟩ := History.acts .start (fun x hx => absurd hx List.not_mem_nil) hacts
  refine ⟨past, s, h, hshort, fun e => ?_⟩
  cases e with
  | initiator => exact Negotiating.of_peer hb
  | acceptor => exact Negotiating.of_peer ha

end

section
variable [Prost] {hello : End → FlowHandshake}

/-! ## Agreement -/

omit [Prost] in
/-- An end that has negotiated, and the other: both are of version 1. -/
theorem EndOk.versions {e : End} {peerId : NodeId} {mine theirs : List Proto.ControlMessage}
    (h : EndOk hello e (.negotiated peerId) mine theirs) (e' : End) :
    (hello e').protocolVersion = 1 := by
  obtain ⟨⟨hother, -⟩, ⟨hself, -⟩, -⟩ := h
  rw [End.other_other] at hself
  rcases e.eq_or_other e' with rfl | rfl
  · exact hself
  · exact hother

omit [Prost] in
/-- Why an end fails. -/
theorem EndOk.of_failed {e : End} {err : HandshakeError} {mine theirs : List Proto.ControlMessage}
    (h : EndOk hello e (.failed err) mine theirs) :
    (∃ f, err = .frame f) ∨
      (∃ text, err = .message text) ∧ ∃ e', (hello e').protocolVersion ≠ 1 := by
  cases err with
  | frame f => exact Or.inl ⟨f, rfl⟩
  | decode => exact absurd h id
  | message text =>
    rcases h with ⟨-, hversion, -⟩ | ⟨-, hversion, -, -⟩
    · exact Or.inr ⟨⟨text, rfl⟩, e.other, hversion⟩
    · exact Or.inr ⟨⟨text, rfl⟩, e, hversion⟩

/-- **What a negotiated stream means.**  Whatever the order of the steps and whoever loses the
connection: if an end has negotiated, it knows the other by its name, both are of version 1, the
other has accepted it, and what it has received are the messages that the other has written after
its handshake, in order and none left out.  If an end has failed, it has lost the connection, or
one of the two is not of version 1. -/
theorem negotiation_agrees (hfits : HandshakeFits hello)
    {past : List (Link × LinkLabel)} {s : Link} (h : History (LinkStep hello) .start past s)
    (hshort : ∀ x ∈ past, x.2.Short) (e : End) :
    (∀ peerId, s.pc e = .negotiated peerId →
      peerId = (hello e.other).nodeId ∧ (∀ e', (hello e').protocolVersion = 1) ∧
      ∃ sent, s.written e.other = helloMessage (hello e.other) :: ackMessage :: sent ∧
        List.Forall₂ (fun r msg => r.1 = peerId ∧ r.2.Same msg) (s.received e)
          (sent.take (s.received e).length)) ∧
    ∀ err, s.pc e = .failed err →
      (∃ f, err = .frame f) ∨ ∃ e', (hello e').protocolVersion ≠ 1 := by
  have hinv := LinkInv.run hfits h hshort
  have hend := hinv.ends e
  constructor
  · intro peerId hpc
    rw [hpc] at hend
    have hversions := hend.versions
    obtain ⟨-, ⟨-, sent, hw⟩, rfl⟩ := hend
    have hreceived := hinv.received e
    rw [← hw] at hreceived
    exact ⟨rfl, hversions, sent, hw.symm, hreceived⟩
  · intro err hpc
    rw [hpc] at hend
    rcases hend.of_failed with hframe | ⟨-, hversion⟩
    · exact Or.inl hframe
    · exact Or.inr hversion

end

section
open Protobuf

theorem negotiation_agrees_two : ∃ past s, History (LinkStep twoHellos) .start past s ∧
    ∀ e, s.pc e = .negotiated (twoHellos e.other).nodeId ∧
      ∃ sent, s.written e.other = helloMessage (twoHellos e.other) :: ackMessage :: sent := by
  obtain ⟨past, s, h, hshort, hpc⟩ := exists_negotiated
  refine ⟨past, s, h, fun e => ⟨hpc e, ?_⟩⟩
  obtain ⟨-, -, sent, hw, -⟩ := (negotiation_agrees fits_twoHellos h hshort e).1 _ (hpc e)
  exact ⟨sent, hw⟩

end

section
variable [Prost] {hello : End → FlowHandshake}

/-! ## Progress -/

/-- How many steps an end has before it. -/
def Negotiating.rank : Negotiating → Nat
  | openStream => 5
  | writeHandshake => 4
  | readHandshake => 3
  | writeReject => 2
  | writeAck _ => 2
  | readAck _ => 1
  | negotiated _ => 0
  | failed _ => 0

def Link.rank (s : Link) : Nat := (s.pc .initiator).rank + (s.pc .acceptor).rank

/-- An end waits for the other only as long as the other has written less than it waits for. -/
theorem LinkInv.waits {s : Link} (hfits : HandshakeFits hello)
    (h : LinkInv hello s) (e : End)
    (hblocked : (s.pc e).act (hello e) (s.ready e) (s.wire e.other) = none) :
    (s.pc e).Ended ∨ (s.pc e = .openStream ∧ e = .acceptor ∧ s.written .initiator = []) ∨
      (s.pc e = .readHandshake ∧ s.written e.other = []) ∨
      ∃ peerId, s.pc e = .readAck peerId ∧
        s.written e.other = [helloMessage (hello e.other)] := by
  cases hpc : s.pc e with
  | openStream =>
    rw [hpc] at hblocked
    refine Or.inr (Or.inl ⟨rfl, ?_⟩)
    cases e with
    | initiator => cases hblocked
    | acceptor =>
      refine ⟨rfl, ?_⟩
      cases hw : s.written .initiator with
      | nil => rfl
      | cons msg msgs => simp [Negotiating.act, Link.ready, hw] at hblocked
  | readHandshake =>
    rw [hpc] at hblocked
    rcases h.readMessage_hello hfits hpc with ⟨hw, -⟩ | ⟨tail, h', -, -, hsome⟩
    · exact Or.inr (Or.inr (Or.inl ⟨rfl, hw⟩))
    · simp [Negotiating.act, hsome] at hblocked
  | readAck peerId =>
    rw [hpc] at hblocked
    rcases h.readMessage_ack hfits hpc with ⟨hw, -⟩ | ⟨-, -, hsome⟩ | ⟨sent, -, -, hsome⟩
    · exact Or.inr (Or.inr (Or.inr ⟨peerId, rfl, hw⟩))
    · simp [Negotiating.act, hsome] at hblocked
    · simp [Negotiating.act, hsome] at hblocked
  | writeHandshake | writeReject | writeAck peerId =>
    rw [hpc] at hblocked
    cases hblocked
  | negotiated peerId | failed err => exact Or.inl trivial

end

section
open Protobuf

end

end Stric.Flow
