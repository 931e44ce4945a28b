import Stric.Flow.Wire
import Stric.Pool.Protobuf

/-!
# Frames on a stream (`frame.rs`)

`write_frame` writes the length of a message's encoding, cast to 32 bits, and the encoding;
`read_frame` refuses a length over 16 MiB.  The writer is a parameter `W`: what `AsyncWrite` says
of it is that a write that succeeds appends its bytes to what was sent.

    frames_round_trip_iff    what was written is read back exactly if no encoding is over 16 MiB
-/

namespace Stric.Flow

open Stric.Pool

inductive FrameError where
  | unexpectedEof
  | io (text : String)
  | encode (text : String)
  | message (text : String)
deriving DecidableEq

/-- `prost::Message`: the encoding into an empty vector. -/
class Message (T : Type) where
  encode : T → Except FrameError Bytes

class AsyncWrite (W : Type) where
  sent : W → Bytes
  writeAll : W → Bytes → Except FrameError W
  flush : W → Except FrameError W
  sent_writeAll : ∀ w bytes w', writeAll w bytes = .ok w' → sent w' = sent w ++ bytes
  sent_flush : ∀ w w', flush w = .ok w' → sent w' = sent w

section
variable {W T : Type} [AsyncWrite W] [Message T]

def writeFrame (writer : W) (msg : T) : Except FrameError W := do
  let buf ← Message.encode msg
  let len := UInt32.ofNat buf.length
  let writer ← AsyncWrite.writeAll writer (toBeBytes len)
  let writer ← AsyncWrite.writeAll writer buf
  AsyncWrite.flush writer

/-- The messages, one after the other on one stream. -/
def writeFrames (writer : W) (msgs : List T) : Except FrameError W :=
  msgs.foldlM writeFrame writer

end

def maxFrameSize : Nat := 16777216

/-- What the call returns, and where it leaves the reader. -/
def readFrame (reader : Bytes) : Except FrameError Bytes × Bytes :=
  match readLength reader with
  | none => (.error .unexpectedEof, [])
  | some (len, reader) =>
    if len > maxFrameSize then
      (.error (.message ("Frame length " ++ toString len ++ " exceeds maximum size of 16 MiB")),
        reader)
    else
      match readExact len reader with
      | none => (.error .unexpectedEof, [])
      | some (buf, reader) => (.ok buf, reader)

/-- Calls of `read_frame`, one after the other on one stream. -/
def readFrames : Nat → Bytes → List (Except FrameError Bytes) × Bytes
  | 0, reader => ([], reader)
  | n + 1, reader =>
    let (result, reader) := readFrame reader
    let (results, reader) := readFrames n reader
    (result :: results, reader)

/-! ## One frame -/

theorem readFrame_frame {e : Bytes} (h : e.length ≤ maxFrameSize) (rest : Bytes) :
    readFrame (frame e ++ rest) = (.ok e, rest) := by
  have hmod : e.length % 2 ^ 32 = e.length := by
    unfold maxFrameSize at h
    omega
  unfold readFrame
  rw [readLength_frame]
  simp only [hmod, Nat.not_lt.mpr h, if_false, readExact_append rfl]

/-- A longer encoding is refused or, if the cast cuts its length, read short. -/
theorem readFrame_too_long {e : Bytes} (h : maxFrameSize < e.length) (rest : Bytes) :
    (readFrame (frame e ++ rest)).1 ≠ .ok e := by
  unfold readFrame
  rw [readLength_frame]
  simp only
  split
  · exact fun heq => by cases heq
  · next hlen =>
    split
    · exact fun heq => by cases heq
    · next buf _ hread =>
      intro heq
      cases heq
      have := length_of_readExact hread
      omega

theorem readFrame_frame_iff (e rest : Bytes) :
    (readFrame (frame e ++ rest)).1 = .ok e ↔ e.length ≤ maxFrameSize := by
  constructor
  · intro h
    exact Nat.le_of_not_lt fun hlt => readFrame_too_long hlt rest h
  · intro h
    rw [readFrame_frame h]

/-! ## A stream -/

/-- The frames are read back exactly if none of them is too long. -/
theorem readFrames_flatMap_iff (es : List Bytes) :
    readFrames es.length (es.flatMap frame) = (es.map .ok, []) ↔
      ∀ e ∈ es, e.length ≤ maxFrameSize := by
  induction es with
  | nil => exact iff_of_true rfl fun e he => absurd he List.not_mem_nil
  | cons e es ih =>
    rw [List.forall_mem_cons, List.length_cons, List.flatMap_cons, List.map_cons]
    unfold readFrames
    constructor
    · intro h
      simp only [Prod.mk.injEq, List.cons.injEq] at h
      obtain ⟨⟨hhead, htail⟩, hrest⟩ := h
      have hlen := (readFrame_frame_iff e _).mp hhead
      rw [readFrame_frame hlen] at htail hrest
      exact ⟨hlen, ih.mp (Prod.ext htail hrest)⟩
    · rintro ⟨hlen, hes⟩
      simp only [readFrame_frame hlen, ih.mpr hes]

section
variable {W T : Type} [AsyncWrite W] [Message T]

theorem sent_writeFrame {w w' : W} {msg : T} (h : writeFrame w msg = .ok w') :
    ∃ e, Message.encode msg = .ok e ∧ AsyncWrite.sent w' = AsyncWrite.sent w ++ frame e := by
  unfold writeFrame at h
  cases he : Message.encode msg with
  | error err => simp [he, bind, Except.bind] at h
  | ok e =>
    simp only [he, bind, Except.bind] at h
    split at h
    · cases h
    · next w₁ h₁ =>
      split at h
      · cases h
      · next w₂ h₂ =>
        refine ⟨e, rfl, ?_⟩
        rw [AsyncWrite.sent_flush _ _ h, AsyncWrite.sent_writeAll _ _ _ h₂,
          AsyncWrite.sent_writeAll _ _ _ h₁, List.append_assoc]
        rfl

theorem sent_writeFrames {w w' : W} {msgs : List T} (h : writeFrames w msgs = .ok w') :
    ∃ es : List Bytes, msgs.map Message.encode = es.map .ok ∧
      AsyncWrite.sent w' = AsyncWrite.sent w ++ es.flatMap frame := by
  induction msgs generalizing w with
  | nil =>
    cases h
    exact ⟨[], rfl, (List.append_nil _).symm⟩
  | cons msg msgs ih =>
    unfold writeFrames at h
    rw [List.foldlM_cons] at h
    cases hw : writeFrame w msg with
    | error err => simp [hw, bind, Except.bind] at h
    | ok w₁ =>
      simp only [hw, bind, Except.bind] at h
      obtain ⟨e, he, hsent₁⟩ := sent_writeFrame hw
      obtain ⟨es, hes, hsent⟩ := ih h
      refine ⟨e :: es, by rw [List.map_cons, he, hes, List.map_cons], ?_⟩
      rw [hsent, hsent₁, List.flatMap_cons, List.append_assoc]

/-- **When framing round-trips.**  After the messages have been written to a fresh stream, reading
as many frames gives exactly their encodings and leaves nothing, exactly if no encoding is longer
than the reader's limit. -/
theorem frames_round_trip_iff {w w' : W} {msgs : List T} (hfresh : AsyncWrite.sent w = [])
    (hwrite : writeFrames w msgs = .ok w') :
    readFrames msgs.length (AsyncWrite.sent w') = (msgs.map Message.encode, []) ↔
      ∀ msg ∈ msgs, ∀ e, Message.encode msg = .ok e → e.length ≤ maxFrameSize := by
  obtain ⟨es, hes, hsent⟩ := sent_writeFrames hwrite
  have hlen : msgs.length = es.length := by
    have := congrArg List.length hes
    simpa using this
  rw [hsent, hfresh, List.nil_append, hes, hlen, readFrames_flatMap_iff]
  -- the encodings are those of the messages
  have hmem : ∀ e, e ∈ es ↔ ∃ msg ∈ msgs, Message.encode msg = .ok e := by
    intro e
    have : Except.ok e ∈ es.map (Except.ok (ε := FrameError)) ↔ e ∈ es := by simp
    rw [← this, ← hes, List.mem_map]
  constructor
  · intro h msg hmsg e he
    exact h e ((hmem e).mpr ⟨msg, hmsg, he⟩)
  · intro h e he
    obtain ⟨msg, hmsg, he⟩ := (hmem e).mp he
    exact h msg hmsg e he

end

/-! ## Streams and messages -/

/-- `Vec<u8>` as a stream. -/
instance : AsyncWrite Bytes where
  sent w := w
  writeAll w bytes := .ok (w ++ bytes)
  flush w := .ok w
  sent_writeAll _ _ _ h := by
    cases h
    rfl
  sent_flush _ _ h := by
    cases h
    rfl

instance : Message Ping where
  encode ping := .ok (encodeFields (varintField 1 ping.sentAt.toNat))

def ForwardingTargets.fields (t : ForwardingTargets) : List Field :=
  t.sendTo.map fun id => ⟨1, .len (utf8 id)⟩

/-- An enumeration is sent as the 64 bits of its number. -/
def enumField (tag : Nat) (n : Int32) : List Field := varintField tag n.toInt64.toUInt64.toNat

def RoutingHeader.fields (h : RoutingHeader) : List Field :=
  bytesField 1 (utf8 h.sourceNodeId) ++ bytesField 2 (utf8 h.flowId) ++
  bytesField 3 (utf8 h.topicId) ++ bytesField 4 (utf8 h.sessionId) ++
  bytesField 5 (utf8 h.nonce) ++ varintField 6 h.timestamp.toNat ++
  varintField 7 h.deadline.toNat ++ enumField 8 h.deliveryMode ++
  h.forwardingTable.entries.map fun e => ⟨9, .len (encodeFields
    (bytesField 1 (utf8 e.1) ++ bytesField 2 (encodeFields e.2.fields)))⟩

def Envelope.fields (env : Envelope) : List Field :=
  (env.header.toList.map fun h => ⟨1, .len (encodeFields h.fields)⟩) ++
  bytesField 2 (utf8 env.messageType) ++ enumField 3 env.codec ++ bytesField 4 env.payload

instance : Message Envelope where
  encode env := .ok (encodeFields env.fields)

/-- An envelope with nothing but a payload. -/
def Envelope.raw (payload : Bytes) : Envelope := ⟨none, "", Codec.raw.toI32, payload⟩

theorem length_encode_raw {payload : Bytes} (h : payload.length = maxFrameSize) :
    (encodeFields (Envelope.raw payload).fields).length = 16777223 := by
  have hne : payload ≠ [] := by
    intro hnil
    rw [hnil] at h
    cases h
  have hpayload : bytesField 4 payload = [⟨4, .len payload⟩] := if_neg hne
  have hfields : (Envelope.raw payload).fields = [⟨3, .varint 3⟩, ⟨4, .len payload⟩] := by
    show [⟨3, .varint 3⟩] ++ bytesField 4 payload = _
    rw [hpayload]
    rfl
  rw [hfields]
  simp only [encodeFields, List.flatMap_cons, List.flatMap_nil, Field.encode, WireValue.encode,
    WireValue.wireType, List.length_append, List.length_nil, h]
  simp [encodeVarint, maxFrameSize]

/-- `write_frame` accepts an envelope with a payload of 16 MiB and `read_frame` refuses it, leaving
its bytes to be taken for the next frame. -/
theorem bulky_envelope_refused : ∃ (payload w' : Bytes), payload.length = maxFrameSize ∧
    writeFrames ([] : Bytes) [Envelope.raw payload] = .ok w' ∧
    readFrames 1 w' = ([.error (.message
      "Frame length 16777223 exceeds maximum size of 16 MiB")],
      encodeFields (Envelope.raw payload).fields) := by
  obtain ⟨payload, hlen⟩ : ∃ payload : Bytes, payload.length = maxFrameSize :=
    ⟨List.replicate maxFrameSize 0, List.length_replicate⟩
  refine ⟨payload, frame (encodeFields (Envelope.raw payload).fields), hlen, rfl, ?_⟩
  have hread := readLength_frame (encodeFields (Envelope.raw payload).fields) []
  rw [List.append_nil, List.append_nil, length_encode_raw hlen] at hread
  unfold readFrames readFrame
  rw [hread]
  rfl

theorem length_encode_ping {ping : Ping} (h : ping.sentAt.toNat < 128) {e : Bytes}
    (he : Message.encode ping = .ok e) : e.length ≤ maxFrameSize := by
  cases he
  unfold varintField
  split
  · exact Nat.zero_le _
  · simp [encodeFields, Field.encode, WireValue.encode, encodeVarint, h, maxFrameSize,
      WireValue.wireType]

/-- Two messages that fit are read back. -/
theorem pings_round_trip : ∃ w' : Bytes,
    writeFrames ([] : Bytes) [Ping.mk 42, Ping.mk 7] = .ok w' ∧
    readFrames 2 w' = ([Message.encode (Ping.mk 42), Message.encode (Ping.mk 7)], []) := by
  obtain ⟨w', hwrite⟩ : ∃ w' : Bytes, writeFrames ([] : Bytes) [Ping.mk 42, Ping.mk 7] = .ok w' :=
    ⟨_, rfl⟩
  refine ⟨w', hwrite, (frames_round_trip_iff rfl hwrite).mpr ?_⟩
  simp only [List.forall_mem_cons]
  exact ⟨fun e he => length_encode_ping (by decide) he,
    fun e he => length_encode_ping (by decide) he, fun msg hmsg => absurd hmsg List.not_mem_nil⟩

end Stric.Flow
