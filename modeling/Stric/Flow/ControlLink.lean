import Stric.Flow.ControlCodec
import Stric.Flow.Node

/-!
# A control stream (`handle_new_connection` of `node.rs`)

After the handshake two tasks use the control stream of a connection.  The writer takes messages
off its channel and writes one frame for each; the reader decodes frame after frame and sends what
it has read to the control loop.  A frame that does not decode is dropped, and a read that fails
ends the reader with `PeerDisconnected`.

    control_link        what the reader makes of the part of the stream that arrives

The stream is what `AsyncWrite` and `AsyncRead` say of it: the bytes come in order, and it may end
after any of them.
-/

namespace Stric.Flow

open Stric.Pool

section
variable [Prost]

/-! ## The two tasks -/

section
variable {W : Type} [AsyncWrite W]

/-- The writer, on the messages that its channel hands out: it ends with the first write that
fails. -/
def writerLoop (writer : W) : List Proto.ControlMessage → W
  | [] => writer
  | msg :: msgs =>
    match writeFrame writer msg with
    | .ok writer => writerLoop writer msgs
    | .error _ => writer

end

omit [Prost] in
/-- What `read_frame` has taken off the stream when it succeeds. -/
theorem length_readFrame {reader bytes rest : Bytes} (h : readFrame reader = (.ok bytes, rest)) :
    rest.length < reader.length := by
  unfold readFrame readLength readExact at h
  split at h
  · cases h
  · next len tail hlen =>
    split at hlen
    · next hfour =>
      obtain ⟨-, rfl⟩ := Prod.mk.inj (Option.some.inj hlen)
      split at h
      · cases h
      · split at h
        · cases h
        · next hread =>
          split at hread
          · obtain ⟨-, rfl⟩ := Prod.mk.inj (Option.some.inj hread)
            obtain ⟨-, rfl⟩ := Prod.mk.inj h
            simp only [List.length_drop]
            omega
          · cases hread
    · cases hlen

/-- The reader, on a stream that ends after these bytes: the events it sends to the control
loop. -/
def readerLoop (peerId : NodeId) (reader : Bytes) : List ControlEvent :=
  match _ : readFrame reader with
  | (.ok bytes, rest) =>
    match Prost.decodeControl bytes with
    | some msg => .controlMsgReceived peerId msg.read :: readerLoop peerId rest
    | none => readerLoop peerId rest
  | (.error _, _) => [.peerDisconnected peerId]
termination_by reader.length
decreasing_by all_goals exact length_readFrame ‹_›

/-! ## The bytes between them -/

/-- The frames of the messages. -/
def controlBytes (msgs : List Proto.ControlMessage) : Bytes :=
  msgs.flatMap fun msg => frame (Prost.encodeControl msg)

/-- `read_frame` accepts the message. -/
def Fits (msg : Proto.ControlMessage) : Prop :=
  (Prost.encodeControl msg).length ≤ maxFrameSize

instance (msg : Proto.ControlMessage) : Decidable (Fits msg) := Nat.decLe _ _

/-- The messages in front whose frames are whole among the first `n` bytes, up to the first that
the reader does not accept. -/
def wholeFrames : Nat → List Proto.ControlMessage → List Proto.ControlMessage
  | _, [] => []
  | n, msg :: msgs =>
    if Fits msg ∧ (frame (Prost.encodeControl msg)).length ≤ n then
      msg :: wholeFrames (n - (frame (Prost.encodeControl msg)).length) msgs
    else []

omit [Prost] in
theorem length_frame (e : Bytes) : (frame e).length = 4 + e.length := by
  rw [frame, List.length_append]
  rfl

theorem wholeFrames_isPrefix (n : Nat) (msgs : List Proto.ControlMessage) :
    wholeFrames n msgs <+: msgs := by
  induction msgs generalizing n with
  | nil => exact List.prefix_refl _
  | cons msg msgs ih =>
    unfold wholeFrames
    split
    · exact List.prefix_cons_inj msg |>.mpr (ih _)
    · exact List.nil_prefix

/-- With messages that fit, the whole stream is whole frames. -/
theorem wholeFrames_all {msgs : List Proto.ControlMessage} (hfits : ∀ msg ∈ msgs, Fits msg) {n : Nat}
    (hn : (controlBytes msgs).length ≤ n) : wholeFrames n msgs = msgs := by
  induction msgs generalizing n with
  | nil => rfl
  | cons msg msgs ih =>
    obtain ⟨hmsg, hmsgs⟩ := List.forall_mem_cons.mp hfits
    unfold controlBytes at hn ih
    rw [List.flatMap_cons, List.length_append] at hn
    unfold wholeFrames
    rw [if_pos ⟨hmsg, by omega⟩, ih hmsgs (by omega)]

/-- What the writer has written is the frames of the messages up to some point. -/
theorem sent_writerLoop {W : Type} [AsyncWrite W] (w : W) (msgs : List Proto.ControlMessage) :
    ∃ done, done <+: msgs ∧
      AsyncWrite.sent (writerLoop w msgs) = AsyncWrite.sent w ++ controlBytes done := by
  induction msgs generalizing w with
  | nil => exact ⟨[], List.prefix_refl _, (List.append_nil _).symm⟩
  | cons msg msgs ih =>
    unfold writerLoop
    split
    · next w' hw =>
      obtain ⟨e, he, hsent⟩ := sent_writeFrame hw
      cases he
      obtain ⟨done, hdone, hloop⟩ := ih w'
      refine ⟨msg :: done, (List.prefix_cons_inj msg).mpr hdone, ?_⟩
      rw [hloop, hsent, controlBytes, controlBytes, List.flatMap_cons, List.append_assoc]
    · exact ⟨[], List.nil_prefix, (List.append_nil _).symm⟩

/-! ## Reading a stream that is cut off -/

omit [Prost] in
/-- The length of a frame of which `n` bytes have arrived. -/
theorem readLength_take (e rest : Bytes) {n : Nat} (hn : 4 ≤ n) :
    readLength ((frame e ++ rest).take n) = some (e.length % 2 ^ 32, (e ++ rest).take (n - 4)) := by
  have hfour : (toBeBytes (.ofNat e.length)).length = 4 := rfl
  have hsplit : (frame e ++ rest).take n =
      toBeBytes (.ofNat e.length) ++ (e ++ rest).take (n - 4) := by
    rw [frame, List.append_assoc, List.take_append, List.take_of_length_le (by omega), hfour]
  rw [hsplit, readLength, readExact_append hfour, Option.map_some, fromBeBytes_toBeBytes,
    UInt32.toNat_ofNat']

omit [Prost] in
/-- A frame that is too long, or has not arrived whole, is not read. -/
theorem readFrame_fails {e : Bytes} (hlen : e.length < 2 ^ 32) {n : Nat} (rest : Bytes)
    (h : ¬ (e.length ≤ maxFrameSize ∧ (frame e).length ≤ n)) :
    ∃ err rest', readFrame ((frame e ++ rest).take n) = (.error err, rest') := by
  by_cases hn : 4 ≤ n
  · unfold readFrame
    rw [readLength_take e rest hn, Nat.mod_eq_of_lt hlen]
    simp only
    split
    · exact ⟨_, _, rfl⟩
    · next hmax =>
      rw [length_frame] at h
      have hshort : ¬ e.length ≤ ((e ++ rest).take (n - 4)).length := by
        rw [List.length_take]
        omega
      rw [readExact, if_neg hshort]
      exact ⟨_, _, rfl⟩
  · have hshort : ¬ 4 ≤ ((frame e ++ rest).take n).length := by
      rw [List.length_take]
      omega
    unfold readFrame
    rw [readLength, readExact, if_neg hshort]
    exact ⟨_, _, rfl⟩

theorem readerLoop_fails {peerId : NodeId} {reader rest : Bytes} {err : FrameError}
    (h : readFrame reader = (.error err, rest)) :
    readerLoop peerId reader = [.peerDisconnected peerId] := by
  rw [readerLoop]
  split
  · next heq =>
    rw [h] at heq
    cases heq
  · rfl

/-- A message in front that has arrived whole goes to the control loop. -/
theorem readerLoop_frame (peerId : NodeId) {msg : Proto.ControlMessage} (hfits : Fits msg)
    (rest : Bytes) : ∃ msg' : Proto.ControlMessage, msg'.Same msg ∧
      readerLoop peerId (frame (Prost.encodeControl msg) ++ rest) =
        .controlMsgReceived peerId msg'.read :: readerLoop peerId rest := by
  obtain ⟨msg', hdecode, hsame⟩ := Prost.control_lossless msg
  refine ⟨msg', hsame, ?_⟩
  rw [readerLoop]
  split
  · next heq =>
    rw [readFrame_frame hfits] at heq
    cases heq
    rw [hdecode]
  · next heq =>
    rw [readFrame_frame hfits] at heq
    cases heq

/-- The reader, when the stream ends after `n` bytes. -/
theorem readerLoop_take (peerId : NodeId) {msgs : List Proto.ControlMessage}
    (hlen : ∀ msg ∈ msgs, (Prost.encodeControl msg).length < 2 ^ 32) (n : Nat) :
    ∃ received, List.Forall₂ Proto.ControlMessage.Same received (wholeFrames n msgs) ∧
      readerLoop peerId ((controlBytes msgs).take n) =
        (received.map fun msg => .controlMsgReceived peerId msg.read) ++
          [.peerDisconnected peerId] := by
  induction msgs generalizing n with
  | nil =>
    have hnil : readFrame ((controlBytes []).take n) = (.error .unexpectedEof, []) := by
      rw [show (controlBytes []).take n = [] from List.take_nil]
      rfl
    exact ⟨[], .nil, readerLoop_fails hnil⟩
  | cons msg msgs ih =>
    obtain ⟨hmsg, hmsgs⟩ := List.forall_mem_cons.mp hlen
    have hcons : controlBytes (msg :: msgs) =
        frame (Prost.encodeControl msg) ++ controlBytes msgs := rfl
    rw [hcons]
    unfold wholeFrames
    split
    · next h =>
      obtain ⟨received, hsame, hloop⟩ :=
        ih hmsgs (n - (frame (Prost.encodeControl msg)).length)
      obtain ⟨msg', hmsg', hfirst⟩ := readerLoop_frame peerId h.1 _
      refine ⟨msg' :: received, .cons hmsg' hsame, ?_⟩
      rw [List.take_append, List.take_of_length_le h.2, hfirst, hloop]
      rfl
    · next h =>
      obtain ⟨err, rest, hread⟩ := readFrame_fails hmsg (controlBytes msgs) h
      exact ⟨[], .nil, readerLoop_fails hread⟩

theorem length_controlBytes_lt {done msgs : List Proto.ControlMessage} (h : done <+: msgs)
    (hlt : done ≠ msgs) : (controlBytes done).length < (controlBytes msgs).length := by
  obtain ⟨more, rfl⟩ := h
  cases more with
  | nil => exact absurd (List.append_nil _).symm hlt
  | cons msg more =>
    simp only [controlBytes, List.flatMap_append, List.flatMap_cons, List.length_append,
      length_frame]
    omega

/-- **What arrives over a control stream.**  Of the messages handed to the writer, the reader at
the other end hands its control loop those whose frames have arrived whole: in order, none twice,
none changed but for the order of maps, and none left out in between.  Then comes exactly one
`PeerDisconnected`.  If everything was written, has arrived and fits, no message is missing. -/
theorem control_link {W : Type} [AsyncWrite W] {w : W} (hfresh : AsyncWrite.sent w = [])
    {msgs : List Proto.ControlMessage}
    (hlen : ∀ msg ∈ msgs, (Prost.encodeControl msg).length < 2 ^ 32) {arrived : Bytes}
    (harrived : arrived <+: AsyncWrite.sent (writerLoop w msgs)) (peerId : NodeId) :
    ∃ delivered received, delivered <+: msgs ∧
      List.Forall₂ Proto.ControlMessage.Same received delivered ∧
      readerLoop peerId arrived =
        (received.map fun msg => .controlMsgReceived peerId msg.read) ++
          [.peerDisconnected peerId] ∧
      ((∀ msg ∈ msgs, Fits msg) → arrived = controlBytes msgs → delivered = msgs) := by
  obtain ⟨done, hdone, hsent⟩ := sent_writerLoop w msgs
  rw [hsent, hfresh, List.nil_append] at harrived
  obtain ⟨received, hsame, hloop⟩ :=
    readerLoop_take peerId (fun msg hmsg => hlen msg (hdone.subset hmsg)) arrived.length
  rw [← List.prefix_iff_eq_take.mp harrived] at hloop
  refine ⟨_, received, (wholeFrames_isPrefix _ _).trans hdone, hsame, hloop, fun hfits hall => ?_⟩
  have heq : done = msgs := by
    by_contra hne
    have hlt := length_controlBytes_lt hdone hne
    have hle := harrived.length_le
    rw [hall] at hle
    omega
  subst heq
  exact wholeFrames_all hfits (by rw [hall])

end

section
open Protobuf

/-- A ping that arrives whole is received. -/
theorem control_link_ping : ∃ received,
    List.Forall₂ Proto.ControlMessage.Same received [⟨some (.ping ⟨42⟩)⟩] ∧
    readerLoop "b" [0, 0, 0, 4, 74, 2, 8, 42] =
      (received.map fun msg => .controlMsgReceived "b" msg.read) ++ [.peerDisconnected "b"] := by
  have hping : Prost.encodeControl ⟨some (.ping ⟨42⟩)⟩ = [74, 2, 8, 42] := by
    decide +kernel
  have hbytes : controlBytes [⟨some (.ping ⟨42⟩)⟩] = [0, 0, 0, 4, 74, 2, 8, 42] := by
    show frame (Prost.encodeControl _) ++ [] = _
    rw [hping]
    rfl
  have hsent : AsyncWrite.sent (writerLoop ([] : Bytes) [⟨some (.ping ⟨42⟩)⟩]) =
      [0, 0, 0, 4, 74, 2, 8, 42] := by
    show [] ++ toBeBytes (.ofNat (Prost.encodeControl _).length) ++
      Prost.encodeControl _ = _
    rw [hping]
    rfl
  have hlen : ∀ msg ∈ [(⟨some (.ping ⟨42⟩)⟩ : Proto.ControlMessage)],
      (Prost.encodeControl msg).length = 4 := by
    intro msg hmsg
    rw [List.mem_singleton.mp hmsg, hping]
    rfl
  have harrived : [0, 0, 0, 4, 74, 2, 8, 42] <+:
      AsyncWrite.sent (writerLoop ([] : Bytes) [⟨some (.ping ⟨42⟩)⟩]) :=
    hsent ▸ List.prefix_refl _
  obtain ⟨delivered, received, -, hsame, hloop, hall⟩ :=
    control_link rfl (fun msg hmsg => by rw [hlen msg hmsg]; decide) harrived "b"
  rw [hall (fun msg hmsg => by rw [Fits, hlen msg hmsg]; decide) hbytes.symm] at hsame
  exact ⟨received, hsame, hloop⟩

end

end Stric.Flow
