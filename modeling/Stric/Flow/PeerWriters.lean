import Stric.Flow.Connections

/-!
# Which peers the control loop can write to

`PeerConnected` and `PeerDisconnected` carry the peer, not the connection.  So what
`peer_writers` has for a peer, once the control loop has caught up, is decided by what happened
last to any connection of the peer: the writer of the connection that was registered last, or
nothing, if some connection has ended since (`WritersInv`).

The writer that is registered there may have ended: it does so when a write fails, and says so
to nobody, while the reader of the connection runs on.

So `peer_writers` tracks the peers with an open connection exactly if for each of them the last
thing that happened was a registration, and no write of that connection has failed
(`tracksPeers_iff`).  It does not when the older of two connections ends
(`open_peer_forgotten`).
-/

namespace Stric.Flow

open Stric.Pool

section
variable {γ δ : Type}

/-- The writer of `p` after all that happened: of the connection registered last, unless one
has hung up since. -/
def writerOf (p : NodeId) : ConnPast γ δ → Option Nat
  | [] => none
  | (_, .conn k (.complete q)) :: past => if q = p then some k else writerOf p past
  | (_, .conn _ (.hangUp q)) :: past => if q = p then none else writerOf p past
  | _ :: past => writerOf p past

/-- A write to connection `k` has failed. -/
def WriteFailed (k : Nat) (past : ConnPast γ δ) : Prop := ∃ s, (s, .conn k .writeError) ∈ past

/-- What the control loop does to `peer_writers`. -/
def applyWriters (writers : HashMap NodeId Nat) : ControlEvent → HashMap NodeId Nat
  | .peerConnected id tx => writers.insert id tx
  | .peerDisconnected id => writers.erase id
  | .controlMsgReceived _ _ => writers

/-- `peer_writers` when the control loop will have taken everything from its queue. -/
def ConnState.writers (s : ConnState γ δ) : HashMap NodeId Nat :=
  s.queue.foldl applyWriters s.node.peerWriters

/-- Connection `k` to `p` is registered, and its reader has not ended. -/
def ConnState.Open (s : ConnState γ δ) (p : NodeId) (k : Nat) : Prop :=
  ∃ c, s.conns k = some c ∧ c.peer = some p ∧ c.reader ≠ .ended

/-- The writer of connection `k` has not ended, so that what is put into its channel is sent. -/
def ConnState.Writing (s : ConnState γ δ) (k : Nat) : Prop :=
  ∃ c, s.conns k = some c ∧ c.writer ≠ .ended

/-- `peer_writers` has exactly the peers with an open connection, and for each the sender to the
writer loop of such a connection. -/
structure TracksPeers (s : ConnState γ δ) : Prop where
  open_written : ∀ p k, s.Open p k →
    ∃ k', s.node.peerWriters.lookup p = some k' ∧ s.Open p k' ∧ s.Writing k'
  written_open : ∀ p ∈ s.node.peerWriters, ∃ k, s.Open p k

variable [PetGraph γ] {s s' init : ConnState γ δ} {l : ConnLabel} {past : ConnPast γ δ}

theorem peerWriters_controlStep (clock : Clock) (n : FlowNode γ δ) (event : ControlEvent) :
    (n.controlStep clock event).1.peerWriters = applyWriters n.peerWriters event := by
  cases event with
  | peerConnected id tx => rfl
  | peerDisconnected id =>
    unfold FlowNode.controlStep
    simp only
    split <;> rfl
  | controlMsgReceived sender msg => exact (sameLinks_of_onMessage rfl).peerWriters

/-- Only what a connection sends changes what the writers will be. -/
theorem ConnStep.writers_eq (h : ConnStep s l s') :
    (s'.writers = s.writers ∧ ∀ k act, l ≠ .conn k act) ∨
      ∃ k act c c' event, l = .conn k act ∧ s.conns k = some c ∧
        c.act k s.node act = some (s'.node, c', event) ∧
        s'.conns = Function.update s.conns k (some c') ∧
        s'.writers = event.toList.foldl applyWriters s.writers := by
  cases h with
  | conn hk hact _ =>
    refine Or.inr ⟨_, _, _, _, _, rfl, hk, hact, rfl, ?_⟩
    rw [ConnState.writers, List.foldl_append, (Conn.act_view hact).1.peerWriters]
    rfl
  | process hq =>
    refine Or.inl ⟨?_, nofun⟩
    rw [ConnState.writers, ConnState.writers, hq, peerWriters_controlStep]
    rfl
  | post _ =>
    refine Or.inl ⟨?_, nofun⟩
    rw [ConnState.writers, List.foldl_append]
    rfl
  | loop _ hact =>
    refine Or.inl ⟨?_, nofun⟩
    rw [ConnState.writers, ConnState.writers, (Loop.act_view hact).1.peerWriters]
  | redial _ hact _ =>
    refine Or.inl ⟨?_, nofun⟩
    rw [ConnState.writers, ConnState.writers, (Loop.act_view hact).1.peerWriters]
  | _ => exact Or.inl ⟨rfl, nofun⟩

/-- The writers will be what the history says, and they write to open connections. -/
structure WritersInv (past : ConnPast γ δ) (s : ConnState γ δ) : Prop where
  writers : ∀ p, s.writers.lookup p = writerOf p past
  opened : ∀ p k, writerOf p past = some k → s.Open p k

/-- An open connection stays open until it hangs up. -/
theorem ConnState.Open.step {p : NodeId} {k : Nat} (h : s.Open p k) (hstore : StoreInv past s)
    (hs : ConnStep s l s') : s'.Open p k ∨ l = .conn k (.hangUp p) := by
  obtain ⟨c, hk, hp, hr⟩ := h
  rcases hs.conn_cases hk with hmoved | ⟨act, c', event, rfl, hact, hmoved⟩
  · exact Or.inl ⟨c, hmoved, hp, hr⟩
  · have hof := Conn.of_act hact
    cases act with
    | complete q =>
      -- a connection that is still shaking hands has no peer
      rw [((hstore.at hk).1.of_handshaking hof.1).1] at hp
      cases hp
    | hangUp q =>
      obtain ⟨⟨-, hq⟩, -⟩ := hof
      rw [hp] at hq
      cases hq
      exact Or.inr rfl
    | readError =>
      obtain ⟨-, -, rfl, -⟩ := hof
      exact Or.inl ⟨_, hmoved, hp, nofun⟩
    | spawn =>
      obtain ⟨-, -, rfl, -⟩ := hof
      exact Or.inl ⟨_, hmoved, hp, nofun⟩
    | _ =>
      obtain ⟨-, -, rfl, -⟩ := hof
      exact Or.inl ⟨_, hmoved, hp, hr⟩

omit [PetGraph γ] in
theorem writerOf_other (p : NodeId) (hl : ∀ k act, l ≠ .conn k act) :
    writerOf p ((s, l) :: past) = writerOf p past := by
  cases l with
  | conn k act => exact absurd rfl (hl k act)
  | _ => rfl

theorem WritersInv.step (h : WritersInv past s) (hstore : StoreInv past s) (hs : ConnStep s l s') :
    WritersInv ((s, l) :: past) s' := by
  rcases hs.writers_eq with ⟨hw, hl⟩ | ⟨k, act, c, c', event, rfl, hk, hact, hconns, hw⟩
  · refine ⟨fun p => ?_, fun p k hp => ?_⟩
    · rw [hw, writerOf_other p hl]
      exact h.writers p
    · rw [writerOf_other p hl] at hp
      exact ((h.opened p k hp).step hstore hs).resolve_right (hl k _)
  · have hof := Conn.of_act hact
    -- a connection that does not hang up now stays open
    have hstays : ∀ p j, s.Open p j → act ≠ .hangUp p → s'.Open p j := by
      intro p j hj hne
      refine (hj.step hstore hs).resolve_right fun heq => hne ?_
      cases heq
      rfl
    cases act with
    | complete q =>
      obtain ⟨hsetup, -, rfl, rfl⟩ := hof
      have hopen : s'.Open q k := by
        refine ⟨_, by rw [hconns, Function.update_self], rfl, ?_⟩
        show c.reader ≠ .ended
        rw [((hstore.at hk).1.of_handshaking hsetup).2]
        decide
      refine ⟨fun p => ?_, fun p j hp => ?_⟩
      · rw [hw]
        show (s.writers.insert q k).lookup p = if q = p then some k else writerOf p past
        by_cases hqp : q = p
        · subst hqp
          rw [if_pos rfl, AList.lookup_insert]
        · rw [if_neg hqp, AList.lookup_insert_ne (Ne.symm hqp)]
          exact h.writers p
      · change (if q = p then some k else writerOf p past) = some j at hp
        split at hp
        · next hqp =>
          cases hp
          exact hqp ▸ hopen
        · exact hstays p j (h.opened p j hp) nofun
    | hangUp q =>
      obtain ⟨-, -, -, rfl⟩ := hof
      refine ⟨fun p => ?_, fun p j hp => ?_⟩
      · rw [hw]
        show (s.writers.erase q).lookup p = if q = p then none else writerOf p past
        by_cases hqp : q = p
        · subst hqp
          rw [if_pos rfl, AList.lookup_erase]
        · rw [if_neg hqp, AList.lookup_erase_ne (Ne.symm hqp)]
          exact h.writers p
      · change (if q = p then none else writerOf p past) = some j at hp
        split at hp
        · cases hp
        · next hqp =>
          refine hstays p j (h.opened p j hp) fun heq => hqp ?_
          cases heq
          rfl
    | receive msg =>
      obtain ⟨-, -, -, p, -, rfl⟩ := hof
      exact ⟨fun p => by rw [hw]; exact h.writers p,
        fun p j hp => hstays p j (h.opened p j hp) nofun⟩
    | _ =>
      obtain ⟨-, -, -, rfl⟩ := hof
      exact ⟨fun p => by rw [hw]; exact h.writers p,
        fun p j hp => hstays p j (h.opened p j hp) nofun⟩

theorem WritersInv.run (hinit : init.Initial) (h : History ConnStep init past s) :
    WritersInv past s := by
  induction h with
  | start =>
    refine ⟨fun p => ?_, fun p k hp => nomatch hp⟩
    rw [ConnState.writers, hinit.queue, hinit.peerWriters]
    rfl
  | step hrun hs ih => exact ih.step (StoreInv.run hinit hrun) hs

omit [PetGraph γ] in
theorem writeFailed_cons {k : Nat} :
    WriteFailed k ((s, l) :: past) ↔ l = .conn k .writeError ∨ WriteFailed k past := by
  constructor
  · rintro ⟨s₀, hmem⟩
    rcases List.mem_cons.mp hmem with heq | hmem
    · exact Or.inl (Prod.mk.inj heq).2.symm
    · exact Or.inr ⟨s₀, hmem⟩
  · rintro (rfl | ⟨s₀, hmem⟩)
    · exact ⟨s, List.mem_cons_self⟩
    · exact ⟨s₀, List.mem_cons_of_mem _ hmem⟩

omit [PetGraph γ] in
/-- A writer is spawned once, and only a failed write ends it. -/
theorem Conn.act_writer {k : Nat} {n n' : FlowNode γ δ} {c c' : Conn} {act : ConnAct}
    {event : Option ControlEvent} (h : c.act k n act = some (n', c', event))
    (hw : c.setup = .handshaking ∨ c.setup = .announced → c.writer = .waiting) :
    (c'.writer = .ended ↔ act = .writeError ∨ c.writer = .ended) ∧
      (c'.setup = .handshaking ∨ c'.setup = .announced → c'.writer = .waiting) := by
  have hof := Conn.of_act h
  cases act with
  | complete p =>
    obtain ⟨hsetup, -, rfl, -⟩ := hof
    exact ⟨by simp, fun _ => hw (Or.inl hsetup)⟩
  | spawn =>
    obtain ⟨hsetup, -, rfl, -⟩ := hof
    have hwaiting := hw (Or.inr hsetup)
    exact ⟨by simp [hwaiting], by simp⟩
  | writeError =>
    obtain ⟨hrunning, -, rfl, -⟩ := hof
    refine ⟨by simp, fun hsetup => ?_⟩
    rw [hw hsetup] at hrunning
    cases hrunning
  | readError =>
    obtain ⟨-, -, rfl, -⟩ := hof
    exact ⟨by simp, hw⟩
  | hangUp p =>
    obtain ⟨-, -, rfl, -⟩ := hof
    exact ⟨by simp, hw⟩
  | receive msg =>
    obtain ⟨-, -, rfl, -⟩ := hof
    exact ⟨by simp, hw⟩
  | _ =>
    obtain ⟨-, -, rfl, -⟩ := hof
    exact ⟨by simp, by simp⟩

/-- Whatever is known about the writer of one connection. -/
def WriterOk (conn : Option Conn) (failed : Prop) : Prop :=
  match conn with
  | none => ¬ failed
  | some c => (c.writer = .ended ↔ failed) ∧
      (c.setup = .handshaking ∨ c.setup = .announced → c.writer = .waiting)

theorem WriterOk.run (hinit : init.Initial) (h : History ConnStep init past s) (k : Nat) :
    WriterOk (s.conns k) (WriteFailed k past) := by
  induction h with
  | start =>
    rw [hinit.conns k]
    rintro ⟨s, hmem⟩
    exact absurd hmem List.not_mem_nil
  | @step past s s' l _ hs ih =>
    rcases hs.conns_cases with ⟨hconns, -, hl⟩ | ⟨j, addr, d, hj, -, hconns, hl⟩ |
      ⟨j, act, c, c', event, rfl, hj, hact, -, hconns, -⟩
    · rw [hconns, propext (writeFailed_cons.trans (or_iff_right (hl k .writeError)))]
      exact ih
    · rw [hconns, propext (writeFailed_cons.trans (or_iff_right (hl k .writeError)))]
      by_cases hkj : k = j
      · subst hkj
        rw [hj] at ih
        rw [Function.update_self]
        exact ⟨iff_of_false (fun h => nomatch h) ih, fun _ => rfl⟩
      · rw [Function.update_of_ne hkj]
        exact ih
    · rw [hconns]
      by_cases hkj : k = j
      · subst hkj
        rw [hj] at ih
        rw [Function.update_self]
        obtain ⟨hended, hwaiting⟩ := Conn.act_writer hact ih.2
        refine ⟨?_, hwaiting⟩
        rw [hended, writeFailed_cons, ih.1]
        simp
      · have hne : ConnLabel.conn j act ≠ .conn k .writeError := by
          intro heq
          cases heq
          exact hkj rfl
        rw [Function.update_of_ne hkj, propext (writeFailed_cons.trans (or_iff_right hne))]
        exact ih

/-- The writer of an open connection runs, or will, exactly if no write has failed. -/
theorem ConnState.Open.writing_iff {p : NodeId} {k : Nat} (hopen : s.Open p k)
    (hinit : init.Initial) (h : History ConnStep init past s) :
    s.Writing k ↔ ¬ WriteFailed k past := by
  obtain ⟨c, hk, -⟩ := hopen
  have hok := WriterOk.run hinit h k
  rw [hk] at hok
  rw [← hok.1]
  constructor
  · rintro ⟨c', hk', hw⟩
    rw [hk] at hk'
    cases hk'
    exact hw
  · exact fun hw => ⟨c, hk, hw⟩

/-- **When `peer_writers` tracks the peers.**  With the control loop's queue empty,
`peer_writers` has exactly the peers with an open connection, each with a sender to the running
writer of one, exactly if no connection of such a peer has ended since the last one was
registered, and no write to that one has failed. -/
theorem tracksPeers_iff (hinit : init.Initial) (h : History ConnStep init past s)
    (hq : s.queue = []) : TracksPeers s ↔
      ∀ p k, s.Open p k → ∃ k', writerOf p past = some k' ∧ ¬ WriteFailed k' past := by
  have hinv := WritersInv.run hinit h
  have hlookup : ∀ p, s.node.peerWriters.lookup p = writerOf p past := by
    intro p
    have := hinv.writers p
    rwa [ConnState.writers, hq] at this
  constructor
  · intro htracks p k hopen
    obtain ⟨k', hk', hopen', hwriting⟩ := htracks.open_written p k hopen
    rw [hlookup] at hk'
    exact ⟨k', hk', (hopen'.writing_iff hinit h).mp hwriting⟩
  · intro hlast
    refine ⟨fun p k hopen => ?_, fun p hp => ?_⟩
    · obtain ⟨k', hk', hwrites⟩ := hlast p k hopen
      have hopen' := hinv.opened p k' hk'
      exact ⟨k', (hlookup p).trans hk', hopen', (hopen'.writing_iff hinit h).mpr hwrites⟩
    · obtain ⟨k, hk⟩ := Option.isSome_iff_exists.mp (AList.lookup_isSome.mpr hp)
      rw [hlookup] at hk
      exact ⟨k, hinv.opened p k hk⟩

end

/-! ## Two connections to one peer -/

theorem processed {γ δ : Type} [PetGraph γ] {init s : ConnState γ δ} {past : ConnPast γ δ}
    (h : History ConnStep init past s) {event : ControlEvent} {rest : List ControlEvent}
    (hq : s.queue = event :: rest) : History ConnStep init ((s, .process) :: past)
      { s with
        node := (s.node.controlStep ⟨0, 0⟩ event).1
        queue := rest
        loops := s.loops ++ (s.node.startsLoop event).toList } :=
  h.step (.process hq)

/-- Both sides have dialled, and the older connection ends: the peer is forgotten, though the
other connection is open. -/
theorem open_peer_forgotten : ∃ past s, History ConnStep bare past s ∧ s.queue = [] ∧
    s.Open "b" 2 ∧ "b" ∉ s.node.peerWriters := by
  have h1 := accepted (.start : History ConnStep bare [] bare) 1 "x" rfl
  have h2 := acted h1 1 (.complete "b") rfl rfl (by decide)
  have h3 := acted h2 1 .spawn rfl rfl (by decide)
  have h4 := accepted h3 2 "y" rfl
  have h5 := acted h4 2 (.complete "b") rfl rfl (by decide)
  have h6 := acted h5 2 .spawn rfl rfl (by decide)
  have h7 := acted h6 1 .readError rfl rfl (by decide)
  have h8 := acted h7 1 (.hangUp "b") rfl rfl (by decide)
  have h9 := processed (processed (processed h8 rfl) rfl) rfl
  exact ⟨_, _, h9, rfl, ⟨_, rfl, rfl, nofun⟩, by decide⟩

/-- One connection after another is tracked. -/
theorem reconnected_peer_tracked : ∃ past s, History ConnStep bare past s ∧ s.queue = [] ∧
    s.Open "b" 2 ∧ TracksPeers s := by
  have h1 := accepted (.start : History ConnStep bare [] bare) 1 "x" rfl
  have h2 := acted h1 1 (.complete "b") rfl rfl (by decide)
  have h3 := acted h2 1 .spawn rfl rfl (by decide)
  have h4 := acted h3 1 .readError rfl rfl (by decide)
  have h5 := acted h4 1 (.hangUp "b") rfl rfl (by decide)
  have h6 := accepted h5 2 "y" rfl
  have h7 := acted h6 2 (.complete "b") rfl rfl (by decide)
  have h8 := processed (processed (processed h7 rfl) rfl) rfl
  refine ⟨_, _, h8, rfl, ⟨_, rfl, rfl, nofun⟩, (tracksPeers_iff bare_initial h8 rfl).mpr ?_⟩
  rintro p k ⟨c, hk, hp, hr⟩
  refine forall_conns (fun _ c => c.peer = some p → c.reader ≠ .ended →
      ∃ k', writerOf p _ = some k' ∧ ¬ WriteFailed k' _) rfl rfl
    (fun k h1 h2 => by simp [h1, h2, bare]) ?_ ?_ k c hk hp hr
  · exact fun _ hr => absurd rfl hr
  · intro hp _
    cases hp
    exact ⟨2, rfl, by simp [WriteFailed]⟩

end Stric.Flow
