import Stric.Flow.Reconnect

/-!
# The name that a peer was dialled with (`node.rs`)

`connect(addr, name)` parks the name in `pending_connects` under the address.  The next handshake
that completes on a connection with that address takes it, whoever opened the connection, and
enters it into `peer_addresses` for its peer; a handshake that finds nothing enters the peer's id.

    parkedName addr past        the name that is parked for `addr` after all that happened

After a dialled connection has completed its handshake with `p`, and until the next `connect` to
that address, `peer_addresses` has the dialled name for `p` exactly if the name was still parked,
and no other handshake with `p` has completed since (or the name is `p` itself):
`dialled_name_kept_iff`.  An inbound connection from the same address can take the name before, or
overwrite it afterwards (`dialled_name_lost`).
-/

namespace Stric.Flow

open Stric.Pool

section
variable {γ δ : Type}

/-- What a step does to the name parked for `addr`: it parks one, takes it away (`some none`), or
leaves it. -/
def parks (addr : SocketAddr) (s : ConnState γ δ) : ConnLabel → Option (Option String)
  | .dial _ a name => if a = addr then some (some name) else none
  | .dialFails a => if a = addr then some none else none
  | .conn k (.complete _) => if (s.conns k).map Conn.addr = some addr then some none else none
  | .loop p (.redial _) =>
    (s.loops.find? fun loop => loop.peer = p).bind fun loop =>
      if loop.addr = addr then some (some loop.serverName) else none
  | .loop p .redialFails =>
    (s.loops.find? fun loop => loop.peer = p).bind fun loop =>
      if loop.addr = addr then some none else none
  | _ => none

/-- The name of the last `connect` to the address, unless a handshake on that address has
completed or a dial has failed since. -/
def parkedName (addr : SocketAddr) : ConnPast γ δ → Option String
  | [] => none
  | (s, l) :: past => (parks addr s l).getD (parkedName addr past)

/-- The step is a `connect` to the address, by the application or by a reconnection loop. -/
def Connects (addr : SocketAddr) (e : ConnState γ δ × ConnLabel) : Prop :=
  ∃ name, parks addr e.1 e.2 = some (some name)

/-- The step completes a handshake with the peer. -/
def Completes (p : NodeId) (e : ConnState γ δ × ConnLabel) : Prop :=
  ∃ k, e.2 = .conn k (.complete p)

/-- The handshakes with the peer are on connections with this address. -/
def ComesFrom (p : NodeId) (addr : SocketAddr) (e : ConnState γ δ × ConnLabel) : Prop :=
  ∀ k, e.2 = .conn k (.complete p) → (e.1.conns k).map Conn.addr = some addr

/-! ## What is parked -/

theorem getD_ite {P : Prop} [Decidable P] (name old : Option String) :
    (if P then some name else none).getD old = if P then name else old := by
  split <;> rfl

theorem LoopsInv.find? {s : ConnState γ δ} (h : LoopsInv s) {l₁ l₂ : List Loop} {loop : Loop}
    (hl : s.loops = l₁ ++ loop :: l₂) :
    (s.loops.find? fun x => x.peer = loop.peer) = some loop := by
  have hnodup := h.nodup
  rw [hl, List.map_append, List.map_cons, List.nodup_middle, List.nodup_cons, List.mem_append,
    not_or] at hnodup
  rw [hl, List.find?_append, List.find?_cons_of_pos (by simp)]
  rw [List.find?_eq_none.mpr]
  · rfl
  · intro x hx heq
    exact hnodup.1.1 (List.mem_map.mpr ⟨x, hx, by simpa using heq⟩)

theorem lookup_erase_eq (m : HashMap SocketAddr String) (a addr : SocketAddr) :
    (m.erase a).lookup addr = if a = addr then none else m.lookup addr := by
  split
  · next h =>
    subst h
    exact AList.lookup_erase a m
  · next h => exact AList.lookup_erase_ne (Ne.symm h)

theorem lookup_insert_eq (m : HashMap SocketAddr String) (a addr : SocketAddr) (name : String) :
    (m.insert a name).lookup addr = if a = addr then some name else m.lookup addr := by
  split
  · next h =>
    subst h
    exact AList.lookup_insert m
  · next h => exact AList.lookup_insert_ne (Ne.symm h)

/-- A loop parks its name when it dials, and takes it away when the dial fails. -/
theorem Loop.act_pending {n n' : FlowNode γ δ} {loop : Loop} {act : LoopAct} {loop' : Option Loop}
    {dialled : Option (Nat × Conn)} (h : loop.act n act = some (n', loop', dialled)) :
    n'.pendingConnects = match act with
      | .redial _ => n.pendingConnects.insert loop.addr loop.serverName
      | .redialFails => n.pendingConnects.erase loop.addr
      | _ => n.pendingConnects := by
  cases act <;>
    simp only [Loop.act, Option.ite_none_right_eq_some, Option.some.injEq, Prod.mk.injEq] at h <;>
    obtain ⟨-, rfl, -⟩ := h <;>
    rfl

variable [PetGraph γ] {s s' init : ConnState γ δ} {l : ConnLabel} {past : ConnPast γ δ}

theorem pendingConnects_of_onMessage {clock : Clock} {n n' : FlowNode γ δ} {sender : NodeId}
    {msg : ControlMessage} {outs : List Send} (h : n.onMessage clock sender msg = (n', outs)) :
    n'.pendingConnects = n.pendingConnects := by
  rcases msg.cases with ⟨u, rfl⟩ | ⟨u, rfl⟩ | ⟨p, rfl⟩ | hp
  · obtain ⟨t, ⟨-, rfl, -⟩ | ⟨-, rfl, -⟩⟩ := FlowNode.onMessage_topology clock n sender u h <;> rfl
  · obtain ⟨t, ⟨-, rfl, -⟩ | ⟨-, rfl, -⟩⟩ := FlowNode.onMessage_subscription clock n sender u h <;> rfl
  · obtain ⟨t, link, ⟨-, rfl, -⟩ | ⟨-, rfl, -⟩⟩ := FlowNode.onMessage_pong clock n sender p h <;> rfl
  · obtain ⟨⟨sessions, limiters, t, rfl⟩, -⟩ := FlowNode.onMessage_plain clock n sender hp h
    rfl

theorem pendingConnects_controlStep (clock : Clock) (n : FlowNode γ δ) (event : ControlEvent) :
    (n.controlStep clock event).1.pendingConnects = n.pendingConnects := by
  cases event with
  | peerConnected id tx => rfl
  | peerDisconnected id =>
    unfold FlowNode.controlStep
    simp only
    split <;> rfl
  | controlMsgReceived sender msg => exact pendingConnects_of_onMessage rfl

theorem ConnStep.pending_eq (h : ConnStep s l s') (hloops : LoopsInv s) (addr : SocketAddr) :
    s'.node.pendingConnects.lookup addr =
      (parks addr s l).getD (s.node.pendingConnects.lookup addr) := by
  cases h with
  | @dial k a name _ =>
    show (s.node.pendingConnects.insert a name).lookup addr = _
    rw [lookup_insert_eq, parks, getD_ite]
  | @dialFails a =>
    show (s.node.pendingConnects.erase a).lookup addr = _
    rw [lookup_erase_eq, parks, getD_ite]
  | @conn k act c c' n event hk hact _ =>
    have hof := Conn.of_act hact
    cases act with
    | complete p =>
      obtain ⟨-, rfl, -⟩ := hof
      show (s.node.pendingConnects.erase c.addr).lookup addr = _
      rw [lookup_erase_eq, parks, getD_ite, hk]
      simp only [Option.map_some, Option.some.injEq]
    | _ =>
      obtain ⟨-, rfl, -⟩ := hof
      rfl
  | process _ => exact congrArg (AList.lookup addr) (pendingConnects_controlStep _ _ _)
  | @loop l₁ l₂ loop act n loop' hl hact =>
    have hpending := Loop.act_pending hact
    have hof := Loop.of_act hact
    cases act with
    | redialFails =>
      show n.pendingConnects.lookup addr = _
      rw [hpending, lookup_erase_eq, parks, hloops.find? hl, Option.bind_some, getD_ite]
    | redial k => exact absurd hof.2.2.2.symm (Option.some_ne_none _)
    | _ => exact congrArg (AList.lookup addr) hpending
  | @redial l₁ l₂ loop act n loop' k c hl hact _ =>
    have hpending := Loop.act_pending hact
    have hof := Loop.of_act hact
    cases act with
    | redial k =>
      show n.pendingConnects.lookup addr = _
      rw [hpending, lookup_insert_eq, parks, hloops.find? hl, Option.bind_some, getD_ite]
    | _ => exact absurd hof.2.2.2 (Option.some_ne_none _)
  | _ => rfl

/-- `pending_connects` is what the history says. -/
theorem lookup_pendingConnects (hinit : init.Initial) (hpending : init.node.pendingConnects = ∅)
    (h : History ConnStep init past s) (addr : SocketAddr) :
    s.node.pendingConnects.lookup addr = parkedName addr past := by
  induction h with
  | start =>
    rw [hpending]
    rfl
  | step hrun hs ih => rw [hs.pending_eq (LoopsInv.run hinit hrun) addr, ih, parkedName]

/-! ## What is kept of a peer -/

/-- `peer_addresses` changes for a peer when a handshake with it completes. -/
theorem ConnStep.peerAddress_eq (h : ConnStep s l s') (p : NodeId) :
    (¬ Completes p (s, l) ∧ s'.node.peerAddresses.lookup p = s.node.peerAddresses.lookup p) ∨
    ∃ k c, l = .conn k (.complete p) ∧ s.conns k = some c ∧ s'.node.peerAddresses.lookup p =
      some (c.addr, (s.node.pendingConnects.lookup c.addr).getD p) := by
  have hother : ∀ {s'' : ConnState γ δ}, (∀ k, l ≠ .conn k (.complete p)) →
      s''.node.peerAddresses = s.node.peerAddresses → ¬ Completes p (s, l) ∧
      s''.node.peerAddresses.lookup p = s.node.peerAddresses.lookup p := by
    intro s'' hl heq
    refine ⟨?_, by rw [heq]⟩
    rintro ⟨k, hk⟩
    exact hl k hk
  cases h with
  | @conn k act c c' n event hk hact _ =>
    have hof := Conn.of_act hact
    cases act with
    | complete q =>
      obtain ⟨-, rfl, -⟩ := hof
      by_cases hq : q = p
      · subst hq
        exact Or.inr ⟨k, c, rfl, hk, AList.lookup_insert _⟩
      · refine Or.inl ⟨?_, AList.lookup_insert_ne (Ne.symm hq)⟩
        rintro ⟨k', hk'⟩
        cases hk'
        exact hq rfl
    | _ =>
      obtain ⟨-, rfl, -⟩ := hof
      exact Or.inl (hother (by simp) rfl)
  | process _ => exact Or.inl (hother (by simp) (controlStep_links _ _ _).2)
  | loop _ hact => exact Or.inl (hother (by simp) (Loop.act_view hact).2.2)
  | redial _ hact _ => exact Or.inl (hother (by simp) (Loop.act_view hact).2.2)
  | _ => exact Or.inl (hother (by simp) rfl)

/-- A connection keeps its address. -/
theorem ConnStep.addr_eq {k : Nat} {addr : SocketAddr} (h : ConnStep s l s')
    (hk : (s.conns k).map Conn.addr = some addr) : (s'.conns k).map Conn.addr = some addr := by
  obtain ⟨c, hc, rfl⟩ := Option.map_eq_some_iff.mp hk
  rcases h.conn_cases hc with hmoved | ⟨act, c', event, rfl, hact, hmoved⟩
  · rw [hmoved]
    rfl
  · rw [hmoved]
    have hof := Conn.of_act hact
    cases act <;> obtain ⟨-, -, rfl, -⟩ := hof <;> rfl

theorem dialled_addr (h : History ConnStep init past s) {s₀ : ConnState γ δ} {k : Nat}
    {addr : SocketAddr} {name : String} (hdial : (s₀, .dial k addr name) ∈ past) :
    (s.conns k).map Conn.addr = some addr := by
  induction h with
  | start => exact absurd hdial List.not_mem_nil
  | step hrun hs ih =>
    rcases List.mem_cons.mp hdial with heq | hdial
    · obtain ⟨rfl, rfl⟩ := Prod.mk.inj heq
      cases hs
      simp [Conn.opened]
    · exact hs.addr_eq (ih hdial)

/-! ## After a dialled connection has completed -/

variable {s₀ s₁ : ConnState γ δ} {since before : ConnPast γ δ} {k : Nat} {p : NodeId}
  {addr : SocketAddr} {name : String}

omit [PetGraph γ] in
/-- The handshake has taken the name, and nobody has parked another. -/
theorem parkedName_since (haddr : (s₁.conns k).map Conn.addr = some addr)
    (hno : ∀ e ∈ since, ¬ Connects addr e) :
    parkedName addr (since ++ (s₁, .conn k (.complete p)) :: before) = none := by
  induction since with
  | nil =>
    show (parks addr s₁ (.conn k (.complete p))).getD _ = none
    rw [parks, if_pos haddr]
    rfl
  | cons e since ih =>
    obtain ⟨hnot, hno⟩ := List.forall_mem_cons.mp hno
    show (parks addr e.1 e.2).getD (parkedName addr (since ++ _)) = none
    rw [ih hno]
    cases hparks : parks addr e.1 e.2 with
    | none => rfl
    | some parked =>
      cases parked with
      | none => rfl
      | some name => exact absurd ⟨name, hparks⟩ hnot

/-- What is kept of the peer: the name its own handshake has found, until another handshake with
the peer completes, and the peer's id after that. -/
theorem peerAddress_since (hinit : init.Initial) (hpending : init.node.pendingConnects = ∅)
    (h : History ConnStep init (since ++ (s₁, .conn k (.complete p)) :: before) s)
    (haddr : (s₁.conns k).map Conn.addr = some addr)
    (hsame : ∀ e ∈ since, ComesFrom p addr e) (hno : ∀ e ∈ since, ¬ Connects addr e) :
    ((∀ e ∈ since, ¬ Completes p e) ∧
      s.node.peerAddresses.lookup p = some (addr, (parkedName addr before).getD p)) ∨
    ((∃ e ∈ since, Completes p e) ∧ s.node.peerAddresses.lookup p = some (addr, p)) := by
  induction since generalizing s with
  | nil =>
    cases h with
    | step hrun hs =>
      refine Or.inl ⟨fun e he => absurd he List.not_mem_nil, ?_⟩
      rcases hs.peerAddress_eq p with ⟨hnot, -⟩ | ⟨j, c, heq, hc, hl⟩
      · exact absurd ⟨k, rfl⟩ hnot
      · cases heq
        rw [hc] at haddr
        cases haddr
        rw [hl, lookup_pendingConnects hinit hpending hrun]
  | cons e since ih =>
    obtain ⟨s₂, l⟩ := e
    have ⟨hfrom, hsame'⟩ := List.forall_mem_cons.mp hsame
    have hno' := (List.forall_mem_cons.mp hno).2
    rw [List.cons_append] at h
    cases h with
    | step hrun hs =>
      rcases hs.peerAddress_eq p with ⟨hnot, hl⟩ | ⟨j, c, rfl, hc, hl⟩
      · rw [hl]
        rcases ih hrun hsame' hno' with ⟨hnone, hkept⟩ | ⟨⟨e, he, hcomp⟩, hkept⟩
        · exact Or.inl ⟨List.forall_mem_cons.mpr ⟨hnot, hnone⟩, hkept⟩
        · exact Or.inr ⟨⟨e, List.mem_cons_of_mem _ he, hcomp⟩, hkept⟩
      · -- this handshake finds nothing
        refine Or.inr ⟨⟨_, List.mem_cons_self, j, rfl⟩, ?_⟩
        have hcaddr := hfrom j rfl
        rw [hc] at hcaddr
        cases hcaddr
        rw [hl, lookup_pendingConnects hinit hpending hrun, parkedName_since haddr hno']
        rfl

/-- **When reconnection uses the dialled name.**  Connection `k` was opened by
`connect(addr, name)` and has completed its handshake with `p`; since then nobody has connected to
that address, and the connections of `p` come from it.  Then `peer_addresses` has the name for `p`
exactly if it was still parked when the handshake completed and no other handshake with `p` has
completed since, or the name is the peer's id anyway. -/
theorem dialled_name_kept_iff (hinit : init.Initial) (hpending : init.node.pendingConnects = ∅)
    (since before : ConnPast γ δ)
    (h : History ConnStep init (since ++ (s₁, .conn k (.complete p)) :: before) s)
    (hdial : (s₀, .dial k addr name) ∈ before)
    (hsame : ∀ e ∈ since, ComesFrom p addr e) (hno : ∀ e ∈ since, ¬ Connects addr e) :
    s.node.peerAddresses.lookup p = some (addr, name) ↔
      ((parkedName addr before).getD p = name ∧ ∀ e ∈ since, ¬ Completes p e) ∨
      (name = p ∧ ∃ e ∈ since, Completes p e) := by
  have hbefore : History ConnStep init before s₁ :=
    (h.before (List.suffix_append since _)).1
  rcases peerAddress_since hinit hpending h (dialled_addr hbefore hdial) hsame hno with
    ⟨hnone, hl⟩ | ⟨hsome, hl⟩
  · rw [hl, Option.some.injEq, Prod.mk.injEq]
    constructor
    · rintro ⟨-, hname⟩
      exact Or.inl ⟨hname, hnone⟩
    · rintro (⟨hname, -⟩ | ⟨-, e, he, hcomp⟩)
      · exact ⟨rfl, hname⟩
      · exact absurd hcomp (hnone e he)
  · rw [hl, Option.some.injEq, Prod.mk.injEq]
    constructor
    · rintro ⟨-, hname⟩
      exact Or.inr ⟨hname.symm, hsome⟩
    · rintro (⟨-, hnone⟩ | ⟨hname, -⟩)
      · obtain ⟨e, he, hcomp⟩ := hsome
        exact absurd hcomp (hnone e he)
      · exact ⟨rfl, hname.symm⟩

theorem dialled (h : History ConnStep init past s) (k : Nat) (addr : SocketAddr) (name : String)
    (hk : s.conns k = none) : History ConnStep init ((s, .dial k addr name) :: past)
      { s with
        node := { s.node with pendingConnects := s.node.pendingConnects.insert addr name }
        conns := Function.update s.conns k (some (.opened addr none)) } :=
  h.step (.dial hk)

end

/-! ## An inbound connection from the dialled address -/

/-- `a` dials `x` under the name `b.example` and has its handshake with `b` completed.  If a
connection from `b` completes first, it takes the name; if one completes later, it overwrites it.
Both times the name for reconnection is `b`. -/
theorem dialled_name_lost :
    (∃ past s, History ConnStep bare past s ∧
      (past.map Prod.snd).reverse = [.dial 1 "x" "b.example", .accept 2 "x",
        .conn 2 (.complete "b"), .conn 1 (.complete "b")] ∧
      s.node.peerAddresses.lookup "b" = some ("x", "b")) ∧
    (∃ past s, History ConnStep bare past s ∧
      (past.map Prod.snd).reverse = [.dial 1 "x" "b.example", .conn 1 (.complete "b"),
        .accept 2 "x", .conn 2 (.complete "b")] ∧
      s.node.peerAddresses.lookup "b" = some ("x", "b")) := by
  have h1 := dialled (.start : History ConnStep bare [] bare) 1 "x" "b.example" rfl
  constructor
  · have h2 := acted (accepted h1 2 "x" rfl) 2 (.complete "b") rfl rfl (by decide)
    have h3 := acted h2 1 (.complete "b") rfl rfl (by decide)
    exact ⟨_, _, h3, rfl, rfl⟩
  · have h2 := accepted (acted h1 1 (.complete "b") rfl rfl (by decide)) 2 "x" rfl
    have h3 := acted h2 2 (.complete "b") rfl rfl (by decide)
    exact ⟨_, _, h3, rfl, rfl⟩

/-- Without another connection of `b` the name is kept, whatever else happens. -/
theorem dialled_name_kept : ∃ past s, History ConnStep bare past s ∧
    (past.map Prod.snd).reverse = [.dial 1 "x" "b.example", .conn 1 (.complete "b"),
      .accept 2 "y", .conn 2 (.complete "c")] ∧
    s.node.peerAddresses.lookup "b" = some ("x", "b.example") := by
  have h1 := dialled (.start : History ConnStep bare [] bare) 1 "x" "b.example" rfl
  have h2 := accepted (acted h1 1 (.complete "b") rfl rfl (by decide)) 2 "y" rfl
  have h3 := acted h2 2 (.complete "c") rfl rfl (by decide)
  refine ⟨_, _, h3, rfl, ?_⟩
  refine (dialled_name_kept_iff bare_initial rfl [_, _] _ h3 List.mem_cons_self ?_ ?_).mpr
    (Or.inl ⟨rfl, ?_⟩)
  · simp [ComesFrom]
  · simp [Connects, parks]
  · simp [Completes]

end Stric.Flow
