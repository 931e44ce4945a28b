import Stric.Pool.Network

/-!
# Nodes that send one message after the other

In `Network` a node changes its state and sends in one step.  Here it only changes its state; what
it has to send waits in the outbox of the task that made the change, and the tasks of a node send
message by message, each in its order, and among each other in any.

    P.tasked nodes Paced        the protocol `P`, carried out by tasks

* The loop of a node takes the deliveries, the next one only when all of the last is sent; calls
  have tasks of their own.
* `Paced b outs` says when `outs` may join what waits at a node: it restricts the changes.

`Net.whole` puts all that waits into flight.  So seen, a change is a step of `P`, and a message that
is sent changes nothing (`Changed.whole`, `whole_send`).
-/

namespace Stric.Pool

variable {V S M A : Type}

/-- A node with what its loop and its calls have still to send. -/
structure Tasks (V S M : Type) where
  node : S
  loop : List (V × M)
  calls : List (List (V × M))

namespace Tasks

/-- A node that has nothing to send. -/
def idle (s : S) : Tasks V S M := ⟨s, [], []⟩

def waiting (b : Tasks V S M) : List (V × M) := b.loop ++ b.calls.flatten

/-- One of the tasks sends its next message. -/
inductive Sends : Tasks V S M → V × M → Tasks V S M → Prop
  | loop {s : S} {o : V × M} {rest : List (V × M)} {calls : List (List (V × M))} :
      Sends ⟨s, o :: rest, calls⟩ o ⟨s, rest, calls⟩
  | call {s : S} {loop : List (V × M)} {o : V × M} {rest : List (V × M)}
      (l₁ : List (List (V × M))) {l₂ : List (List (V × M))} :
      Sends ⟨s, loop, l₁ ++ (o :: rest) :: l₂⟩ o ⟨s, loop, l₁ ++ rest :: l₂⟩

theorem Sends.node_eq {b b' : Tasks V S M} {o : V × M} (h : b.Sends o b') : b'.node = b.node := by
  cases h <;> rfl

theorem Sends.mem_waiting {b b' : Tasks V S M} {o : V × M} (h : b.Sends o b') (x : V × M) :
    x ∈ b.waiting ↔ x = o ∨ x ∈ b'.waiting := by
  cases h with
  | loop => simp [waiting]
  | call =>
    simp only [waiting, List.flatten_append, List.flatten_cons, List.mem_append, List.mem_cons]
    tauto

end Tasks

inductive TaskAct (A : Type) where
  | call (a : A)
  | send

def Protocol.tasked (P : Protocol V S M A) (nodes : Finset V)
    (Paced : Tasks V S M → List (V × M) → Prop) : Protocol V (Tasks V S M) M (TaskAct A) where
  recv v src msg b b' outs := outs = [] ∧ b.loop = [] ∧
    ∃ s os, P.recv v src msg b.node s os ∧ Paced b os ∧ b' = ⟨s, os, b.calls⟩
  own v a b b' outs := v ∈ nodes ∧ match a with
    | .call a => outs = [] ∧
        ∃ s os, P.own v a b.node s os ∧ Paced b os ∧ b' = ⟨s, b.loop, b.calls ++ [os]⟩
    | .send => ∃ o, b.Sends o b' ∧ outs = [o]

/-! ## What waits, put into flight -/

/-- The packets that wait at the nodes. -/
noncomputable def Net.unsent (nodes : Finset V) (net : Net V (Tasks V S M) M) : List (Packet V M) :=
  nodes.toList.flatMap fun v => (net.state v).waiting.map fun o => ⟨v, o.1, o.2⟩

/-- The network in which all that waits has been sent. -/
noncomputable def Net.whole (nodes : Finset V) (net : Net V (Tasks V S M) M) : Net V S M :=
  ⟨fun v => (net.state v).node, net.flight ++ net.unsent nodes⟩

theorem Net.mem_unsent {nodes : Finset V} {net : Net V (Tasks V S M) M} {p : Packet V M} :
    p ∈ net.unsent nodes ↔ p.src ∈ nodes ∧ (p.dst, p.msg) ∈ (net.state p.src).waiting := by
  simp only [Net.unsent, List.mem_flatMap, Finset.mem_toList, List.mem_map]
  constructor
  · rintro ⟨v, hv, o, ho, rfl⟩
    exact ⟨hv, ho⟩
  · rintro ⟨hv, ho⟩
    exact ⟨p.src, hv, _, ho, rfl⟩

theorem Net.mem_whole {nodes : Finset V} {net : Net V (Tasks V S M) M} {p : Packet V M} :
    p ∈ (net.whole nodes).flight ↔
      p ∈ net.flight ∨ p.src ∈ nodes ∧ (p.dst, p.msg) ∈ (net.state p.src).waiting := by
  rw [Net.whole, List.mem_append, Net.mem_unsent]

/-- A network in which nothing waits. -/
def Net.tasked (net : Net V S M) : Net V (Tasks V S M) M := ⟨fun v => .idle (net.state v), net.flight⟩

theorem Net.whole_tasked (nodes : Finset V) (net : Net V S M) : net.tasked.whole nodes = net := by
  have hunsent : net.tasked.unsent nodes = [] := by
    refine List.eq_nil_iff_forall_not_mem.mpr fun p hp => ?_
    obtain ⟨-, ho⟩ := Net.mem_unsent.mp hp
    cases ho
  show (⟨net.state, net.flight ++ net.tasked.unsent nodes⟩ : Net V S M) = net
  rw [hunsent, List.append_nil]

/-- The same states, and the same packets, in any order. -/
structure Alike (net net' : Net V S M) : Prop where
  state : net.state = net'.state
  flight : ∀ p, p ∈ net.flight ↔ p ∈ net'.flight

variable [DecidableEq V]

/-- `v` has changed its state and has `outs` to send, while `rest` is in flight. -/
structure Changed (net : Net V (Tasks V S M) M) (rest : List (Packet V M)) (v : V) (s : S)
    (outs : List (V × M)) (net' : Net V (Tasks V S M) M) : Prop where
  flight : net'.flight = rest
  node : (net'.state v).node = s
  waiting : ∀ o, o ∈ (net'.state v).waiting ↔ o ∈ (net.state v).waiting ∨ o ∈ outs
  others : ∀ u, u ≠ v → net'.state u = net.state u

theorem changed_act {net : Net V (Tasks V S M) M} {v : V} {b : Tasks V S M} {outs : List (V × M)}
    (rest : List (Packet V M))
    (hwaiting : ∀ o, o ∈ b.waiting ↔ o ∈ (net.state v).waiting ∨ o ∈ outs) :
    Changed net rest v b.node outs (Net.act net.state rest v b []) := by
  refine ⟨by simp [Net.act], by rw [Net.act_state_self], ?_, fun u hu => Net.act_state_ne hu⟩
  rw [Net.act_state_self]
  exact hwaiting

/-- A step is a change or a send. -/
theorem FifoStep.tasked_cases {P : Protocol V S M A} {nodes : Finset V}
    {Paced : Tasks V S M → List (V × M) → Prop} {net net' : Net V (Tasks V S M) M}
    {e : Event V M (TaskAct A)} (h : FifoStep (P.tasked nodes Paced) net e net') :
    (∃ l₁ l₂ p s outs, e = .deliver p [] ∧ net.flight = l₁ ++ p :: l₂ ∧
      (∀ q ∈ l₁, q.link ≠ p.link) ∧ P.recv p.dst p.src p.msg (net.state p.dst).node s outs ∧
      Paced (net.state p.dst) outs ∧ Changed net (l₁ ++ l₂) p.dst s outs net') ∨
    (∃ v a s outs, e = .own v (.call a) [] ∧ v ∈ nodes ∧ P.own v a (net.state v).node s outs ∧
      Paced (net.state v) outs ∧ Changed net net.flight v s outs net') ∨
    ∃ v o b, e = .own v .send [o] ∧ v ∈ nodes ∧ (net.state v).Sends o b ∧
      net' = Net.act net.state net.flight v b [o] := by
  cases h with
  | @deliver l₁ l₂ p b' outs hf hfirst hr =>
    obtain ⟨rfl, hloop, s, os, hr, hpaced, rfl⟩ := hr
    have hwaiting : ∀ o, o ∈ (⟨s, os, (net.state p.dst).calls⟩ : Tasks V S M).waiting ↔
        o ∈ (net.state p.dst).waiting ∨ o ∈ os := by
      intro o
      simp [Tasks.waiting, hloop, or_comm]
    exact .inl ⟨l₁, l₂, p, s, os, rfl, hf, hfirst, hr, hpaced, changed_act _ hwaiting⟩
  | @own v a b' outs hr =>
    obtain ⟨hv, hr⟩ := hr
    cases a with
    | call a =>
      obtain ⟨rfl, s, os, hr, hpaced, rfl⟩ := hr
      have hwaiting : ∀ o, o ∈ (⟨s, (net.state v).loop, (net.state v).calls ++ [os]⟩ :
          Tasks V S M).waiting ↔ o ∈ (net.state v).waiting ∨ o ∈ os := by
        intro o
        simp [Tasks.waiting, or_assoc]
      exact .inr (.inl ⟨v, a, s, os, rfl, hv, hr, hpaced, changed_act _ hwaiting⟩)
    | send =>
      obtain ⟨o, hsends, rfl⟩ := hr
      exact .inr (.inr ⟨v, o, b', rfl, hv, hsends, rfl⟩)

section
variable {nodes : Finset V} {net net' : Net V (Tasks V S M) M}

/-- A change is a step in which all is sent at once. -/
theorem Changed.whole {rest : List (Packet V M)} {v : V} {s : S} {outs : List (V × M)}
    (h : Changed net rest v s outs net') (hv : v ∈ nodes) :
    Alike (Net.act (net.whole nodes).state (rest ++ net.unsent nodes) v s outs)
      (net'.whole nodes) := by
  constructor
  · funext u
    by_cases hu : u = v
    · subst hu
      rw [Net.act_state_self]
      exact h.node.symm
    · rw [Net.act_state_ne hu]
      show (net.state u).node = (net'.state u).node
      rw [h.others u hu]
  · rintro ⟨u, w, m⟩
    rw [Net.mem_act, List.mem_append, Net.mem_unsent, Net.mem_whole, h.flight]
    by_cases hu : u = v
    · subst hu
      simp only [h.waiting, hv, true_and, Packet.mk.injEq]
      constructor
      · rintro ((hp | hp) | ⟨o, ho, rfl, rfl⟩)
        · exact .inl hp
        · exact .inr (.inl hp)
        · exact .inr (.inr ho)
      · rintro (hp | hp | hp)
        · exact .inl (.inl hp)
        · exact .inl (.inr hp)
        · exact .inr ⟨(w, m), hp, rfl, rfl⟩
    · simp [h.others u hu, hu]

/-- What is sent was on its way. -/
theorem whole_send {v : V} {o : V × M} {b : Tasks V S M} (hv : v ∈ nodes)
    (h : (net.state v).Sends o b) :
    Alike (net.whole nodes) ((Net.act net.state net.flight v b [o]).whole nodes) := by
  constructor
  · funext u
    refine Net.act_forall (fun u (b' : Tasks V S M) => (net.state u).node = b'.node)
      h.node_eq.symm (fun _ => rfl) u
  · rintro ⟨u, w, m⟩
    rw [Net.mem_whole, Net.mem_whole, Net.mem_act]
    by_cases hu : u = v
    · subst hu
      obtain ⟨w', m'⟩ := o
      simp only [Net.act_state_self, h.mem_waiting, hv, true_and, List.mem_singleton,
        exists_eq_left, Packet.mk.injEq, Prod.mk.injEq, or_assoc]
    · simp [Net.act_state_ne hu, hu]

end

end Stric.Pool
