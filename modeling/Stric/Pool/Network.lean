import Mathlib.Algebra.BigOperators.Group.Finset.Basic
import Mathlib.Algebra.Order.BigOperators.Group.Finset
import Mathlib.Algebra.GroupWithZero.Nat
import Mathlib.Logic.Relation

/-!
# Message-passing networks

A network is a state for every node and the packets in flight.  A step delivers one packet,
whichever it is, or lets one node act on its own; the node moves to a new state and sends.
Packets are neither lost nor duplicated, and they may overtake each other.

    Run P init trace net        `net` is reached from `init` by the events of `trace`

The trace lists the latest event first.  General facts about such runs:

* `Run.refines`: a run of one protocol seen as a run of another.
* `Covered`: for nodes that hold a value and tell it to their peers.  Along every link the
  value of one end is bounded by the value of the other and what is in flight between them;
  so, with nothing in flight, connected nodes hold the same value (`Covered.agree`).
* `Run.sends_le` and `Run.length_le`: a potential that pays for every message sent bounds
  the messages of a run and its length.
* `Run.casting` and `Run.passed_on`: copies handed down a tree reach nobody twice, and
  everybody in the end.
-/

namespace Stric.Pool

structure Packet (V M : Type) where
  src : V
  dst : V
  msg : M

/-- The link a packet travels on. -/
def Packet.link {V M : Type} (p : Packet V M) : V × V := (p.src, p.dst)

structure Net (V S M : Type) where
  state : V → S
  flight : List (Packet V M)

/-- What nodes do: `recv v src msg s s' outs` on a delivery, `own v a s s' outs` on their
own. -/
structure Protocol (V S M A : Type) where
  recv : V → V → M → S → S → List (V × M) → Prop
  own : V → A → S → S → List (V × M) → Prop

inductive Event (V M A : Type) where
  | deliver (p : Packet V M) (outs : List (V × M))
  | own (v : V) (a : A) (outs : List (V × M))

section
variable {V S M A : Type} [DecidableEq V]

/-- `v` moves to `s` and sends `outs`, while `rest` stays in flight. -/
def Net.act (state : V → S) (rest : List (Packet V M)) (v : V) (s : S) (outs : List (V × M)) :
    Net V S M where
  state := Function.update state v s
  flight := rest ++ outs.map fun o => ⟨v, o.1, o.2⟩

theorem Net.mem_act {state : V → S} {rest : List (Packet V M)} {v : V} {s : S}
    {outs : List (V × M)} {p : Packet V M} :
    p ∈ (Net.act state rest v s outs).flight ↔ p ∈ rest ∨ ∃ o ∈ outs, p = ⟨v, o.1, o.2⟩ := by
  simp [Net.act, eq_comm]

@[simp] theorem Net.act_state_self (state : V → S) (rest : List (Packet V M)) (v : V) (s : S)
    (outs : List (V × M)) : (Net.act state rest v s outs).state v = s := by
  simp [Net.act]

theorem Net.act_state_ne {state : V → S} {rest : List (Packet V M)} {v w : V} {s : S}
    {outs : List (V × M)} (h : w ≠ v) : (Net.act state rest v s outs).state w = state w := by
  simp [Net.act, h]

/-- What holds of every node's state holds after a step at `v`, if it holds of `v`'s new
state. -/
theorem Net.act_forall (P : V → S → Prop) {state : V → S} {rest : List (Packet V M)} {v : V} {s : S}
    {outs : List (V × M)} (hnew : P v s) (hold : ∀ u, P u (state u)) (u : V) :
    P u ((Net.act state rest v s outs).state u) := by
  by_cases hu : u = v
  · subst hu
    rw [Net.act_state_self]
    exact hnew
  · rw [Net.act_state_ne hu]
    exact hold u

/-- The network with every node seen through `f`. -/
def Net.map {S' : Type} (f : S → S') (net : Net V S M) : Net V S' M :=
  ⟨fun v => f (net.state v), net.flight⟩

theorem Net.map_act {S' : Type} (f : S → S') (state : V → S) (rest : List (Packet V M)) (v : V)
    (s : S) (outs : List (V × M)) :
    (Net.act state rest v s outs).map f = Net.act (fun u => f (state u)) rest v (f s) outs := by
  simp only [Net.map, Net.act, Net.mk.injEq, and_true]
  exact funext fun u => Function.apply_update (fun _ => f) state v s u

omit [DecidableEq V] in
theorem mem_of_mem_rest {net : Net V S M} {l₁ l₂ : List (Packet V M)} {p q : Packet V M}
    (hf : net.flight = l₁ ++ p :: l₂) (hq : q ∈ l₁ ++ l₂) : q ∈ net.flight := by
  rw [hf]
  rcases List.mem_append.mp hq with hq | hq
  · exact List.mem_append_left _ hq
  · exact List.mem_append_right _ (List.mem_cons_of_mem _ hq)

inductive Step (P : Protocol V S M A) (net : Net V S M) : Event V M A → Net V S M → Prop
  | deliver {l₁ l₂ : List (Packet V M)} {p : Packet V M} {s : S} {outs : List (V × M)} :
      net.flight = l₁ ++ p :: l₂ → P.recv p.dst p.src p.msg (net.state p.dst) s outs →
      Step P net (.deliver p outs) (Net.act net.state (l₁ ++ l₂) p.dst s outs)
  | own {v : V} {a : A} {s : S} {outs : List (V × M)} : P.own v a (net.state v) s outs →
      Step P net (.own v a outs) (Net.act net.state net.flight v s outs)

/-- The runs from `init`; the latest event stands first. -/
inductive Run (P : Protocol V S M A) (init : Net V S M) : List (Event V M A) → Net V S M → Prop
  | nil : Run P init [] init
  | step {trace : List (Event V M A)} {net net' : Net V S M} {e : Event V M A} :
      Run P init trace net → Step P net e net' → Run P init (e :: trace) net'

/-- The run goes on with the packet that has been in flight longest. -/
theorem Run.deliver_head {P : Protocol V S M A} {init net : Net V S M}
    {trace : List (Event V M A)} (h : Run P init trace net) {p : Packet V M}
    {rest : List (Packet V M)} (hf : net.flight = p :: rest) (s : S) (outs : List (V × M))
    (hr : P.recv p.dst p.src p.msg (net.state p.dst) s outs) :
    Run P init (.deliver p outs :: trace) (Net.act net.state rest p.dst s outs) := by
  have hf' : net.flight = [] ++ p :: rest := hf
  exact .step h (.deliver hf' hr)

theorem Run.act_own {P : Protocol V S M A} {init net : Net V S M} {trace : List (Event V M A)}
    (h : Run P init trace net) (v : V) (a : A) (s : S) (outs : List (V × M))
    (hr : P.own v a (net.state v) s outs) :
    Run P init (.own v a outs :: trace) (Net.act net.state net.flight v s outs) :=
  .step h (.own hr)

/-- If nodes do nothing on their own, nothing happens when nothing is in flight. -/
theorem Run.eq_of_flight_nil {P : Protocol V S M Empty} {init net : Net V S M}
    {trace : List (Event V M Empty)} (h : Run P init trace net) (hf : init.flight = []) :
    net = init := by
  induction h with
  | nil => rfl
  | step _ he ih =>
    subst ih
    cases he with
    | @own v a s outs h => exact a.elim
    | deliver hf' _ =>
      rw [hf] at hf'
      cases List.append_eq_nil_iff.mp hf'.symm |>.2

/-- **Invariants of runs.**  One may assume what holds of the trace so far. -/
theorem Run.invariant {P : Protocol V S M A} {init : Net V S M}
    (Good : List (Event V M A) → Prop) (Inv : List (Event V M A) → Net V S M → Prop)
    (htail : ∀ e trace, Good (e :: trace) → Good trace) (hinit : Inv [] init)
    (hstep : ∀ trace net e net', Good (e :: trace) → Inv trace net → Step P net e net' →
      Inv (e :: trace) net')
    {trace : List (Event V M A)} {net : Net V S M} (hrun : Run P init trace net)
    (hgood : Good trace) : Inv trace net := by
  induction hrun with
  | nil => exact hinit
  | @step trace net net' e _ he ih => exact hstep _ _ _ _ hgood (ih (htail _ _ hgood)) he

/-- **Refinement.**  If every step of `P` is, through `view`, a step of `Q` or none at all, every
run of `P` is a run of `Q`. -/
theorem Run.refines {V' S' M' A' : Type} [DecidableEq V'] {P : Protocol V S M A}
    {Q : Protocol V' S' M' A'} {init : Net V S M} (Inv : Net V S M → Prop)
    (view : Net V S M → Net V' S' M') (seen : Event V M A → Option (Event V' M' A'))
    (hinit : Inv init)
    (hinv : ∀ net e net', Inv net → Step P net e net' → Inv net')
    (hstep : ∀ net e net', Inv net → Step P net e net' →
      (seen e = none ∧ view net' = view net) ∨
        ∃ e', seen e = some e' ∧ Step Q (view net) e' (view net'))
    {trace : List (Event V M A)} {net : Net V S M} (h : Run P init trace net) :
    Inv net ∧ Run Q (view init) (trace.filterMap seen) (view net) := by
  induction h with
  | nil => exact ⟨hinit, .nil⟩
  | @step trace net net' e _ he ih =>
    obtain ⟨hI, hrun⟩ := ih
    refine ⟨hinv _ _ _ hI he, ?_⟩
    rcases hstep _ _ _ hI he with ⟨hseen, hview⟩ | ⟨e', hseen, hs⟩
    · rw [List.filterMap_cons_none hseen, hview]
      exact hrun
    · rw [List.filterMap_cons_some hseen]
      exact .step hrun hs

/-- The messages an event sends. -/
def Event.outs : Event V M A → List (V × M)
  | .deliver _ outs => outs
  | .own _ _ outs => outs

/-- How many messages the events of a trace send. -/
def sends (trace : List (Event V M A)) : Nat := (trace.map fun e => e.outs.length).sum

/-- The packets a trace has delivered. -/
def delivered (trace : List (Event V M A)) : List (Packet V M) :=
  trace.filterMap fun e => match e with
    | .deliver p _ => some p
    | .own _ _ _ => none

omit [DecidableEq V] in
@[simp] theorem delivered_deliver (p : Packet V M) (outs : List (V × M))
    (trace : List (Event V M A)) : delivered (.deliver p outs :: trace) = p :: delivered trace := rfl

omit [DecidableEq V] in
@[simp] theorem delivered_own (v : V) (a : A) (outs : List (V × M)) (trace : List (Event V M A)) :
    delivered (.own v a outs :: trace) = delivered trace := rfl

/-- Every message sent, and every packet of the start, is delivered or in flight. -/
theorem Run.conservation {P : Protocol V S M A} {init net : Net V S M}
    {trace : List (Event V M A)} (h : Run P init trace net) :
    (delivered trace).length + net.flight.length = init.flight.length + sends trace := by
  induction h with
  | nil => simp [delivered, sends]
  | @step trace net net' e _ he ih =>
    cases he with
    | deliver hf _ =>
      rw [hf] at ih
      simp only [delivered_deliver, Net.act, sends, List.map_cons, Event.outs, List.sum_cons,
        List.length_append, List.length_cons, List.length_map] at ih ⊢
      omega
    | own _ =>
      simp only [delivered_own, Net.act, sends, List.map_cons, Event.outs, List.sum_cons,
        List.length_append, List.length_map] at ih ⊢
      omega

end

/-! ## Links that keep the order -/

section
variable {V S M A : Type} [DecidableEq V] {P : Protocol V S M A} {init net : Net V S M}

/-- As `Step`, but of the packets on one link the one sent first is delivered first. -/
inductive FifoStep (P : Protocol V S M A) (net : Net V S M) : Event V M A → Net V S M → Prop
  | deliver {l₁ l₂ : List (Packet V M)} {p : Packet V M} {s : S} {outs : List (V × M)} :
      net.flight = l₁ ++ p :: l₂ → (∀ q ∈ l₁, q.link ≠ p.link) →
      P.recv p.dst p.src p.msg (net.state p.dst) s outs →
      FifoStep P net (.deliver p outs) (Net.act net.state (l₁ ++ l₂) p.dst s outs)
  | own {v : V} {a : A} {s : S} {outs : List (V × M)} : P.own v a (net.state v) s outs →
      FifoStep P net (.own v a outs) (Net.act net.state net.flight v s outs)

inductive FifoRun (P : Protocol V S M A) (init : Net V S M) : List (Event V M A) → Net V S M → Prop
  | nil : FifoRun P init [] init
  | step {trace : List (Event V M A)} {net net' : Net V S M} {e : Event V M A} :
      FifoRun P init trace net → FifoStep P net e net' → FifoRun P init (e :: trace) net'

/-- The messages on a link, the one sent first in front. -/
def Net.onLink (net : Net V S M) (e : V × V) : List M :=
  (net.flight.filter fun p => p.link = e).map Packet.msg

/-- What is sent to `w`. -/
def sentTo (outs : List (V × M)) (w : V) : List M :=
  (outs.filter fun o => o.1 = w).map Prod.snd

/-- What a step at `v` leaves on a link: what stays in flight there, and behind it what `v`
sends over it. -/
theorem Net.onLink_act (state : V → S) (rest : List (Packet V M)) (v : V) (s : S)
    (outs : List (V × M)) (e : V × V) :
    (Net.act state rest v s outs).onLink e =
      Net.onLink (⟨state, rest⟩ : Net V S M) e ++ if e.1 = v then sentTo outs e.2 else [] := by
  have hsent : ((outs.map fun o => (⟨v, o.1, o.2⟩ : Packet V M)).filter fun p => p.link = e).map
      Packet.msg = if e.1 = v then sentTo outs e.2 else [] := by
    rw [List.filter_map, List.map_map]
    obtain ⟨a, b⟩ := e
    by_cases hv : a = v
    · subst hv
      simp [Function.comp_def, Packet.link, sentTo]
    · simp [Function.comp_def, Packet.link, Ne.symm hv, hv]
  simp only [Net.onLink, Net.act, List.filter_append, List.map_append]
  rw [hsent]

/-- The first packet of a link is taken off it, and nothing off the others. -/
theorem Net.onLink_deliver {l₁ l₂ : List (Packet V M)} {p : Packet V M}
    (hf : net.flight = l₁ ++ p :: l₂) (hfirst : ∀ q ∈ l₁, q.link ≠ p.link) (e : V × V) :
    net.onLink e =
      if e = p.link then p.msg :: Net.onLink (⟨net.state, l₁ ++ l₂⟩ : Net V S M) e
      else Net.onLink (⟨net.state, l₁ ++ l₂⟩ : Net V S M) e := by
  simp only [Net.onLink, hf, List.filter_append, List.map_append]
  split
  · next he =>
    subst he
    have hnone : l₁.filter (fun q => decide (q.link = p.link)) = [] :=
      List.filter_eq_nil_iff.mpr fun q hq => by simpa using hfirst q hq
    rw [hnone]
    simp
  · next he => simp [Ne.symm he]

/-- The message in front can be delivered. -/
theorem Net.exists_first {e : V × V} {m : M} {ms : List M} (h : net.onLink e = m :: ms) :
    ∃ l₁ l₂ p, net.flight = l₁ ++ p :: l₂ ∧ (∀ q ∈ l₁, q.link ≠ p.link) ∧ p.link = e ∧ p.msg = m := by
  obtain ⟨p, ps, hps, rfl, -⟩ := List.map_eq_cons_iff.mp h
  obtain ⟨l₁, l₂, hf, hl₁, hp, -⟩ := List.filter_eq_cons_iff.mp hps
  have hpe : p.link = e := by simpa using hp
  refine ⟨l₁, l₂, p, hf, fun q hq hqp => ?_, hpe, rfl⟩
  exact hl₁ q hq (by simpa using hqp.trans hpe)

/-- The packet that has been in flight longest is first on its link. -/
theorem FifoRun.deliver_head {P : Protocol V S M A} {init : Net V S M} {trace : List (Event V M A)}
    (h : FifoRun P init trace net) {p : Packet V M} {rest : List (Packet V M)}
    (hf : net.flight = p :: rest) (s : S) (outs : List (V × M))
    (hr : P.recv p.dst p.src p.msg (net.state p.dst) s outs) :
    FifoRun P init (.deliver p outs :: trace) (Net.act net.state rest p.dst s outs) := by
  have hf' : net.flight = [] ++ p :: rest := hf
  exact .step h (.deliver hf' (fun _ hq => absurd hq List.not_mem_nil) hr)

theorem FifoRun.act_own {P : Protocol V S M A} {init : Net V S M} {trace : List (Event V M A)}
    (h : FifoRun P init trace net) (v : V) (a : A) (s : S) (outs : List (V × M))
    (hr : P.own v a (net.state v) s outs) :
    FifoRun P init (.own v a outs :: trace) (Net.act net.state net.flight v s outs) :=
  .step h (.own hr)

/-- The run goes on with the message in front of a link. -/
theorem FifoRun.deliver_first {P : Protocol V S M A} {init : Net V S M} {trace : List (Event V M A)}
    (h : FifoRun P init trace net) {u v : V} {m : M} {ms : List M} (hl : net.onLink (u, v) = m :: ms)
    (s : S) (outs : List (V × M)) (hr : P.recv v u m (net.state v) s outs) :
    ∃ rest, FifoRun P init (.deliver ⟨u, v, m⟩ outs :: trace) (Net.act net.state rest v s outs) ∧
      (∀ p ∈ rest, p ∈ net.flight) ∧
      ∀ e, (Net.act net.state rest v s outs).onLink e =
        (if e = (u, v) then ms else net.onLink e) ++ if e.1 = v then sentTo outs e.2 else [] := by
  obtain ⟨l₁, l₂, ⟨src, dst, msg⟩, hf, hfirst, hlink, rfl⟩ := Net.exists_first hl
  obtain ⟨rfl, rfl⟩ := Prod.mk.inj hlink
  refine ⟨l₁ ++ l₂, .step h (.deliver hf hfirst hr), fun p hp => mem_of_mem_rest hf hp, fun e => ?_⟩
  rw [Net.onLink_act]
  have hrest : net.onLink e = if e = (src, dst) then msg :: Net.onLink ⟨net.state, l₁ ++ l₂⟩ e
      else Net.onLink ⟨net.state, l₁ ++ l₂⟩ e := Net.onLink_deliver hf hfirst e
  by_cases he : e = (src, dst)
  · subst he
    rw [if_pos rfl, hl] at hrest
    rw [if_pos rfl, ← (List.cons.inj hrest).2]
  · rw [if_neg he] at hrest
    rw [if_neg he, hrest]

end

/-! ## Values told along links -/

section
variable {V S M A L : Type} [DecidableEq V] [Preorder L] {val : S → L} {dat : M → L}
  {Peer : V → V → Prop}

/-- Every packet is backed by the value of its sender; and over each link `u → v`, whatever
bounds `v`'s value and the packets from `u` to `v` bounds `u`'s value. -/
structure Covered (val : S → L) (dat : M → L) (Peer : V → V → Prop) (net : Net V S M) : Prop where
  backed : ∀ p ∈ net.flight, dat p.msg ≤ val (net.state p.src)
  link : ∀ u v, Peer u v → ∀ b, val (net.state v) ≤ b →
    (∀ p ∈ net.flight, p.src = u → p.dst = v → dat p.msg ≤ b) → val (net.state u) ≤ b

/-- What a step at `v` has to do: its value grows, it takes in what it is handed, it sends
nothing it does not hold, and it tells every peer what that peer may not know. -/
structure Tells (val : S → L) (dat : M → L) (Peer : V → V → Prop) (state : V → S) (v : V)
    (s : S) (outs : List (V × M)) : Prop where
  grows : val (state v) ≤ val s
  sent : ∀ o ∈ outs, dat o.2 ≤ val s
  told : ∀ t, Peer v t → t ≠ v → ∀ b, val (state v) ≤ b → val (state t) ≤ b →
    (∀ o ∈ outs, o.1 = t → dat o.2 ≤ b) → val s ≤ b

theorem Covered.act {net : Net V S M} (h : Covered val dat Peer net) {rest : List (Packet V M)}
    {v : V} {s : S} {outs : List (V × M)} (ht : Tells val dat Peer net.state v s outs)
    (hsub : ∀ p ∈ rest, p ∈ net.flight)
    (htaken : ∀ p ∈ net.flight, p ∈ rest ∨ (p.dst = v ∧ dat p.msg ≤ val s)) :
    Covered val dat Peer (Net.act net.state rest v s outs) := by
  have hgrow : ∀ u, val (net.state u) ≤ val ((Net.act net.state rest v s outs).state u) :=
    Net.act_forall (fun u s' => val (net.state u) ≤ val s') ht.grows fun _ => le_refl _
  constructor
  · intro p hp
    rcases Net.mem_act.mp hp with hp | ⟨o, ho, rfl⟩
    · exact (h.backed p (hsub p hp)).trans (hgrow _)
    · rw [Net.act_state_self]
      exact ht.sent o ho
  · intro u w hl b hw hb
    -- what still flies, and what was taken in, is below `b`
    have hold : ∀ p ∈ net.flight, p.src = u → p.dst = w → dat p.msg ≤ b := by
      intro p hp hpu hpw
      rcases htaken p hp with hr | ⟨rfl, hd⟩
      · exact hb p (Net.mem_act.mpr (Or.inl hr)) hpu hpw
      · subst hpw
        rw [Net.act_state_self] at hw
        exact hd.trans hw
    have hu := h.link u w hl b ((hgrow w).trans hw) hold
    by_cases huv : u = v
    · subst huv
      by_cases hwu : w = u
      · rwa [hwu] at hw
      rw [Net.act_state_self]
      refine ht.told w hl hwu b hu ((hgrow w).trans hw) fun o ho how => ?_
      exact hb ⟨u, o.1, o.2⟩ (Net.mem_act.mpr (Or.inr ⟨o, ho, rfl⟩)) rfl how
    · rw [Net.act_state_ne huv]
      exact hu

theorem Covered.deliver {net : Net V S M} (h : Covered val dat Peer net)
    {l₁ l₂ : List (Packet V M)} {p : Packet V M} (hf : net.flight = l₁ ++ p :: l₂) {s : S}
    {outs : List (V × M)} (ht : Tells val dat Peer net.state p.dst s outs)
    (hd : dat p.msg ≤ val s) :
    Covered val dat Peer (Net.act net.state (l₁ ++ l₂) p.dst s outs) := by
  refine h.act ht (fun q hq => mem_of_mem_rest hf hq) (fun q hq => ?_)
  rw [hf] at hq
  rcases List.mem_append.mp hq with hq | hq
  · exact Or.inl (List.mem_append_left _ hq)
  · rcases List.mem_cons.mp hq with rfl | hq
    · exact Or.inr ⟨rfl, hd⟩
    · exact Or.inl (List.mem_append_right _ hq)

theorem Covered.own {net : Net V S M} (h : Covered val dat Peer net) {v : V} {s : S}
    {outs : List (V × M)} (ht : Tells val dat Peer net.state v s outs) :
    Covered val dat Peer (Net.act net.state net.flight v s outs) :=
  h.act ht (fun _ hp => hp) (fun _ hp => Or.inl hp)

omit [DecidableEq V] in
/-- **Agreement.**  With nothing in flight, values only grow along the links. -/
theorem Covered.agree {net : Net V S M} (h : Covered val dat Peer net) (hq : net.flight = [])
    {u v : V} (hr : Relation.ReflTransGen Peer u v) : val (net.state u) ≤ val (net.state v) := by
  induction hr with
  | refl => exact le_rfl
  | tail _ hl ih =>
    refine ih.trans (h.link _ _ hl _ le_rfl fun p hp => ?_)
    rw [hq] at hp
    cases hp

end

/-! ## Messages paid for by a potential -/

section
variable {V S M : Type} [DecidableEq V] {P : Protocol V S M Empty} {init net : Net V S M}
  {trace : List (Event V M Empty)}

/-- A delivery at `v` only changes `v`'s share of a sum over the nodes. -/
theorem sum_act (nodes : Finset V) (φ : V → S → Nat) (state : V → S) (rest : List (Packet V M))
    {v : V} (hv : v ∈ nodes) (s : S) (outs : List (V × M)) :
    (∑ u ∈ nodes, φ u ((Net.act state rest v s outs).state u)) + φ v (state v) =
      (∑ u ∈ nodes, φ u (state u)) + φ v s := by
  have h1 := Finset.add_sum_erase nodes (fun u => φ u ((Net.act state rest v s outs).state u)) hv
  have h2 := Finset.add_sum_erase nodes (fun u => φ u (state u)) hv
  have h3 : ∑ u ∈ nodes.erase v, φ u ((Net.act state rest v s outs).state u) =
      ∑ u ∈ nodes.erase v, φ u (state u) := by
    refine Finset.sum_congr rfl fun u hu => ?_
    rw [Net.act_state_ne (Finset.ne_of_mem_erase hu)]
  simp only [Net.act_state_self] at h1
  omega

/-- If every delivery pays for what it sends, a run sends at most what there is to pay. -/
theorem Run.sends_le (nodes : Finset V) (φ : V → S → Nat) (Inv : Net V S M → Prop)
    (hinit : Inv init) (hstep : ∀ net e net', Inv net → Step P net e net' → Inv net')
    (hpay : ∀ net p s outs, Inv net → p ∈ net.flight →
      P.recv p.dst p.src p.msg (net.state p.dst) s outs →
      p.dst ∈ nodes ∧ outs.length + φ p.dst s ≤ φ p.dst (net.state p.dst))
    (h : Run P init trace net) :
    Inv net ∧ sends trace + ∑ u ∈ nodes, φ u (net.state u) ≤ ∑ u ∈ nodes, φ u (init.state u) := by
  induction h with
  | nil => exact ⟨hinit, by simp [sends]⟩
  | @step trace net net' e _ he ih =>
    obtain ⟨hI, hle⟩ := ih
    refine ⟨hstep _ _ _ hI he, ?_⟩
    cases he with
    | own h => nomatch h
    | @deliver l₁ l₂ p s outs hf hr =>
      obtain ⟨hd, hp⟩ := hpay net p s outs hI (by rw [hf]; simp) hr
      have hsum := sum_act nodes φ net.state (l₁ ++ l₂) hd s outs
      have hsends : sends (Event.deliver p outs :: trace) = outs.length + sends trace := by
        simp [sends, Event.outs]
      omega

/-- A run of deliveries is no longer than the packets it starts with and the messages it
sends. -/
theorem Run.length_le (h : Run P init trace net) :
    trace.length ≤ init.flight.length + sends trace := by
  have hall : (delivered trace).length = trace.length := by
    clear h
    induction trace with
    | nil => rfl
    | cons e trace ih =>
      cases e with
      | deliver p outs => simp [ih]
      | own _ a _ => nomatch a
  have := h.conservation
  omega

end

/-! ## Copies along a tree -/

/-- No node has two parents, the root has none, and no node lists a child twice. -/
structure IsTree {V : Type} (kids : V → List V) (root : V) : Prop where
  parent : ∀ p q c, c ∈ kids p → c ∈ kids q → p = q
  root : ∀ p, root ∉ kids p
  nodup : ∀ p, (kids p).Nodup

section
variable {V S M : Type} [DecidableEq V] {P : Protocol V S M Empty} {init net : Net V S M}
  {trace : List (Event V M Empty)} {kids : V → List V} {root : V}

/-- What every message of the start satisfies, and a node passes on, all packets satisfy. -/
theorem Run.messages (Good : M → Prop) (hgood : ∀ p ∈ init.flight, Good p.msg)
    (hrecv : ∀ v src m s s' outs, Good m → P.recv v src m s s' outs → ∀ o ∈ outs, Good o.2)
    (h : Run P init trace net) : ∀ p ∈ net.flight, Good p.msg := by
  induction h with
  | nil => exact hgood
  | @step trace net net' e _ he ih =>
    cases he with
    | own h => nomatch h
    | @deliver l₁ l₂ p s outs hf hr =>
      intro q hq
      rcases Net.mem_act.mp hq with hq | ⟨o, ho, rfl⟩
      · exact ih q (mem_of_mem_rest hf hq)
      · exact hrecv _ _ _ _ _ _ (ih p (by rw [hf]; simp)) hr o ho

/-- The nodes a trace has delivered to. -/
def receivers (trace : List (Event V M Empty)) : List V := (delivered trace).map fun p => p.dst

/-- The nodes copies are on their way to. -/
def Net.heading (net : Net V S M) : List V := net.flight.map fun p => p.dst

/-- Deliveries and copies in flight are for different nodes, each a child of the root or of a
node that has received. -/
structure Casting (kids : V → List V) (root : V) (trace : List (Event V M Empty))
    (net : Net V S M) : Prop where
  once : (receivers trace ++ net.heading).Nodup
  parent : ∀ c ∈ receivers trace ++ net.heading, ∃ p ∈ root :: receivers trace, c ∈ kids p

/-- Taking a packet out of flight and counting it as received moves one entry. -/
theorem perm_deliver (trace : List (Event V M Empty)) (p : Packet V M) (outs : List (V × M)) {l₁ l₂ : List (Packet V M)}
    (hf : net.flight = l₁ ++ p :: l₂) (s : S) :
    (receivers (.deliver p outs :: trace) ++
        (Net.act net.state (l₁ ++ l₂) p.dst s outs).heading).Perm
      ((receivers trace ++ net.heading) ++ outs.map fun o => o.1) := by
  have hhead : (Net.act net.state (l₁ ++ l₂) p.dst s outs).heading =
      (l₁.map fun p => p.dst) ++ (l₂.map fun p => p.dst) ++ outs.map fun o => o.1 := by
    simp [Net.heading, Net.act, Function.comp_def]
  have hold : net.heading =
      (l₁.map fun p => p.dst) ++ p.dst :: (l₂.map fun p => p.dst) := by
    simp [Net.heading, hf]
  rw [hhead, hold]
  simp only [receivers, delivered_deliver, List.map_cons, List.cons_append, ← List.append_assoc]
  exact (List.perm_middle.symm).append_right (outs.map fun o => o.1)

theorem Casting.deliver (h : Casting kids root trace net) (ht : IsTree kids root) {p : Packet V M}
    {outs : List (V × M)} {l₁ l₂ : List (Packet V M)} (hf : net.flight = l₁ ++ p :: l₂) (s : S)
    (hn : (outs.map fun o => o.1).Nodup) (hk : ∀ o ∈ outs, o.1 ∈ kids p.dst) :
    Casting kids root (.deliver p outs :: trace) (Net.act net.state (l₁ ++ l₂) p.dst s outs) := by
  have hperm := perm_deliver trace p outs hf s
  have hhead : p.dst ∈ net.heading := by
    simp only [Net.heading, hf, List.map_append, List.map_cons]
    exact List.mem_append_right _ List.mem_cons_self
  -- a copy for a child of `p.dst` would have come from `p.dst`, which had not received yet
  have hfresh : ∀ c ∈ kids p.dst, c ∉ receivers trace ++ net.heading := by
    intro c hc hmem
    obtain ⟨q, hq, hcq⟩ := h.parent c hmem
    have hqp := ht.parent q p.dst c hcq hc
    subst hqp
    rcases List.mem_cons.mp hq with hr | hq
    · obtain ⟨r, -, hrr⟩ := h.parent p.dst (List.mem_append_right _ hhead)
      rw [hr] at hrr
      exact ht.root r hrr
    · exact (List.nodup_append.mp h.once).2.2 _ hq _ hhead rfl
  refine ⟨hperm.nodup_iff.mpr (List.nodup_append.mpr ⟨h.once, hn, ?_⟩), ?_⟩
  · rintro a ha b hb rfl
    obtain ⟨o, ho, rfl⟩ := List.mem_map.mp hb
    exact hfresh _ (hk o ho) ha
  · intro c hc
    rcases List.mem_append.mp (hperm.mem_iff.mp hc) with hc | hc
    · obtain ⟨q, hq, hcq⟩ := h.parent c hc
      refine ⟨q, ?_, hcq⟩
      rcases List.mem_cons.mp hq with rfl | hq
      · exact List.mem_cons_self
      · exact List.mem_cons_of_mem _ (List.mem_cons_of_mem _ hq)
    · obtain ⟨o, ho, rfl⟩ := List.mem_map.mp hc
      exact ⟨p.dst, List.mem_cons_of_mem _ List.mem_cons_self, hk o ho⟩

/-- **At most once.**  Nobody receives twice, and the root never. -/
theorem Run.casting (ht : IsTree kids root) (Good : M → Prop)
    (hgood : ∀ p ∈ init.flight, Good p.msg) (hn : init.heading.Nodup)
    (hk : ∀ c ∈ init.heading, c ∈ kids root)
    (hrecv : ∀ v src m s s' outs, Good m → P.recv v src m s s' outs →
      (outs.map fun o => o.1).Nodup ∧ ∀ o ∈ outs, o.1 ∈ kids v ∧ Good o.2)
    (h : Run P init trace net) : Casting kids root trace net := by
  induction h with
  | nil => exact ⟨hn, fun c hc => ⟨root, List.mem_cons_self, hk c hc⟩⟩
  | @step trace net net' e hrun he ih =>
    have hflight := hrun.messages Good hgood fun v src m s s' outs hm hr o ho =>
      ((hrecv v src m s s' outs hm hr).2 o ho).2
    cases he with
    | own h => nomatch h
    | @deliver l₁ l₂ p s outs hf hr =>
      obtain ⟨h1, h2⟩ := hrecv _ _ _ _ _ _ (hflight p (by rw [hf]; simp)) hr
      exact ih.deliver ht hf _ h1 fun o ho => (h2 o ho).1

omit [DecidableEq V] in
theorem Casting.root_not_mem (h : Casting kids root trace net) (ht : IsTree kids root) :
    root ∉ receivers trace := by
  intro hr
  obtain ⟨p, -, hp⟩ := h.parent root (List.mem_append_left _ hr)
  exact ht.root p hp

/-- If every node passes a copy to each of its children, those of the root and of the
receivers have received, or a copy is on its way. -/
theorem Run.passed_on (Good : M → Prop) (hgood : ∀ p ∈ init.flight, Good p.msg)
    (hk : ∀ c ∈ kids root, c ∈ init.heading)
    (hrecv : ∀ v src m s s' outs, Good m → P.recv v src m s s' outs →
      (∀ c ∈ kids v, ∃ o ∈ outs, o.1 = c) ∧ ∀ o ∈ outs, Good o.2)
    (h : Run P init trace net) :
    ∀ p ∈ root :: receivers trace, ∀ c ∈ kids p, c ∈ receivers trace ++ net.heading := by
  induction h with
  | nil =>
    intro p hp c hc
    simp only [receivers, delivered, List.filterMap_nil, List.map_nil, List.mem_singleton] at hp
    subst hp
    exact List.mem_append_right _ (hk c hc)
  | @step trace net net' e hrun he ih =>
    have hflight := hrun.messages Good hgood fun v src m s s' outs hm hr =>
      (hrecv v src m s s' outs hm hr).2
    cases he with
    | own h => nomatch h
    | @deliver l₁ l₂ p s outs hf hr =>
      have hm := hflight p (by rw [hf]; simp)
      intro q hq c hc
      rw [(perm_deliver trace p outs hf s).mem_iff]
      by_cases hqp : q = p.dst
      · subst hqp
        obtain ⟨o, ho, rfl⟩ := (hrecv _ _ _ _ _ _ hm hr).1 c hc
        exact List.mem_append_right _ (List.mem_map.mpr ⟨o, ho, rfl⟩)
      · refine List.mem_append_left _ (ih q ?_ c hc)
        rcases List.mem_cons.mp hq with rfl | hq
        · exact List.mem_cons_self
        · rcases List.mem_cons.mp hq with rfl | hq
          · exact absurd rfl hqp
          · exact List.mem_cons_of_mem _ hq

omit [DecidableEq V] in
/-- **Everybody.**  With nothing in flight, every descendant of the root has received. -/
theorem mem_receivers_of_descendant (hq : net.flight = [])
    (h : ∀ p ∈ root :: receivers trace, ∀ c ∈ kids p, c ∈ receivers trace ++ net.heading) {v : V}
    (hv : Relation.ReflTransGen (fun p c => c ∈ kids p) root v) : v ∈ root :: receivers trace := by
  induction hv with
  | refl => exact List.mem_cons_self
  | tail _ hc ih =>
    have := h _ ih _ hc
    simp only [Net.heading, hq, List.map_nil, List.append_nil] at this
    exact List.mem_cons_of_mem _ this

end

end Stric.Pool
