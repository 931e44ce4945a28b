import Stric.Flow.Multicast
import Stric.Pool.Relay

/-!
# Envelopes that go round (`node.rs`)

A relay trusts the forwarding table of the envelope: it keeps no list of envelopes it has seen, and
counts no hops.  The tables that `publish` makes are trees; but an envelope may come from anywhere.

    Passes hosts e v w        `v` passes `e` on to `w`

An envelope goes round for ever exactly if its table has a cycle, over connections that work,
that can be reached from where it is (`relaying_endless_iff`).
-/

namespace Stric.Flow

open Stric.Pool Relation

section
variable {γ δ : Type}

/-- Of an envelope at `v` a copy reaches `w`. -/
def Passes (hosts : NodeId → Host γ δ) (e : Envelope) (v w : NodeId) : Prop :=
  w ∈ kids e.table v ∧ (hosts v).live w

/-- The same, from the link it came over to the next. -/
def PassesOn (hosts : NodeId → Host γ δ) (e : Envelope) (l l' : NodeId × NodeId) : Prop :=
  l'.1 = l.2 ∧ Passes hosts e l.2 l'.2

variable {hosts : NodeId → Host γ δ} {e : Envelope}

/-- Where an envelope comes from does not matter. -/
theorem fades_passesOn_iff (l : NodeId × NodeId) :
    Fades (PassesOn hosts e) l ↔ Fades (Passes hosts e) l.2 := by
  constructor
  · intro h
    induction h with
    | intro l _ ih => exact Acc.intro _ fun w hw => ih (l.2, w) ⟨rfl, hw⟩
  · obtain ⟨u, v⟩ := l
    intro h
    show Fades (PassesOn hosts e) (u, v)
    have hacc : Fades (Passes hosts e) v := h
    clear h
    induction hacc generalizing u with
    | intro v _ ih =>
      refine Acc.intro _ ?_
      rintro ⟨v', w⟩ ⟨hv, hw⟩
      obtain rfl : v' = v := hv
      exact ih w hw v'

/-- An envelope stays within its table. -/
theorem finite_passes (hosts : NodeId → Host γ δ) (e : Envelope) (v : NodeId) :
    {w | ReflTransGen (Passes hosts e) v w}.Finite := by
  refine (List.finite_toSet (v :: children e.table)).subset fun w hw => ?_
  rcases ReflTransGen.cases_tail hw with rfl | ⟨u, -, hu⟩
  · exact List.mem_cons_self
  · exact List.mem_cons_of_mem _ (mem_children.mpr ⟨u, hu.1⟩)

/-- **When relaying ends.**  Of any envelope, whoever made it: its copies are relayed for ever
exactly if, from where it is, the table leads over live connections round to a node it has
passed. -/
theorem relaying_endless_iff (hid : ∀ v, (hosts v).node.nodeId = v) (e : Envelope)
    (src dst : NodeId) :
    Endless (relays fun h => ∃ v, h = hosts v)
      (⟨fun _ => [], [⟨src, dst, e⟩]⟩ : Net NodeId (List (Option (Delivery δ))) Envelope) ↔
    ComesRound (Passes hosts e) dst := by
  have hloop : ComesRound (Passes hosts e) dst ↔ ¬ Fades (PassesOn hosts e) (src, dst) := by
    rw [fades_passesOn_iff, fades_iff (finite_passes hosts e dst), not_not]
  rw [hloop]
  -- every packet in flight is a copy of `e`, and its host is the one of its destination
  have hrecv : ∀ {v : NodeId} {u : NodeId} {e' : Envelope} {s s' : List (Option (Delivery δ))}
      {outs : List (NodeId × Envelope)}, e' = e →
      (relays fun h => ∃ v, h = hosts v).recv v u e' s s' outs →
      outs = (hosts v).copies ((hosts v).node.receive e).2 := by
    rintro v u e' s s' outs rfl ⟨h, ⟨v', rfl⟩, hv, -, rfl⟩
    rw [hid] at hv
    rw [hv]
  have hcopies : ∀ v w, (∃ o ∈ (hosts v).copies ((hosts v).node.receive e).2, o.1 = w) ↔
      Passes hosts e v w := by
    intro v w
    have hmem := (hosts v).mem_copies_forward e
    rw [hid] at hmem
    rw [FlowNode.receive_snd]
    constructor
    · rintro ⟨o, ho, rfl⟩
      obtain ⟨hkid, hlive, -⟩ := (hmem o).mp ho
      exact ⟨hkid, hlive⟩
    · rintro ⟨hkid, hlive⟩
      exact ⟨(w, e), (hmem (w, e)).mpr ⟨hkid, hlive, rfl⟩, rfl⟩
  rw [endless_iff (R := PassesOn hosts e) (fun net => ∀ p ∈ net.flight, p.msg = e)]
  · simp only [List.mem_singleton, exists_eq_left, Packet.link]
  · rintro p hp
    rw [List.mem_singleton.mp hp]
  · intro net ev net' hnet hs
    cases hs with
    | @own v a s outs h => exact a.elim
    | @deliver l₁ l₂ p s outs hf hr =>
      have hp := hnet p (by rw [hf]; exact List.mem_append_right _ List.mem_cons_self)
      intro q hq
      rcases Net.mem_act.mp hq with hq | ⟨o, ho, rfl⟩
      · exact hnet q (mem_of_mem_rest hf hq)
      · rw [hrecv hp hr, FlowNode.receive_snd] at ho
        exact (((hosts p.dst).mem_copies_forward e o).mp ho).2.2
  · intro net p _ _
    exact ⟨_, _, hosts p.dst, ⟨p.dst, rfl⟩, hid _, rfl, rfl⟩
  · intro net p s outs hnet hp hr w
    rw [hrecv (hnet p hp) hr, hcopies]
    exact ⟨fun h => h.2, fun h => ⟨rfl, h⟩⟩
  · exact fun l l' h => h.1

end

/-- Nodes that are connected to "a" and to "b". -/
def pairHosts (v : NodeId) : Host VecGraph Unit where
  node := { (FlowNode.new v ∅ : FlowNode VecGraph Unit) with
    store := AList.insert 1 (some "b") (AList.insert 0 (some "a") ∅) }
  writes _ := true

/-- An envelope that "a" sends to "b", and "b" to "a". -/
def pairEnvelope : Envelope where
  header := some
    { sourceNodeId := "a"
      flowId := "f"
      topicId := "t"
      sessionId := ""
      nonce := ""
      timestamp := 0
      deadline := 0
      deliveryMode := DeliveryMode.guaranteed.toI32
      forwardingTable :=
        AList.insert "b" ⟨["a"]⟩ (AList.insert "a" ⟨["b"]⟩ ∅) }
  messageType := "m"
  codec := Codec.raw.toI32
  payload := []

theorem relaying_endless_pair :
    Endless (relays fun h => ∃ v, h = pairHosts v)
      (⟨fun _ => [], [⟨"a", "b", pairEnvelope⟩]⟩ :
        Net NodeId (List (Option (Delivery Unit))) Envelope) := by
  refine (relaying_endless_iff (fun v => rfl) pairEnvelope "a" "b").mpr ⟨"b", .refl, ?_⟩
  have hba : Passes pairHosts pairEnvelope "b" "a" := by
    unfold Passes Host.live
    decide
  have hab : Passes pairHosts pairEnvelope "a" "b" := by
    unfold Passes Host.live
    decide
  exact (TransGen.single hba).tail hab

end Stric.Flow
