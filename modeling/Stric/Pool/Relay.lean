import Mathlib.Combinatorics.SimpleGraph.Acyclic
import Mathlib.Logic.Hydra
import Mathlib.Data.Set.Finite.Lattice
import Mathlib.Data.Finset.Prod
import Stric.Pool.Network

/-!
# Relaying over the links of a network

A node that relays passes a packet that came over the link `u → v` on to its peers, except
back to `u`.  Whether that ends depends on the links alone:

    Endless P net ↔ ∃ p ∈ net.flight, ¬ Fades R (p.src, p.dst)          (endless_iff)

for deliveries that send along `R` and nothing else.  A delivery replaces one packet by
finitely many that are one link further (`Relation.CutExpand`), so if no chain of links goes
on for ever, no run does; and a chain that goes on for ever is a run.  Among finitely many
links, a chain goes on for ever exactly if it comes round to a link it has passed
(`fades_iff`); and in a graph, walks that never turn straight back come round exactly if
there is a cycle (`not_onward_loop_iff`).
-/

namespace Stric.Pool

open Relation

/-! ## Chains that end -/

section
variable {α : Type} {R : α → α → Prop} {a b : α}

/-- Every chain from `a` ends. -/
def Fades (R : α → α → Prop) (a : α) : Prop := Acc (Function.swap R) a

/-- Some chain from `a` comes round to where it has been. -/
def ComesRound (R : α → α → Prop) (a : α) : Prop := ∃ b, ReflTransGen R a b ∧ TransGen R b b

theorem Fades.next (h : Fades R a) (hab : R a b) : Fades R b := Acc.inv h hab

theorem Fades.trans (h : Fades R a) (hab : ReflTransGen R a b) : Fades R b := by
  induction hab with
  | refl => exact h
  | tail _ hbc ih => exact ih.next hbc

theorem Fades.irrefl (h : Fades R a) : ¬ TransGen R a a := by
  intro hloop
  have hacc : Acc (TransGen (Function.swap R)) a := Acc.transGen h
  rw [← transGen_swap] at hloop
  clear h
  induction hacc with
  | intro x _ ih => exact ih x hloop hloop

/-- What does not end has a next link that does not end. -/
theorem exists_next_of_not_fades (h : ¬ Fades R a) : ∃ b, R a b ∧ ¬ Fades R b := by
  by_contra hall
  push Not at hall
  exact h (Acc.intro a hall)

/-- Within a finite set, every chain ends unless one comes round. -/
theorem fades_iff (hfin : {b | ReflTransGen R a b}.Finite) : Fades R a ↔ ¬ ComesRound R a := by
  constructor
  · rintro h ⟨b, hab, hbb⟩
    exact (h.trans hab).irrefl hbb
  · intro hno
    have : Finite {b | ReflTransGen R a b} := hfin
    -- no chain comes round, so being further along is a strict order of what can be reached
    let r : {b | ReflTransGen R a b} → {b | ReflTransGen R a b} → Prop := fun x y => TransGen R y x
    have : IsTrans _ r := ⟨fun x y z hxy hyz => TransGen.trans hyz hxy⟩
    have : Std.Irrefl r := ⟨fun x hx => hno ⟨x, x.2, hx⟩⟩
    have hwf : WellFounded r := Finite.wellFounded_of_trans_of_irrefl r
    have hacc : ∀ x : {b | ReflTransGen R a b}, Fades R x := by
      intro x
      induction x using hwf.induction with
      | _ x ih => exact Acc.intro _ fun y hy => ih ⟨y, x.2.tail hy⟩ (.single hy)
    exact hacc ⟨a, .refl⟩

end

/-! ## Runs that do not end -/

section
variable {V S M A : Type} [DecidableEq V]

/-- Some run from here goes on for ever. -/
def Endless (P : Protocol V S M A) (net : Net V S M) : Prop :=
  ∃ f : Nat → Net V S M, f 0 = net ∧ ∀ n, ∃ e, Step P (f n) e (f (n + 1))

/-- A run that can always go on does not end. -/
theorem endless_of_progress {P : Protocol V S M A} (Q : Net V S M → Prop)
    (hstep : ∀ net, Q net → ∃ e net', Step P net e net' ∧ Q net') {net : Net V S M} (h : Q net) :
    Endless P net := by
  have hnext : ∀ x : {net // Q net}, ∃ y : {net // Q net}, ∃ e, Step P x e y := by
    rintro ⟨net, hnet⟩
    obtain ⟨e, net', hs, hQ⟩ := hstep net hnet
    exact ⟨⟨net', hQ⟩, e, hs⟩
  choose next hnext using hnext
  refine ⟨fun n => next^[n] ⟨net, h⟩, rfl, fun n => ?_⟩
  show ∃ e, Step P _ e (next^[n + 1] ⟨net, h⟩)
  rw [Function.iterate_succ_apply']
  exact hnext _

variable {P : Protocol V S M Empty} {net : Net V S M} {R : V × V → V × V → Prop}

omit [DecidableEq V] in
/-- One link further, on a chain that ends: there is no endless chain of these at all. -/
theorem wellFounded_fading (R : V × V → V × V → Prop) :
    WellFounded fun e' e => R e e' ∧ Fades R e := by
  refine ⟨fun e => ?_⟩
  by_cases he : Fades R e
  · induction he with
    | intro e _ ih => exact Acc.intro _ fun e' h => ih e' h.1
  · exact Acc.intro _ fun e' h => absurd h.2 he

/-- A delivery takes a link out, and puts in links one further. -/
theorem cutExpand_of_step {e : Event V M Empty} {net' : Net V S M}
    (hrelay : ∀ p s outs, p ∈ net.flight → P.recv p.dst p.src p.msg (net.state p.dst) s outs →
      ∀ o ∈ outs, R p.link (p.dst, o.1))
    (hfades : ∀ p ∈ net.flight, Fades R p.link) (hs : Step P net e net') :
    CutExpand (fun e' e => R e e' ∧ Fades R e)
      (net'.flight.map Packet.link : Multiset (V × V)) (net.flight.map Packet.link) := by
  cases hs with
  | own h => nomatch h
  | @deliver l₁ l₂ p s outs hf hr =>
    have hp : p ∈ net.flight := by rw [hf]; simp
    refine ⟨(outs.map fun o => (p.dst, o.1) : List (V × V)), p.link, ?_, ?_⟩
    · intro e' he'
      obtain ⟨o, ho, rfl⟩ := List.mem_map.mp (Multiset.mem_coe.mp he')
      exact ⟨hrelay p s outs hp hr o ho, hfades p hp⟩
    · have hnew : (Net.act net.state (l₁ ++ l₂) p.dst s outs).flight.map Packet.link =
          (l₁.map Packet.link ++ l₂.map Packet.link) ++ outs.map fun o => (p.dst, o.1) := by
        simp [Net.act, Packet.link, Function.comp_def]
      have hold : net.flight.map Packet.link =
          l₁.map Packet.link ++ p.link :: l₂.map Packet.link := by
        rw [hf, List.map_append, List.map_cons]
      have hone : ({p.link} : Multiset (V × V)) = ([p.link] : List (V × V)) := rfl
      rw [hnew, hold, hone, Multiset.coe_add, Multiset.coe_add, Multiset.coe_eq_coe]
      refine List.perm_append_singleton _ _ |>.trans ?_
      rw [← List.cons_append]
      exact List.perm_middle.symm.append_right _

/-- **When relaying ends.**  If deliveries pass packets on along `R`, to every next link and
to no other, a run goes on for ever exactly if a packet is on a chain that does. -/
theorem endless_iff (Inv : Net V S M → Prop) (hinit : Inv net)
    (hstep : ∀ net e net', Inv net → Step P net e net' → Inv net')
    (hrecv : ∀ net p, Inv net → p ∈ net.flight → ∃ s outs,
      P.recv p.dst p.src p.msg (net.state p.dst) s outs)
    (hrelay : ∀ net p s outs, Inv net → p ∈ net.flight →
      P.recv p.dst p.src p.msg (net.state p.dst) s outs →
      ∀ w, R p.link (p.dst, w) ↔ ∃ o ∈ outs, o.1 = w)
    (hlink : ∀ e e', R e e' → e'.1 = e.2) :
    Endless P net ↔ ∃ p ∈ net.flight, ¬ Fades R p.link := by
  constructor
  · rintro ⟨f, rfl, hf⟩
    by_contra hall
    push Not at hall
    have hgood : ∀ n, Inv (f n) ∧ ∀ p ∈ (f n).flight, Fades R p.link := by
      intro n
      induction n with
      | zero => exact ⟨hinit, hall⟩
      | succ n ih =>
        obtain ⟨e, he⟩ := hf n
        refine ⟨hstep _ _ _ ih.1 he, ?_⟩
        generalize f (n + 1) = net' at he
        cases he with
        | own h => nomatch h
        | @deliver l₁ l₂ p s outs hfl hr =>
          have hp : p ∈ (f n).flight := by rw [hfl]; simp
          intro q hq
          rcases Net.mem_act.mp hq with hq | ⟨o, ho, rfl⟩
          · exact ih.2 q (mem_of_mem_rest hfl hq)
          · exact (ih.2 p hp).next ((hrelay _ p s outs ih.1 hp hr o.1).mpr ⟨o, ho, rfl⟩)
    have hcut : ∀ n, CutExpand (fun e' e => R e e' ∧ Fades R e)
        ((f (n + 1)).flight.map Packet.link : Multiset (V × V)) ((f n).flight.map Packet.link) := by
      intro n
      obtain ⟨e, he⟩ := hf n
      refine cutExpand_of_step (fun p s outs hp hr o ho => ?_) (hgood n).2 he
      exact (hrelay _ p s outs (hgood n).1 hp hr o.1).mpr ⟨o, ho, rfl⟩
    have : IsWellFounded _ (CutExpand fun e' e : V × V => R e e' ∧ Fades R e) :=
      ⟨(wellFounded_fading R).cutExpand⟩
    obtain ⟨n, hn⟩ := WellFounded.not_rel_apply_succ
      (r := CutExpand fun e' e : V × V => R e e' ∧ Fades R e)
      fun n => ((f n).flight.map Packet.link : Multiset (V × V))
    exact hn (hcut n)
  · rintro ⟨p, hp, hnot⟩
    -- some packet is always on a chain that goes on
    refine endless_of_progress (fun net => Inv net ∧ ∃ p ∈ net.flight, ¬ Fades R p.link) ?_
      ⟨hinit, p, hp, hnot⟩
    rintro net ⟨hI, p, hp, hnot⟩
    obtain ⟨s, outs, hr⟩ := hrecv net p hI hp
    obtain ⟨l₁, l₂, hfl⟩ := List.append_of_mem hp
    have hs : Step P net (.deliver p outs) (Net.act net.state (l₁ ++ l₂) p.dst s outs) :=
      .deliver hfl hr
    obtain ⟨⟨v, w⟩, hpe, he⟩ := exists_next_of_not_fades hnot
    obtain rfl : v = p.dst := hlink _ _ hpe
    obtain ⟨o, ho, rfl⟩ := (hrelay net p s outs hI hp hr w).mp hpe
    exact ⟨_, _, hs, hstep _ _ _ hI hs, ⟨p.dst, o.1, o.2⟩, Net.mem_act.mpr (Or.inr ⟨o, ho, rfl⟩), he⟩

end

/-! ## The links of a graph -/

section
variable {V : Type} {Peer : V → V → Prop} {Skip : V → Prop} {e e' : V × V}

/-- What came over the first link is passed on over the second: to a peer, not straight
back, and not to a node that is skipped. -/
def Onward (Peer : V → V → Prop) (Skip : V → Prop) (e e' : V × V) : Prop :=
  e'.1 = e.2 ∧ Peer e.2 e'.2 ∧ e'.2 ≠ e.1 ∧ ¬ Skip e'.2

/-- Among finitely many nodes, only finitely many links can be reached. -/
theorem finite_onward (nodes : Finset V) (h : ∀ v w, Peer v w → v ∈ nodes ∧ w ∈ nodes) (e : V × V) :
    {e' | ReflTransGen (Onward Peer Skip) e e'}.Finite := by
  classical
  refine Set.Finite.subset (insert e (nodes ×ˢ nodes)).finite_toSet fun e' he' => ?_
  rw [Finset.mem_coe, Finset.mem_insert]
  rcases ReflTransGen.cases_tail he' with rfl | ⟨x, -, hx⟩
  · exact Or.inl rfl
  · obtain ⟨h1, h2, -, -⟩ := hx
    rw [← h1] at h2
    exact Or.inr (Finset.mem_product.mpr (h _ _ h2))

end

/-! ## Links that lead away from a node -/

section
variable {V : Type} {Peer : V → V → Prop} {o c x y y' z : V} {e e' : V × V}

/-- The link can be reached from `o` without turning straight back. -/
def Outward (Peer : V → V → Prop) (o : V) (e : V × V) : Prop :=
  ∃ w, Peer o w ∧ ReflTransGen (Onward Peer fun _ => False) (o, w) e

/-- What can be reached from `o` is a tree: no link stays at its node, and from none a walk
that never turns straight back comes round to it. -/
def TreeAround (Peer : V → V → Prop) (o : V) : Prop :=
  ∀ e : V × V, ReflTransGen Peer o e.1 → Peer e.1 e.2 →
    e.1 ≠ e.2 ∧ ¬ TransGen (Onward Peer fun _ => False) e e

theorem Outward.first (h : Peer o x) : Outward Peer o (o, x) := ⟨x, h, .refl⟩

theorem Outward.next (h : Outward Peer o (y, x)) (hp : Peer x z) (hne : z ≠ y) :
    Outward Peer o (x, z) := by
  obtain ⟨w, hw, hr⟩ := h
  have hstep : Onward Peer (fun _ => False) (y, x) (x, z) := ⟨rfl, hp, hne, id⟩
  exact ⟨w, hw, hr.tail hstep⟩

/-- Everything that is reached from a link that leads away leads away. -/
theorem Outward.trans (h : Outward Peer o e) (hr : ReflTransGen (Onward Peer fun _ => False) e e') :
    Outward Peer o e' := by
  obtain ⟨w, hw, hwe⟩ := h
  exact ⟨w, hw, hwe.trans hr⟩

theorem Outward.peer (h : Outward Peer o e) : Peer e.1 e.2 := by
  obtain ⟨w, hw, hr⟩ := h
  rcases ReflTransGen.cases_tail hr with rfl | ⟨x, -, hx⟩
  · exact hw
  · rw [hx.1]
    exact hx.2.1

/-- The first link, or one after a link that leads away. -/
theorem Outward.cases (h : Outward Peer o (x, z)) :
    x = o ∨ ∃ y, Outward Peer o (y, x) ∧ z ≠ y := by
  obtain ⟨w, hw, hr⟩ := h
  rcases ReflTransGen.cases_tail hr with heq | ⟨⟨y, x'⟩, hr', hlast⟩
  · exact Or.inl (congrArg Prod.fst heq)
  · obtain rfl : x = x' := hlast.1
    exact Or.inr ⟨y, ⟨w, hw, hr'⟩, hlast.2.2.1⟩

theorem Outward.reach (h : Outward Peer o e) : ReflTransGen Peer o e.1 := by
  obtain ⟨w, hw, hr⟩ := h
  induction hr with
  | refl => exact .refl
  | tail hr hstep ih =>
    rw [hstep.1]
    exact ih.tail (Outward.peer ⟨w, hw, hr⟩)

/-- Walked backwards, a chain is a chain. -/
theorem onward_reverse (hsymm : ∀ v w, Peer v w → Peer w v)
    (h : ReflTransGen (Onward Peer fun _ => False) e e') (he : Peer e.1 e.2) :
    ReflTransGen (Onward Peer fun _ => False) e'.swap e.swap := by
  induction h using ReflTransGen.head_induction_on with
  | refl => exact .refl
  | @head e e₁ hstep _ ih =>
    obtain ⟨h1, h2, h3, -⟩ := hstep
    have hback : Onward Peer (fun _ => False) e₁.swap e.swap := by
      refine ⟨h1.symm, ?_, h3.symm, id⟩
      show Peer e₁.1 e.1
      rw [h1]
      exact hsymm _ _ he
    exact (ih (by rw [h1]; exact h2)).tail hback

/-- Of the two directions of a link within reach, one leads away. -/
theorem outward_or_swap (hr : ReflTransGen Peer o x) (hp : Peer x z) :
    Outward Peer o (x, z) ∨ Outward Peer o (z, x) := by
  have hto : x = o ∨ ∃ y, Outward Peer o (y, x) := by
    clear hp
    induction hr with
    | refl => exact Or.inl rfl
    | @tail a b _ hab ih =>
      rcases ih with rfl | ⟨y, hy⟩
      · exact Or.inr ⟨_, .first hab⟩
      · by_cases hb : b = y
        · subst hb
          rcases hy.cases with rfl | ⟨y', hy', -⟩
          · exact Or.inl rfl
          · exact Or.inr ⟨y', hy'⟩
        · exact Or.inr ⟨a, hy.next hab hb⟩
  rcases hto with rfl | ⟨y, hy⟩
  · exact Or.inl (.first hp)
  · by_cases hz : z = y
    · subst hz
      exact Or.inr hy
    · exact Or.inl (hy.next hp hz)

/-- No chain comes back to the node its first link starts from. -/
theorem not_reach_source (hf : Fades (Onward Peer fun _ => False) e) (he : Peer e.1 e.2)
    (hself : ∀ e', ReflTransGen (Onward Peer fun _ => False) e e' → e'.1 ≠ e'.2) (z : V) :
    ¬ ReflTransGen (Onward Peer fun _ => False) e (z, e.1) := by
  have hirr := Fades.irrefl hf
  induction hf generalizing z with
  | intro e hf ih =>
    intro hr
    rcases ReflTransGen.cases_head hr with heq | ⟨e₁, hstep, hr₁⟩
    · exact hself e .refl (congrArg Prod.snd heq).symm
    · obtain ⟨u, v⟩ := e
      by_cases hz : z = v
      · -- back over the first link, so already the second link's source was reached again
        subst hz
        obtain ⟨h1, h2, h3, -⟩ := hstep
        rcases ReflTransGen.cases_tail hr₁ with heq | ⟨e₂, hr₂, hlast⟩
        · rw [← heq] at h3
          exact h3 rfl
        · have hfades : Fades (Onward Peer fun _ => False) e₁ := hf e₁ ⟨h1, h2, h3, id⟩
          refine ih e₁ ⟨h1, h2, h3, id⟩ (by rw [h1]; exact h2)
            (fun e' he' => hself e' (.head ⟨h1, h2, h3, id⟩ he')) e₂.1 hfades.irrefl ?_
          have : e₂ = (e₂.1, e₁.1) := by
            rw [h1]
            exact Prod.ext rfl hlast.1.symm
          rwa [← this]
      · have hclose : Onward Peer (fun _ => False) (z, u) (u, v) :=
          ⟨rfl, he, fun h => hz h.symm, id⟩
        exact hirr ((TransGen.head' hstep hr₁).tail hclose)

theorem TreeAround.of_reach (h : TreeAround Peer o) (hr : ReflTransGen Peer o c) :
    TreeAround Peer c :=
  fun e he hp => h e (hr.trans he) hp

section
variable (htree : TreeAround Peer o)
  (hfin : ∀ e, {e' | ReflTransGen (Onward Peer fun _ => False) e e'}.Finite)
include htree hfin

/-- Nothing that leads away from `o` leads to `o`. -/
theorem TreeAround.target_ne (h : Outward Peer o (y, x)) : x ≠ o := by
  rintro rfl
  obtain ⟨w, hw, hr⟩ := h
  have hnext : ∀ e, ReflTransGen (Onward Peer fun _ => False) (x, w) e →
      e.1 ≠ e.2 ∧ ¬ TransGen (Onward Peer fun _ => False) e e := by
    intro e he
    have hout : Outward Peer x e := ⟨w, hw, he⟩
    exact htree e hout.reach hout.peer
  have hfades : Fades (Onward Peer fun _ => False) (x, w) := by
    refine (fades_iff (hfin _)).mpr ?_
    rintro ⟨e, hre, hloop⟩
    exact (hnext e hre).2 hloop
  exact not_reach_source hfades hw (fun e' he' => (hnext e' he').1) y hr

/-- A node is left to all its peers but the one it is reached from, and to none of them is it
left to `o`. -/
theorem TreeAround.next_ne (h : Outward Peer o (y, x)) (hp : Peer x z) (hne : z ≠ y) : z ≠ o :=
  htree.target_ne hfin (h.next hp hne)

variable (hsymm : ∀ v w, Peer v w → Peer w v)
include hsymm

/-- Only one link leads away from `o` to a node. -/
theorem TreeAround.source_unique (h : Outward Peer o (y, x)) (h' : Outward Peer o (y', x)) :
    y = y' := by
  by_contra hne
  obtain ⟨w, hw, hr⟩ := h'
  -- otherwise one goes out over the first, and home over the second
  have hback := onward_reverse hsymm hr hw
  have hout : Outward Peer o (x, y') := h.next (hsymm _ _ (Outward.peer ⟨w, hw, hr⟩)) (Ne.symm hne)
  exact htree.target_ne hfin (hout.trans hback) rfl

/-- No link leads away in both directions. -/
theorem TreeAround.not_outward_swap (h : Outward Peer o (y, x)) : ¬ Outward Peer o (x, y) := by
  intro h'
  rcases h'.cases with rfl | ⟨y', hy', hne⟩
  · exact htree.target_ne hfin h rfl
  · exact hne (htree.source_unique hfin hsymm h hy')

end

/-- The link leads from a node's parent to the node. -/
def FromParent (par : V → V) (o : V) (e : V × V) : Prop := e.2 ≠ o ∧ par e.2 = e.1

/-- Once a walk that never turns straight back has left a parent, it rises; before that, it
sinks. -/
def Rises (par : V → V) (rank : V → Nat) (o : V) (e e' : V × V) : Prop :=
  (FromParent par o e ∧ FromParent par o e' ∧ rank e.2 < rank e'.2) ∨
    (¬ FromParent par o e ∧ (FromParent par o e' ∨ rank e'.2 < rank e.2))

theorem Rises.trans {par : V → V} {rank : V → Nat} {e₁ e₂ e₃ : V × V}
    (h : Rises par rank o e₁ e₂) (h' : Rises par rank o e₂ e₃) : Rises par rank o e₁ e₃ := by
  rcases h with ⟨h1, h2, h3⟩ | ⟨h1, h2⟩
  · rcases h' with ⟨-, h5, h6⟩ | ⟨h4, -⟩
    · exact Or.inl ⟨h1, h5, h3.trans h6⟩
    · exact absurd h2 h4
  · rcases h' with ⟨-, h5, -⟩ | ⟨h4, h5 | h5⟩
    · exact Or.inr ⟨h1, Or.inl h5⟩
    · exact Or.inr ⟨h1, Or.inl h5⟩
    · rcases h2 with h2 | h2
      · exact absurd h2 h4
      · exact Or.inr ⟨h1, Or.inr (h5.trans h2)⟩

theorem Rises.irrefl {par : V → V} {rank : V → Nat} (h : Rises par rank o e e) : False := by
  rcases h with ⟨-, -, h⟩ | ⟨h1, h2 | h2⟩
  · exact lt_irrefl _ h
  · exact h1 h2
  · exact lt_irrefl _ h2

/-- A graph is a tree around `o` if all its links there lead from a node to its parent or
back, and every node stands higher than its parent. -/
theorem treeAround_of_parents (nodes : V → Prop) {par : V → V} {rank : V → Nat} (ho : nodes o)
    (hclosed : ∀ v w, nodes v → Peer v w → nodes w)
    (hrank : ∀ v, nodes v → v ≠ o → rank (par v) < rank v)
    (hlinks : ∀ v w, nodes v → Peer v w → FromParent par o (v, w) ∨ FromParent par o (w, v)) :
    TreeAround Peer o := by
  have hreach : ∀ v, ReflTransGen Peer o v → nodes v := by
    intro v hr
    induction hr with
    | refl => exact ho
    | tail _ hp ih => exact hclosed _ _ ih hp
  have hstep : ∀ e e' : V × V, nodes e.1 → Peer e.1 e.2 → Onward Peer (fun _ => False) e e' →
      Rises par rank o e e' := by
    rintro ⟨a, b⟩ ⟨b', c⟩ ha hab ⟨rfl, hbc, hne, -⟩
    have hb := hclosed _ _ ha hab
    by_cases hdown : FromParent par o (a, b')
    · rcases hlinks _ _ hb hbc with h | ⟨-, h⟩
      · have hlt := hrank c (hclosed _ _ hb hbc) h.1
        rw [h.2] at hlt
        exact Or.inl ⟨hdown, h, hlt⟩
      · exact absurd (h.symm.trans hdown.2) hne
    · rcases hlinks _ _ hb hbc with h | ⟨h1, h2⟩
      · exact Or.inr ⟨hdown, Or.inl h⟩
      · have hlt := hrank b' hb h1
        rw [h2] at hlt
        exact Or.inr ⟨hdown, Or.inr hlt⟩
  intro e hr hp
  have he := hreach e.1 hr
  refine ⟨fun hself => ?_, fun hloop => ?_⟩
  · have hpar : e.1 ≠ o ∧ par e.1 = e.1 := by
      rcases hlinks _ _ he hp with ⟨h1, h2⟩ | ⟨h1, h2⟩
      · exact ⟨hself ▸ h1, by rw [← hself] at h2; exact h2⟩
      · exact ⟨h1, h2.trans hself.symm⟩
    have hlt := hrank e.1 he hpar.1
    rw [hpar.2] at hlt
    exact lt_irrefl _ hlt
  · have hwalk : ∀ e', TransGen (Onward Peer fun _ => False) e e' →
        nodes e'.1 ∧ Peer e'.1 e'.2 ∧ Rises par rank o e e' := by
      intro e' hw
      induction hw with
      | single h1 =>
        refine ⟨?_, ?_, hstep _ _ he hp h1⟩
        · rw [h1.1]
          exact hclosed _ _ he hp
        · rw [h1.1]
          exact h1.2.1
      | tail _ h1 ih =>
        obtain ⟨ih1, ih2, ih3⟩ := ih
        refine ⟨?_, ?_, ih3.trans (hstep _ _ ih1 ih2 h1)⟩
        · rw [h1.1]
          exact hclosed _ _ ih1 ih2
        · rw [h1.1]
          exact h1.2.1
    exact (hwalk e hloop).2.2.irrefl

end

/-! ## Loops and cycles -/

section
variable {V : Type} {G : SimpleGraph V} {u v w x y z : V}

/-- A path never turns straight back. -/
theorem exists_last_link (h : G.Adj u v) (q : G.Walk v w) (hp : (SimpleGraph.Walk.cons h q).IsPath) :
    ∃ y, ReflTransGen (Onward G.Adj fun _ => False) (u, v) (y, w) ∧
      s(y, w) ∈ (SimpleGraph.Walk.cons h q).edges := by
  induction q generalizing u with
  | nil => exact ⟨u, .refl, by simp⟩
  | @cons v x w hvx q ih =>
    obtain ⟨hq, hu⟩ := (SimpleGraph.Walk.cons_isPath_iff _ _).mp hp
    obtain ⟨y, hy, hmem⟩ := ih hvx hq
    have hne : x ≠ u := by
      rintro rfl
      exact hu (by simp)
    have hstep : Onward G.Adj (fun _ => False) (u, v) (v, x) := ⟨rfl, hvx, hne, id⟩
    refine ⟨y, .head hstep hy, ?_⟩
    rw [SimpleGraph.Walk.edges_cons]
    exact List.mem_cons_of_mem _ hmem

/-- Without cycles, a path goes on as a path, unless it turns straight back. -/
theorem isPath_concat (hG : G.IsAcyclic) {q : G.Walk u y} {hyz : G.Adj y z}
    (hp : (q.concat hyz).IsPath) (hzx : G.Adj z x) (hne : x ≠ y) :
    ((q.concat hyz).concat hzx).IsPath := by
  classical
  refine hp.concat (fun hmem => ?_) hzx
  -- the path from `x` on would be the edge from `x` to `z`, so it would have come from `x`
  have hedge : (SimpleGraph.Walk.cons hzx.symm SimpleGraph.Walk.nil).IsPath := by
    simp [hzx.symm.ne]
  have : Subsingleton (G.Path x z) := hG.subsingleton_path x z
  have hdrop := Subsingleton.elim (⟨_, hp.dropUntil hmem⟩ : G.Path x z) ⟨_, hedge⟩
  have hsplit := (q.concat hyz).take_spec hmem
  rw [Subtype.mk.inj hdrop, ← SimpleGraph.Walk.concat_eq_append] at hsplit
  exact hne (SimpleGraph.Walk.concat_inj hsplit).1

theorem exists_path_of_onward (hG : G.IsAcyclic) (huv : G.Adj u v) {e : V × V}
    (h : ReflTransGen (Onward G.Adj fun _ => False) (u, v) e) :
    ∃ (q : G.Walk u e.1) (hadj : G.Adj e.1 e.2), (q.concat hadj).IsPath := by
  induction h with
  | refl => exact ⟨.nil, huv, by simp [SimpleGraph.Walk.concat_nil, huv.ne]⟩
  | @tail e e' _ hstep ih =>
    obtain ⟨y, z⟩ := e
    obtain ⟨z', x⟩ := e'
    obtain ⟨rfl, hzx, hne, -⟩ := hstep
    obtain ⟨q, hyz, hp⟩ := ih
    exact ⟨q.concat hyz, hzx, isPath_concat hG hp hzx hne⟩

/-- Walks that never turn straight back come round exactly in graphs with a cycle. -/
theorem not_onward_loop_iff : (∀ e, ¬ TransGen (Onward G.Adj fun _ => False) e e) ↔ G.IsAcyclic := by
  constructor
  · intro h u c hc
    cases c with
    | nil => exact hc.ne_nil rfl
    | @cons _ v _ huv p =>
      obtain ⟨hp, huvp⟩ := (SimpleGraph.Walk.cons_isCycle_iff _ _).mp hc
      cases p with
      | nil => exact huv.ne rfl
      | @cons _ w _ hvw q =>
        obtain ⟨y, hy, hmem⟩ := exists_last_link hvw q hp
        have hwu : w ≠ u := by
          rintro rfl
          exact huvp (by simp [Sym2.eq_swap])
        have hvy : v ≠ y := by
          rintro rfl
          rw [Sym2.eq_swap] at hmem
          exact huvp hmem
        have hfirst : Onward G.Adj (fun _ => False) (u, v) (v, w) := ⟨rfl, hvw, hwu, id⟩
        have hlast : Onward G.Adj (fun _ => False) (y, u) (u, v) := ⟨rfl, huv, hvy, id⟩
        exact h (u, v) ((TransGen.head' hfirst hy).tail hlast)
  · rintro hG ⟨u, v⟩ hloop
    obtain ⟨⟨y, z⟩, hreach, hlast⟩ := TransGen.tail'_iff.mp hloop
    obtain ⟨rfl, huv, -, -⟩ := hlast
    obtain ⟨q, hadj, hp⟩ := exists_path_of_onward hG huv hreach
    -- a path from `u` to itself has no edge
    have hlen := SimpleGraph.Walk.length_eq_zero_iff.mpr (SimpleGraph.Walk.isPath_iff_nil.mp hp)
    rw [SimpleGraph.Walk.length_concat] at hlen
    omega

end

end Stric.Pool
