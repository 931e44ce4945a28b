import Stric.Core.KeepAlive

/-!
# One tick of a worker (`keep_alive.rs`)

The loop of a tick goes over the streams by index.  It pings a stream that is due; if the write
fails, it removes the stream and stays at its index, where the next stream now is.

    w.tickLoop limit listed oks        the turns of the loop, with the outcomes `oks`

Every turn takes an outcome and uses it if it writes (`act_ping_eq_iff`).  So `oks` is a pattern
of successes and failures over the streams that the tick began with.

The loop takes one turn for each stream, whatever the outcomes are, and treats each stream once
(`tick_exact`).  That the counts are right before a tick is so in every run of the pool
(`counts_right`).
-/

namespace Stric.Core

open Stric.Pool

namespace ManagedStream

/-- `now.duration_since(s.last_ping) >= s.interval`. -/
def due (now : Nat) (s : ManagedStream) : Bool := s.interval ≤ now - s.lastPing

/-- What a tick should leave of the stream, if a write to it has this outcome. -/
def afterTick (now : Nat) (s : ManagedStream) (ok : Bool) : Option ManagedStream :=
  if s.due now then
    if ok then some { s with lastPing := now } else none
  else some s

end ManagedStream

namespace KeepAliveWorker

/-- The stream that the next turn of the loop writes to. -/
def writesTo (w : KeepAliveWorker) : Option Nat :=
  match w.phase with
  | .ticking now i _ => (w.streams[i]?.filter (·.due now)).map (·.stream)
  | _ => none

/-- The worker after turns of the loop with these outcomes, and the streams that were written
to. -/
def tickLoop (limit : Nat) (listed : Bool) : KeepAliveWorker → List Bool →
    Option (KeepAliveWorker × List Nat)
  | w, [] => some (w, [])
  | w, ok :: oks =>
    (w.act limit listed (.ping ok)).bind fun turn =>
      (tickLoop limit listed turn.1 oks).map fun rest => (rest.1, w.writesTo.toList ++ rest.2)

/-- `count` and `local_count` are the number of streams. -/
def Counted (w : KeepAliveWorker) : Prop :=
  w.count = w.streams.length ∧ w.localCount = w.streams.length

/-- The tick has treated the streams of `w` as it should: it has written to those that are due,
it has left those that are not due or whose write has succeeded, and it has kept the counts
right. -/
structure Ticked (now : Nat) (oks : List Bool) (w w' : KeepAliveWorker) (written : List Nat) :
    Prop where
  written : written = (w.streams.filter (·.due now)).map (·.stream)
  streams : w'.streams = (w.streams.zip oks).filterMap fun e => e.1.afterTick now e.2
  counts : w.Counted → w'.Counted

/-! ## One turn -/

/-- A turn asks for an outcome exactly if it writes. -/
theorem act_ping_eq_iff (limit : Nat) (listed : Bool) (w : KeepAliveWorker) :
    w.act limit listed (.ping true) = w.act limit listed (.ping false) ↔ w.writesTo = none := by
  unfold writesTo
  cases hphase : w.phase with
  | ticking now i changed =>
    simp only [act, hphase]
    cases hs : w.streams[i]? with
    | none => exact iff_of_true rfl rfl
    | some s =>
      by_cases hdue : s.interval ≤ now - s.lastPing
      · simp [Option.filter, ManagedStream.due, hdue]
      · simp [Option.filter, ManagedStream.due, hdue]
  | _ => simp [act, hphase]

/-- The worker in its loop: `before` is what it has left of the streams it has treated, and `rest`
are those to come. -/
def inLoop (w : KeepAliveWorker) (now : Nat) (before rest : List ManagedStream) (changed : Bool) :
    KeepAliveWorker :=
  { w with streams := before ++ rest, phase := .ticking now before.length changed }

variable (limit : Nat) (listed : Bool) (w : KeepAliveWorker) (now : Nat)
  (before rest : List ManagedStream) (s : ManagedStream) (changed ok : Bool)

/-- A turn replaces its stream by what should be left of it, and goes on behind that. -/
theorem act_ping : ∃ bad, (w.inLoop now before (s :: rest) changed).act limit listed (.ping ok) =
    some (w.inLoop now (before ++ (s.afterTick now ok).toList) rest
      (changed || (s.afterTick now ok).isNone), none, bad) := by
  have hs : (before ++ s :: rest)[before.length]? = some s := by simp
  have hset : ∀ s', (before ++ s :: rest).set before.length s' = before ++ s' :: rest := by simp
  have herase : (before ++ s :: rest).eraseIdx before.length = before ++ rest := by
    rw [List.eraseIdx_append_of_length_le (Nat.le_refl _), Nat.sub_self]
    rfl
  simp only [act, inLoop, hs, hset, herase, ManagedStream.afterTick, ManagedStream.due,
    decide_eq_true_eq]
  split
  · cases ok with
    | true => exact ⟨none, by simp⟩
    | false => exact ⟨some s.stream, by simp⟩
  · exact ⟨none, by simp⟩

theorem act_ping_end : (w.inLoop now before [] changed).act limit listed (.ping ok) = none := by
  simp [act, inLoop]

theorem writesTo_inLoop : (w.inLoop now before (s :: rest) changed).writesTo.toList =
    ([s].filter (·.due now)).map (·.stream) := by
  have hs : (before ++ s :: rest)[before.length]? = some s := by simp
  simp only [writesTo, inLoop, hs]
  by_cases hdue : s.due now
  · simp [Option.filter, hdue]
  · simp [Option.filter, hdue]

/-! ## The loop -/

/-- What should be left of the streams of the first turns. -/
def kept (streams : List ManagedStream) (oks : List Bool) : List ManagedStream :=
  (streams.zip oks).filterMap fun e => e.1.afterTick now e.2

/-- Some stream of the first turns is gone. -/
def drops (streams : List ManagedStream) (oks : List Bool) : Bool :=
  (streams.zip oks).any fun e => (e.1.afterTick now e.2).isNone

theorem kept_cons (oks : List Bool) :
    kept now (s :: rest) (ok :: oks) = (s.afterTick now ok).toList ++ kept now rest oks := by
  unfold kept
  rw [List.zip_cons_cons, List.filterMap_cons]
  cases s.afterTick now ok <;> rfl

theorem drops_cons (oks : List Bool) :
    drops now (s :: rest) (ok :: oks) = ((s.afterTick now ok).isNone || drops now rest oks) := rfl

/-- If none is gone, there are as many as before. -/
theorem length_kept {oks : List Bool} (hlen : oks.length = rest.length)
    (h : drops now rest oks = false) : (kept now rest oks).length = rest.length := by
  have hall : ∀ e ∈ rest.zip oks, (e.1.afterTick now e.2).isSome := by
    intro e he
    have hnone := List.any_eq_false.mp h e he
    rwa [Option.isNone_iff_eq_none, ← ne_eq, ← Option.isSome_iff_ne_none] at hnone
  rw [kept, List.filterMap_length_eq_length.mpr hall, List.length_zip, hlen, Nat.min_self]

/-- The turns of the loop, as long as there are streams to come. -/
theorem tickLoop_inLoop (oks : List Bool) :
    (w.inLoop now before rest changed).tickLoop limit listed oks =
      if oks.length ≤ rest.length then
        some (w.inLoop now (before ++ kept now rest oks) (rest.drop oks.length)
            (changed || drops now rest oks),
          ((rest.take oks.length).filter (·.due now)).map (·.stream))
      else none := by
  induction oks generalizing before rest changed with
  | nil => simp [tickLoop, kept, drops]
  | cons ok oks ih =>
    cases rest with
    | nil =>
      rw [tickLoop, act_ping_end]
      rfl
    | cons s rest =>
      obtain ⟨bad, hact⟩ := act_ping limit listed w now before rest s changed ok
      rw [tickLoop, hact, Option.bind_some, ih, writesTo_inLoop, kept_cons]
      simp only [List.length_cons, Nat.add_le_add_iff_right]
      split
      · rw [Option.map_some, List.append_assoc, Bool.or_assoc, ← drops_cons, ← List.map_append,
          ← List.filter_append]
        rfl
      · rfl

/-- The loop is over when there are no streams to come. -/
theorem afterPings_inLoop : (w.inLoop now before rest changed).afterPings =
    if rest = [] then
      some (if changed then (w.inLoop now before rest changed).updateCounts
        else w.inLoop now before rest changed)
    else none := by
  have hlen : (before ++ rest).length ≤ before.length ↔ rest = [] := by
    rw [List.length_append, ← List.length_eq_zero_iff]
    omega
  simp only [afterPings, inLoop, hlen]

theorem ticked_inLoop {oks : List Bool} (hlen : oks.length = w.streams.length) :
    ∃ w', (w.inLoop now (kept now w.streams oks) [] (drops now w.streams oks)).afterPings =
        some w' ∧
      Ticked now oks w w' ((w.streams.filter (·.due now)).map (·.stream)) := by
  rw [afterPings_inLoop, if_pos rfl]
  refine ⟨_, rfl, ?_⟩
  cases hdrops : drops now w.streams oks with
  | true => exact ⟨rfl, List.append_nil _, fun _ => ⟨rfl, rfl⟩⟩
  | false =>
    refine ⟨rfl, List.append_nil _, fun hcounted => ?_⟩
    have hkept := length_kept now w.streams hlen hdrops
    show w.count = (kept now w.streams oks ++ []).length ∧
      w.localCount = (kept now w.streams oks ++ []).length
    rw [List.append_nil, hkept]
    exact hcounted

/-- **A tick treats every stream exactly once.**  From the tick on, the loop takes one turn for
each stream, whatever the outcomes of its writes: it can take that many turns, no more, and it is
over after that many, not before.  Then it has treated the streams as it should. -/
theorem tick_exact (hphase : w.phase = .selecting) :
    ∃ start, w.act limit listed (.tick now) = some (start, none, none) ∧
      (∀ oks, (start.tickLoop limit listed oks).isSome ↔ oks.length ≤ w.streams.length) ∧
      (∀ oks w' written, start.tickLoop limit listed oks = some (w', written) →
        (w'.afterPings.isSome ↔ oks.length = w.streams.length)) ∧
      ∀ oks, oks.length = w.streams.length → ∃ w' w'' written,
        start.tickLoop limit listed oks = some (w', written) ∧ w'.afterPings = some w'' ∧
          Ticked now oks w w'' written := by
  refine ⟨w.inLoop now [] w.streams false, ?_, fun oks => ?_, fun oks w' written hloop => ?_,
    fun oks hlen => ?_⟩
  · simp only [act, hphase, if_true]
    rfl
  · rw [tickLoop_inLoop]
    split
    · next hle => exact iff_of_true rfl hle
    · next hgt => exact iff_of_false Bool.false_ne_true hgt
  · rw [tickLoop_inLoop, Option.ite_none_right_eq_some] at hloop
    obtain ⟨hle, hloop⟩ := hloop
    cases hloop
    rw [afterPings_inLoop]
    split
    · next hnil =>
      rw [List.drop_eq_nil_iff] at hnil
      exact iff_of_true rfl (by omega)
    · next hmore =>
      rw [List.drop_eq_nil_iff] at hmore
      exact iff_of_false Bool.false_ne_true (by omega)
  · obtain ⟨w'', hend, hticked⟩ := ticked_inLoop w now hlen
    refine ⟨_, w'', _, ?_, hend, hticked⟩
    rw [tickLoop_inLoop, if_pos (Nat.le_of_eq hlen), hlen, List.drop_length, List.take_length]
    rfl

/-- Two failures in a row, a stream that is not due, and a success. -/
theorem failures_in_a_row_treated :
    let w : KeepAliveWorker :=
      ⟨0, [⟨0, 5, 0⟩, ⟨1, 5, 0⟩, ⟨2, 5, 9⟩, ⟨3, 5, 0⟩], [], 4, 4, .selecting⟩
    ∃ start w' w'', w.act 10 true (.tick 10) = some (start, none, none) ∧
      start.tickLoop 10 true [false, false, true, true] = some (w', [0, 1, 3]) ∧
      w'.afterPings = some w'' ∧ w''.streams = [⟨2, 5, 9⟩, ⟨3, 5, 10⟩] ∧ w''.count = 2 ∧
      w''.localCount = 2 := by
  intro w
  obtain ⟨start, hstart, -, -, hall⟩ := tick_exact 10 true w 10 rfl
  obtain ⟨w', w'', written, hloop, hend, hticked⟩ := hall [false, false, true, true] rfl
  have hstreams : w''.streams = [⟨2, 5, 9⟩, ⟨3, 5, 10⟩] := hticked.streams
  obtain ⟨hcount, hlocal⟩ := hticked.counts ⟨rfl, rfl⟩
  rw [hticked.written] at hloop
  rw [hstreams] at hcount hlocal
  exact ⟨start, w', w'', hstart, hloop, hend, hstreams, hcount, hlocal⟩

/-! ## The counts between ticks -/

/-- The counts are right, or the tick under way will refresh them. -/
def CountsKept (w : KeepAliveWorker) : Prop :=
  match w.phase with
  | .selecting => w.Counted
  | .ticking _ _ changed => changed = false → w.Counted
  | _ => True

theorem Counted.kept {w : KeepAliveWorker} (h : w.Counted) : w.CountsKept := by
  unfold CountsKept
  split
  · exact h
  · exact fun _ => h
  · trivial

theorem CountsKept.afterPings {w w' : KeepAliveWorker} (h : w.CountsKept)
    (hpings : w.afterPings = some w') : w'.Counted := by
  unfold CountsKept at h
  unfold KeepAliveWorker.afterPings at hpings
  split at hpings
  · next now i changed hphase =>
    rw [hphase] at h
    obtain ⟨-, hpings⟩ := Option.ite_none_right_eq_some.mp hpings
    cases hpings
    cases changed with
    | true => exact ⟨rfl, rfl⟩
    | false => exact h rfl
  · cases hpings

/-- A turn keeps the number of streams, or the loop will refresh the counts. -/
theorem CountsKept.ping {limit : Nat} {listed ok : Bool} {w w' : KeepAliveWorker}
    {cmd : Option PoolCommand} {bad : Option Nat} (h : w.CountsKept)
    (hact : w.act limit listed (.ping ok) = some (w', cmd, bad)) : w'.CountsKept := by
  simp only [KeepAliveWorker.act] at hact
  split at hact
  · next now i changed hphase =>
    unfold CountsKept at h
    rw [hphase] at h
    split at hact
    · next s hs =>
      split at hact
      · cases ok with
        | true =>
          cases hact
          intro hchanged
          obtain ⟨hcount, hlocal⟩ := h hchanged
          have hlen : (w.streams.set i { s with lastPing := now }).length = w.streams.length :=
            List.length_set
          exact ⟨hcount.trans hlen.symm, hlocal.trans hlen.symm⟩
        | false =>
          cases hact
          intro hchanged
          cases hchanged
      · cases hact
        exact h
    · cases hact
  · cases hact

theorem CountsKept.act {limit : Nat} {listed : Bool} {w w' : KeepAliveWorker} {act : WorkerAct}
    {cmd : Option PoolCommand} {bad : Option Nat} (h : w.CountsKept)
    (hact : w.act limit listed act = some (w', cmd, bad)) : w'.CountsKept := by
  have hof := (of_act hact).2
  cases act with
  | recv =>
    simp only [KeepAliveWorker.act] at hact
    split at hact
    · cases hact
      exact Counted.kept ⟨rfl, rfl⟩
    · cases hact
  | recvNone =>
    obtain ⟨-, -, -, -, rfl⟩ := hof
    trivial
  | tick now =>
    obtain ⟨hphase, -, -, rfl⟩ := hof
    unfold CountsKept at h
    rw [hphase] at h
    exact fun _ => h
  | ping ok => exact h.ping hact
  | rest =>
    simp only [KeepAliveWorker.act] at hact
    split at hact
    · next w₀ hpings =>
      obtain ⟨-, hact⟩ := Option.ite_none_left_eq_some.mp hact
      cases hact
      have hcounted : w₀.Counted := h.afterPings hpings
      exact hcounted
    · cases hact
  | handOff =>
    obtain ⟨-, hphase, -⟩ := hof
    unfold CountsKept
    rw [hphase]
    trivial
  | send =>
    obtain ⟨-, rfl, -⟩ := hof
    trivial
  | exit =>
    obtain ⟨-, -, -, rfl⟩ := hof
    trivial

end KeepAliveWorker

/-- **The counts are right whenever a worker waits for a tick**, in every run of the pool. -/
theorem counts_right {limit : Nat} {past : List (PoolState × PoolLabel)} {s : PoolState}
    (h : History PoolStep (.new limit) past s) :
    ∀ w ∈ s.tasks, w.phase = .selecting → w.Counted := by
  intro w hw hphase
  have hkept : w.CountsKept :=
    forall_tasks_run KeepAliveWorker.CountsKept (fun _ _ => ⟨rfl, rfl⟩) (fun _ _ hkept => hkept)
      (fun _ _ _ _ _ _ _ hkept hact => hkept.act hact) h w hw
  unfold KeepAliveWorker.CountsKept at hkept
  rwa [hphase] at hkept

end Stric.Core
