import Mathlib.Data.List.Infix
import Stric.Pool.Framing

/-!
# A frame read off a stream that arrives in pieces

The writer of a pipe writes piece by piece, what it wrote arrives piece by piece, and the reader
takes four bytes, and then as many as they say, as soon as they have arrived.

* `Pipe.Of data p`: in the end `data` will have been written to `p`.
* `Reader.Ok data r`: the reader stands where it may stand while it reads `data`.

`Reader.Step.ok` and `Reader.exists_step` say that however the pieces are cut the reader ends with
`readFrame data`, and that it waits for nothing but bytes that have not arrived.
-/

namespace Stric.Pool

/-! ## Pipes -/

structure Pipe where
  written : List UInt8
  arrived : Nat
  finished : Bool

namespace Pipe

def empty : Pipe := ⟨[], 0, false⟩

def received (p : Pipe) : List UInt8 := p.written.take p.arrived

def write (p : Pipe) (chunk : List UInt8) : Pipe := { p with written := p.written ++ chunk }

def finish (p : Pipe) : Pipe := { p with finished := true }

/-- More bytes arrive. -/
inductive Carries (p : Pipe) : Pipe → Prop
  | arrive {n : Nat} : p.arrived < n → n ≤ p.written.length → Carries p { p with arrived := n }

/-- The reader is told that no more bytes come. -/
def Ended (p : Pipe) : Prop := p.finished = true ∧ p.arrived = p.written.length

/-- This is what will have been written. -/
structure Of (data : List UInt8) (p : Pipe) : Prop where
  written : p.written <+: data
  arrived : p.arrived ≤ p.written.length
  finished : p.finished = true → p.written = data

variable {data : List UInt8} {p p' : Pipe}

theorem Of.received (h : p.Of data) : p.received <+: data := (List.take_prefix _ _).trans h.written

theorem Of.carries (h : p.Of data) (hc : p.Carries p') : p'.Of data := by
  obtain ⟨-, hn⟩ := hc
  exact ⟨h.written, hn, h.finished⟩

theorem Of.write (h : p.Of data) {chunk : List UInt8} (hpre : p.written ++ chunk <+: data)
    (hopen : p.finished = false) : (p.write chunk).Of data := by
  refine ⟨hpre, ?_, fun hfin => absurd (hopen.symm.trans hfin) Bool.false_ne_true⟩
  show p.arrived ≤ (p.written ++ chunk).length
  rw [List.length_append]
  exact h.arrived.trans (Nat.le_add_right _ _)

theorem Of.finish (h : p.Of data) (hall : p.written = data) : p.finish.Of data :=
  ⟨h.written, h.arrived, fun _ => hall⟩

theorem received_of_arrived (h : p.arrived = p.written.length) : p.received = p.written := by
  unfold Pipe.received
  rw [h, List.take_length]

end Pipe

/-! ## The reader -/

/-- One frame at the start of the input. -/
def readFrame (input : List UInt8) : Option (List UInt8) :=
  match readLength input with
  | none => none
  | some (len, rest) => (readExact len rest).map Prod.fst

/-- What the reader waits for, and what it has read. -/
inductive Reader where
  | length
  | body (len : Nat)
  | done (frame : Option (List UInt8))

namespace Reader

inductive Step (p : Pipe) : Reader → Reader → Prop
  | length {len : Nat} {rest : List UInt8} :
      readLength p.received = some (len, rest) → Step p .length (.body len)
  | body {len : Nat} {buf rest : List UInt8} :
      readExact len (p.received.drop 4) = some (buf, rest) → Step p (.body len) (.done (some buf))
  | noLength : p.Ended → readLength p.received = none → Step p .length (.done none)
  | noBody {len : Nat} :
      p.Ended → readExact len (p.received.drop 4) = none → Step p (.body len) (.done none)

def Ok (data : List UInt8) : Reader → Prop
  | .length => True
  | .body len => readLength data = some (len, data.drop 4)
  | .done frame => frame = readFrame data

/-- The bytes that are read do not depend on what follows. -/
theorem readExact_extend {n : Nat} {a b buf rest : List UInt8} (hpre : a <+: b)
    (h : readExact n a = some (buf, rest)) : readExact n b = some (buf, b.drop n) := by
  obtain ⟨c, rfl⟩ := hpre
  unfold readExact at h ⊢
  split at h
  · next hn =>
    cases h
    rw [if_pos (hn.trans (by simp)), List.take_append_of_le_length hn]
  · cases h

theorem readLength_extend {len : Nat} {a b rest : List UInt8} (hpre : a <+: b)
    (h : readLength a = some (len, rest)) : readLength b = some (len, b.drop 4) := by
  unfold readLength at h ⊢
  obtain ⟨⟨buf, rest'⟩, hread, heq⟩ := Option.map_eq_some_iff.mp h
  cases heq
  rw [readExact_extend hpre hread]
  rfl

variable {data : List UInt8} {p : Pipe} {r r' : Reader}

/-- **However the pieces are cut**, the reader reads the frame of `data`. -/
theorem Step.ok (h : Step p r r') (hp : p.Of data) (hr : r.Ok data) : r'.Ok data := by
  have hended : p.Ended → p.received = data := fun he =>
    (Pipe.received_of_arrived he.2).trans (hp.finished he.1)
  cases h with
  | length hread => exact readLength_extend hp.received hread
  | body hread =>
    have hbody := readExact_extend (hp.received.drop 4) hread
    show some _ = readFrame data
    unfold readFrame
    rw [show readLength data = _ from hr]
    simp only [hbody, Option.map_some]
  | noLength he hread =>
    rw [hended he] at hread
    show none = readFrame data
    unfold readFrame
    rw [hread]
  | noBody he hread =>
    rw [hended he] at hread
    show none = readFrame data
    unfold readFrame
    rw [show readLength data = _ from hr]
    simp only [hread, Option.map_none]

/-- Once all bytes have arrived, the reader goes on until it is done, unless it waits for bytes that
were not written and the writer did not finish. -/
theorem exists_step (hall : p.received = data) (hr : r.Ok data)
    (hend : p.Ended ∨ (readFrame data).isSome) :
    (∃ frame, r = .done frame) ∨ ∃ r', Step p r r' := by
  cases r with
  | done frame => exact .inl ⟨frame, rfl⟩
  | length =>
    right
    cases hread : readLength data with
    | some q =>
      obtain ⟨len, rest⟩ := q
      exact ⟨_, .length (hall ▸ hread)⟩
    | none =>
      rcases hend with he | hsome
      · exact ⟨_, .noLength he (hall ▸ hread)⟩
      · unfold readFrame at hsome
        rw [hread] at hsome
        cases hsome
  | body len =>
    right
    cases hread : readExact len (data.drop 4) with
    | some q =>
      obtain ⟨buf, rest⟩ := q
      exact ⟨_, .body (hall ▸ hread)⟩
    | none =>
      rcases hend with he | hsome
      · exact ⟨_, .noBody he (hall ▸ hread)⟩
      · unfold readFrame at hsome
        rw [show readLength data = _ from hr] at hsome
        simp only [hread, Option.map_none, Option.isSome_none] at hsome
        cases hsome

/-- The steps the reader has still to take. -/
def rank : Reader → Nat
  | .length => 2
  | .body _ => 1
  | .done _ => 0

theorem Step.rank_lt (h : Step p r r') : r'.rank < r.rank := by
  cases h <;> simp [rank]

end Reader

end Stric.Pool
