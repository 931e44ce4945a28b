import Mathlib.Data.List.AList
import Stric.Pool.Protobuf

/-!
# Codecs of protobuf messages

A message is written as the fields of its parts, and read by merging the fields, one after the
other, into the default message.  A codec carries the proof that this gives the message back:

    c.decode (c.encode a) = some a'   with   R a' a          (MessageCodec.decode_encode)

`R` is what survives the wire: equality, but for maps, whose entries come back in another order.

* `ValueCodec`: the value of one field; `string`, `bytes`, the numbers, and `message`.
* `implicit`, `optional`, `repeated`, `mapField`: a field that holds such values.
* `both` puts parts with different field numbers together, `alt` makes a `oneof`, and `map` turns
  the tuple that comes out into a structure.

As `prost` does, a number is cut to its width, fields that are not known are skipped, a field with
a value of the wrong kind is an error, and a message that comes twice is merged.
-/

namespace Stric.Pool

theorem utf8_eq_nil_iff {s : String} : utf8 s = [] ↔ s = "" := by
  constructor
  · intro h
    have hs := ofUtf8_utf8 s
    rw [h] at hs
    exact Option.some.inj (hs.symm.trans (ofUtf8_utf8 ""))
  · rintro rfl
    rfl

theorem encodeFields_eq_nil_iff {fields : List Field} : encodeFields fields = [] ↔ fields = [] := by
  constructor
  · intro h
    have := length_le_encodeFields fields
    rw [h] at this
    exact List.length_eq_zero_iff.mp (Nat.le_zero.mp this)
  · rintro rfl
    rfl

/-! ## Values -/

/-- How the value of a field is written, and how it is merged into what has been read so far. -/
structure ValueCodec (α : Type) (R : α → α → Prop) where
  empty : α
  wire : α → WireValue
  merge : α → WireValue → Option α
  wellFormed : ∀ a, (wire a).WellFormed
  merge_wire : ∀ a, ∃ a', merge empty (wire a) = some a' ∧ R a' a
  refl : R empty empty

namespace ValueCodec

/-- A scalar replaces what has been read before. -/
def scalar {α : Type} (empty : α) (wire : α → WireValue) (read : WireValue → Option α)
    (wellFormed : ∀ a, (wire a).WellFormed) (read_wire : ∀ a, read (wire a) = some a) :
    ValueCodec α Eq where
  empty := empty
  wire := wire
  merge _ := read
  wellFormed := wellFormed
  merge_wire a := ⟨a, read_wire a, rfl⟩
  refl := rfl

def readString : WireValue → Option String
  | .len data => ofUtf8 data
  | _ => none

def string : ValueCodec String Eq :=
  scalar "" (fun s => .len (utf8 s)) readString (fun _ => trivial) ofUtf8_utf8

def readBytes : WireValue → Option (List UInt8)
  | .len data => some data
  | _ => none

def bytes : ValueCodec (List UInt8) Eq :=
  scalar [] .len readBytes (fun _ => trivial) fun _ => rfl

/-- A number of the given width, from the value of a varint. -/
def readVarint {α : Type} (cast : Nat → α) : WireValue → Option α
  | .varint n => some (cast n)
  | _ => none

def uint32 : ValueCodec UInt32 Eq :=
  scalar 0 (fun n => .varint n.toNat) (readVarint .ofNat) (fun _ => trivial) fun _ =>
    congrArg some UInt32.ofNat_toNat

def uint64 : ValueCodec UInt64 Eq :=
  scalar 0 (fun n => .varint n.toNat) (readVarint .ofNat) (fun _ => trivial) fun _ =>
    congrArg some UInt64.ofNat_toNat

def bool : ValueCodec Bool Eq :=
  scalar false (fun b => .varint b.toNat) (readVarint (· != 0)) (fun _ => trivial) fun b => by
    cases b <;> rfl

/-- The low 32 bits of a number, as a signed number. -/
def castI32 (n : Nat) : Int32 := (UInt32.ofNat n).toInt32

theorem castI32_toUInt64 (n : Int32) : castI32 n.toInt64.toUInt64.toNat = n := by
  have hn := n.toBitVec.isLt
  apply Int32.toBitVec_inj.mp
  apply BitVec.eq_of_toNat_eq
  simp only [castI32, UInt32.toBitVec_toInt32, UInt32.toBitVec_ofNat', UInt64.toNat,
    Int64.toBitVec_toUInt64, Int32.toBitVec_toInt64, BitVec.toNat_ofNat, BitVec.toNat_signExtend,
    BitVec.toNat_setWidth]
  split <;> omega

/-- An enumeration is an `i32`, written as the 64 bits of its number. -/
def enumeration : ValueCodec Int32 Eq :=
  scalar 0 (fun n => .varint n.toInt64.toUInt64.toNat) (readVarint castI32) (fun _ => trivial)
    fun n => congrArg some (castI32_toUInt64 n)

end ValueCodec

/-! ## Messages -/

/-- How a message, or a part of one, is written as fields and read from them. -/
structure MessageCodec (α : Type) (R : α → α → Prop) where
  tags : List Nat
  empty : α
  fields : α → List Field
  /-- Of fields with one of the `tags`. -/
  merge : α → Field → Option α
  known : ∀ a, ∀ f ∈ fields a, f.tag ∈ tags ∧ f.value.WellFormed
  merge_fields : ∀ a, ∃ a', (fields a).foldlM merge empty = some a' ∧ R a' a
  refl : R empty empty

/-- Merging commutes with a change of representation. -/
theorem foldlM_map_of_comm {α β : Type} {m : α → Field → Option α} {m' : β → Field → Option β}
    (g : α → β) {fs : List Field} (h : ∀ f ∈ fs, ∀ a, m' (g a) f = (m a f).map g) (a : α) :
    fs.foldlM m' (g a) = (fs.foldlM m a).map g := by
  induction fs generalizing a with
  | nil => rfl
  | cons f fs ih =>
    obtain ⟨hf, hfs⟩ := List.forall_mem_cons.mp h
    rw [List.foldlM_cons, List.foldlM_cons, hf a]
    cases m a f with
    | none => rfl
    | some a₁ => exact ih hfs a₁

namespace MessageCodec

variable {α β : Type} {R : α → α → Prop} {S : β → β → Prop}

section
variable (c : MessageCodec α R)

/-- A field that is not known is skipped. -/
def mergeField (a : α) (f : Field) : Option α := if f.tag ∈ c.tags then c.merge a f else some a

def mergeFrom (a : α) (data : List UInt8) : Option α :=
  (decodeFields data).bind fun fields => fields.foldlM c.mergeField a

def encode (a : α) : List UInt8 := encodeFields (c.fields a)

def decode (data : List UInt8) : Option α := c.mergeFrom c.empty data

/-- **What was encoded is decoded.** -/
theorem decode_encode (a : α) : ∃ a', c.decode (c.encode a) = some a' ∧ R a' a := by
  obtain ⟨a', hmerge, hR⟩ := c.merge_fields a
  refine ⟨a', ?_, hR⟩
  have hknown : ∀ f ∈ c.fields a, ∀ b, c.mergeField b f = (c.merge b f).map id := by
    intro f hf b
    rw [Option.map_id_apply]
    exact if_pos (c.known a f hf).1
  unfold decode mergeFrom encode
  rw [decodeFields_encodeFields fun f hf => (c.known a f hf).2, Option.bind_some,
    ← hmerge, ← Option.map_id_apply (x := (c.fields a).foldlM c.merge c.empty)]
  exact foldlM_map_of_comm id hknown c.empty

end

/-! ### Fields -/

/-- As proto3 does, the default value is left out. -/
def implicit [DecidableEq α] (tag : Nat) (v : ValueCodec α R) : MessageCodec α R where
  tags := [tag]
  empty := v.empty
  fields a := if a = v.empty then [] else [⟨tag, v.wire a⟩]
  merge a f := v.merge a f.value
  known a f hf := by
    split at hf
    · exact absurd hf List.not_mem_nil
    · rw [List.mem_singleton.mp hf]
      exact ⟨List.mem_singleton.mpr rfl, v.wellFormed a⟩
  merge_fields a := by
    split
    · next ha => exact ⟨v.empty, rfl, ha ▸ v.refl⟩
    · obtain ⟨a', hmerge, hR⟩ := v.merge_wire a
      refine ⟨a', ?_, hR⟩
      rw [List.foldlM_cons, hmerge]
      rfl
  refl := v.refl

/-- `Option`: the field is there or not. -/
def optional (tag : Nat) (v : ValueCodec α R) : MessageCodec (Option α) (Option.Rel R) where
  tags := [tag]
  empty := none
  fields o := o.toList.map fun a => ⟨tag, v.wire a⟩
  merge o f := (v.merge (o.getD v.empty) f.value).map some
  known o f hf := by
    obtain ⟨a, -, rfl⟩ := List.mem_map.mp hf
    exact ⟨List.mem_singleton.mpr rfl, v.wellFormed a⟩
  merge_fields o := by
    cases o with
    | none => exact ⟨none, rfl, .none⟩
    | some a =>
      obtain ⟨a', hmerge, hR⟩ := v.merge_wire a
      refine ⟨some a', ?_, .some hR⟩
      show ((v.merge v.empty (v.wire a)).map some).bind pure = _
      rw [hmerge]
      rfl
  refl := .none

/-- The values of a repeated field come one by one. -/
theorem foldlM_repeated (tag : Nat) (v : ValueCodec α R) (l acc : List α) :
    ∃ l', (l.map fun a => (⟨tag, v.wire a⟩ : Field)).foldlM
        (fun acc f => (v.merge v.empty f.value).map fun a => acc ++ [a]) acc = some (acc ++ l') ∧
      List.Forall₂ R l' l := by
  induction l generalizing acc with
  | nil => exact ⟨[], by rw [List.append_nil]; rfl, .nil⟩
  | cons a l ih =>
    obtain ⟨a', hmerge, hR⟩ := v.merge_wire a
    obtain ⟨l', hfold, hRs⟩ := ih (acc ++ [a'])
    refine ⟨a' :: l', ?_, .cons hR hRs⟩
    rw [List.map_cons, List.foldlM_cons, hmerge]
    rw [List.append_assoc] at hfold
    exact hfold

def repeated (tag : Nat) (v : ValueCodec α R) : MessageCodec (List α) (List.Forall₂ R) where
  tags := [tag]
  empty := []
  fields l := l.map fun a => ⟨tag, v.wire a⟩
  merge l f := (v.merge v.empty f.value).map fun a => l ++ [a]
  known l f hf := by
    obtain ⟨a, -, rfl⟩ := List.mem_map.mp hf
    exact ⟨List.mem_singleton.mpr rfl, v.wellFormed a⟩
  merge_fields l := foldlM_repeated tag v l []
  refl := .nil

/-! ### Combinations -/

/-- Two parts of one message. -/
def both (c : MessageCodec α R) (d : MessageCodec β S) (hdisjoint : ∀ t ∈ c.tags, t ∉ d.tags) :
    MessageCodec (α × β) fun p q => R p.1 q.1 ∧ S p.2 q.2 where
  tags := c.tags ++ d.tags
  empty := (c.empty, d.empty)
  fields p := c.fields p.1 ++ d.fields p.2
  merge p f :=
    if f.tag ∈ c.tags then (c.merge p.1 f).map fun a => (a, p.2)
    else (d.merge p.2 f).map fun b => (p.1, b)
  known p f hf := by
    rcases List.mem_append.mp hf with hf | hf
    · obtain ⟨htag, hwf⟩ := c.known _ f hf
      exact ⟨List.mem_append_left _ htag, hwf⟩
    · obtain ⟨htag, hwf⟩ := d.known _ f hf
      exact ⟨List.mem_append_right _ htag, hwf⟩
  merge_fields p := by
    obtain ⟨a', ha, hR⟩ := c.merge_fields p.1
    obtain ⟨b', hb, hS⟩ := d.merge_fields p.2
    refine ⟨(a', b'), ?_, hR, hS⟩
    rw [List.foldlM_append, foldlM_map_of_comm (fun a => (a, d.empty))
      (fun f hf a => if_pos (c.known _ f hf).1) c.empty, ha]
    refine (foldlM_map_of_comm (fun b => (a', b)) (fun f hf b => if_neg fun htag => ?_) d.empty).trans ?_
    · exact hdisjoint _ htag (d.known _ f hf).1
    · rw [hb]
      rfl
  refl := ⟨c.refl, d.refl⟩

/-- The same message in another representation. -/
def map (c : MessageCodec α R) (pack : α → β) (unpack : β → α)
    (hunpack : ∀ a, unpack (pack a) = a) (hpack : ∀ b, pack (unpack b) = b)
    (hS : ∀ a a', R a a' → S (pack a) (pack a')) : MessageCodec β S where
  tags := c.tags
  empty := pack c.empty
  fields b := c.fields (unpack b)
  merge b f := (c.merge (unpack b) f).map pack
  known b := c.known (unpack b)
  merge_fields b := by
    obtain ⟨a', hmerge, hR⟩ := c.merge_fields (unpack b)
    refine ⟨pack a', ?_, hpack b ▸ hS _ _ hR⟩
    rw [foldlM_map_of_comm pack (fun f _ a => by rw [hunpack]) c.empty, hmerge]
    rfl
  refl := hS _ _ c.refl

/-- The same choice in another representation. -/
def mapChoice (c : MessageCodec (Option α) (Option.Rel R)) (pack : α → β) (unpack : β → α)
    (hunpack : ∀ a, unpack (pack a) = a) (hpack : ∀ b, pack (unpack b) = b)
    (hS : ∀ a a', R a a' → S (pack a) (pack a')) : MessageCodec (Option β) (Option.Rel S) :=
  c.map (Option.map pack) (Option.map unpack)
    (fun o => by cases o <;> simp [hunpack]) (fun o => by cases o <;> simp [hpack])
    fun _ _ h => by
      cases h with
      | none => exact .none
      | some hR => exact .some (hS _ _ hR)

/-- What two messages of a `oneof` have in common. -/
inductive AltRel (R : α → α → Prop) (S : β → β → Prop) : α ⊕ β → α ⊕ β → Prop
  | inl {a a' : α} : R a a' → AltRel R S (.inl a) (.inl a')
  | inr {b b' : β} : S b b' → AltRel R S (.inr b) (.inr b')

/-- A `oneof`: a field of another kind than the last one replaces it. -/
def alt (c : MessageCodec (Option α) (Option.Rel R)) (d : MessageCodec (Option β) (Option.Rel S))
    (hdisjoint : ∀ t ∈ c.tags, t ∉ d.tags) (hc : c.empty = none) (hd : d.empty = none) :
    MessageCodec (Option (α ⊕ β)) (Option.Rel (AltRel R S)) where
  tags := c.tags ++ d.tags
  empty := none
  fields
    | none => []
    | some (.inl a) => c.fields (some a)
    | some (.inr b) => d.fields (some b)
  merge o f :=
    if f.tag ∈ c.tags then (c.merge (o.bind Sum.getLeft?) f).map (Option.map .inl)
    else (d.merge (o.bind Sum.getRight?) f).map (Option.map .inr)
  known o f hf := by
    rcases o with _ | a | b
    · exact absurd hf List.not_mem_nil
    · obtain ⟨htag, hwf⟩ := c.known _ f hf
      exact ⟨List.mem_append_left _ htag, hwf⟩
    · obtain ⟨htag, hwf⟩ := d.known _ f hf
      exact ⟨List.mem_append_right _ htag, hwf⟩
  merge_fields o := by
    rcases o with _ | a | b
    · exact ⟨none, rfl, .none⟩
    · obtain ⟨o', hmerge, hR⟩ := c.merge_fields (some a)
      refine ⟨o'.map .inl, ?_, ?_⟩
      · rw [hc] at hmerge
        rw [← Option.map_none (f := Sum.inl), foldlM_map_of_comm (m := c.merge) (Option.map Sum.inl)
          (fun f hf x => ?_) none, hmerge]
        · rfl
        · refine (if_pos (c.known _ f hf).1).trans ?_
          cases x <;> rfl
      · cases hR with
        | some hR => exact .some (.inl hR)
    · obtain ⟨o', hmerge, hS⟩ := d.merge_fields (some b)
      refine ⟨o'.map .inr, ?_, ?_⟩
      · rw [hd] at hmerge
        rw [← Option.map_none (f := Sum.inr), foldlM_map_of_comm (m := d.merge) (Option.map Sum.inr)
          (fun f hf x => ?_) none, hmerge]
        · rfl
        · refine (if_neg fun htag => hdisjoint _ htag (d.known _ f hf).1).trans ?_
          cases x <;> rfl
      · cases hS with
        | some hS => exact .some (.inr hS)
  refl := .none

/-! ### Messages in messages -/

/-- A message as the value of a field. -/
def value (c : MessageCodec α R) : ValueCodec α R where
  empty := c.empty
  wire a := .len (c.encode a)
  merge a w :=
    match w with
    | .len data => c.mergeFrom a data
    | _ => none
  wellFormed _ := trivial
  merge_wire a := c.decode_encode a
  refl := c.refl

/-! ### Maps -/

/-- The entry of a map is a message of its own. -/
def entry [DecidableEq β] (v : ValueCodec β S) :
    MessageCodec (String × β) fun p q => p.1 = q.1 ∧ S p.2 q.2 :=
  (implicit 1 .string).both (implicit 2 v) (by simp [implicit])

/-- The same keys, with related values. -/
def MapRel (S : β → β → Prop) (m m' : AList fun _ : String => β) : Prop :=
  ∀ k, Option.Rel S (m.lookup k) (m'.lookup k)

def insertEntry [DecidableEq β] (v : ValueCodec β S) (m : AList fun _ : String => β) (f : Field) :
    Option (AList fun _ : String => β) :=
  ((entry v).value.merge (entry v).empty f.value).map fun p => m.insert p.1 p.2

/-- The entries come one by one; the keys are different, so that none is lost. -/
theorem foldlM_entries [DecidableEq β] (tag : Nat) (v : ValueCodec β S)
    (l : List (Sigma fun _ : String => β)) (hl : l.NodupKeys) (m : AList fun _ : String => β) :
    ∃ m', (l.map fun e => (⟨tag, (entry v).value.wire (e.1, e.2)⟩ : Field)).foldlM (insertEntry v) m
        = some m' ∧
      ∀ k, match l.dlookup k with
        | some b => ∃ b', m'.lookup k = some b' ∧ S b' b
        | none => m'.lookup k = m.lookup k := by
  induction l generalizing m with
  | nil => exact ⟨m, rfl, fun k => rfl⟩
  | cons e l ih =>
    obtain ⟨key, b⟩ := e
    obtain ⟨hkey, htail⟩ := List.nodupKeys_cons.mp hl
    obtain ⟨⟨key', b'⟩, hentry, rfl, hS⟩ := (entry v).value.merge_wire (key, b)
    obtain ⟨m', hfold, hm'⟩ := ih htail (m.insert key' b')
    refine ⟨m', ?_, fun k => ?_⟩
    · rw [List.map_cons, List.foldlM_cons, insertEntry]
      rw [show (entry v).value.merge (entry v).empty _ = _ from hentry]
      exact hfold
    · have hk := hm' k
      by_cases heq : k = key'
      · subst heq
        rw [List.dlookup_eq_none.mpr hkey] at hk
        rw [List.dlookup_cons_eq]
        exact ⟨b', hk.trans (AList.lookup_insert _), hS⟩
      · rw [List.dlookup_cons_ne _ _ heq]
        rw [AList.lookup_insert_ne heq] at hk
        exact hk

def mapField [DecidableEq β] (tag : Nat) (v : ValueCodec β S) :
    MessageCodec (AList fun _ : String => β) (MapRel S) where
  tags := [tag]
  empty := ∅
  fields m := m.entries.map fun e => ⟨tag, (entry v).value.wire (e.1, e.2)⟩
  merge := insertEntry v
  known m f hf := by
    obtain ⟨e, -, rfl⟩ := List.mem_map.mp hf
    exact ⟨List.mem_singleton.mpr rfl, trivial⟩
  merge_fields m := by
    obtain ⟨m', hfold, hm'⟩ := foldlM_entries tag v m.entries m.nodupKeys ∅
    refine ⟨m', hfold, fun k => ?_⟩
    have hk := hm' k
    change Option.Rel S _ (m.entries.dlookup k)
    split at hk
    · next b hb =>
      obtain ⟨b', hb', hS⟩ := hk
      rw [hb, hb']
      exact .some hS
    · next hnone =>
      rw [hnone, hk]
      exact .none
  refl _ := .none

end MessageCodec

end Stric.Pool
