import Mathlib.Data.List.AList
import Mathlib.Data.List.Induction
import Stric.Pool.Protobuf

/-!
# Headers, and their map on the wire (`client.rs`, `server.rs`)

Both sides of the tower protocol turn a `HeaderMap` into a map of strings and back.  Of a name
with several values only the first is sent, since the owning iterator gives the others without
their name; a value that is not visible ASCII is not sent at all.

* Names and values are those of the `http` crate, which is a parameter: `HttpHeaders` has the
  functions that are called and what is relied on.  `Ascii.headers` is an instance, names in lower
  case and values without control characters.
* A `HeaderMap` has the values of each name in order, and `insert` replaces them all.
* `toWire` and `fromWire` are the two loops, which the client and the server share.

    fromWire h has the headers of m, for every h equal to toWire m, exactly if m is `Plain`

is `sameHeaders_fromWire_iff`.
-/

namespace Stric.Tower

open Stric.Pool

abbrev Bytes := List UInt8

abbrev HashMap (κ υ : Type) := AList fun _ : κ => υ

/-! ## Maps filled from a list -/

section
variable {α κ υ : Type} [DecidableEq κ]

/-- The map with the keys and values that `f` gives, the last value for a key. -/
def HashMap.collect (f : α → Option (κ × υ)) (l : List α) : HashMap κ υ :=
  l.foldl (fun m a => match f a with
    | some (k, v) => m.insert k v
    | none => m) ∅

theorem HashMap.collect_concat (f : α → Option (κ × υ)) (l : List α) (a : α) :
    HashMap.collect f (l ++ [a]) = match f a with
      | some (k, v) => (HashMap.collect f l).insert k v
      | none => HashMap.collect f l := by
  unfold collect
  rw [List.foldl_append]
  rfl

/-- If no key gets two values, the map has exactly the pairs that `f` gives. -/
theorem HashMap.lookup_collect {f : α → Option (κ × υ)} {l : List α}
    (h : ∀ a ∈ l, ∀ b ∈ l, ∀ k v w, f a = some (k, v) → f b = some (k, w) → v = w) {k : κ} {v : υ} :
    (HashMap.collect f l).lookup k = some v ↔ ∃ a ∈ l, f a = some (k, v) := by
  induction l using List.reverseRecOn with
  | nil => simp [collect]
  | append_singleton l a ih =>
    have hl : ∀ x ∈ l, ∀ y ∈ l, ∀ k v w, f x = some (k, v) → f y = some (k, w) → v = w :=
      fun x hx y hy => h x (List.mem_append_left _ hx) y (List.mem_append_left _ hy)
    have hsplit : (∃ x ∈ l ++ [a], f x = some (k, v)) ↔
        (∃ x ∈ l, f x = some (k, v)) ∨ f a = some (k, v) := by
      simp [or_and_right, exists_or]
    rw [HashMap.collect_concat, hsplit, ← ih hl]
    cases hf : f a with
    | none => simp
    | some p =>
      obtain ⟨k', v'⟩ := p
      simp only [Option.some.injEq, Prod.mk.injEq]
      by_cases hk : k = k'
      · subst hk
        rw [AList.lookup_insert, Option.some.injEq]
        constructor
        · rintro rfl
          exact Or.inr ⟨rfl, rfl⟩
        · rintro (hold | ⟨-, rfl⟩)
          · -- the key had this value before
            obtain ⟨x, hx, hfx⟩ := (ih hl).mp hold
            exact (h x (List.mem_append_left _ hx) a (List.mem_append_right _ (.head _)) _ _ _ hfx
              hf).symm
          · rfl
      · rw [AList.lookup_insert_ne hk]
        constructor
        · exact Or.inl
        · rintro (hold | ⟨rfl, -⟩)
          · exact hold
          · exact absurd rfl hk

end

/-! ## Names and values -/

/-- Every byte passes the check. -/
def AllBytes (check : UInt8 → Bool) (bytes : Bytes) : Prop := ∀ b ∈ bytes, check b = true

instance (check : UInt8 → Bool) (bytes : Bytes) : Decidable (AllBytes check bytes) :=
  List.decidableBAll (fun b => check b = true) bytes

/-- Visible ASCII: a byte that `to_str` accepts. -/
def visibleByte (b : UInt8) : Bool := (32 ≤ b && b < 127) || b = 9

/-- `http::HeaderName` and `http::HeaderValue`. -/
class HttpHeaders where
  Name : Type
  Value : Type
  [nameEq : DecidableEq Name]
  [valueEq : DecidableEq Value]
  nameFromBytes : Bytes → Option Name
  nameToString : Name → String
  /-- The name that `insert` makes of the text `content-type`. -/
  contentType : Name
  asBytes : Value → Bytes
  toStr : Value → Option String
  fromStr : String → Option Value
  /-- `from_static` panics on a text that is not visible ASCII. -/
  fromStatic (text : String) : AllBytes visibleByte (utf8 text) → Value
  nameFromBytes_toString : ∀ name, nameFromBytes (utf8 (nameToString name)) = some name
  contentType_toString : nameToString contentType = "content-type"
  toStr_isSome : ∀ value, (∃ text, toStr value = some text) ↔ AllBytes visibleByte (asBytes value)
  fromStr_toStr : ∀ value text, toStr value = some text → fromStr text = some value
  toStr_fromStatic : ∀ text h, toStr (fromStatic text h) = some text

section
variable [HttpHeaders]

abbrev HeaderName : Type := HttpHeaders.Name

abbrev HeaderValue : Type := HttpHeaders.Value

instance : DecidableEq HeaderName := HttpHeaders.nameEq

instance : DecidableEq HeaderValue := HttpHeaders.valueEq

theorem nameToString_inj {name name' : HeaderName}
    (h : HttpHeaders.nameToString name = HttpHeaders.nameToString name') : name = name' := by
  have hname := HttpHeaders.nameFromBytes_toString name
  rw [h, HttpHeaders.nameFromBytes_toString] at hname
  exact (Option.some.inj hname).symm

/-- All bytes are visible ASCII. -/
def HeaderValue.Visible (value : HeaderValue) : Prop :=
  AllBytes visibleByte (HttpHeaders.asBytes value)

instance (value : HeaderValue) : Decidable (HeaderValue.Visible value) :=
  inferInstanceAs (Decidable (AllBytes _ _))

/-! ## Header maps -/

/-- Each name with its values, in order; there is at least one. -/
abbrev HeaderMap : Type := HashMap HeaderName (HeaderValue × List HeaderValue)

namespace HeaderMap

def getAll (m : HeaderMap) (name : HeaderName) : List HeaderValue :=
  match m.lookup name with
  | some (v, more) => v :: more
  | none => []

/-- The owning iterator: it names only the first value of a header. -/
def intoIter (m : HeaderMap) : List (Option HeaderName × HeaderValue) :=
  m.entries.flatMap fun e => (some e.1, e.2.1) :: e.2.2.map fun v => (none, v)

/-- The same names with the same values. -/
def Same (m m' : HeaderMap) : Prop := ∀ name, m.getAll name = m'.getAll name

/-- Every name has one value, and it is visible ASCII. -/
def Plain (m : HeaderMap) : Prop :=
  ∀ name v more, m.lookup name = some (v, more) → more = [] ∧ HeaderValue.Visible v

end HeaderMap

/-- `HeaderMap` to the map of the envelope: what one item of the iterator inserts. -/
def wireEntry (item : Option HeaderName × HeaderValue) : Option (String × String) :=
  match item with
  | (some name, value) =>
    (HttpHeaders.toStr value).map fun text => (HttpHeaders.nameToString name, text)
  | (none, _) => none

def toWire (headers : HeaderMap) : HashMap String String :=
  HashMap.collect wireEntry (HeaderMap.intoIter headers)

/-- The map of the envelope to a `HeaderMap`: what one entry inserts. -/
def headerEntry (e : (_ : String) × String) :
    Option (HeaderName × (HeaderValue × List HeaderValue)) :=
  match HttpHeaders.nameFromBytes (utf8 e.1), HttpHeaders.fromStr e.2 with
  | some name, some value => some (name, (value, []))
  | _, _ => none

def fromWire (headers : HashMap String String) : HeaderMap :=
  HashMap.collect headerEntry headers.entries

/-! ## Across the wire -/

theorem wireEntry_eq_some {m : HeaderMap} {k s : String} :
    (∃ item ∈ HeaderMap.intoIter m, wireEntry item = some (k, s)) ↔
      ∃ name v more, m.lookup name = some (v, more) ∧ HttpHeaders.toStr v = some s ∧
        k = HttpHeaders.nameToString name := by
  constructor
  · rintro ⟨item, hitem, hw⟩
    obtain ⟨⟨name, v, more⟩, he, hitem⟩ := List.mem_flatMap.mp hitem
    rcases List.mem_cons.mp hitem with rfl | hitem
    · obtain ⟨s', hs, heq⟩ := Option.map_eq_some_iff.mp hw
      cases heq
      exact ⟨name, v, more, AList.mem_lookup_iff.mpr he, hs, rfl⟩
    · obtain ⟨v', -, rfl⟩ := List.mem_map.mp hitem
      cases hw
  · rintro ⟨name, v, more, hl, hs, rfl⟩
    refine ⟨(some name, v), List.mem_flatMap.mpr ⟨⟨name, v, more⟩, ?_, .head _⟩, ?_⟩
    · exact AList.mem_lookup_iff.mp hl
    · simp [wireEntry, hs]

/-- The map on the wire: the visible first values. -/
theorem lookup_toWire {m : HeaderMap} {k s : String} : (toWire m).lookup k = some s ↔
    ∃ name v more, m.lookup name = some (v, more) ∧ HttpHeaders.toStr v = some s ∧
      k = HttpHeaders.nameToString name := by
  unfold toWire
  rw [HashMap.lookup_collect, wireEntry_eq_some]
  -- a name has one entry
  intro a ha b hb k v w hfa hfb
  obtain ⟨name, x, more, hl, hs, hk⟩ := wireEntry_eq_some.mp ⟨a, ha, hfa⟩
  obtain ⟨name', x', more', hl', hs', hk'⟩ := wireEntry_eq_some.mp ⟨b, hb, hfb⟩
  obtain rfl : name = name' := nameToString_inj (hk.symm.trans hk')
  rw [hl] at hl'
  cases hl'
  exact Option.some.inj (hs.symm.trans hs')

/-- What is read of a map that is equal to the one sent. -/
theorem lookup_fromWire {m : HeaderMap} {h : HashMap String String}
    (hsame : ∀ k, h.lookup k = (toWire m).lookup k) {name : HeaderName}
    {p : HeaderValue × List HeaderValue} : (fromWire h).lookup name = some p ↔
      ∃ v more, m.lookup name = some (v, more) ∧ HeaderValue.Visible v ∧ p = (v, []) := by
  have hentry : ∀ (e : (_ : String) × String) name p, e ∈ h.entries →
      (headerEntry e = some (name, p) ↔ ∃ v more s, m.lookup name = some (v, more) ∧
        HttpHeaders.toStr v = some s ∧ e = ⟨HttpHeaders.nameToString name, s⟩ ∧ p = (v, [])) := by
    rintro ⟨k, s⟩ name p he
    have hl : h.lookup k = some s := AList.mem_lookup_iff.mpr he
    rw [hsame, lookup_toWire] at hl
    obtain ⟨name', v, more, hm, hs, rfl⟩ := hl
    simp only [headerEntry, HttpHeaders.nameFromBytes_toString, HttpHeaders.fromStr_toStr v s hs,
      Option.some.injEq, Prod.mk.injEq]
    constructor
    · rintro ⟨rfl, rfl⟩
      exact ⟨v, more, s, hm, hs, rfl, rfl⟩
    · rintro ⟨v', more', s', hm', -, heq, rfl⟩
      obtain rfl : name' = name := nameToString_inj (congrArg Sigma.fst heq)
      rw [hm] at hm'
      cases hm'
      exact ⟨rfl, rfl⟩
  unfold fromWire
  rw [HashMap.lookup_collect]
  · constructor
    · rintro ⟨e, he, hf⟩
      obtain ⟨v, more, s, hm, hs, -, rfl⟩ := (hentry e name p he).mp hf
      exact ⟨v, more, hm, (HttpHeaders.toStr_isSome v).mp ⟨s, hs⟩, rfl⟩
    · rintro ⟨v, more, hm, hvis, rfl⟩
      obtain ⟨s, hs⟩ := (HttpHeaders.toStr_isSome v).mpr hvis
      have he : (⟨HttpHeaders.nameToString name, s⟩ : (_ : String) × String) ∈ h.entries := by
        refine AList.mem_lookup_iff.mp ?_
        rw [hsame]
        exact lookup_toWire.mpr ⟨name, v, more, hm, hs, rfl⟩
      exact ⟨_, he, (hentry _ _ _ he).mpr ⟨v, more, s, hm, hs, rfl, rfl⟩⟩
  · intro a ha b hb name p q hfa hfb
    obtain ⟨v, more, s, hm, -, -, rfl⟩ := (hentry a name p ha).mp hfa
    obtain ⟨v', more', s', hm', -, -, rfl⟩ := (hentry b name q hb).mp hfb
    rw [hm] at hm'
    cases hm'
    rfl

/-- **When headers survive the wire**: exactly if no name has several values and all values are
visible ASCII. -/
theorem sameHeaders_fromWire_iff {m : HeaderMap} {h : HashMap String String}
    (hsame : ∀ k, h.lookup k = (toWire m).lookup k) :
    HeaderMap.Same (fromWire h) m ↔ HeaderMap.Plain m := by
  constructor
  · intro hall name v more hm
    have hname := hall name
    unfold HeaderMap.getAll at hname
    rw [hm] at hname
    cases hl : (fromWire h).lookup name with
    | none =>
      rw [hl] at hname
      cases hname
    | some p =>
      obtain ⟨v', more', hm', hvis, rfl⟩ := (lookup_fromWire hsame).mp hl
      rw [hm] at hm'
      cases hm'
      rw [hl] at hname
      exact ⟨(List.cons.inj hname).2.symm, hvis⟩
  · intro hplain name
    unfold HeaderMap.getAll
    cases hm : m.lookup name with
    | none =>
      cases hl : (fromWire h).lookup name with
      | none => rfl
      | some p =>
        obtain ⟨v, more, hm', -⟩ := (lookup_fromWire hsame).mp hl
        rw [hm] at hm'
        cases hm'
    | some p =>
      obtain ⟨v, more⟩ := p
      obtain ⟨rfl, hvis⟩ := hplain name v more hm
      rw [(lookup_fromWire hsame).mpr ⟨v, [], hm, hvis, rfl⟩]

end

/-! ## ASCII names and values -/

namespace Ascii

/-- The lower-case form of a byte that may stand in a header name. -/
def headerChar (b : UInt8) : Option UInt8 :=
  if 65 ≤ b ∧ b ≤ 90 then some (b + 32)
  else if (97 ≤ b ∧ b ≤ 122) ∨ (48 ≤ b ∧ b ≤ 57) ∨
      b ∈ [33, 35, 36, 37, 38, 39, 42, 43, 45, 46, 94, 95, 96, 124, 126] then some b
  else none

theorem headerChar_lower : ∀ b : UInt8, ∀ c ∈ headerChar b, headerChar c = some c ∧ c < 128 := by
  have hall : ∀ n, n < 256 → ∀ c ∈ headerChar n.toUInt8, headerChar c = some c ∧ c < 128 := by
    decide +kernel
  intro b
  have h := hall b.toNat b.toNat_lt
  rwa [show b.toNat.toUInt8 = b by simp] at h

structure Name where
  bytes : Bytes
  nonempty : bytes ≠ []
  short : bytes.length ≤ 65535
  lower : ∀ b ∈ bytes, headerChar b = some b
deriving DecidableEq

namespace Name

def fromBytes (src : Bytes) : Option Name :=
  if h : src ≠ [] ∧ src.length ≤ 65535 ∧ AllBytes (fun b => (headerChar b).isSome) src then
    some
      { bytes := src.map fun b => (headerChar b).getD b
        nonempty := fun hnil => h.1 (List.map_eq_nil_iff.mp hnil)
        short := by
          rw [List.length_map]
          exact h.2.1
        lower := by
          intro c hc
          obtain ⟨b, hb, rfl⟩ := List.mem_map.mp hc
          obtain ⟨d, hd⟩ := Option.isSome_iff_exists.mp (h.2.2 b hb)
          rw [hd]
          exact (headerChar_lower b d hd).1 }
  else none

theorem fromBytes_bytes (n : Name) : fromBytes n.bytes = some n := by
  have hsome : ∀ b ∈ n.bytes, (headerChar b).isSome := fun b hb => by
    rw [n.lower b hb]
    rfl
  have hmap : (n.bytes.map fun b => (headerChar b).getD b) = n.bytes := by
    refine (List.map_congr_left fun b hb => ?_).trans (List.map_id _)
    rw [n.lower b hb]
    rfl
  unfold fromBytes
  rw [dif_pos ⟨n.nonempty, n.short, hsome⟩]
  simp only [hmap]

end Name

/-- The string of these ASCII bytes. -/
def ofAscii (bytes : Bytes) : String := .ofList (bytes.map fun b => Char.ofNat b.toNat)

theorem utf8EncodeChar_ascii : ∀ n, n < 128 →
    String.utf8EncodeChar (Char.ofNat n) = [n.toUInt8] := by
  decide +kernel

theorem utf8_ofAscii {bytes : Bytes} (h : ∀ b ∈ bytes, b < 128) : utf8 (ofAscii bytes) = bytes := by
  have hchar : ∀ b ∈ bytes, String.utf8EncodeChar (Char.ofNat b.toNat) = [b] := by
    intro b hb
    rw [utf8EncodeChar_ascii b.toNat (UInt8.lt_iff_toNat_lt.mp (h b hb))]
    simp
  unfold utf8 ofAscii
  rw [String.toByteArray_ofList, List.utf8Encode, List.data_toByteArray, List.toList_toArray,
    List.flatMap_map]
  clear h
  induction bytes with
  | nil => rfl
  | cons b bytes ih =>
    obtain ⟨hb, hbytes⟩ := List.forall_mem_cons.mp hchar
    rw [List.flatMap_cons, hb, ih hbytes]
    rfl

theorem Name.utf8_ofAscii (n : Name) : utf8 (ofAscii n.bytes) = n.bytes :=
  Ascii.utf8_ofAscii fun b hb => (headerChar_lower b b (n.lower b hb)).2

/-- A byte that may stand in a header value: no control character but the tab. -/
def validByte (b : UInt8) : Bool := (32 ≤ b && b ≠ 127) || b = 9

theorem visibleByte_spec : ∀ b : UInt8, visibleByte b = true → validByte b = true ∧ b < 128 := by
  have hall : ∀ n, n < 256 →
      visibleByte n.toUInt8 = true → validByte n.toUInt8 = true ∧ n.toUInt8 < 128 := by
    decide +kernel
  intro b
  have h := hall b.toNat b.toNat_lt
  rwa [show b.toNat.toUInt8 = b by simp] at h

structure Value where
  bytes : Bytes
  valid : AllBytes validByte bytes
deriving DecidableEq

namespace Value

def toStr (v : Value) : Option String :=
  if AllBytes visibleByte v.bytes then some (ofAscii v.bytes) else none

def fromStr (s : String) : Option Value :=
  if h : AllBytes validByte (utf8 s) then some ⟨utf8 s, h⟩ else none

def fromStatic (text : String) (h : AllBytes visibleByte (utf8 text)) : Value :=
  ⟨utf8 text, fun b hb => (visibleByte_spec b (h b hb)).1⟩

theorem toStr_isSome (v : Value) :
    (∃ s, v.toStr = some s) ↔ AllBytes visibleByte v.bytes := by
  unfold toStr
  split <;> simp_all

theorem fromStr_toStr (v : Value) (s : String) (h : v.toStr = some s) : fromStr s = some v := by
  simp only [toStr, Option.ite_none_right_eq_some] at h
  obtain ⟨hvis, h⟩ := h
  cases h
  have hbytes : utf8 (ofAscii v.bytes) = v.bytes :=
    utf8_ofAscii fun b hb => (visibleByte_spec b (hvis b hb)).2
  unfold fromStr
  simp only [hbytes]
  rw [dif_pos v.valid]

theorem toStr_fromStatic (text : String) (h : AllBytes visibleByte (utf8 text)) :
    (fromStatic text h).toStr = some text := by
  unfold toStr fromStatic
  rw [if_pos h]
  have hbytes : utf8 (ofAscii (utf8 text)) = utf8 text :=
    utf8_ofAscii fun b hb => (visibleByte_spec b (h b hb)).2
  rw [← ofUtf8_utf8, hbytes, ofUtf8_utf8]

end Value

def contentType : Name where
  bytes := utf8 "content-type"
  nonempty := by decide +kernel
  short := by decide +kernel
  lower := by decide +kernel

scoped instance headers : HttpHeaders where
  Name := Name
  Value := Value
  nameFromBytes := Name.fromBytes
  nameToString n := ofAscii n.bytes
  contentType := contentType
  asBytes := Value.bytes
  toStr := Value.toStr
  fromStr := Value.fromStr
  fromStatic := Value.fromStatic
  nameFromBytes_toString n := by rw [n.utf8_ofAscii, n.fromBytes_bytes]
  contentType_toString := by decide +kernel
  toStr_isSome := Value.toStr_isSome
  fromStr_toStr := Value.fromStr_toStr
  toStr_fromStatic := Value.toStr_fromStatic

end Ascii

end Stric.Tower
