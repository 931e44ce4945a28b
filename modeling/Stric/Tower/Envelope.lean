import Stric.Tower.Headers

/-!
# The envelopes on the wire (`stric_tower_wire.proto`)

What is needed of their encoding is that it is lossless (`Prost`).  `protobuf` is such an
encoding: the protobuf wire format, with the fields in the order of their numbers, default values
left out, and unknown fields skipped.
-/

namespace Stric.Tower

open Stric.Pool

structure RequestEnvelope where
  path : String
  headers : HashMap String String
  payload : Bytes

structure ResponseEnvelope where
  statusCode : UInt32
  headers : HashMap String String
  payload : Bytes

/-- Equal, with the maps compared entry by entry. -/
structure RequestEnvelope.Same (e e' : RequestEnvelope) : Prop where
  path : e.path = e'.path
  headers : ∀ k, e.headers.lookup k = e'.headers.lookup k
  payload : e.payload = e'.payload

structure ResponseEnvelope.Same (e e' : ResponseEnvelope) : Prop where
  statusCode : e.statusCode = e'.statusCode
  headers : ∀ k, e.headers.lookup k = e'.headers.lookup k
  payload : e.payload = e'.payload

/-- The encodings that `prost` derives. -/
structure Prost where
  encodeRequest : RequestEnvelope → Bytes
  decodeRequest : Bytes → Except String RequestEnvelope
  encodeResponse : ResponseEnvelope → Bytes
  decodeResponse : Bytes → Except String ResponseEnvelope
  request_lossless : ∀ e, ∃ e', decodeRequest (encodeRequest e) = .ok e' ∧ e'.Same e
  response_lossless : ∀ e, ∃ e', decodeResponse (encodeResponse e) = .ok e' ∧ e'.Same e

/-! ## The protobuf wire format -/

/-- The fields of an envelope while it is decoded: the first is a string or a number. -/
structure EnvelopeParts where
  head : Option WireValue
  headers : HashMap String String
  payload : Bytes

/-- An entry of a map is a message of its own. -/
def entryField (e : (_ : String) × String) : Field :=
  ⟨2, .len (encodeFields (bytesField 1 (utf8 e.1) ++ bytesField 2 (utf8 e.2)))⟩

def mergeEntry (entry : String × String) (f : Field) : Option (String × String) :=
  match f.tag, f.value with
  | 1, .len data => (ofUtf8 data).map fun k => (k, entry.2)
  | 2, .len data => (ofUtf8 data).map fun v => (entry.1, v)
  | 1, _ => none
  | 2, _ => none
  | _, _ => some entry

def decodeEntry (data : Bytes) : Option (String × String) :=
  (decodeFields data).bind fun fields => fields.foldlM mergeEntry ("", "")

/-- `accept` says which values the first field may have. -/
def mergePart (accept : WireValue → Bool) (p : EnvelopeParts) (f : Field) : Option EnvelopeParts :=
  match f.tag, f.value with
  | 1, value => if accept value then some { p with head := some value } else none
  | 2, .len data => (decodeEntry data).map fun e => { p with headers := p.headers.insert e.1 e.2 }
  | 3, .len data => some { p with payload := data }
  | 2, _ => none
  | 3, _ => none
  | _, _ => some p

def decodeParts (accept : WireValue → Bool) (data : Bytes) : Option EnvelopeParts :=
  (decodeFields data).bind fun fields => fields.foldlM (mergePart accept) ⟨none, ∅, []⟩

def EnvelopeParts.fields (p : EnvelopeParts) : List Field :=
  (p.head.toList.map fun value => ⟨1, value⟩) ++ p.headers.entries.map entryField ++
    bytesField 3 p.payload

/-! ### Decoding what was encoded -/

theorem utf8_eq_nil {s : String} (h : utf8 s = []) : s = "" := by
  have hs := ofUtf8_utf8 s
  rw [h] at hs
  have hempty : ofUtf8 [] = some "" := ofUtf8_utf8 ""
  exact Option.some.inj (hs.symm.trans hempty)

theorem bytesField_wellFormed (tag : Nat) (data : Bytes) :
    ∀ f ∈ bytesField tag data, f.value.WellFormed := by
  intro f hf
  unfold bytesField at hf
  split at hf
  · exact absurd hf List.not_mem_nil
  · rw [List.mem_singleton.mp hf]
    trivial

theorem decodeEntry_encode (k v : String) :
    decodeEntry (encodeFields (bytesField 1 (utf8 k) ++ bytesField 2 (utf8 v))) = some (k, v) := by
  have hkey : (bytesField 1 (utf8 k)).foldlM mergeEntry ("", "") = some (k, "") := by
    unfold bytesField
    split
    · next hnil =>
      rw [utf8_eq_nil hnil]
      rfl
    · show ((ofUtf8 (utf8 k)).map fun k => (k, "")).bind pure = _
      rw [ofUtf8_utf8]
      rfl
  have hvalue : (bytesField 2 (utf8 v)).foldlM mergeEntry (k, "") = some (k, v) := by
    unfold bytesField
    split
    · next hnil =>
      rw [utf8_eq_nil hnil]
      rfl
    · show ((ofUtf8 (utf8 v)).map fun v => (k, v)).bind pure = _
      rw [ofUtf8_utf8]
      rfl
  unfold decodeEntry
  rw [decodeFields_encodeFields]
  · rw [Option.bind_some, List.foldlM_append, hkey]
    exact hvalue
  · intro f hf
    rcases List.mem_append.mp hf with hf | hf
    · exact bytesField_wellFormed _ _ f hf
    · exact bytesField_wellFormed _ _ f hf

section
variable (accept : WireValue → Bool) (p : EnvelopeParts)

theorem foldlM_entries (l : List ((_ : String) × String)) :
    (l.map entryField).foldlM (mergePart accept) p =
      some { p with headers := l.foldl (fun m e => m.insert e.1 e.2) p.headers } := by
  induction l generalizing p with
  | nil => rfl
  | cons e l ih =>
    have hentry : mergePart accept p (entryField e) =
        some { p with headers := p.headers.insert e.1 e.2 } := by
      show (decodeEntry _).map _ = _
      rw [decodeEntry_encode]
      rfl
    rw [List.map_cons, List.foldlM_cons, hentry]
    exact ih _

theorem foldlM_payload (data : Bytes) (hnone : p.payload = []) :
    (bytesField 3 data).foldlM (mergePart accept) p = some { p with payload := data } := by
  unfold bytesField
  split
  · next hnil =>
    rw [hnil, ← hnone]
    rfl
  · rfl

/-- Inserting the entries of a map one by one gives the map. -/
theorem lookup_insert_entries (m : HashMap String String) (k : String) :
    AList.lookup k (m.entries.foldl (fun m e => m.insert e.1 e.2) (∅ : HashMap String String)) =
      m.lookup k := by
  refine Option.ext fun v => ?_
  have hcollect := HashMap.lookup_collect (f := fun e : (_ : String) × String => some (e.1, e.2))
    (l := m.entries) (k := k) (v := v) ?_
  · refine hcollect.trans ⟨?_, fun hl => ⟨⟨k, v⟩, AList.mem_lookup_iff.mp hl, rfl⟩⟩
    rintro ⟨e, he, heq⟩
    cases heq
    exact AList.mem_lookup_iff.mpr he
  · intro a ha b hb k v w hfa hfb
    cases hfa
    obtain ⟨hk, rfl⟩ := Prod.mk.inj (Option.some.inj hfb)
    have hla := AList.mem_lookup_iff.mpr ha
    have hlb := AList.mem_lookup_iff.mpr hb
    rw [hk] at hlb
    exact Option.some.inj (hla.symm.trans hlb)

theorem decodeParts_encode (hhead : ∀ v ∈ p.head, accept v = true ∧ v.WellFormed) :
    ∃ headers, decodeParts accept (encodeFields p.fields) = some ⟨p.head, headers, p.payload⟩ ∧
      ∀ k, headers.lookup k = p.headers.lookup k := by
  refine ⟨_, ?_, lookup_insert_entries p.headers⟩
  have hfirst : (p.head.toList.map fun value => (⟨1, value⟩ : Field)).foldlM (mergePart accept)
      ⟨none, ∅, []⟩ = some ⟨p.head, ∅, []⟩ := by
    cases hv : p.head with
    | none => rfl
    | some v =>
      show (if accept v then some (⟨some v, ∅, []⟩ : EnvelopeParts) else none).bind pure = _
      rw [if_pos (hhead v hv).1]
      rfl
  unfold decodeParts
  rw [decodeFields_encodeFields]
  · rw [Option.bind_some, EnvelopeParts.fields, List.foldlM_append, List.foldlM_append, hfirst]
    show ((List.map entryField p.headers.entries).foldlM (mergePart accept) _).bind _ = _
    rw [foldlM_entries]
    exact foldlM_payload accept _ p.payload rfl
  · intro f hf
    unfold EnvelopeParts.fields at hf
    rw [List.mem_append, List.mem_append, List.mem_map, List.mem_map] at hf
    rcases hf with (⟨v, hv, rfl⟩ | ⟨e, -, rfl⟩) | hf
    · exact (hhead v (Option.mem_toList.mp hv)).2
    · trivial
    · exact bytesField_wellFormed _ _ f hf

end

/-! ### The two envelopes -/

def stringHead (s : String) : Option WireValue :=
  if s = "" then none else some (.len (utf8 s))

def isString : WireValue → Bool
  | .len data => (ofUtf8 data).isSome
  | _ => false

def headString : Option WireValue → String
  | some (.len data) => (ofUtf8 data).getD ""
  | _ => ""

def numberHead (n : UInt32) : Option WireValue := if n = 0 then none else some (.varint n.toNat)

def isNumber : WireValue → Bool
  | .varint _ => true
  | _ => false

def headNumber : Option WireValue → UInt32
  | some (.varint n) => .ofNat n
  | _ => 0

theorem headString_stringHead (s : String) : headString (stringHead s) = s := by
  unfold stringHead
  split
  · next hs => exact hs.symm
  · show (ofUtf8 (utf8 s)).getD "" = s
    rw [ofUtf8_utf8]
    rfl

theorem headNumber_numberHead (n : UInt32) : headNumber (numberHead n) = n := by
  unfold numberHead
  split
  · next hn => exact hn.symm
  · exact UInt32.ofNat_toNat

theorem stringHead_ok (s : String) : ∀ v ∈ stringHead s, isString v = true ∧ v.WellFormed := by
  intro v hv
  unfold stringHead at hv
  split at hv
  · cases hv
  · cases hv
    refine ⟨?_, trivial⟩
    rw [isString, ofUtf8_utf8]
    rfl

theorem numberHead_ok (n : UInt32) : ∀ v ∈ numberHead n, isNumber v = true ∧ v.WellFormed := by
  intro v hv
  unfold numberHead at hv
  split at hv
  · cases hv
  · cases hv
    exact ⟨rfl, trivial⟩

def decodeError : String := "failed to decode Protobuf message"

/-- **The protobuf wire format is lossless.** -/
def protobuf : Prost where
  encodeRequest e := encodeFields (EnvelopeParts.fields ⟨stringHead e.path, e.headers, e.payload⟩)
  decodeRequest data :=
    match decodeParts isString data with
    | some p => .ok ⟨headString p.head, p.headers, p.payload⟩
    | none => .error decodeError
  encodeResponse e :=
    encodeFields (EnvelopeParts.fields ⟨numberHead e.statusCode, e.headers, e.payload⟩)
  decodeResponse data :=
    match decodeParts isNumber data with
    | some p => .ok ⟨headNumber p.head, p.headers, p.payload⟩
    | none => .error decodeError
  request_lossless := by
    intro e
    obtain ⟨headers, hdecode, hsame⟩ := decodeParts_encode isString
      ⟨stringHead e.path, e.headers, e.payload⟩ (stringHead_ok e.path)
    rw [hdecode]
    exact ⟨_, rfl, headString_stringHead e.path, hsame, rfl⟩
  response_lossless := by
    intro e
    obtain ⟨headers, hdecode, hsame⟩ := decodeParts_encode isNumber
      ⟨numberHead e.statusCode, e.headers, e.payload⟩ (numberHead_ok e.statusCode)
    rw [hdecode]
    exact ⟨_, rfl, headNumber_numberHead e.statusCode, hsame, rfl⟩

end Stric.Tower
