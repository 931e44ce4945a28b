import Stric.Pool.Framing

/-!
# Protobuf fields

A message on the wire is a sequence of fields, each with a number and a value: a varint, or a
sequence of bytes with its length.

    decodeFields (encodeFields fields) = some fields          (decodeFields_encodeFields)

* A varint is any natural number here; only numbers below `2 ^ 64` have one of at most ten bytes.
* Fixed-width values are read, and groups are refused.
* As proto3 does, `varintField` and `bytesField` leave out a field with the default value.
-/

namespace Stric.Pool

/-! ## Varints -/

/-- Seven bits a byte, the lowest first; the high bit says that more follow. -/
def encodeVarint (n : Nat) : List UInt8 :=
  if n < 128 then [.ofNat n] else .ofNat (n % 128 + 128) :: encodeVarint (n / 128)

/-- The varint at the start of the input, and the rest. -/
def decodeVarint : List UInt8 → Option (Nat × List UInt8)
  | [] => none
  | b :: input =>
    if b.toNat < 128 then some (b.toNat, input)
    else (decodeVarint input).map fun p => (b.toNat - 128 + 128 * p.1, p.2)

theorem encodeVarint_length_pos (n : Nat) : 0 < (encodeVarint n).length := by
  rw [encodeVarint]
  split <;> simp

theorem decodeVarint_encodeVarint (n : Nat) (rest : List UInt8) :
    decodeVarint (encodeVarint n ++ rest) = some (n, rest) := by
  induction n using Nat.strongRecOn with
  | ind n ih =>
    rw [encodeVarint]
    split
    · next hn =>
      have hb : (UInt8.ofNat n).toNat = n := by
        rw [UInt8.toNat_ofNat']
        omega
      rw [List.singleton_append, decodeVarint, hb, if_pos hn]
    · next hn =>
      have hb : (UInt8.ofNat (n % 128 + 128)).toNat = n % 128 + 128 := by
        rw [UInt8.toNat_ofNat']
        omega
      rw [List.cons_append, decodeVarint, hb, if_neg (by omega), ih (n / 128) (by omega),
        Option.map_some]
      congr 2
      omega

/-! ## Fields -/

inductive WireValue where
  | varint (n : Nat)
  | fixed64 (data : List UInt8)
  | len (data : List UInt8)
  | fixed32 (data : List UInt8)
deriving DecidableEq

structure Field where
  tag : Nat
  value : WireValue
deriving DecidableEq

def WireValue.wireType : WireValue → Nat
  | .varint _ => 0
  | .fixed64 _ => 1
  | .len _ => 2
  | .fixed32 _ => 5

/-- The values that an encoder writes. -/
def WireValue.WellFormed : WireValue → Prop
  | .fixed64 data => data.length = 8
  | .fixed32 data => data.length = 4
  | _ => True

def WireValue.encode : WireValue → List UInt8
  | .varint n => encodeVarint n
  | .fixed64 data => data
  | .len data => encodeVarint data.length ++ data
  | .fixed32 data => data

def decodeValue (wireType : Nat) (input : List UInt8) : Option (WireValue × List UInt8) :=
  match wireType with
  | 0 => (decodeVarint input).map fun p => (.varint p.1, p.2)
  | 1 => (readExact 8 input).map fun p => (.fixed64 p.1, p.2)
  | 2 => (decodeVarint input).bind fun p => (readExact p.1 p.2).map fun q => (.len q.1, q.2)
  | 5 => (readExact 4 input).map fun p => (.fixed32 p.1, p.2)
  | _ => none

theorem decodeValue_encode {v : WireValue} (h : v.WellFormed) (rest : List UInt8) :
    decodeValue v.wireType (v.encode ++ rest) = some (v, rest) := by
  cases v with
  | varint n =>
    show (decodeVarint (encodeVarint n ++ rest)).map _ = _
    rw [decodeVarint_encodeVarint, Option.map_some]
  | fixed64 data =>
    show (readExact 8 (data ++ rest)).map _ = _
    rw [readExact_append h, Option.map_some]
  | len data =>
    show (decodeVarint (encodeVarint data.length ++ data ++ rest)).bind _ = _
    rw [List.append_assoc, decodeVarint_encodeVarint, Option.bind_some, readExact_append rfl,
      Option.map_some]
  | fixed32 data =>
    show (readExact 4 (data ++ rest)).map _ = _
    rw [readExact_append h, Option.map_some]

def Field.encode (f : Field) : List UInt8 :=
  encodeVarint (f.tag * 8 + f.value.wireType) ++ f.value.encode

def decodeField (input : List UInt8) : Option (Field × List UInt8) :=
  (decodeVarint input).bind fun key =>
    (decodeValue (key.1 % 8) key.2).map fun p => (⟨key.1 / 8, p.1⟩, p.2)

theorem decodeField_encode {f : Field} (h : f.value.WellFormed) (rest : List UInt8) :
    decodeField (f.encode ++ rest) = some (f, rest) := by
  have hwt : f.value.wireType < 8 := by
    cases f.value <;> simp [WireValue.wireType]
  have htag : (f.tag * 8 + f.value.wireType) / 8 = f.tag := by omega
  have htype : (f.tag * 8 + f.value.wireType) % 8 = f.value.wireType := by omega
  simp only [decodeField, Field.encode, List.append_assoc, decodeVarint_encodeVarint,
    Option.bind_some, htag, htype, decodeValue_encode h, Option.map_some]

theorem Field.encode_length_pos (f : Field) : 0 < f.encode.length := by
  unfold Field.encode
  rw [List.length_append]
  exact Nat.add_pos_left (encodeVarint_length_pos _) _

/-! ## Messages -/

def encodeFields (fields : List Field) : List UInt8 := fields.flatMap Field.encode

/-- The fields of the input, at most `fuel` of them. -/
def decodeUpTo : Nat → List UInt8 → Option (List Field)
  | _, [] => some []
  | 0, _ => none
  | fuel + 1, input =>
    (decodeField input).bind fun p => (decodeUpTo fuel p.2).map fun fields => p.1 :: fields

/-- Every field takes at least one byte. -/
def decodeFields (input : List UInt8) : Option (List Field) := decodeUpTo input.length input

theorem length_le_encodeFields (fields : List Field) :
    fields.length ≤ (encodeFields fields).length := by
  induction fields with
  | nil => exact Nat.le_refl _
  | cons f fields ih =>
    have hf := f.encode_length_pos
    simp only [encodeFields, List.flatMap_cons, List.length_append, List.length_cons] at ih ⊢
    omega

theorem decodeUpTo_succ (fuel : Nat) {input : List UInt8} (h : input ≠ []) :
    decodeUpTo (fuel + 1) input =
      (decodeField input).bind fun p => (decodeUpTo fuel p.2).map fun fields => p.1 :: fields := by
  cases input with
  | nil => exact absurd rfl h
  | cons b input => rfl

theorem decodeUpTo_encodeFields {fields : List Field} (h : ∀ f ∈ fields, f.value.WellFormed)
    {fuel : Nat} (hfuel : fields.length ≤ fuel) :
    decodeUpTo fuel (encodeFields fields) = some fields := by
  induction fields generalizing fuel with
  | nil => cases fuel <;> rfl
  | cons f fields ih =>
    obtain ⟨hf, hfields⟩ := List.forall_mem_cons.mp h
    obtain ⟨fuel, rfl⟩ : ∃ k, fuel = k + 1 := ⟨fuel - 1, by rw [List.length_cons] at hfuel; omega⟩
    have hpos := f.encode_length_pos
    have hne : f.encode ++ encodeFields fields ≠ [] := by
      intro hnil
      have hlen := congrArg List.length hnil
      rw [List.length_append, List.length_nil] at hlen
      omega
    show decodeUpTo (fuel + 1) (f.encode ++ encodeFields fields) = _
    rw [decodeUpTo_succ fuel hne, decodeField_encode hf, Option.bind_some,
      ih hfields (Nat.le_of_succ_le_succ hfuel), Option.map_some]

/-- **Decoding gives back the fields that were encoded.** -/
theorem decodeFields_encodeFields {fields : List Field} (h : ∀ f ∈ fields, f.value.WellFormed) :
    decodeFields (encodeFields fields) = some fields :=
  decodeUpTo_encodeFields h (length_le_encodeFields fields)

/-! ## Optional fields and strings -/

def varintField (tag n : Nat) : List Field := if n = 0 then [] else [⟨tag, .varint n⟩]

def bytesField (tag : Nat) (data : List UInt8) : List Field :=
  if data = [] then [] else [⟨tag, .len data⟩]

/-- The UTF-8 bytes of a string. -/
def utf8 (s : String) : List UInt8 := s.toByteArray.data.toList

/-- The string with these UTF-8 bytes, if there is one. -/
def ofUtf8 (data : List UInt8) : Option String := String.fromUTF8? data.toByteArray

theorem ofUtf8_utf8 (s : String) : ofUtf8 (utf8 s) = some s := by
  have hbytes : (utf8 s).toByteArray = s.toByteArray := by
    apply ByteArray.ext
    rw [List.data_toByteArray]
    rfl
  unfold ofUtf8 String.fromUTF8?
  rw [hbytes, dif_pos s.isValidUTF8]
  rfl

end Stric.Pool
