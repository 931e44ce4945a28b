import Stric.Tower.Envelope
import Stric.Tower.Http

/-!
# Requests over the wire (`codec.rs`, `client.rs`, `server.rs`)

The client sends a request as one envelope with a 32-bit length in front, the server hands the
request it reads to a service, and the response comes back in the same way.

* How `prost` encodes the two envelopes is a parameter, `Prost`; all it has to be is lossless.
* A stream carries the bytes written to it; when the server fails, it carries none.

`wire_transparent_iff` says which requests and responses arrive unchanged, and
`call_transparent` follows a request through the service and back.
-/

namespace Stric.Tower

open Stric.Pool

inductive TowerError where
  | readExact
  | prostDecode (text : String)
  | service (text : String)
  | internal (text : String)
  | unknown
deriving DecidableEq

/-! ## The codec -/

def writeLengthPrefixed (buf : Bytes) : Bytes := toBeBytes (.ofNat buf.length) ++ buf

def readLengthPrefixed (stream : Bytes) : Except TowerError Bytes :=
  match readLength stream with
  | none => .error .readExact
  | some (len, stream) =>
    match readExact len stream with
    | none => .error .readExact
    | some (buf, _) => .ok buf

theorem readLengthPrefixed_write {buf : Bytes} (h : buf.length < 2 ^ 32) :
    readLengthPrefixed (writeLengthPrefixed buf) = .ok buf := by
  have hread := readLength_frame buf []
  rw [List.append_nil, Nat.mod_eq_of_lt h] at hread
  unfold readLengthPrefixed
  rw [show writeLengthPrefixed buf = frame buf from rfl, hread]
  simp only [readExact_append rfl]

section
variable (prost : Prost)

def writeRequestEnvelope (envelope : RequestEnvelope) : Bytes :=
  writeLengthPrefixed (prost.encodeRequest envelope)

def readRequestEnvelope (stream : Bytes) : Except TowerError RequestEnvelope := do
  let buf ← readLengthPrefixed stream
  (prost.decodeRequest buf).mapError .prostDecode

def writeResponseEnvelope (envelope : ResponseEnvelope) : Bytes :=
  writeLengthPrefixed (prost.encodeResponse envelope)

def readResponseEnvelope (stream : Bytes) : Except TowerError ResponseEnvelope := do
  let buf ← readLengthPrefixed stream
  (prost.decodeResponse buf).mapError .prostDecode

/-! ## The client and the server -/

variable [HttpHeaders]

/-- The envelope of a request whose body is these bytes. -/
def requestEnvelope {B : Type} (req : Request B) (body : Bytes) : RequestEnvelope :=
  ⟨req.path, toWire req.headers, body⟩

/-- The envelope of a response whose body is these bytes. -/
def responseEnvelope {B : Type} (res : Response B) (body : Bytes) : ResponseEnvelope :=
  ⟨res.status.toUInt32, toWire res.headers, body⟩

/-- What the client writes. -/
def writeRequest {B : Type} [Body B] (req : Request B) : Except TowerError Bytes := do
  let body ← (Body.collect req.body).mapError .internal
  return writeRequestEnvelope prost (requestEnvelope req body)

/-- The request the server hands to the service. -/
def readRequest (stream : Bytes) : Except TowerError (Request Bytes) := do
  let envelope ← readRequestEnvelope prost stream
  return ⟨envelope.path, fromWire envelope.headers, envelope.payload⟩

/-- What the server writes. -/
def writeResponse {B : Type} [Body B] (res : Response B) : Except TowerError Bytes := do
  let body ← (Body.collect res.body).mapError .internal
  return writeResponseEnvelope prost (responseEnvelope res body)

/-- The response the client yields. -/
def readResponse (stream : Bytes) : Except TowerError (Response Bytes) := do
  let envelope ← readResponseEnvelope prost stream
  return ⟨envelope.statusCode.toUInt16, fromWire envelope.headers, envelope.payload⟩

/-- What a service answers the task of one stream: how the wait for `ready` ends, and how the call
with a request does. -/
structure Answers (B : Type) where
  ready : Except TowerError Unit
  call : Request Bytes → Except TowerError (Response B)

/-- What `handle_stream_axum` writes, given what the service answers it. -/
def handleStreamAxum {B : Type} [Body B] (answers : Answers B) (stream : Bytes) :
    Except TowerError Bytes := do
  let req ← readRequest prost stream
  answers.ready
  let res ← answers.call req
  writeResponse prost res

/-- What the server's half of the stream carries. -/
def served {B : Type} [Body B] (answers : Answers B) (stream : Bytes) : Bytes :=
  match handleStreamAxum prost answers stream with
  | .ok out => out
  | .error _ => []

/-- `TowerClientService::call`, against a peer that answers what it is sent. -/
def clientCall {B : Type} [Body B] (peer : Bytes → Bytes) (req : Request B) :
    Except TowerError (Response Bytes) := do
  let stream ← writeRequest prost req
  readResponse prost (peer stream)

end

/-! ## Unchanged requests and responses -/

section
variable [HttpHeaders]

/-- The same path, headers and body. -/
structure Request.Same {B : Type} [Body B] (req' : Request Bytes) (req : Request B) : Prop where
  path : req'.path = req.path
  headers : HeaderMap.Same req'.headers req.headers
  body : Body.collect req.body = .ok req'.body

/-- The same status, headers and body. -/
structure Response.Same {B : Type} [Body B] (res' : Response Bytes) (res : Response B) : Prop where
  status : res'.status = res.status
  headers : HeaderMap.Same res'.headers res.headers
  body : Body.collect res.body = .ok res'.body

omit [HttpHeaders] in
/-- What is written is read as `x`, so something is read that satisfies `P` exactly if `x` does. -/
theorem carried_iff {α : Type} {write : Except TowerError Bytes} {read : Bytes → Except TowerError α}
    {stream : Bytes} {x : α} {P : α → Prop} (hwrite : write = .ok stream)
    (hread : read stream = .ok x) :
    (∃ stream x, write = .ok stream ∧ read stream = .ok x ∧ P x) ↔ P x := by
  constructor
  · rintro ⟨stream', x', hwrite', hread', hx⟩
    rw [hwrite] at hwrite'
    cases hwrite'
    rw [hread] at hread'
    cases hread'
    exact hx
  · intro hx
    exact ⟨stream, x, hwrite, hread, hx⟩

section
variable (prost : Prost) {B : Type} [Body B] {body : Bytes}

theorem request_carried_iff {req : Request B} (hbody : Body.collect req.body = .ok body)
    (hfits : (prost.encodeRequest (requestEnvelope req body)).length < 2 ^ 32) :
    (∃ stream req', writeRequest prost req = .ok stream ∧ readRequest prost stream = .ok req' ∧
      req'.Same req) ↔ HeaderMap.Plain req.headers := by
  obtain ⟨e, hdecode, hsame⟩ := prost.request_lossless (requestEnvelope req body)
  have hwrite : writeRequest prost req =
      .ok (writeRequestEnvelope prost (requestEnvelope req body)) := by
    unfold writeRequest
    rw [hbody]
    rfl
  have hread : readRequest prost (writeRequestEnvelope prost (requestEnvelope req body)) =
      .ok ⟨e.path, fromWire e.headers, e.payload⟩ := by
    unfold readRequest readRequestEnvelope writeRequestEnvelope
    rw [readLengthPrefixed_write hfits]
    simp only [bind, Except.bind, hdecode]
    rfl
  rw [carried_iff hwrite hread, ← sameHeaders_fromWire_iff hsame.headers]
  refine ⟨fun h => h.headers, fun h => ⟨hsame.path, h, ?_⟩⟩
  rw [hbody]
  exact congrArg _ hsame.payload.symm

theorem response_carried_iff {res : Response B} (hbody : Body.collect res.body = .ok body)
    (hfits : (prost.encodeResponse (responseEnvelope res body)).length < 2 ^ 32) :
    (∃ stream res', writeResponse prost res = .ok stream ∧ readResponse prost stream = .ok res' ∧
      res'.Same res) ↔ HeaderMap.Plain res.headers := by
  obtain ⟨e, hdecode, hsame⟩ := prost.response_lossless (responseEnvelope res body)
  have hwrite : writeResponse prost res =
      .ok (writeResponseEnvelope prost (responseEnvelope res body)) := by
    unfold writeResponse
    rw [hbody]
    rfl
  have hread : readResponse prost (writeResponseEnvelope prost (responseEnvelope res body)) =
      .ok ⟨e.statusCode.toUInt16, fromWire e.headers, e.payload⟩ := by
    unfold readResponse readResponseEnvelope writeResponseEnvelope
    rw [readLengthPrefixed_write hfits]
    simp only [bind, Except.bind, hdecode]
    rfl
  have hstatus : e.statusCode.toUInt16 = res.status := by
    rw [hsame.statusCode]
    exact UInt16.toUInt16_toUInt32 res.status
  rw [carried_iff hwrite hread, ← sameHeaders_fromWire_iff hsame.headers]
  refine ⟨fun h => h.headers, fun h => ⟨hstatus, h, ?_⟩⟩
  rw [hbody]
  exact congrArg _ hsame.payload.symm

/-- **When requests and responses cross the wire unchanged.**  For envelopes shorter than 4 GiB,
the server hands the service the request it was sent, and the client yields the response the
service gave, exactly if no header name has several values and all values are visible ASCII. -/
theorem wire_transparent_iff (req : Request Bytes) (res : Response B)
    (hbody : Body.collect res.body = .ok body)
    (hreq : (prost.encodeRequest (requestEnvelope req req.body)).length < 2 ^ 32)
    (hres : (prost.encodeResponse (responseEnvelope res body)).length < 2 ^ 32) :
    ((∃ stream req', writeRequest prost req = .ok stream ∧ readRequest prost stream = .ok req' ∧
      req'.Same req) ↔ HeaderMap.Plain req.headers) ∧
    ((∃ stream res', writeResponse prost res = .ok stream ∧
      readResponse prost stream = .ok res' ∧ res'.Same res) ↔ HeaderMap.Plain res.headers) :=
  ⟨request_carried_iff prost rfl hreq, response_carried_iff prost hbody hres⟩

/-- A plain request reaches the service as it was, and a plain response comes back as it was. -/
theorem call_transparent {req : Request Bytes} (answers : Answers B)
    (hplain : HeaderMap.Plain req.headers)
    (hreq : (prost.encodeRequest (requestEnvelope req req.body)).length < 2 ^ 32) :
    ∃ req' : Request Bytes, req'.Same req ∧ ∀ res body, answers.ready = .ok () →
      answers.call req' = .ok res → Body.collect res.body = .ok body →
      HeaderMap.Plain res.headers →
      (prost.encodeResponse (responseEnvelope res body)).length < 2 ^ 32 →
      ∃ res', clientCall prost (served prost answers) req = .ok res' ∧ res'.Same res := by
  obtain ⟨stream, req', hwrite, hread, hsame⟩ := (request_carried_iff prost rfl hreq).mpr hplain
  refine ⟨req', hsame, fun res body hready hcall hbody hplain' hres => ?_⟩
  obtain ⟨out, res', hwrite', hread', hsame'⟩ := (response_carried_iff prost hbody hres).mpr hplain'
  refine ⟨res', ?_, hsame'⟩
  have hserved : served prost answers stream = out := by
    unfold served handleStreamAxum
    simp only [hread, hready, hcall, hwrite', bind, Except.bind]
  unfold clientCall
  simp only [hwrite, bind, Except.bind, hserved, hread']

end

end

/-! ## Headers that do not arrive -/

section

open Ascii

/-- The header name `x`. -/
def nameX : HeaderName := Name.mk [120] (by decide) (by decide)
  (List.forall_mem_singleton.mpr (by decide))

/-- A request with one header. -/
def requestWith (first : HeaderValue) (more : List HeaderValue) : Request Bytes :=
  ⟨"/", (∅ : HeaderMap).insert nameX (first, more), []⟩

def valueA : HeaderValue := Value.mk [97] (by decide)

def valueB : HeaderValue := Value.mk [98] (by decide)

/-- The header `x: a`, `x: b` arrives as `x: a`. -/
theorem repeated_header_dropped :
    ¬ ∃ stream req', writeRequest protobuf (requestWith valueA [valueB]) = .ok stream ∧
      readRequest protobuf stream = .ok req' ∧ req'.Same (requestWith valueA [valueB]) := by
  rw [request_carried_iff protobuf rfl (by decide +kernel)]
  intro h
  obtain ⟨hmore, -⟩ := h nameX valueA [valueB] (AList.lookup_insert _)
  cases hmore

/-- The header `x: a` and an empty response arrive. -/
theorem single_header_kept :
    (∃ stream req', writeRequest protobuf (requestWith valueA []) = .ok stream ∧
      readRequest protobuf stream = .ok req' ∧ req'.Same (requestWith valueA [])) ∧
    (∃ stream res', writeResponse protobuf (Response.empty 200) = .ok stream ∧
      readResponse protobuf stream = .ok res' ∧ res'.Same (Response.empty 200)) := by
  obtain ⟨hreq, hres⟩ := wire_transparent_iff protobuf (requestWith valueA []) (Response.empty 200)
    rfl (by decide +kernel) (by decide +kernel)
  refine ⟨hreq.mpr fun name v more hl => ?_, hres.mpr fun name v more hl => ?_⟩
  · by_cases hname : name = nameX
    · subst hname
      rw [show (requestWith valueA []).headers.lookup nameX = some (valueA, []) from
        AList.lookup_insert _] at hl
      cases hl
      exact ⟨rfl, by decide⟩
    · rw [show (requestWith valueA []).headers.lookup name = _ from AList.lookup_insert_ne hname] at hl
      cases hl
  · cases hl

end

end Stric.Tower
