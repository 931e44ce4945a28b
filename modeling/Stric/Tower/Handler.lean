import Stric.Tower.Adapter

/-!
# Handlers and extractors (`handler.rs`, `http.rs`)

A handler is a function whose arguments are taken out of the request one after the other; the
first argument that cannot be taken out answers the request, and the function is not run.  What
the function returns is turned into a response.

* `Json`, `Bincode` and `Protobuf` are one wrapper, with its texts and content type in
  `BodyFormat`; what the crates do with a type is `Coding`.
* `Extractors` has an extractor for each argument, as the macro `impl_handler` has.

`rpc_answered` follows a request from the client through the wire, the router and a handler, and
the response back:

    clientCall prost (served prost router.answers) req  is  router.answer req

for all routers of handlers that use the extractors and responses of this crate.  `format_rpc`
says what this means for a typed call: the client decodes what the function returned.
-/

namespace Stric.Tower

open Stric.Pool

section

variable [HttpHeaders]

/-! ## Responses -/

/-- `IntoResponse`. -/
class IntoResponse (R : Type) where
  intoResponse : R → Response Bytes

open IntoResponse (intoResponse)

/-- A response without headers whose body is a text. -/
def Response.withText (status : UInt16) (text : String) : Response Bytes := ⟨status, ∅, utf8 text⟩

instance : IntoResponse (Response Bytes) where
  intoResponse res := res

instance : IntoResponse Unit where
  intoResponse _ := .empty 200

instance : IntoResponse String where
  intoResponse text := .withText 200 text

instance {T E : Type} [IntoResponse T] [IntoResponse E] : IntoResponse (Except E T) where
  intoResponse
    | .ok t => intoResponse t
    | .error e => intoResponse e

/-! ## Formats -/

/-- What `Json`, `Bincode` and `Protobuf` differ in. -/
structure BodyFormat where
  invalid : String
  failed : String
  contentType : String
  visible : AllBytes visibleByte (utf8 contentType)

namespace BodyFormat

def json : BodyFormat where
  invalid := "Invalid JSON: "
  failed := "JSON serialization error: "
  contentType := "application/json"
  visible := by decide +kernel

def bincode : BodyFormat where
  invalid := "Invalid Bincode: "
  failed := "Bincode serialization error: "
  contentType := "application/octet-stream"
  visible := by decide +kernel

def protobuf : BodyFormat where
  invalid := "Invalid Protobuf: "
  failed := "Protobuf encoding error: "
  contentType := "application/x-protobuf"
  visible := by decide +kernel

/-- The value of the `Content-Type` header. -/
def contentTypeValue (format : BodyFormat) : HeaderValue :=
  HttpHeaders.fromStatic format.contentType format.visible

theorem visible_contentTypeValue (format : BodyFormat) :
    HeaderValue.Visible format.contentTypeValue :=
  (HttpHeaders.toStr_isSome _).mp ⟨_, HttpHeaders.toStr_fromStatic _ format.visible⟩

end BodyFormat

/-- `serde_json`, `bincode` or `prost` at a type; the errors are their texts. -/
class Coding (format : BodyFormat) (T : Type) where
  encode : T → Except String Bytes
  decode : Bytes → Except String T

/-- What was encoded decodes to itself. -/
def Lossless (format : BodyFormat) (T : Type) [Coding format T] : Prop :=
  ∀ (x : T) bytes, Coding.encode format x = .ok bytes → Coding.decode format bytes = .ok x

structure Formatted (format : BodyFormat) (T : Type) where
  value : T

abbrev Json := Formatted .json

abbrev Bincode := Formatted .bincode

abbrev Protobuf := Formatted .protobuf

structure RawBytes where
  bytes : Bytes

/-- `State<T>`. -/
structure State (T : Type) where
  value : T

variable {format : BodyFormat} {S B T R : Type}

instance [Coding format T] : IntoResponse (Formatted format T) where
  intoResponse t := match Coding.encode format t.value with
    | .ok body =>
      ⟨200, (∅ : HeaderMap).insert HttpHeaders.contentType (format.contentTypeValue, []), body⟩
    | .error e => .withText 500 (format.failed ++ e)

instance : IntoResponse RawBytes where
  intoResponse raw := ⟨200, ∅, raw.bytes⟩

/-! ## Extractors -/

/-- `FromRequest`. -/
class FromRequest (S B T : Type) where
  Rejection : Type
  [rejection : IntoResponse Rejection]
  fromRequest : Request B → S → Except Rejection T

def collectBody [Body B] (req : Request B) : Except (Response Bytes) Bytes :=
  (Body.collect req.body).mapError fun e => .withText 500 ("Body collection error: " ++ e)

instance formattedFromRequest [Body B] [Coding format T] : FromRequest S B (Formatted format T) where
  Rejection := Response Bytes
  fromRequest req _ := do
    let body ← collectBody req
    match Coding.decode format body with
    | .ok value => .ok ⟨value⟩
    | .error e => .error (.withText 400 (format.invalid ++ e))

instance rawFromRequest [Body B] : FromRequest S B RawBytes where
  Rejection := Response Bytes
  fromRequest req _ := do
    let body ← collectBody req
    .ok ⟨body⟩

/-- `AsRef`. -/
class AsRef (S T : Type) where
  asRef : S → T

instance stateFromRequest [AsRef S T] : FromRequest S B (State T) where
  Rejection := Response Bytes
  fromRequest _ state := .ok ⟨AsRef.asRef state⟩

/-! ## Handlers -/

/-- An extractor for each argument. -/
inductive Extractors (S B : Type) : List Type → Type 1
  | nil : Extractors S B []
  | cons {T : Type} {Ts : List Type} :
      FromRequest S B T → Extractors S B Ts → Extractors S B (T :: Ts)

/-- The functions with these arguments. -/
@[reducible] def HandlerFn : List Type → Type → Type
  | [], R => R
  | T :: Ts, R => T → HandlerFn Ts R

/-- `Handler::call`: every extractor is given the whole request. -/
def Handler.call [IntoResponse R] : {Ts : List Type} → Extractors S B Ts → HandlerFn Ts R →
    Request B → S → Response Bytes
  | _, .nil, f, _, _ => IntoResponse.intoResponse (R := R) f
  | _, .cons e es, f, req, state =>
    match e.fromRequest req state with
    | .ok value => Handler.call es (f value) req state
    | .error rejection => e.rejection.intoResponse rejection

section
variable [IntoResponse R] {Ts : List Type} {e : FromRequest S B T} {req : Request B} {state : S}

theorem Handler.call_of_ok {value : T} (h : e.fromRequest req state = .ok value)
    (es : Extractors S B Ts) (f : HandlerFn (T :: Ts) R) :
    Handler.call (.cons e es) f req state = Handler.call es (f value) req state := by
  rw [Handler.call, h]

theorem Handler.call_of_error {r : e.Rejection} (h : e.fromRequest req state = .error r)
    (es : Extractors S B Ts) (f : HandlerFn (T :: Ts) R) :
    Handler.call (.cons e es) f req state = e.rejection.intoResponse r := by
  rw [Handler.call, h]

end

/-- The routes are not carried over. -/
def Router.withState {S₂ : Type} (_router : Router S B) (state : S₂) : Router S₂ B := ⟨∅, state⟩

/-- What the router answers. -/
def Router.answer (router : Router S B) (req : Request B) : Response Bytes :=
  ((router.call req).run []).1

/-- The router as a `tower::Service`: it is always ready, and its error type is empty. -/
def Router.answers (router : Router S Bytes) : Answers Bytes where
  ready := .ok ()
  call req := .ok (router.answer req)

theorem Router.answer_of_some {router : Router S B} {req : Request B} {handler : Handler S B}
    (h : router.routes.lookup req.path = some handler) :
    router.answer req = handler req router.state := by
  unfold Router.answer
  rw [Router.call_of_some h]

theorem Router.answer_of_none {router : Router S B} {req : Request B}
    (h : router.routes.lookup req.path = none) : router.answer req = .empty 404 := by
  unfold Router.answer
  rw [Router.call_of_none h]

/-! ## Responses that survive the wire -/

/-- Every response made of such a value has plain headers. -/
class PlainResponse (R : Type) [IntoResponse R] : Prop where
  plain : ∀ r : R, HeaderMap.Plain (intoResponse r).headers

theorem plain_empty : HeaderMap.Plain ∅ := by
  intro name v more h
  cases h

instance : PlainResponse Unit := ⟨fun _ => plain_empty⟩

instance : PlainResponse String := ⟨fun _ => plain_empty⟩

instance : PlainResponse RawBytes := ⟨fun _ => plain_empty⟩

instance {T E : Type} [IntoResponse T] [IntoResponse E] [PlainResponse T] [PlainResponse E] :
    PlainResponse (Except E T) where
  plain
    | .ok t => PlainResponse.plain t
    | .error e => PlainResponse.plain e

theorem intoResponse_of_ok [Coding format T] {t : Formatted format T} {body : Bytes}
    (h : Coding.encode format t.value = .ok body) : intoResponse t =
      ⟨200, (∅ : HeaderMap).insert HttpHeaders.contentType (format.contentTypeValue, []), body⟩ := by
  simp only [intoResponse, h]

theorem intoResponse_of_error [Coding format T] {t : Formatted format T} {e : String}
    (h : Coding.encode format t.value = .error e) :
    intoResponse t = .withText 500 (format.failed ++ e) := by
  simp only [intoResponse, h]

instance [Coding format T] : PlainResponse (Formatted format T) where
  plain t := by
    cases h : Coding.encode format t.value with
    | error e =>
      rw [intoResponse_of_error h]
      exact plain_empty
    | ok body =>
      rw [intoResponse_of_ok h]
      intro name v more hl
      by_cases hname : name = HttpHeaders.contentType
      · subst hname
        rw [AList.lookup_insert] at hl
        cases hl
        exact ⟨rfl, format.visible_contentTypeValue⟩
      · rw [AList.lookup_insert_ne hname] at hl
        cases hl

/-! ## Extractors that do not look at the headers -/

/-- What is extracted depends on the body and the state alone, and rejections have plain
headers. -/
class BodyExtractor (e : FromRequest S Bytes T) : Prop where
  body_only : ∀ req req' state, req.body = req'.body →
    e.fromRequest req state = e.fromRequest req' state
  plain : ∀ req state r, e.fromRequest req state = .error r →
    HeaderMap.Plain (e.rejection.intoResponse r).headers

theorem collectBody_bytes (req : Request Bytes) : collectBody req = .ok req.body := rfl

/-- A wrapper takes its value out of the body, or rejects the request with status 400. -/
theorem formatted_fromRequest [Coding format T] (req : Request Bytes) (state : S) :
    (formattedFromRequest : FromRequest S Bytes (Formatted format T)).fromRequest req state =
      match Coding.decode format req.body with
      | .ok value => .ok ⟨value⟩
      | .error e => .error (.withText 400 (format.invalid ++ e)) := rfl

instance [Coding format T] :
    BodyExtractor (formattedFromRequest : FromRequest S Bytes (Formatted format T)) where
  body_only req req' state h := by
    rw [formatted_fromRequest, formatted_fromRequest, h]
  plain req state r h := by
    rw [formatted_fromRequest] at h
    split at h
    · cases h
    · cases h
      exact plain_empty

instance : BodyExtractor (rawFromRequest : FromRequest S Bytes RawBytes) where
  body_only req req' state h := by
    simp only [FromRequest.fromRequest, collectBody_bytes, h]
  plain req state r h := by
    cases h

instance [AsRef S T] : BodyExtractor (stateFromRequest : FromRequest S Bytes (State T)) where
  body_only req req' state h := rfl
  plain req state r h := by
    cases h

/-- All extractors are of this kind. -/
def Extractors.BodyOnly : {Ts : List Type} → Extractors S Bytes Ts → Prop
  | _, .nil => True
  | _, .cons e es => BodyExtractor e ∧ es.BodyOnly

theorem Extractors.BodyOnly.cons {Ts : List Type} {es : Extractors S Bytes Ts} (hes : es.BodyOnly)
    (e : FromRequest S Bytes T) [he : BodyExtractor e] : (Extractors.cons e es).BodyOnly :=
  And.intro he hes

theorem Extractors.BodyOnly.nil : (.nil : Extractors S Bytes []).BodyOnly := trivial

theorem Handler.call_congr [IntoResponse R] {Ts : List Type} {es : Extractors S Bytes Ts}
    (hes : es.BodyOnly) (f : HandlerFn Ts R) {req req' : Request Bytes} (h : req.body = req'.body)
    (state : S) : Handler.call es f req state = Handler.call es f req' state := by
  induction es with
  | nil => rfl
  | cons e es ih =>
    obtain ⟨he, hes⟩ := hes
    have hsame := he.body_only req req' state h
    cases hreq : e.fromRequest req' state with
    | ok value =>
      rw [Handler.call_of_ok hreq, Handler.call_of_ok (hsame.trans hreq)]
      exact ih hes (f value)
    | error r => rw [Handler.call_of_error hreq, Handler.call_of_error (hsame.trans hreq)]

theorem Handler.call_plain [IntoResponse R] [PlainResponse R] {Ts : List Type}
    {es : Extractors S Bytes Ts} (hes : es.BodyOnly) (f : HandlerFn Ts R) (req : Request Bytes)
    (state : S) : HeaderMap.Plain (Handler.call es f req state).headers := by
  induction es with
  | nil => exact PlainResponse.plain (show R from f)
  | cons e es ih =>
    obtain ⟨he, hes⟩ := hes
    cases hreq : e.fromRequest req state with
    | ok value =>
      rw [Handler.call_of_ok hreq]
      exact ih hes (f value)
    | error r =>
      rw [Handler.call_of_error hreq]
      exact he.plain req state r hreq

/-! ## Calls through the wire -/

/-- A handler made of a function with these extractors whose result answers plainly. -/
inductive Handler.Standard : Handler S Bytes → Prop
  | call {R : Type} [IntoResponse R] [PlainResponse R] {Ts : List Type} {es : Extractors S Bytes Ts}
      (hes : es.BodyOnly) (f : HandlerFn Ts R) : Handler.Standard (Handler.call es f)

theorem Handler.Standard.congr {handler : Handler S Bytes} (h : Handler.Standard handler)
    {req req' : Request Bytes} (hbody : req.body = req'.body) (state : S) :
    handler req state = handler req' state := by
  obtain ⟨hes, f⟩ := h
  exact Handler.call_congr hes f hbody state

theorem Handler.Standard.plain {handler : Handler S Bytes} (h : Handler.Standard handler)
    (req : Request Bytes) (state : S) : HeaderMap.Plain (handler req state).headers := by
  obtain ⟨hes, f⟩ := h
  exact Handler.call_plain hes f req state

/-- Every route has a standard handler. -/
def Router.Standard (router : Router S Bytes) : Prop :=
  ∀ path handler, router.routes.lookup path = some handler → Handler.Standard handler

theorem Router.Standard.withState {S₂ : Type} (router : Router S Bytes) (state : S₂) :
    (router.withState state).Standard := by
  intro path handler h
  cases h

theorem Router.Standard.route {router : Router S Bytes} (h : router.Standard) (path : String)
    {handler : Handler S Bytes} (hhandler : Handler.Standard handler) :
    (router.route path handler).Standard := by
  intro path' handler' hl
  unfold Router.route at hl
  by_cases hpath : path' = path
  · subst hpath
    rw [AList.lookup_insert] at hl
    cases hl
    exact hhandler
  · rw [AList.lookup_insert_ne hpath] at hl
    exact h path' handler' hl

theorem Router.Standard.answer_congr {router : Router S Bytes} (h : router.Standard)
    {req req' : Request Bytes} (hpath : req.path = req'.path) (hbody : req.body = req'.body) :
    router.answer req = router.answer req' := by
  cases hl : router.routes.lookup req'.path with
  | none => rw [Router.answer_of_none hl, Router.answer_of_none (hpath ▸ hl)]
  | some handler =>
    rw [Router.answer_of_some hl, Router.answer_of_some (hpath ▸ hl)]
    exact (h _ _ hl).congr hbody router.state

theorem Router.Standard.answer_plain {router : Router S Bytes} (h : router.Standard)
    (req : Request Bytes) : HeaderMap.Plain (router.answer req).headers := by
  cases hl : router.routes.lookup req.path with
  | none =>
    rw [Router.answer_of_none hl]
    exact plain_empty
  | some handler =>
    rw [Router.answer_of_some hl]
    exact (h _ _ hl).plain req router.state

section
variable (prost : Prost)

/-- The response fits into an envelope shorter than 4 GiB. -/
def Response.Fits (res : Response Bytes) : Prop :=
  (prost.encodeResponse (responseEnvelope res res.body)).length < 2 ^ 32

/-- The request fits into an envelope shorter than 4 GiB. -/
def Request.Fits (req : Request Bytes) : Prop :=
  (prost.encodeRequest (requestEnvelope req req.body)).length < 2 ^ 32

/-- If the answer depends on the path and the body alone and is plain, the client gets it. -/
theorem clientCall_answer {router : Router S Bytes} {req : Request Bytes}
    (hcongr : ∀ req' : Request Bytes, req'.path = req.path → req'.body = req.body →
      router.answer req' = router.answer req)
    (hanswer : HeaderMap.Plain (router.answer req).headers)
    (hplain : HeaderMap.Plain req.headers) (hreq : req.Fits prost)
    (hres : (router.answer req).Fits prost) :
    ∃ res, clientCall prost (served prost router.answers) req = .ok res ∧
      res.Same (router.answer req) := by
  obtain ⟨req', hsame, hcall⟩ := call_transparent prost router.answers hplain hreq
  have hbody : req.body = req'.body := Except.ok.inj hsame.body
  refine hcall (router.answer req) (router.answer req).body rfl ?_ rfl hanswer hres
  rw [← hcongr req' hsame.path hbody.symm]
  rfl

instance (res : Response Bytes) : Decidable (res.Fits prost) :=
  inferInstanceAs (Decidable (_ < _))

instance (req : Request Bytes) : Decidable (req.Fits prost) :=
  inferInstanceAs (Decidable (_ < _))

/-- **The client gets what the router answers.**  The handlers see neither the order in which the
headers arrive nor that they came over a stream, and what they answer comes back unchanged. -/
theorem rpc_answered {router : Router S Bytes} (hstd : router.Standard) (req : Request Bytes)
    (hplain : HeaderMap.Plain req.headers) (hreq : req.Fits prost)
    (hres : (router.answer req).Fits prost) :
    ∃ res, clientCall prost (served prost router.answers) req = .ok res ∧
      res.Same (router.answer req) :=
  clientCall_answer prost (fun _ hpath hbody => hstd.answer_congr hpath hbody)
    (hstd.answer_plain req) hplain hreq hres

end

/-! ## Typed calls -/

section
variable (format format' : BodyFormat) {A U E : Type} [AsRef S A] [Coding format T]
  [Coding format' U] [IntoResponse E]

/-- The handler of a function of the shared state and a wrapped body that returns a wrapped value
or an error. -/
def typedHandler (f : A → T → Except E U) : Handler S Bytes :=
  Handler.call (R := Except E (Formatted format' U))
    (.cons stateFromRequest (.cons formattedFromRequest .nil))
    fun (state : State A) (body : Formatted format T) =>
      (f state.value body.value).map Formatted.mk

theorem typedHandler_standard [PlainResponse E] (f : A → T → Except E U) :
    Handler.Standard (typedHandler format format' f : Handler S Bytes) :=
  .call ((Extractors.BodyOnly.nil.cons formattedFromRequest).cons stateFromRequest) _

theorem typedHandler_eq (f : A → T → Except E U) (req : Request Bytes) (state : S) :
    typedHandler format format' f req state = match Coding.decode format req.body with
      | .error e => .withText 400 (format.invalid ++ e)
      | .ok x => match f (AsRef.asRef state) x with
        | .ok y => intoResponse (⟨y⟩ : Formatted format' U)
        | .error e => intoResponse e := by
  have hbody : (formattedFromRequest : FromRequest S Bytes (Formatted format T)).fromRequest
      req state = _ := formatted_fromRequest req state
  refine (Handler.call_of_ok rfl _ _).trans ?_
  cases hdec : Coding.decode (T := T) format req.body with
  | error e =>
    rw [hdec] at hbody
    exact Handler.call_of_error hbody _ _
  | ok x =>
    rw [hdec] at hbody
    refine (Handler.call_of_ok hbody _ _).trans ?_
    cases hf : f (AsRef.asRef state) x <;> simp only [hf] <;> rfl

theorem getAll_contentType (v : HeaderValue) :
    HeaderMap.getAll ((∅ : HeaderMap).insert HttpHeaders.contentType (v, []))
      HttpHeaders.contentType = [v] := by
  unfold HeaderMap.getAll
  rw [AList.lookup_insert]

/-- **A typed call computes the function.**  A client that sends an encoded argument to the path
of such a handler gets status 200, the content type of the format, and a body that decodes to
what the function returns; if the function fails, it gets the response of the error, and if the
body does not decode, the status 400 and the decoder's text. -/
theorem format_rpc (prost : Prost) [PlainResponse E] (hT : Lossless format T)
    (hU : Lossless format' U) {f : A → T → Except E U} {router : Router S Bytes}
    (req : Request Bytes)
    (hroute : router.routes.lookup req.path = some (typedHandler format format' f))
    (hplain : HeaderMap.Plain req.headers) (hreq : req.Fits prost)
    (hres : (router.answer req).Fits prost) :
    ∃ res, clientCall prost (served prost router.answers) req = .ok res ∧
      (∀ x, Coding.encode format x = .ok req.body →
        (∀ y out, f (AsRef.asRef router.state) x = .ok y → Coding.encode format' y = .ok out →
          res.status = 200 ∧
            HeaderMap.getAll res.headers HttpHeaders.contentType = [format'.contentTypeValue] ∧
            Coding.decode format' res.body = .ok y) ∧
        ∀ e, f (AsRef.asRef router.state) x = .error e → res.Same (intoResponse e)) ∧
      ∀ e, Coding.decode (T := T) format req.body = .error e →
        res.Same (.withText 400 (format.invalid ++ e)) := by
  have hstd := typedHandler_standard (S := S) format format' f
  have hanswer : router.answer req = typedHandler format format' f req router.state :=
    Router.answer_of_some hroute
  have hcongr : ∀ req' : Request Bytes, req'.path = req.path → req'.body = req.body →
      router.answer req' = router.answer req := by
    intro req' hpath hbody
    rw [hanswer, Router.answer_of_some (hpath ▸ hroute)]
    exact hstd.congr hbody router.state
  obtain ⟨res, hcall, hsame⟩ := clientCall_answer prost hcongr
    (hanswer ▸ hstd.plain req router.state) hplain hreq hres
  rw [hanswer, typedHandler_eq] at hsame
  refine ⟨res, hcall, fun x hx => ?_, fun e he => ?_⟩
  · rw [hT x _ hx] at hsame
    refine ⟨fun y out hy hout => ?_, fun e he => ?_⟩
    · simp only [hy, intoResponse_of_ok hout] at hsame
      refine ⟨hsame.status, (hsame.headers _).trans (getAll_contentType _), ?_⟩
      rw [← Except.ok.inj hsame.body]
      exact hU y out hout
    · simpa only [he] using hsame
  · simpa only [he] using hsame

end

end

/-! ## A call -/

section

open Ascii

/-- A coding of single bytes. -/
instance : Coding .bincode UInt8 where
  encode b := .ok [b]
  decode
    | b :: _ => .ok b
    | [] => .error "unexpected end"

instance : AsRef UInt8 UInt8 := ⟨id⟩

/-- `/add` adds its argument to the shared state. -/
def addRouter : Router UInt8 Bytes :=
  (Router.new.withState 7).route "/add"
    (typedHandler .bincode .bincode fun a x : UInt8 => (.ok (a + x) : Except String UInt8))

def fiveTo (path : String) : Request Bytes := ⟨path, ∅, [5]⟩

/-- The client gets 7 + 5, and the status 404 for a path that is not routed. -/
theorem rpc_answered_add :
    (∃ res, clientCall protobuf (served protobuf addRouter.answers) (fiveTo "/add") = .ok res ∧
      res.status = 200 ∧ res.body = [12]) ∧
    ∃ res, clientCall protobuf (served protobuf addRouter.answers) (fiveTo "/sub") = .ok res ∧
      res.status = 404 := by
  have hstd : addRouter.Standard :=
    (Router.Standard.withState _ _).route _ (typedHandler_standard _ _ _)
  obtain ⟨res, hcall, hsame⟩ := rpc_answered protobuf hstd (fiveTo "/add") plain_empty
    (by decide +kernel) (by decide +kernel)
  obtain ⟨res', hcall', hsame'⟩ := rpc_answered protobuf hstd (fiveTo "/sub") plain_empty
    (by decide +kernel) (by decide +kernel)
  have hnone : addRouter.routes.lookup (fiveTo "/sub").path = none := by decide +kernel
  rw [Router.answer_of_none hnone] at hsame'
  exact ⟨⟨res, hcall, hsame.status, (Except.ok.inj hsame.body).symm⟩, res', hcall', hsame'.status⟩

/-- Where the function is reached by an encoded argument, what it returns is decoded. -/
theorem format_rpc_add : ∃ res,
    clientCall protobuf (served protobuf addRouter.answers) (fiveTo "/add") = .ok res ∧
      res.status = 200 ∧ Coding.decode .bincode res.body = .ok (12 : UInt8) := by
  have hlossless : Lossless .bincode UInt8 := by
    intro x bytes h
    cases h
    rfl
  have hroute : addRouter.routes.lookup (fiveTo "/add").path = _ := AList.lookup_insert _
  obtain ⟨res, hcall, hres, -⟩ := format_rpc .bincode .bincode protobuf hlossless hlossless
    (fiveTo "/add") hroute plain_empty (by decide +kernel) (by decide +kernel)
  obtain ⟨hok, -⟩ := hres 5 rfl
  obtain ⟨hstatus, -, hbody⟩ := hok 12 [12] rfl rfl
  exact ⟨res, hcall, hstatus, hbody⟩

end

end Stric.Tower
