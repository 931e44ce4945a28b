import Stric.Tower.Http
import Stric.Tower.Wire

/-!
# The router and the HTTP sandwich (`routing.rs`, `adapter.rs`)

`HttpAdapter.call` turns a request into an `http::Request`, runs a tower layer around the router,
and turns the answer back.  With the identity layer the router is reached at the path of the parsed
URI (`httpPath`) and its status is squeezed into `HttpStatus` (`httpStatus`).

`sandwich_eq_iff` says for which requests none of this is seen: the router has no handler at
either path, or the two paths are one and the handler there answers a status the `http` crate has.
-/

namespace Stric.Tower

section

variable [HttpHeaders]

/-! ## The router -/

/-- A handler that was run, and the request it was given. -/
structure Invocation (B : Type) where
  route : String
  request : Request B

/-- Computations that run handlers.  The latest invocation is the first. -/
abbrev Calls (B : Type) := StateM (List (Invocation B))

abbrev Handler (S B : Type) := Request B → S → Response Bytes

structure Router (S B : Type) where
  routes : HashMap String (Handler S B)
  state : S

variable {S B B₂ B₃ Uri : Type} [HttpUri Uri]

namespace Router

def new : Router Unit Bytes := ⟨∅, ()⟩

def route (router : Router S B) (path : String) (handler : Handler S B) : Router S B :=
  { router with routes := router.routes.insert path handler }

def call (router : Router S B) (req : Request B) : Calls B (Response Bytes) :=
  match router.routes.lookup req.path with
  | some service => do
    modify (⟨req.path, req⟩ :: ·)
    return service req router.state
  | none => return .empty 404

end Router

/-! ## The sandwich -/

/-- A service over the types of the `http` crate. -/
abbrev HttpService (Uri B B₂ : Type) :=
  HttpRequest Uri B → ExceptT TowerError (Calls B) (HttpResponse B₂)

/-- The inner half.  Neither the conversion nor the inner service can fail. -/
def HttpServiceShim.call (inner : Request B → Calls B (Response B₂)) : HttpService Uri B B₂ :=
  fun httpReq => do
    let stricRes ← inner (Request.ofHttp httpReq)
    return HttpResponse.ofStric stricRes

structure HttpAdapter (Uri B B₂ B₃ : Type) where
  inner : Request B → Calls B (Response B₂)
  layer : HttpService Uri B B₂ → HttpService Uri B B₃

/-- The outer half. -/
def HttpAdapter.call (adapter : HttpAdapter Uri B B₂ B₃) (stricReq : Request B) :
    ExceptT TowerError (Calls B) (Response B₃) := do
  let layeredService := adapter.layer (HttpServiceShim.call adapter.inner)
  let httpRes ← layeredService (HttpRequest.ofStric stricReq)
  return Response.ofHttp httpRes

def Router.layerStandard (router : Router S B)
    (layer : HttpService Uri B Bytes → HttpService Uri B B₃) : HttpAdapter Uri B Bytes B₃ :=
  ⟨router.call, layer⟩

/-! ## What the sandwich changes -/

section

variable (Uri)

/-- `tower::layer::util::Identity`. -/
def identity : HttpService Uri B B₂ → HttpService Uri B B₂ := id

/-- The path a request has after it was an `http::Request`. -/
def httpPath (path : String) : String :=
  HttpUri.path ((HttpUri.parse path).getD HttpUri.default : Uri)

/-- The request that the inner service is given. -/
def throughHttp (req : Request B) : Request B := { req with path := httpPath Uri req.path }

end

/-- The status a response has after it was an `http::Response`. -/
def httpStatus (status : UInt16) : UInt16 :=
  ((HttpStatus.fromU16 status).getD .internalServerError).code

omit [HttpHeaders] in
theorem httpStatus_eq_iff {status : UInt16} :
    httpStatus status = status ↔ 100 ≤ status ∧ status < 1000 := by
  unfold httpStatus HttpStatus.fromU16
  by_cases h : 100 ≤ status ∧ status < 1000
  · rw [dif_pos h]
    exact ⟨fun _ => h, fun _ => rfl⟩
  · rw [dif_neg h]
    -- the status taken instead is a valid one
    exact ⟨fun h500 => h500 ▸ HttpStatus.internalServerError.valid, fun h' => absurd h' h⟩

theorem Router.call_of_some {router : Router S B} {req : Request B} {service : Handler S B}
    (h : router.routes.lookup req.path = some service) (log : List (Invocation B)) :
    (router.call req).run log = (service req router.state, ⟨req.path, req⟩ :: log) := by
  unfold Router.call
  rw [h]
  rfl

theorem Router.call_of_none {router : Router S B} {req : Request B}
    (h : router.routes.lookup req.path = none) (log : List (Invocation B)) :
    (router.call req).run log = (.empty 404, log) := by
  unfold Router.call
  rw [h]
  rfl

/-- Under the identity layer the router is called, with the path and the status converted. -/
theorem Router.identity_call (router : Router S B) (req : Request B) (log : List (Invocation B)) :
    ((router.layerStandard (identity Uri)).call req).run.run log =
      ((router.call (throughHttp Uri req)).run log).map
        (fun res => .ok { res with status := httpStatus res.status }) id := rfl

section

variable (Uri)

/-- For this request no difference can be seen: either way the router has no handler, or it has
one, at a path that survives, with a status that does. -/
def Unseen (router : Router S B) (req : Request B) : Prop :=
  (router.routes.lookup req.path = none ∧ router.routes.lookup (httpPath Uri req.path) = none) ∨
  httpPath Uri req.path = req.path ∧ ∃ service, router.routes.lookup req.path = some service ∧
    100 ≤ (service req router.state).status ∧ (service req router.state).status < 1000

end

theorem throughHttp_eq_iff {req : Request B} :
    throughHttp Uri req = req ↔ httpPath Uri req.path = req.path := by
  constructor
  · intro h
    exact congrArg Request.path h
  · intro h
    unfold throughHttp
    rw [h]

theorem sandwich_unseen {router : Router S B} {req : Request B} (h : Unseen Uri router req)
    (log : List (Invocation B)) :
    ((router.layerStandard (identity Uri)).call req).run.run log =
      ((router.call req).run log).map .ok id := by
  rw [Router.identity_call]
  obtain ⟨hnone, hnone'⟩ | ⟨hpath, service, hsome, hstatus⟩ := h
  · have hthrough : router.routes.lookup (throughHttp Uri req).path = none := hnone'
    rw [Router.call_of_none hnone, Router.call_of_none hthrough]
    rfl
  · rw [throughHttp_eq_iff.mpr hpath, Router.call_of_some hsome]
    simp only [Prod.map_apply, httpStatus_eq_iff.mpr hstatus]

/-- The sandwich around the identity layer does what the router does, running the same handler on
the same request and giving the same response, exactly for the requests of `Unseen`. -/
theorem sandwich_eq_iff (router : Router S B) (req : Request B) :
    ((router.layerStandard (identity Uri)).call req).run = .ok <$> router.call req ↔
      Unseen Uri router req := by
  constructor
  · intro h
    -- the two runs from an empty log
    have hrun := congrFun h []
    change ((router.layerStandard (identity Uri)).call req).run.run [] =
      ((router.call req).run []).map .ok id at hrun
    rw [Router.identity_call] at hrun
    cases hhttp : router.routes.lookup (throughHttp Uri req).path with
    | none =>
      rw [Router.call_of_none hhttp] at hrun
      cases hreq : router.routes.lookup req.path with
      | none => exact .inl ⟨hreq, hhttp⟩
      | some service =>
        rw [Router.call_of_some hreq] at hrun
        exact absurd (congrArg Prod.snd hrun) (List.cons_ne_nil _ _).symm
    | some service' =>
      rw [Router.call_of_some hhttp] at hrun
      cases hreq : router.routes.lookup req.path with
      | none =>
        rw [Router.call_of_none hreq] at hrun
        exact absurd (congrArg Prod.snd hrun) (List.cons_ne_nil _ _)
      | some service =>
        rw [Router.call_of_some hreq] at hrun
        obtain ⟨hres, hlog⟩ := Prod.mk.inj hrun
        have hsame : throughHttp Uri req = req :=
          congrArg Invocation.request (List.head_eq_of_cons_eq hlog)
        rw [hsame] at hres hhttp
        obtain rfl : service' = service := Option.some.inj (hhttp.symm.trans hreq)
        refine .inr ⟨throughHttp_eq_iff.mp hsame, service', hreq, httpStatus_eq_iff.mp ?_⟩
        exact congrArg Response.status (Except.ok.inj hres)
  · intro h
    funext log
    exact sandwich_unseen h log

end

/-! ## A path with a query -/

/-- URIs in origin form: a path, and the query if there is one.  A string in another form is
refused here. -/
structure PathAndQuery where
  path : List Char
  query : Option (List Char)

namespace PathAndQuery

/-- The characters the `http` crate takes in a path. -/
def pathChar (c : Char) : Bool :=
  c.toNat ∈ [0x21, 0x22, 0x3D, 0x7B, 0x7C, 0x7D, 0x7E] || (0x24 ≤ c.toNat && c.toNat ≤ 0x3B) ||
    (0x40 ≤ c.toNat && c.toNat ≤ 0x5F) || (0x61 ≤ c.toNat && c.toNat ≤ 0x7A) || 0x7F ≤ c.toNat

def queryChar (c : Char) : Bool :=
  c.toNat ∈ [0x21, 0x3D] || (0x24 ≤ c.toNat && c.toNat ≤ 0x3B) || 0x3F ≤ c.toNat

/-- A fragment is dropped. -/
def parse (s : List Char) : Option PathAndQuery :=
  let s := s.takeWhile (· != '#')
  if s.head? == some '/' then
    match s.span (· != '?') with
    | (path, []) => if path.all pathChar then some ⟨path, none⟩ else none
    | (path, _ :: query) =>
      if path.all pathChar && query.all queryChar then some ⟨path, some query⟩ else none
  else none

end PathAndQuery

instance : HttpUri PathAndQuery where
  parse s := if s.utf8ByteSize ≤ 65534 then PathAndQuery.parse s.toList else none
  default := ⟨['/'], none⟩
  path uri := .ofList uri.path
  path_default := rfl

section

open Ascii

/-- One handler, for `/a`. -/
def onlyA : Router Unit Bytes := Router.new.route "/a" fun req _ => ⟨200, req.headers, req.body⟩

/-- The router has nothing at `/a?x=1`.  Inside the sandwich the same request runs the handler for
`/a`. -/
theorem query_dispatched :
    (onlyA.call ⟨"/a?x=1", ∅, []⟩).run [] = (.empty 404, []) ∧
      ((onlyA.layerStandard (identity PathAndQuery)).call ⟨"/a?x=1", ∅, []⟩).run.run [] =
        (.ok ⟨200, ∅, []⟩, [⟨"/a", ⟨"/a", ∅, []⟩⟩]) := by
  refine ⟨Router.call_of_none (by decide) [], ?_⟩
  rfl

end

end Stric.Tower
