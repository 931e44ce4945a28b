import Stric.Tower.Headers

/-!
# Requests and responses (`http.rs`)

The request and response types of the tower crate, and their conversions to and from those of the
`http` crate.  Parsing a URI is a parameter, since it may refuse a path and may split off a query;
`HttpStatus` has only the numbers of a valid status.
-/

namespace Stric.Tower

/-- `http_body::Body`: what collecting the whole body gives. -/
class Body (B : Type) where
  collect : B → Except String Bytes

/-- `Full<Bytes>`. -/
instance : Body Bytes where
  collect body := .ok body

variable [HttpHeaders]

structure Request (B : Type) where
  path : String
  headers : HeaderMap
  body : B

structure Response (B : Type) where
  status : UInt16
  headers : HeaderMap
  body : B

def Response.empty (status : UInt16) : Response Bytes := ⟨status, ∅, []⟩

/-! ## The `http` crate -/

/-- `http::StatusCode`. -/
structure HttpStatus where
  code : UInt16
  valid : 100 ≤ code ∧ code < 1000
deriving DecidableEq

namespace HttpStatus

def fromU16 (code : UInt16) : Option HttpStatus :=
  if h : 100 ≤ code ∧ code < 1000 then some ⟨code, h⟩ else none

def internalServerError : HttpStatus := ⟨500, by decide⟩

end HttpStatus

inductive Method where
  | get
  | post
deriving DecidableEq

/-- `http::Uri`: parsing a string, the default URI, and the path of a URI. -/
class HttpUri (Uri : Type) where
  parse : String → Option Uri
  default : Uri
  path : Uri → String
  path_default : path default = "/"

structure HttpRequest (Uri B : Type) where
  method : Method
  uri : Uri
  headers : HeaderMap
  body : B

structure HttpResponse (B : Type) where
  status : HttpStatus
  headers : HeaderMap
  body : B

/-! ## Conversions -/

variable {Uri B : Type} [HttpUri Uri]

/-- `http::Request::from`. -/
def HttpRequest.ofStric (req : Request B) : HttpRequest Uri B where
  method := .post
  uri := (HttpUri.parse req.path).getD HttpUri.default
  headers := req.headers
  body := req.body

/-- `Response::from`. -/
def Response.ofHttp (res : HttpResponse B) : Response B := ⟨res.status.code, res.headers, res.body⟩

/-- `Request::try_from`, which does not fail. -/
def Request.ofHttp (req : HttpRequest Uri B) : Request B :=
  ⟨HttpUri.path req.uri, req.headers, req.body⟩

/-- `http::Response::from`. -/
def HttpResponse.ofStric (res : Response B) : HttpResponse B where
  status := (HttpStatus.fromU16 res.status).getD .internalServerError
  headers := res.headers
  body := res.body

end Stric.Tower
