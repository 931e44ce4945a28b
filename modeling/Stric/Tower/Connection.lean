import Stric.Pool.FrameReader
import Stric.Pool.History
import Stric.Tower.Handler

/-!
# Many calls over one connection (`client.rs`, `server.rs`)

Every call of the client opens a stream of its own; the server accepts the streams one after the
other and gives each to a task of its own.  The tasks share one service, which answers them when it
likes, and what it answers may depend on all it was asked before.  Clients, tasks, the service and
the bytes of the streams go on in any order, and the connection may be lost.

* `Service` is the shared service: its state, and what it may do with the tasks.
* `Exchange` is one stream: what the client and the task are at, and the bytes on their way.
* `ConnectionStep` is a step of one of them, a new call, the accepting of the next stream, or the
  loss of the connection.

`concurrent_calls`: the service is asked as by lone tasks, each of them once, and a call that
returns gives what a lone call gives (`clientCall`) with the answers that its task got.
`concurrent_calls_return`: if the service answers in the end, every call returns.
-/

namespace Stric.Tower

open Stric.Pool

section
variable [HttpHeaders]

/-! ## The service -/

/-- A `tower::Service` whose clones share the state `σ`.  The tasks are told apart by their
streams.  `ready` and `finish` end the futures of `ready` and of `call`; `work` is what the service
does in between. -/
structure Service (σ B : Type) where
  ready : σ → Nat → Except TowerError Unit → σ → Prop
  call : σ → Nat → Request Bytes → σ
  finish : σ → Nat → Except TowerError (Response B) → σ → Prop
  work : σ → σ → Prop

/-- What a task and the service do together. -/
inductive ServiceEvent (B : Type) where
  | ready (result : Except TowerError Unit)
  | called (req : Request Bytes)
  | finished (result : Except TowerError (Response B))

section
variable {σ B : Type}

/-- The part of the service in an event of stream `i`. -/
inductive Service.Does (service : Service σ B) (i : Nat) (s : σ) : ServiceEvent B → σ → Prop
  | ready {r : Except TowerError Unit} {s' : σ} :
      service.ready s i r s' → Does service i s (.ready r) s'
  | called {req : Request Bytes} : Does service i s (.called req) (service.call s i req)
  | finished {res : Except TowerError (Response B)} {s' : σ} :
      service.finish s i res s' → Does service i s (.finished res) s'

/-- The service gets from `init` to a state by these events, the latest of which is the last, and
by its work. -/
inductive Service.Run (service : Service σ B) (init : σ) : List (Nat × ServiceEvent B) → σ → Prop
  | start : Run service init [] init
  | event {log : List (Nat × ServiceEvent B)} {s s' : σ} {i : Nat} {ev : ServiceEvent B} :
      Run service init log s → service.Does i s ev s' → Run service init (log ++ [(i, ev)]) s'
  | work {log : List (Nat × ServiceEvent B)} {s s' : σ} :
      Run service init log s → service.work s s' → Run service init log s'

/-- The events of one stream. -/
def eventsOf (log : List (Nat × ServiceEvent B)) (i : Nat) : List (ServiceEvent B) :=
  (log.filter fun e => e.1 = i).map Prod.snd

/-- The service was given a request and has not finished with it. -/
def Pending (log : List (Nat × ServiceEvent B)) (i : Nat) : Prop :=
  ∃ req, eventsOf log i = [.ready (.ok ()), .called req]

/-- The service answers in the end: it does not work forever by itself; and when every task that it
was ready for has called it, and tasks ask it to be ready or to finish, it can answer one of them,
or work. -/
structure Service.Responsive (service : Service σ B) (init : σ) : Prop where
  working : WellFounded fun s' s => service.work s s'
  answers : ∀ log s, service.Run init log s → ∀ asking : Nat → Prop,
    (∀ i, asking i → eventsOf log i = []) → (∀ i, eventsOf log i ≠ [.ready (.ok ())]) →
    (∃ i, asking i ∨ Pending log i) →
    (∃ s', service.work s s') ∨ (∃ i r s', asking i ∧ service.ready s i r s') ∨
      ∃ i res s', Pending log i ∧ service.finish s i res s'

end

/-! ## One stream -/

/-- Where `TowerClientService::call` stands.  A call that has `failed` returned the error of the
lost connection. -/
inductive ClientState where
  | writing (rest : Bytes)
  | reading (reader : Reader)
  | done (result : Except TowerError (Response Bytes))
  | failed

def ClientState.Returned : ClientState → Prop
  | .done _ | .failed => True
  | _ => False

/-- Where `handle_stream_axum` stands.  A task that has `failed` returned the error of the lost
connection. -/
inductive TaskState where
  | unaccepted
  | reading (reader : Reader)
  | waiting (req : Request Bytes)
  | calling (req : Request Bytes)
  | running
  | writing (rest : Bytes)
  | ended
  | failed

structure Exchange where
  req : Request Bytes
  client : ClientState
  up : Pipe
  task : TaskState
  down : Pipe

/-- What `read_length_prefixed` returns. -/
def received : Option Bytes → Except TowerError Bytes
  | some buf => .ok buf
  | none => .error .readExact

section
variable (prost : Prost)

/-- The bytes of a request. -/
def requestFrame (req : Request Bytes) : Bytes :=
  writeRequestEnvelope prost (requestEnvelope req req.body)

def requestOf (buf : Bytes) : Except TowerError (Request Bytes) := do
  let envelope ← (prost.decodeRequest buf).mapError .prostDecode
  return ⟨envelope.path, fromWire envelope.headers, envelope.payload⟩

def responseOf (buf : Bytes) : Except TowerError (Response Bytes) := do
  let envelope ← (prost.decodeResponse buf).mapError .prostDecode
  return ⟨envelope.statusCode.toUInt16, fromWire envelope.headers, envelope.payload⟩

def Exchange.opened (req : Request Bytes) : Exchange :=
  ⟨req, .writing (requestFrame prost req), .empty, .unaccepted, .empty⟩

variable {σ B : Type} [Body B]

/-- A step of the client, of the task or of the bytes, and what the task and the service do together
in it.  A task that returns drops its stream, whether it failed or not, and this finishes it.  Once
the connection is lost, what is read or written fails sooner or later. -/
inductive Exchange.Step (lost : Bool) : Exchange → Option (ServiceEvent B) → Exchange → Prop
  | write {req up task down} {chunk rest : Bytes} : chunk ≠ [] →
      Step lost ⟨req, .writing (chunk ++ rest), up, task, down⟩ none
        ⟨req, .writing rest, up.write chunk, task, down⟩
  | written {req up task down} :
      Step lost ⟨req, .writing [], up, task, down⟩ none ⟨req, .reading .length, up, task, down⟩
  | carryUp {req client up up' task down} : up.Carries up' →
      Step lost ⟨req, client, up, task, down⟩ none ⟨req, client, up', task, down⟩
  | taskReads {req client up r r' down} : Reader.Step up r r' →
      Step lost ⟨req, client, up, .reading r, down⟩ none ⟨req, client, up, .reading r', down⟩
  | request {req client up frame req' down} : (received frame >>= requestOf prost) = .ok req' →
      Step lost ⟨req, client, up, .reading (.done frame), down⟩ none
        ⟨req, client, up, .waiting req', down⟩
  | noRequest {req client up frame e down} : (received frame >>= requestOf prost) = .error e →
      Step lost ⟨req, client, up, .reading (.done frame), down⟩ none
        ⟨req, client, up, .ended, down.finish⟩
  | ready {req client up req' down} :
      Step lost ⟨req, client, up, .waiting req', down⟩ (some (.ready (.ok ())))
        ⟨req, client, up, .calling req', down⟩
  | notReady {req client up req' down} {e : TowerError} :
      Step lost ⟨req, client, up, .waiting req', down⟩ (some (.ready (.error e)))
        ⟨req, client, up, .ended, down.finish⟩
  | call {req client up req' down} :
      Step lost ⟨req, client, up, .calling req', down⟩ (some (.called req'))
        ⟨req, client, up, .running, down⟩
  | answer {req client up down out} {res : Except TowerError (Response B)} :
      (res >>= writeResponse prost) = .ok out →
      Step lost ⟨req, client, up, .running, down⟩ (some (.finished res))
        ⟨req, client, up, .writing out, down⟩
  | noAnswer {req client up down e} {res : Except TowerError (Response B)} :
      (res >>= writeResponse prost) = .error e →
      Step lost ⟨req, client, up, .running, down⟩ (some (.finished res))
        ⟨req, client, up, .ended, down.finish⟩
  | reply {req client up down} {chunk rest : Bytes} : chunk ≠ [] →
      Step lost ⟨req, client, up, .writing (chunk ++ rest), down⟩ none
        ⟨req, client, up, .writing rest, down.write chunk⟩
  | finish {req client up down} :
      Step lost ⟨req, client, up, .writing [], down⟩ none ⟨req, client, up, .ended, down.finish⟩
  | carryDown {req client up task down down'} : down.Carries down' →
      Step lost ⟨req, client, up, task, down⟩ none ⟨req, client, up, task, down'⟩
  | clientReads {req up task down r r'} : Reader.Step down r r' →
      Step lost ⟨req, .reading r, up, task, down⟩ none ⟨req, .reading r', up, task, down⟩
  | result {req up task down frame} :
      Step lost ⟨req, .reading (.done frame), up, task, down⟩ none
        ⟨req, .done (received frame >>= responseOf prost), up, task, down⟩
  | callFails {req client up task down} : lost = true → ¬ client.Returned →
      Step lost ⟨req, client, up, task, down⟩ none ⟨req, .failed, up, task, down⟩
  | readFails {req client up r down} : lost = true →
      Step lost ⟨req, client, up, .reading r, down⟩ none ⟨req, client, up, .failed, down⟩
  | writeFails {req client up rest down} : lost = true →
      Step lost ⟨req, client, up, .writing rest, down⟩ none ⟨req, client, up, .failed, down⟩

/-! ## The connection -/

structure Connection (σ B : Type) where
  streams : List Exchange
  accepted : Nat
  lost : Bool
  service : σ
  /-- What the tasks and the service have done, with the streams; the latest is the last. -/
  log : List (Nat × ServiceEvent B)

def Connection.start (init : σ) : Connection σ B := ⟨[], 0, false, init, []⟩

inductive ConnectionAct where
  | call (req : Request Bytes)
  | accept
  | stream (i : Nat)
  | work
  | lose

/-- Neither a new call nor the loss of the connection. -/
def ConnectionAct.Quiet : ConnectionAct → Prop
  | .call _ | .lose => False
  | _ => True

/-- The streams are accepted in order.  One can be accepted once bytes of it or of a later one
have arrived. -/
inductive ConnectionStep (service : Service σ B) :
    Connection σ B → ConnectionAct → Connection σ B → Prop
  | call {c : Connection σ B} {req : Request Bytes} : req.Fits prost →
      ConnectionStep service c (.call req) { c with streams := c.streams ++ [.opened prost req] }
  | accept {c : Connection σ B} {x y : Exchange} {i : Nat} : c.streams[c.accepted]? = some x →
      c.accepted ≤ i → c.streams[i]? = some y → 0 < y.up.arrived →
      ConnectionStep service c .accept
        { c with
          streams := c.streams.set c.accepted { x with task := .reading .length }
          accepted := c.accepted + 1 }
  | stream {c : Connection σ B} {i : Nat} {x x' : Exchange} : c.streams[i]? = some x →
      Exchange.Step (B := B) prost c.lost x none x' →
      ConnectionStep service c (.stream i) { c with streams := c.streams.set i x' }
  | event {c : Connection σ B} {i : Nat} {x x' : Exchange} {ev : ServiceEvent B} {s' : σ} :
      c.streams[i]? = some x → Exchange.Step prost c.lost x (some ev) x' →
      service.Does i c.service ev s' →
      ConnectionStep service c (.stream i)
        { c with
          streams := c.streams.set i x'
          service := s'
          log := c.log ++ [(i, ev)] }
  | work {c : Connection σ B} {s' : σ} : service.work c.service s' →
      ConnectionStep service c .work { c with service := s' }
  | lose {c : Connection σ B} : ConnectionStep service c .lose { c with lost := true }

def QuietStep (service : Service σ B) (c : Connection σ B) (act : ConnectionAct)
    (c' : Connection σ B) : Prop :=
  ConnectionStep prost service c act c' ∧ act.Quiet

/-- What a lone task that is sent this request does with a service that answers so: if the request
cannot be read, nothing; then it waits, and if the service is ready, it calls it once. -/
def Answers.events (answers : Answers B) (req : Request Bytes) : List (ServiceEvent B) :=
  match readRequest prost (requestFrame prost req), answers.ready with
  | .error _, _ => []
  | .ok _, .error e => [.ready (.error e)]
  | .ok req', .ok () => [.ready (.ok ()), .called req', .finished (answers.call req')]

/-- The bytes of the response. -/
def responseFrame (answers : Answers B) (req : Request Bytes) : Bytes :=
  served prost answers (requestFrame prost req)

/-! ## What one stream is at -/

/-- Nothing was written to the pipe, and it is not finished. -/
def Unused (p : Pipe) : Prop := p.written = [] ∧ p.finished = false

def ClientState.Ok (answers : Answers B) (req : Request Bytes) (up : Pipe) (lost : Bool) :
    ClientState → Prop
  | .writing rest => up.written ++ rest = requestFrame prost req
  | .reading r => up.written = requestFrame prost req ∧ r.Ok (responseFrame prost answers req)
  | .done res => res = readResponse prost (responseFrame prost answers req)
  | .failed => lost = true

def TaskState.Ok (answers : Answers B) (req : Request Bytes) (down : Pipe)
    (events : List (ServiceEvent B)) (lost : Bool) : TaskState → Prop
  | .unaccepted => Unused down ∧ events = []
  | .reading r => Unused down ∧ events = [] ∧ r.Ok (requestFrame prost req)
  | .waiting req' => Unused down ∧ events = [] ∧
      readRequest prost (requestFrame prost req) = .ok req'
  | .calling req' => Unused down ∧ events = [.ready (.ok ())] ∧
      readRequest prost (requestFrame prost req) = .ok req'
  | .running => Unused down ∧ ∃ req', events = [.ready (.ok ()), .called req'] ∧
      readRequest prost (requestFrame prost req) = .ok req'
  | .writing rest => down.finished = false ∧ events = answers.events prost req ∧
      down.written ++ rest = responseFrame prost answers req
  | .ended => down.finished = true ∧ events = answers.events prost req ∧
      down.written = responseFrame prost answers req
  | .failed => lost = true ∧ (Unused down ∧ events = [] ∨ events = answers.events prost req)

/-- The client has got bytes, or the end of the stream. -/
def ClientState.started : ClientState → Bool
  | .reading (.body _) | .reading (.done _) | .done _ => true
  | _ => false

/-- The stream is where it can be if the task and the service have done this together, and the
service answers so. -/
structure Exchange.Ok (answers : Answers B) (events : List (ServiceEvent B)) (lost : Bool)
    (x : Exchange) : Prop where
  fits : x.req.Fits prost
  up : x.up.Of (requestFrame prost x.req)
  upOpen : x.up.finished = false
  client : x.client.Ok prost answers x.req x.up lost
  task : x.task.Ok prost answers x.req x.down events lost
  down : x.down.Of (responseFrame prost answers x.req)
  order : x.client.started = true → events = answers.events prost x.req

omit [HttpHeaders] in
theorem readLengthPrefixed_eq (stream : Bytes) :
    readLengthPrefixed stream = received (readFrame stream) := by
  unfold readLengthPrefixed readFrame
  cases readLength stream with
  | none => rfl
  | some q =>
    simp only
    cases readExact q.1 q.2 <;> rfl

theorem readRequest_readFrame (stream : Bytes) :
    readRequest prost stream = (received (readFrame stream) >>= requestOf prost) := by
  unfold readRequest readRequestEnvelope
  rw [readLengthPrefixed_eq]
  cases received (readFrame stream) <;> rfl

theorem readResponse_readFrame (stream : Bytes) :
    readResponse prost stream = (received (readFrame stream) >>= responseOf prost) := by
  unfold readResponse readResponseEnvelope
  rw [readLengthPrefixed_eq]
  cases received (readFrame stream) <;> rfl

theorem clientCall_eq (answers : Answers B) (req : Request Bytes) :
    clientCall prost (served prost answers) req =
      readResponse prost (responseFrame prost answers req) := by
  have hwrite : writeRequest prost req = .ok (requestFrame prost req) := rfl
  unfold clientCall
  rw [hwrite]
  rfl

variable {prost}

/-- A task that does not get a request writes nothing and asks nothing. -/
theorem Answers.of_noRequest (answers : Answers B) {req : Request Bytes} {e : TowerError}
    (h : readRequest prost (requestFrame prost req) = .error e) :
    answers.events prost req = [] ∧ responseFrame prost answers req = [] := by
  unfold responseFrame served handleStreamAxum Answers.events
  rw [h]
  exact ⟨rfl, rfl⟩

/-- A task that is told that the service is not ready writes nothing. -/
theorem Answers.of_notReady (answers : Answers B) {req req' : Request Bytes} {e : TowerError}
    (h : readRequest prost (requestFrame prost req) = .ok req') (hready : answers.ready = .error e) :
    answers.events prost req = [.ready (.error e)] ∧ responseFrame prost answers req = [] := by
  unfold responseFrame served handleStreamAxum Answers.events
  rw [h, hready]
  exact ⟨rfl, rfl⟩

/-- A task that calls the service writes its answer. -/
theorem Answers.of_ready (answers : Answers B) {req req' : Request Bytes}
    (h : readRequest prost (requestFrame prost req) = .ok req') (hready : answers.ready = .ok ()) :
    answers.events prost req =
        [.ready (.ok ()), .called req', .finished (answers.call req')] ∧
      responseFrame prost answers req = match answers.call req' >>= writeResponse prost with
        | .ok out => out
        | .error _ => [] := by
  unfold responseFrame served handleStreamAxum Answers.events
  rw [h, hready]
  exact ⟨rfl, rfl⟩

omit [Body B] in
/-- A task that has got a request asks the service something. -/
theorem Answers.events_ne_nil (answers : Answers B) {req req' : Request Bytes}
    (h : readRequest prost (requestFrame prost req) = .ok req') : answers.events prost req ≠ [] := by
  unfold Answers.events
  rw [h]
  cases answers.ready <;> simp

omit [Body B] in
/-- A task that the service is ready for calls it. -/
theorem Answers.events_ne_ready (answers : Answers B) (req : Request Bytes) :
    answers.events prost req ≠ [.ready (.ok ())] := by
  unfold Answers.events
  split <;> simp

omit [Body B] in
/-- A task that calls the service gets an answer. -/
theorem Answers.events_ne_called (answers : Answers B) (req req' : Request Bytes) :
    answers.events prost req ≠ [.ready (.ok ()), .called req'] := by
  unfold Answers.events
  split <;> simp

variable {x x' : Exchange} {answers : Answers B} {events : List (ServiceEvent B)} {lost : Bool}

omit [HttpHeaders] in
/-- From a pipe that nothing was written to, nothing is read. -/
theorem Unused.waits {p : Pipe} (h : Unused p) (r : Reader) : ¬ Reader.Step p .length r := by
  have hreceived : p.received = [] := by
    unfold Pipe.received
    rw [h.1, List.take_nil]
  intro hstep
  cases hstep with
  | length hread =>
    rw [hreceived] at hread
    cases hread
  | noLength hended => exact absurd (h.2.symm.trans hended.1) Bool.false_ne_true

/-- Until the task has got all its answers, nothing is written. -/
theorem TaskState.Ok.unused {task : TaskState} {req : Request Bytes} {down : Pipe}
    (h : task.Ok prost answers req down events lost) :
    Unused down ∨ events = answers.events prost req := by
  cases task with
  | writing rest => exact .inr h.2.1
  | ended => exact .inr h.2.1
  | failed => exact h.2.imp_left And.left
  | _ => exact .inl h.1

/-- While the task waits for the service, the service may still answer anything. -/
theorem Exchange.Ok.change (h : x.Ok prost answers events lost)
    (hevents : events ≠ answers.events prost x.req) (answers' : Answers B) :
    x.client.started = false ∧ x.client.Ok prost answers' x.req x.up lost ∧
      x.down.Of (responseFrame prost answers' x.req) := by
  obtain ⟨req, client, up, task, down⟩ := x
  obtain ⟨-, -, -, hclient, htask, hdown, horder⟩ := h
  have hunused := htask.unused.resolve_right hevents
  have hstarted : client.started = false := by
    by_contra hne
    exact hevents (horder (Bool.eq_true_of_not_eq_false hne))
  refine ⟨hstarted, ?_, ?_⟩
  · cases client with
    | writing rest => exact hclient
    | reading r =>
      cases r with
      | length => exact ⟨hclient.1, trivial⟩
      | body len => cases hstarted
      | done frame => cases hstarted
    | done res => cases hstarted
    | failed => exact hclient
  · refine ⟨?_, hdown.arrived, fun hfin => ?_⟩
    · rw [show down.written = [] from hunused.1]
      exact List.nil_prefix
    · exact absurd (hunused.2.symm.trans hfin) Bool.false_ne_true

/-- **What a step keeps** that has nothing to do with the service. -/
theorem Exchange.Step.ok (h : Exchange.Step (B := B) prost lost x none x')
    (hx : x.Ok prost answers events lost) : x'.Ok prost answers events lost := by
  obtain ⟨hfits, hup, hopen, hclient, htask, hdown, horder⟩ := hx
  cases h with
  | write hchunk =>
    have hall := (List.append_assoc _ _ _).trans hclient
    exact ⟨hfits, hup.write ⟨_, hall⟩ hopen, hopen, hall, htask, hdown, horder⟩
  | written =>
    have hall := (List.append_nil _).symm.trans hclient
    exact ⟨hfits, hup, hopen, ⟨hall, trivial⟩, htask, hdown, horder⟩
  | carryUp hcarry =>
    have hup' := hup.carries hcarry
    obtain ⟨-, -⟩ := hcarry
    exact ⟨hfits, hup', hopen, hclient, htask, hdown, horder⟩
  | taskReads hread =>
    obtain ⟨hunused, hnone, hr⟩ := htask
    exact ⟨hfits, hup, hopen, hclient, ⟨hunused, hnone, hread.ok hup hr⟩, hdown, horder⟩
  | request hreq =>
    obtain ⟨hunused, hnone, hframe⟩ := htask
    rw [show _ = readFrame _ from hframe, ← readRequest_readFrame] at hreq
    exact ⟨hfits, hup, hopen, hclient, ⟨hunused, hnone, hreq⟩, hdown, horder⟩
  | noRequest hreq =>
    obtain ⟨hunused, hnone, hframe⟩ := htask
    rw [show _ = readFrame _ from hframe, ← readRequest_readFrame] at hreq
    obtain ⟨hevents, hnil⟩ := answers.of_noRequest hreq
    have hwritten := hunused.1.trans hnil.symm
    have hall := hnone.trans hevents.symm
    exact ⟨hfits, hup, hopen, hclient, ⟨rfl, hall, hwritten⟩, hdown.finish hwritten, fun _ => hall⟩
  | reply hchunk =>
    obtain ⟨hunfin, hevents, hall⟩ := htask
    have hall' := (List.append_assoc _ _ _).trans hall
    exact ⟨hfits, hup, hopen, hclient, ⟨hunfin, hevents, hall'⟩, hdown.write ⟨_, hall'⟩ hunfin,
      horder⟩
  | finish =>
    obtain ⟨hunfin, hevents, hall⟩ := htask
    have hwritten := (List.append_nil _).symm.trans hall
    exact ⟨hfits, hup, hopen, hclient, ⟨rfl, hevents, hwritten⟩, hdown.finish hwritten, horder⟩
  | carryDown hcarry =>
    have hdown' := hdown.carries hcarry
    obtain ⟨-, -⟩ := hcarry
    exact ⟨hfits, hup, hopen, hclient, htask, hdown', horder⟩
  | @clientReads req up task down r r' hread =>
    refine ⟨hfits, hup, hopen, ⟨hclient.1, hread.ok hdown hclient.2⟩, htask, hdown, fun _ => ?_⟩
    -- the first bytes come from a task that has got its answers
    cases r with
    | length => exact htask.unused.resolve_left fun hunused => hunused.waits r' hread
    | body len => exact horder rfl
    | done frame => exact horder rfl
  | result =>
    obtain ⟨-, hframe⟩ := hclient
    refine ⟨hfits, hup, hopen, ?_, htask, hdown, fun _ => horder rfl⟩
    show _ = readResponse prost _
    rw [readResponse_readFrame, ← show _ = readFrame _ from hframe]
  | callFails hlost hclient =>
    exact ⟨hfits, hup, hopen, hlost, htask, hdown, fun hs => absurd hs Bool.false_ne_true⟩
  | readFails hlost =>
    obtain ⟨hunused, hnone, -⟩ := htask
    exact ⟨hfits, hup, hopen, hclient, ⟨hlost, .inl ⟨hunused, hnone⟩⟩, hdown, horder⟩
  | writeFails hlost =>
    exact ⟨hfits, hup, hopen, hclient, ⟨hlost, .inr htask.2.1⟩, hdown, horder⟩

/-- **What an event keeps.**  Until the last one, the answers of the service may still change. -/
theorem Exchange.Step.ok_event {ev : ServiceEvent B} (h : Exchange.Step prost lost x (some ev) x')
    (hx : x.Ok prost answers events lost) :
    ∃ answers', x'.Ok prost answers' (events ++ [ev]) lost := by
  have hchange := hx.change
  obtain ⟨hfits, hup, hopen, hclient, htask, hdown, -⟩ := hx
  cases h with
  | ready =>
    obtain ⟨hunused, rfl, hreq⟩ := htask
    have hstarted := (hchange (answers.events_ne_nil hreq).symm answers).1
    exact ⟨answers, hfits, hup, hopen, hclient, ⟨hunused, rfl, hreq⟩, hdown,
      fun hs => absurd (hstarted.symm.trans hs) Bool.false_ne_true⟩
  | @notReady req client up req' down e =>
    obtain ⟨hunused, rfl, hreq⟩ := htask
    let answers' : Answers B := ⟨.error e, answers.call⟩
    obtain ⟨-, hclient', hdown'⟩ := hchange (answers.events_ne_nil hreq).symm answers'
    obtain ⟨hevents, hnil⟩ := answers'.of_notReady hreq rfl
    have hwritten := hunused.1.trans hnil.symm
    exact ⟨answers', hfits, hup, hopen, hclient', ⟨rfl, hevents.symm, hwritten⟩,
      hdown'.finish hwritten, fun _ => hevents.symm⟩
  | call =>
    obtain ⟨hunused, rfl, hreq⟩ := htask
    have hstarted := (hchange (answers.events_ne_ready _).symm answers).1
    exact ⟨answers, hfits, hup, hopen, hclient, ⟨hunused, _, rfl, hreq⟩, hdown,
      fun hs => absurd (hstarted.symm.trans hs) Bool.false_ne_true⟩
  | @answer req client up down out res hanswer =>
    obtain ⟨hunused, req', rfl, hreq⟩ := htask
    let answers' : Answers B := ⟨.ok (), fun _ => res⟩
    obtain ⟨-, hclient', hdown'⟩ := hchange (answers.events_ne_called _ _).symm answers'
    obtain ⟨hevents, hframe⟩ := answers'.of_ready hreq rfl
    rw [show answers'.call req' = res from rfl, hanswer] at hframe
    refine ⟨answers', hfits, hup, hopen, hclient', ⟨hunused.2, hevents.symm, ?_⟩, hdown',
      fun _ => hevents.symm⟩
    rw [hunused.1, hframe]
    rfl
  | @noAnswer req client up down e res hanswer =>
    obtain ⟨hunused, req', rfl, hreq⟩ := htask
    let answers' : Answers B := ⟨.ok (), fun _ => res⟩
    obtain ⟨-, hclient', hdown'⟩ := hchange (answers.events_ne_called _ _).symm answers'
    obtain ⟨hevents, hframe⟩ := answers'.of_ready hreq rfl
    rw [show answers'.call req' = res from rfl, hanswer] at hframe
    have hwritten := hunused.1.trans hframe.symm
    exact ⟨answers', hfits, hup, hopen, hclient', ⟨rfl, hevents.symm, hwritten⟩,
      hdown'.finish hwritten, fun _ => hevents.symm⟩

/-- What the task and the service have done is the beginning of what a lone task does, for some
answers. -/
theorem Exchange.Ok.exists_answers (h : x.Ok prost answers events lost) :
    ∃ answers' : Answers B, events <+: answers'.events prost x.req ∧
      x.Ok prost answers' events lost := by
  have hchange := h.change
  have hx := h
  obtain ⟨req, client, up, task, down⟩ := x
  obtain ⟨hfits, hup, hopen, -, htask, -, -⟩ := h
  let ready : Answers B := ⟨.ok (), answers.call⟩
  cases task with
  | unaccepted => exact ⟨answers, htask.2 ▸ List.nil_prefix, hx⟩
  | reading r => exact ⟨answers, htask.2.1 ▸ List.nil_prefix, hx⟩
  | waiting req' => exact ⟨answers, htask.2.1 ▸ List.nil_prefix, hx⟩
  | calling req' =>
    obtain ⟨hunused, rfl, hreq⟩ := htask
    obtain ⟨hstarted, hclient, hdown⟩ := hchange (answers.events_ne_ready _).symm ready
    refine ⟨ready, ?_, hfits, hup, hopen, hclient, ⟨hunused, rfl, hreq⟩, hdown,
      fun hs => absurd (hstarted.symm.trans hs) Bool.false_ne_true⟩
    rw [(ready.of_ready hreq rfl).1]
    exact ⟨_, rfl⟩
  | running =>
    obtain ⟨hunused, req', rfl, hreq⟩ := htask
    obtain ⟨hstarted, hclient, hdown⟩ := hchange (answers.events_ne_called _ _).symm ready
    refine ⟨ready, ?_, hfits, hup, hopen, hclient, ⟨hunused, req', rfl, hreq⟩, hdown,
      fun hs => absurd (hstarted.symm.trans hs) Bool.false_ne_true⟩
    rw [(ready.of_ready hreq rfl).1]
    exact ⟨_, rfl⟩
  | writing rest => exact ⟨answers, htask.2.1 ▸ List.prefix_rfl, hx⟩
  | ended => exact ⟨answers, htask.2.1 ▸ List.prefix_rfl, hx⟩
  | failed =>
    rcases htask.2 with ⟨-, rfl⟩ | rfl
    · exact ⟨answers, List.nil_prefix, hx⟩
    · exact ⟨answers, List.prefix_rfl, hx⟩

theorem Exchange.Step.same {ev : Option (ServiceEvent B)} (h : Exchange.Step prost lost x ev x') :
    x'.req = x.req ∧ (x'.task = .unaccepted ↔ x.task = .unaccepted) := by
  cases h <;> simp

theorem Exchange.Ok.lose (h : x.Ok prost answers events lost) : x.Ok prost answers events true := by
  obtain ⟨req, client, up, task, down⟩ := x
  obtain ⟨hfits, hup, hopen, hclient, htask, hdown, horder⟩ := h
  refine ⟨hfits, hup, hopen, ?_, ?_, hdown, horder⟩
  · cases client with
    | failed => rfl
    | _ => exact hclient
  · cases task with
    | failed => exact ⟨rfl, htask.2⟩
    | _ => exact htask

theorem Exchange.opened_ok (answers : Answers B) {req : Request Bytes} (hfits : req.Fits prost) :
    (Exchange.opened prost req).Ok prost answers [] lost where
  fits := hfits
  up := ⟨List.nil_prefix, Nat.le_refl 0, fun h => absurd h Bool.false_ne_true⟩
  upOpen := rfl
  client := rfl
  task := ⟨⟨rfl, rfl⟩, rfl⟩
  down := ⟨List.nil_prefix, Nat.le_refl 0, fun h => absurd h Bool.false_ne_true⟩
  order := fun h => absurd h Bool.false_ne_true

/-! ## All streams -/

omit [Body B] in
theorem eventsOf_append (log : List (Nat × ServiceEvent B)) (i j : Nat) (ev : ServiceEvent B) :
    eventsOf (log ++ [(i, ev)]) j = if j = i then eventsOf log j ++ [ev] else eventsOf log j := by
  unfold eventsOf
  rw [List.filter_append, List.map_append]
  by_cases hj : j = i
  · simp [hj]
  · simp [hj, Ne.symm hj]

variable (prost) in
/-- The first `accepted` streams have a task, and what the tasks and the service have done is a run
of the service. -/
structure Connection.Ok (service : Service σ B) (init : σ) (c : Connection σ B) : Prop where
  stream : ∀ i x, c.streams[i]? = some x →
    (∃ answers, x.Ok prost answers (eventsOf c.log i) c.lost) ∧
      (x.task = .unaccepted ↔ c.accepted ≤ i)
  accepted : c.accepted ≤ c.streams.length
  log : ∀ e ∈ c.log, e.1 < c.streams.length
  run : service.Run init c.log c.service

variable {service : Service σ B} {init : σ} {c c' : Connection σ B} {act : ConnectionAct}

theorem Connection.Ok.eventsOf_of_length_le (h : c.Ok prost service init) {i : Nat}
    (hi : c.streams.length ≤ i) : eventsOf c.log i = [] := by
  unfold eventsOf
  rw [List.map_eq_nil_iff, List.filter_eq_nil_iff]
  intro e he heq
  have hlt := h.log e he
  rw [decide_eq_true_eq] at heq
  omega

/-- A stream of the list in which one was replaced. -/
theorem stream_of_set {l : List Exchange} {i j : Nat} {a y : Exchange}
    (h : (l.set i a)[j]? = some y) : (j = i ∧ y = a) ∨ (j ≠ i ∧ l[j]? = some y) := by
  by_cases hj : i = j
  · subst hj
    rw [List.getElem?_set_self'] at h
    obtain ⟨-, -, rfl⟩ := Option.map_eq_some_iff.mp h
    exact .inl ⟨rfl, rfl⟩
  · rw [List.getElem?_set_ne hj] at h
    exact .inr ⟨Ne.symm hj, h⟩

theorem ConnectionStep.ok (h : ConnectionStep prost service c act c') (hc : c.Ok prost service init) :
    c'.Ok prost service init := by
  cases h with
  | @call req hfits =>
    refine ⟨fun i x hx => ?_, ?_, fun e he => ?_, hc.run⟩
    · rcases Nat.lt_or_ge i c.streams.length with hi | hi
      · rw [List.getElem?_append_left hi] at hx
        exact hc.stream i x hx
      · rw [List.getElem?_append_right hi, List.getElem?_singleton] at hx
        obtain ⟨-, hx⟩ := Option.ite_none_right_eq_some.mp hx
        cases hx
        refine ⟨⟨⟨.ok (), fun _ => .error .unknown⟩, ?_⟩, iff_of_true rfl (hc.accepted.trans hi)⟩
        rw [show eventsOf _ i = [] from hc.eventsOf_of_length_le hi]
        exact Exchange.opened_ok _ hfits
    · rw [List.length_append]
      exact Nat.le_add_right_of_le hc.accepted
    · rw [List.length_append]
      exact Nat.lt_add_right 1 (hc.log e he)
  | @accept x y i hx hi hy hseen =>
    obtain ⟨⟨answers, hok⟩, hun⟩ := hc.stream _ x hx
    have htask := hun.mpr (Nat.le_refl _)
    refine ⟨fun j z hz => ?_, ?_, fun e he => ?_, hc.run⟩
    · rcases stream_of_set hz with ⟨rfl, rfl⟩ | ⟨hne, hz⟩
      · obtain ⟨hfits, hup, hopen, hclient, hold, hdown, horder⟩ := hok
        rw [htask] at hold
        exact ⟨⟨answers, hfits, hup, hopen, hclient, ⟨hold.1, hold.2, trivial⟩, hdown, horder⟩,
          by simp⟩
      · obtain ⟨hok, hun⟩ := hc.stream j z hz
        refine ⟨hok, hun.trans ?_⟩
        show c.accepted ≤ j ↔ c.accepted + 1 ≤ j
        omega
    · rw [List.length_set]
      exact (List.getElem?_eq_some_iff.mp hx).1
    · rw [List.length_set]
      exact hc.log e he
  | @stream i x x' hx hstep =>
    obtain ⟨⟨answers, hok⟩, hun⟩ := hc.stream i x hx
    refine ⟨fun j z hz => ?_, ?_, fun e he => ?_, hc.run⟩
    · rcases stream_of_set hz with ⟨rfl, rfl⟩ | ⟨-, hz⟩
      · exact ⟨⟨answers, hstep.ok hok⟩, hstep.same.2.trans hun⟩
      · exact hc.stream j z hz
    · rw [List.length_set]
      exact hc.accepted
    · rw [List.length_set]
      exact hc.log e he
  | @event i x x' ev s' hx hstep hdoes =>
    obtain ⟨⟨answers, hok⟩, hun⟩ := hc.stream i x hx
    refine ⟨fun j z hz => ?_, ?_, fun e he => ?_, hc.run.event hdoes⟩
    · rw [eventsOf_append]
      rcases stream_of_set hz with ⟨rfl, rfl⟩ | ⟨hne, hz⟩
      · rw [if_pos rfl]
        exact ⟨hstep.ok_event hok, hstep.same.2.trans hun⟩
      · rw [if_neg hne]
        exact hc.stream j z hz
    · rw [List.length_set]
      exact hc.accepted
    · rw [List.length_set]
      rcases List.mem_append.mp he with hold | hnew
      · exact hc.log e hold
      · rw [List.mem_singleton.mp hnew]
        exact (List.getElem?_eq_some_iff.mp hx).1
  | work hwork => exact ⟨hc.stream, hc.accepted, hc.log, hc.run.work hwork⟩
  | lose =>
    refine ⟨fun i x hx => ?_, hc.accepted, hc.log, hc.run⟩
    obtain ⟨⟨answers, hok⟩, hun⟩ := hc.stream i x hx
    exact ⟨⟨answers, hok.lose⟩, hun⟩

theorem Connection.ok_of_run {past : List (Connection σ B × ConnectionAct)}
    (h : History (ConnectionStep prost service) (.start init) past c) : c.Ok prost service init := by
  refine h.invariant (Connection.Ok prost service init) ⟨?_, Nat.le_refl 0, ?_, .start⟩
    fun _ _ _ hc hstep => hstep.ok hc
  · intro i x hx
    cases hx
  · intro e he
    cases he

/-- **Calls do not disturb each other.**  Whatever service the tasks share, and however clients,
tasks, the service and the bytes interleave: what the service did is one of its own runs, and it
is asked by every task as by a lone one, at most once.  A call that has returned a response or an
error of its own returned what a lone call returns with the answers its task got; any other that
has returned did so because the connection was lost. -/
theorem concurrent_calls {past : List (Connection σ B × ConnectionAct)}
    (h : History (ConnectionStep prost service) (.start init) past c) :
    service.Run init c.log c.service ∧ ∀ i x, c.streams[i]? = some x →
      ∃ answers : Answers B, eventsOf c.log i <+: answers.events prost x.req ∧
        (∀ res, x.client = .done res → eventsOf c.log i = answers.events prost x.req ∧
          res = clientCall prost (served prost answers) x.req) ∧
        (x.client = .failed → c.lost = true) := by
  have hc := Connection.ok_of_run h
  refine ⟨hc.run, fun i x hx => ?_⟩
  obtain ⟨⟨answers, hok⟩, -⟩ := hc.stream i x hx
  obtain ⟨answers, hprefix, hok⟩ := hok.exists_answers
  refine ⟨answers, hprefix, fun res hres => ?_, fun hfailed => ?_⟩
  · have hclient := hok.client
    have horder := hok.order
    rw [hres] at hclient horder
    exact ⟨horder rfl, hclient.trans (clientCall_eq prost answers x.req).symm⟩
  · have hclient := hok.client
    rw [hfailed] at hclient
    exact hclient

/-! ## Every call returns -/

/-- The task will still ask the service, or have its answer. -/
def TaskState.waits : TaskState → Nat
  | .writing _ | .ended | .failed => 0
  | _ => 1

def ClientState.rank : ClientState → Nat
  | .writing rest => 2 * rest.length + 5
  | .reading r => r.rank + 2
  | .done _ | .failed => 0

/-- The steps a task has before it, if the service answers with nothing. -/
def TaskState.rank : TaskState → Nat
  | .unaccepted => 8
  | .reading r => r.rank + 5
  | .waiting _ => 4
  | .calling _ => 3
  | .running => 2
  | .writing rest => 2 * rest.length + 1
  | .ended | .failed => 0

/-- The steps before the client and the task, and the bytes that have not arrived. -/
def Exchange.rank (x : Exchange) : Nat :=
  x.client.rank + (x.up.written.length - x.up.arrived) + x.task.rank +
    (x.down.written.length - x.down.arrived)

/-- A step lowers the rank, or brings the last answer of the service. -/
theorem Exchange.Step.rank_lt {ev : Option (ServiceEvent B)} (h : Exchange.Step prost lost x ev x') :
    x'.task.waits ≤ x.task.waits ∧ (x'.task.waits < x.task.waits ∨ x'.rank < x.rank) := by
  cases h with
  | write hne =>
    have hpos := List.length_pos_iff.mpr hne
    simp only [Exchange.rank, ClientState.rank, Pipe.write, List.length_append]
    omega
  | carryUp hcarry =>
    obtain ⟨hlt, hle⟩ := hcarry
    simp only [Exchange.rank]
    omega
  | taskReads hread =>
    have hlt := hread.rank_lt
    simp only [Exchange.rank, TaskState.rank, TaskState.waits]
    omega
  | reply hne =>
    have hpos := List.length_pos_iff.mpr hne
    simp only [Exchange.rank, TaskState.rank, TaskState.waits, Pipe.write, List.length_append]
    omega
  | carryDown hcarry =>
    obtain ⟨hlt, hle⟩ := hcarry
    simp only [Exchange.rank]
    omega
  | clientReads hread =>
    have hlt := hread.rank_lt
    simp only [Exchange.rank, ClientState.rank]
    omega
  | @callFails req client up task down hlost hclient =>
    cases client with
    | done res => exact absurd trivial hclient
    | failed => exact absurd trivial hclient
    | _ =>
      simp only [Exchange.rank, ClientState.rank]
      omega
  | _ =>
    simp only [Exchange.rank, ClientState.rank, TaskState.rank, TaskState.waits, Reader.rank,
      Pipe.finish]
    omega

def Connection.waits (c : Connection σ B) : Nat := (c.streams.map fun x => x.task.waits).sum

def Connection.rank (c : Connection σ B) : Nat := (c.streams.map Exchange.rank).sum

/-- A sum in which one summand is replaced. -/
theorem sum_set (f : Exchange → Nat) {l : List Exchange} {i : Nat} (hx : l[i]? = some x)
    (x' : Exchange) : ((l.set i x').map f).sum + f x = (l.map f).sum + f x' := by
  induction l generalizing i with
  | nil => cases hx
  | cons y l ih =>
    cases i with
    | zero =>
      cases hx
      simp only [List.set_cons_zero, List.map_cons, List.sum_cons]
      omega
    | succ i =>
      have hsum := ih hx
      simp only [List.set_cons_succ, List.map_cons, List.sum_cons]
      omega

/-- The answers that are waited for, the steps before the clients and the tasks, and the work before
the service, in this order. -/
def Before (service : Service σ B) : Nat × Nat × σ → Nat × Nat × σ → Prop :=
  Prod.Lex (· < ·) (Prod.Lex (· < ·) fun s' s => service.work s s')

def Connection.measure (c : Connection σ B) : Nat × Nat × σ := (c.waits, c.rank, c.service)

omit [Body B] in
theorem before_wellFounded (h : service.Responsive init) : WellFounded (Before service) :=
  WellFounded.prod_lex Nat.lt_wfRel.wf (WellFounded.prod_lex Nat.lt_wfRel.wf h.working)

omit [Body B] in
/-- A stream that moves on takes the connection with it. -/
theorem before_of_set {i : Nat} (hx : c.streams[i]? = some x)
    (hlt : x'.task.waits ≤ x.task.waits ∧ (x'.task.waits < x.task.waits ∨ x'.rank < x.rank))
    (hset : c'.streams = c.streams.set i x') : Before service c'.measure c.measure := by
  have hwaits : c'.waits + _ = c.waits + _ := hset ▸ sum_set (fun x => x.task.waits) hx x'
  have hrank : c'.rank + _ = c.rank + _ := hset ▸ sum_set Exchange.rank hx x'
  have hless : c'.waits < c.waits ∨ c'.waits = c.waits ∧ c'.rank < c.rank := by omega
  refine Prod.lex_def.mpr (hless.imp_right fun ⟨heq, hlt⟩ => ⟨heq, ?_⟩)
  exact Prod.lex_def.mpr (.inl hlt)

/-- Every quiet step gets on. -/
theorem QuietStep.before (h : QuietStep prost service c act c') (hc : c.Ok prost service init) :
    Before service c'.measure c.measure := by
  obtain ⟨hstep, hquiet⟩ := h
  cases hstep with
  | call hfits => exact absurd hquiet id
  | @accept x y i hx hi hy hseen =>
    have htask := (hc.stream _ x hx).2.mpr (Nat.le_refl _)
    refine before_of_set hx ?_ rfl
    simp only [Exchange.rank, htask, TaskState.waits, TaskState.rank, Reader.rank]
    omega
  | stream hx hstep => exact before_of_set hx hstep.rank_lt rfl
  | event hx hstep hdoes => exact before_of_set hx hstep.rank_lt rfl
  | work hwork => exact Prod.Lex.right _ (Prod.Lex.right _ hwork)
  | lose => exact absurd hquiet id

theorem readFrame_requestFrame {req : Request Bytes} (hfits : req.Fits prost) :
    (readFrame (requestFrame prost req)).isSome := by
  have hread : readLengthPrefixed (requestFrame prost req) = .ok _ := readLengthPrefixed_write hfits
  rw [readLengthPrefixed_eq] at hread
  cases hframe : readFrame (requestFrame prost req) with
  | some buf => rfl
  | none =>
    rw [hframe] at hread
    cases hread

/-- A stream on which nothing can happen without the service: its call has returned, or it waits to
be accepted, or its task waits for the service. -/
theorem Exchange.Ok.of_stuck (hx : x.Ok prost answers events lost)
    (hstuck : ∀ x', ¬ Exchange.Step (B := B) prost lost x none x') :
    x.client.Returned ∨ x.task = .unaccepted ∧ 0 < x.up.arrived ∨ (∃ req, x.task = .waiting req) ∨
      (∃ req, x.task = .calling req) ∨ x.task = .running := by
  obtain ⟨req, client, up, task, down⟩ := x
  obtain ⟨hfits, hup, hopen, hclient, htask, hdown, horder⟩ := hx
  by_cases hreturned : client.Returned
  · exact .inl hreturned
  refine .inr ?_
  have hlost : lost = false := by
    by_contra hne
    exact hstuck _ (.callFails (Bool.eq_true_of_not_eq_false hne) hreturned)
  -- all that was written has arrived
  have harrived : ∀ {p : Pipe} {data : Bytes}, p.Of data → (∀ p', ¬ p.Carries p') →
      p.arrived = p.written.length := by
    intro p data hp hno
    by_contra hne
    exact hno _ (.arrive (Nat.lt_of_le_of_ne hp.arrived hne) (Nat.le_refl _))
  have hupall := harrived hup fun _ hcarry => hstuck _ (.carryUp hcarry)
  have hdownall := harrived hdown fun _ hcarry => hstuck _ (.carryDown hcarry)
  cases client with
  | done res => exact absurd trivial hreturned
  | failed => exact absurd trivial hreturned
  | writing rest =>
    cases rest with
    | nil => exact absurd .written (hstuck _)
    | cons b rest => exact absurd (.write (List.cons_ne_nil b [])) (hstuck _)
  | reading r =>
    have hreceived : up.received = requestFrame prost req :=
      (Pipe.received_of_arrived hupall).trans hclient.1
    cases task with
    | unaccepted =>
      refine .inl ⟨rfl, ?_⟩
      rw [hupall, hclient.1]
      exact Nat.succ_pos _
    | reading r' =>
      rcases Reader.exists_step hreceived htask.2.2 (.inr (readFrame_requestFrame hfits)) with
        ⟨frame, rfl⟩ | ⟨r'', hstep⟩
      · cases hreq : received frame >>= requestOf prost with
        | ok req' => exact absurd (.request hreq) (hstuck _)
        | error e => exact absurd (.noRequest hreq) (hstuck _)
      · exact absurd (.taskReads hstep) (hstuck _)
    | waiting req' => exact .inr (.inl ⟨req', rfl⟩)
    | calling req' => exact .inr (.inr (.inl ⟨req', rfl⟩))
    | running => exact .inr (.inr (.inr rfl))
    | writing rest =>
      cases rest with
      | nil => exact absurd .finish (hstuck _)
      | cons b rest => exact absurd (.reply (List.cons_ne_nil b [])) (hstuck _)
    | ended =>
      obtain ⟨hfin, -, hwritten⟩ := htask
      have hall : down.received = responseFrame prost answers req :=
        (Pipe.received_of_arrived hdownall).trans hwritten
      rcases Reader.exists_step hall hclient.2 (.inl ⟨hfin, hdownall⟩) with
        ⟨frame, rfl⟩ | ⟨r', hstep⟩
      · exact absurd .result (hstuck _)
      · exact absurd (.clientReads hstep) (hstuck _)
    | failed => exact absurd (hlost.symm.trans htask.1) Bool.false_ne_true

/-- A task that the service is ready for and that has not called it is about to. -/
theorem TaskState.Ok.calling {task : TaskState} {req : Request Bytes} {down : Pipe}
    (h : task.Ok prost answers req down [.ready (.ok ())] lost) : ∃ req', task = .calling req' := by
  cases task with
  | unaccepted => cases h.2
  | reading r => cases h.2.1
  | waiting req' => cases h.2.1
  | calling req' => exact ⟨req', rfl⟩
  | running =>
    obtain ⟨-, req', heq, -⟩ := h
    cases heq
  | writing rest => exact absurd h.2.1.symm (answers.events_ne_ready req)
  | ended => exact absurd h.2.1.symm (answers.events_ne_ready req)
  | failed =>
    rcases h.2 with ⟨-, heq⟩ | heq
    · cases heq
    · exact absurd heq.symm (answers.events_ne_ready req)

/-- A task that has called the service and has no answer runs. -/
theorem TaskState.Ok.running {task : TaskState} {req req' : Request Bytes} {down : Pipe}
    (h : task.Ok prost answers req down [.ready (.ok ()), .called req'] lost) :
    task = .running := by
  cases task with
  | unaccepted => cases h.2
  | reading r => cases h.2.1
  | waiting req' => cases h.2.1
  | calling req' => cases h.2.1
  | running => rfl
  | writing rest => exact absurd h.2.1.symm (answers.events_ne_called req req')
  | ended => exact absurd h.2.1.symm (answers.events_ne_called req req')
  | failed =>
    rcases h.2 with ⟨-, heq⟩ | heq
    · cases heq
    · exact absurd heq.symm (answers.events_ne_called req req')

variable (prost lost) in
/-- Whatever the service answers a task that waits for it, the task takes. -/
theorem Exchange.exists_ready {req : Request Bytes} (h : x.task = .waiting req)
    (r : Except TowerError Unit) : ∃ x', Exchange.Step (B := B) prost lost x (some (.ready r)) x' := by
  obtain ⟨req', client, up, task, down⟩ := x
  obtain rfl : task = .waiting req := h
  cases r with
  | ok u => exact ⟨_, .ready⟩
  | error e => exact ⟨_, .notReady⟩

variable (prost lost) in
theorem Exchange.exists_called {req : Request Bytes} (h : x.task = .calling req) :
    ∃ x', Exchange.Step (B := B) prost lost x (some (.called req)) x' := by
  obtain ⟨req', client, up, task, down⟩ := x
  obtain rfl : task = .calling req := h
  exact ⟨_, .call⟩

variable (prost lost) in
theorem Exchange.exists_finished (h : x.task = .running) (res : Except TowerError (Response B)) :
    ∃ x', Exchange.Step prost lost x (some (.finished res)) x' := by
  obtain ⟨req', client, up, task, down⟩ := x
  obtain rfl : task = .running := h
  cases hanswer : res >>= writeResponse prost with
  | ok out => exact ⟨_, .answer hanswer⟩
  | error e => exact ⟨_, .noAnswer hanswer⟩

/-- The stream of a task of which the log has something. -/
theorem Connection.Ok.exists_stream (hc : c.Ok prost service init) {i : Nat}
    (h : eventsOf c.log i ≠ []) : ∃ x answers, c.streams[i]? = some x ∧
      x.Ok prost answers (eventsOf c.log i) c.lost := by
  have hi : i < c.streams.length := by
    by_contra hle
    exact h (hc.eventsOf_of_length_le (Nat.le_of_not_lt hle))
  have hx := List.getElem?_eq_getElem hi
  obtain ⟨⟨answers, hok⟩, -⟩ := hc.stream i _ hx
  exact ⟨_, answers, hx, hok⟩

section
variable (hc : c.Ok prost service init) (hstuck : ∀ act c', ¬ QuietStep prost service c act c')
include hstuck

/-- Where nothing happens, the service takes part in no event. -/
theorem not_event_of_stuck {i : Nat} {ev : ServiceEvent B} {s' : σ} (hx : c.streams[i]? = some x)
    (hstep : ∃ x', Exchange.Step prost c.lost x (some ev) x') :
    ¬ service.Does i c.service ev s' := by
  intro hdoes
  obtain ⟨x', hstep⟩ := hstep
  exact hstuck _ _ ⟨.event hx hstep hdoes, trivial⟩

include hc

/-- Where nothing happens, a call that has not returned waits for the service. -/
theorem waits_of_stuck {i : Nat} (hx : c.streams[i]? = some x) (hnot : ¬ x.client.Returned) :
    (∃ req, x.task = .waiting req) ∨ Pending c.log i := by
  obtain ⟨⟨answers, hok⟩, hun⟩ := hc.stream i x hx
  have hstream : ∀ x', ¬ Exchange.Step (B := B) prost c.lost x none x' :=
    fun x' hstep => hstuck _ _ ⟨.stream hx hstep, trivial⟩
  rcases hok.of_stuck hstream with hdone | ⟨htask, hseen⟩ | hwaiting | ⟨req, hcalling⟩ | hrunning
  · exact absurd hdone hnot
  · -- the next stream could be accepted
    have hi := hun.mp htask
    have hlt := Nat.lt_of_le_of_lt hi (List.getElem?_eq_some_iff.mp hx).1
    exact absurd ⟨.accept (List.getElem?_eq_getElem hlt) hi hx hseen, trivial⟩ (hstuck _ _)
  · exact .inl hwaiting
  · exact absurd .called
      (not_event_of_stuck hstuck hx (Exchange.exists_called prost c.lost hcalling))
  · have htask := hok.task
    rw [hrunning] at htask
    obtain ⟨-, req, hevents, -⟩ := htask
    exact .inr ⟨req, hevents⟩

/-- A connection on which nothing happens but new calls: all calls have returned. -/
theorem returned_of_stuck (hservice : service.Responsive init) :
    ∀ x ∈ c.streams, x.client.Returned := by
  intro x hx
  obtain ⟨i, hx⟩ := List.mem_iff_getElem?.mp hx
  by_contra hnot
  let asking : Nat → Prop := fun i => ∃ x req, c.streams[i]? = some x ∧ x.task = .waiting req
  have hasking : ∀ i, asking i → eventsOf c.log i = [] := by
    rintro i ⟨x, req, hx, htask⟩
    obtain ⟨⟨answers, hok⟩, -⟩ := hc.stream i x hx
    have hwaiting := hok.task
    rw [htask] at hwaiting
    exact hwaiting.2.1
  have hcalled : ∀ i, eventsOf c.log i ≠ [.ready (.ok ())] := by
    intro i hevents
    obtain ⟨x, answers, hx, hok⟩ := hc.exists_stream (i := i) (by simp [hevents])
    rw [hevents] at hok
    obtain ⟨req, hcalling⟩ := hok.task.calling
    exact absurd .called
      (not_event_of_stuck hstuck hx (Exchange.exists_called prost c.lost hcalling))
  have hwaits : ∃ i, asking i ∨ Pending c.log i :=
    ⟨i, (waits_of_stuck hc hstuck hx hnot).imp_left fun ⟨req, htask⟩ => ⟨x, req, hx, htask⟩⟩
  rcases hservice.answers c.log c.service hc.run asking hasking hcalled hwaits with
    ⟨s', hwork⟩ | ⟨j, r, s', ⟨y, req, hy, htask⟩, hready⟩ | ⟨j, res, s', ⟨req, hevents⟩, hfinish⟩
  · exact hstuck _ _ ⟨.work hwork, trivial⟩
  · exact not_event_of_stuck hstuck hy (Exchange.exists_ready prost c.lost htask r) (.ready hready)
  · obtain ⟨y, answers, hy, hok⟩ := hc.exists_stream (i := j) (by simp [hevents])
    rw [hevents] at hok
    exact not_event_of_stuck hstuck hy (Exchange.exists_finished prost c.lost hok.task.running res)
      (.finished hfinish)

end

theorem QuietStep.same (h : QuietStep prost service c act c') :
    c'.lost = c.lost ∧ c'.streams.map Exchange.req = c.streams.map Exchange.req := by
  have hset : ∀ {i : Nat} {x x' : Exchange}, c.streams[i]? = some x → x'.req = x.req →
      (c.streams.set i x').map Exchange.req = c.streams.map Exchange.req := by
    intro i x x' hx hreq
    obtain ⟨hi, rfl⟩ := List.getElem?_eq_some_iff.mp hx
    have hi' : i < (c.streams.map Exchange.req).length := by rwa [List.length_map]
    rw [List.map_set, hreq, ← List.getElem_map Exchange.req (h := hi')]
    exact List.set_getElem_self hi'
  obtain ⟨hstep, hquiet⟩ := h
  cases hstep with
  | call hfits => exact absurd hquiet id
  | accept hx hi hy hseen => exact ⟨rfl, hset hx rfl⟩
  | stream hx hstep => exact ⟨rfl, hset hx hstep.same.1⟩
  | event hx hstep hdoes => exact ⟨rfl, hset hx hstep.same.1⟩
  | work hwork => exact ⟨rfl, rfl⟩
  | lose => exact absurd hquiet id

/-- Every run goes on to a state in which nothing can happen but new calls. -/
theorem Connection.exists_stuck (hservice : service.Responsive init)
    {past : List (Connection σ B × ConnectionAct)}
    (h : History (ConnectionStep prost service) (.start init) past c) :
    ∃ past' c', History (ConnectionStep prost service) (.start init) past' c' ∧
      c'.lost = c.lost ∧ c'.streams.map Exchange.req = c.streams.map Exchange.req ∧
      ∀ act c'', ¬ QuietStep prost service c' act c'' := by
  let reached : Connection σ B → Prop := fun c' =>
    (∃ past', History (ConnectionStep prost service) (.start init) past' c') ∧
      c'.lost = c.lost ∧ c'.streams.map Exchange.req = c.streams.map Exchange.req
  have hstep : ∀ s l s', reached s → QuietStep prost service s l s' →
      reached s' ∧ Before service s'.measure s.measure := by
    rintro s l s' ⟨⟨past', hrun⟩, hlost, hreqs⟩ hstep
    obtain ⟨hlost', hreqs'⟩ := hstep.same
    exact ⟨⟨⟨_, hrun.step hstep.1⟩, hlost'.trans hlost, hreqs'.trans hreqs⟩,
      hstep.before (Connection.ok_of_run hrun)⟩
  obtain ⟨c', ⟨⟨past', hrun⟩, hlost, hreqs⟩, hlast⟩ := exists_last (before_wellFounded hservice)
    Connection.measure reached hstep ⟨⟨past, h⟩, rfl, rfl⟩
  exact ⟨past', c', hrun, hlost, hreqs, hlast⟩

/-- **Every call returns, if the service answers in the end.**  From every reachable state no run
goes on forever without new calls, and when nothing can happen but new calls and the loss of the
connection, all calls have returned. -/
theorem concurrent_calls_return (hservice : service.Responsive init)
    {past : List (Connection σ B × ConnectionAct)}
    (h : History (ConnectionStep prost service) (.start init) past c) :
    (∀ run labels, run 0 = c → ¬ Forever (QuietStep prost service) run labels) ∧
      ((∀ act c', ¬ QuietStep prost service c act c') → ∀ x ∈ c.streams, x.client.Returned) := by
  have hc := Connection.ok_of_run h
  refine ⟨fun run labels hrun => ?_, fun hstuck => returned_of_stuck hc hstuck hservice⟩
  exact Forever.false_of_wellFounded (before_wellFounded hservice) Connection.measure
    (Connection.Ok prost service init) (fun _ _ _ hc hstep => ⟨hstep.1.ok hc, hstep.before hc⟩)
    (hrun ▸ hc)

end

end

/-! ## A service with a state -/

section

open Ascii

/-- The handler `unstable_handler` of `tower_middleware.rs`, which fails at the first attempt; the
state counts the attempts. -/
def unstable : Service Nat Bytes where
  ready s _ r s' := r = .ok () ∧ s' = s
  call s _ _ := s
  finish s _ res s' := s' = s + 1 ∧
    res = .ok (if s = 0 then .withText 503 "retry me" else .withText 200 "recovered")
  work _ _ := False

theorem unstable_responsive : unstable.Responsive 0 := by
  refine ⟨⟨fun s => ⟨s, fun _ hwork => absurd hwork id⟩⟩, fun log s _ asking _ _ hwaits => ?_⟩
  obtain ⟨i, hasking | hpending⟩ := hwaits
  · exact .inr (.inl ⟨i, .ok (), s, hasking, rfl, rfl⟩)
  · exact .inr (.inr ⟨i, _, s + 1, hpending, rfl, rfl⟩)

/-- Two calls, until nothing happens any more. -/
theorem exists_two_calls : ∃ past c,
    History (ConnectionStep protobuf unstable) (.start 0) past c ∧ c.streams.length = 2 ∧
      c.lost = false ∧ ∀ act c', ¬ QuietStep protobuf unstable c act c' := by
  have hfits : (fiveTo "/unstable").Fits protobuf := by decide +kernel
  have hcalls : History (ConnectionStep protobuf unstable) (.start 0) _ _ :=
    .step (.step .start (.call hfits)) (.call hfits)
  obtain ⟨past, c, hrun, hlost, hreqs, hstuck⟩ := Connection.exists_stuck unstable_responsive hcalls
  have hlen := congrArg List.length hreqs
  rw [List.length_map] at hlen
  exact ⟨past, c, hrun, hlen, hlost, hstuck⟩

/-- Both calls return what they return alone with the answers that their tasks got. -/
theorem concurrent_calls_two : ∃ past c,
    History (ConnectionStep protobuf unstable) (.start 0) past c ∧ c.streams.length = 2 ∧
      unstable.Run 0 c.log c.service ∧ ∀ i x, c.streams[i]? = some x → ∃ answers : Answers Bytes,
        eventsOf c.log i = answers.events protobuf x.req ∧
          x.client = .done (clientCall protobuf (served protobuf answers) x.req) := by
  obtain ⟨past, c, h, hlen, hlost, hstuck⟩ := exists_two_calls
  obtain ⟨hrun, hall⟩ := concurrent_calls h
  refine ⟨past, c, h, hlen, hrun, fun i x hx => ?_⟩
  obtain ⟨answers, -, hdone, hfailed⟩ := hall i x hx
  have hreturned := returned_of_stuck (Connection.ok_of_run h) hstuck unstable_responsive x
    (List.mem_of_getElem? hx)
  cases hclient : x.client with
  | done res =>
    obtain ⟨hevents, rfl⟩ := hdone res hclient
    exact ⟨answers, hevents, rfl⟩
  | failed => exact absurd (hlost.symm.trans (hfailed hclient)) Bool.false_ne_true
  | _ =>
    rw [hclient] at hreturned
    exact absurd hreturned id

theorem concurrent_calls_return_two : ∃ past c,
    History (ConnectionStep protobuf unstable) (.start 0) past c ∧ c.streams.length = 2 ∧
      ∀ x ∈ c.streams, x.client.Returned := by
  obtain ⟨past, c, h, hlen, -, hstuck⟩ := exists_two_calls
  exact ⟨past, c, h, hlen, (concurrent_calls_return unstable_responsive h).2 hstuck⟩

end

end Stric.Tower
