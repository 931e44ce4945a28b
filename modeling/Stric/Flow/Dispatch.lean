import Stric.Flow.Multicast

/-!
# Local dispatch (`node.rs`)

Both the task of an incoming envelope and `publish` walk over `topic_handlers` and stop at the
first pattern that matches the topic.  `Reaches` says that a list of handler calls is what a
fan-out to all matching patterns would make: each handler of a matching pattern once, no other.

Both paths have this for every iteration order of the map exactly if the patterns that match the
topic all have one handler (`dispatch_iff`).  With two handlers, one of them is never called, and
which one is up to the order (`overlapping_handler_skipped`).
-/

namespace Stric.Flow

open Stric.Pool

namespace FlowNode

variable {γ δ : Type}

/-- A pattern that matches the topic is registered with this handler. -/
def Handles (n : FlowNode γ δ) (topicId : String) (handler : Nat) : Prop :=
  ∃ pattern, n.topicHandlers.lookup pattern = some handler ∧ matchTopic pattern topicId = true

/-- The calls are one for each handler that a matching pattern is registered with. -/
structure Reaches (n : FlowNode γ δ) (flowId topicId : String) (message : δ)
    (calls : List (Delivery δ)) : Prop where
  once : calls.Nodup
  exact : ∀ d, d ∈ calls ↔
    ∃ handler, n.Handles topicId handler ∧ d = ⟨handler, flowId, topicId, message⟩

/-- The tasks of all `subscribe` calls have run. -/
def Subscribed (n : FlowNode γ δ) : Prop :=
  ∀ pattern, pattern ∈ n.localSubscriptions ↔ pattern ∈ n.topicHandlers

/-- The node with its handlers in another iteration order. -/
def reorder (n : FlowNode γ δ) (handlers : HashMap String Nat) : FlowNode γ δ :=
  { n with topicHandlers := handlers }

/-- What `publish` delivers locally, before it looks for routes. -/
def publishLocal (n : FlowNode γ δ) (flowId topicId messageType : String) (payload : Bytes) :
    Option (Delivery δ) :=
  if n.localSubscriptions.any fun pattern => matchTopic pattern topicId then
    n.deliverLocal flowId topicId messageType payload
  else none

/-! ## The two paths -/

theorem matchedHandler_none {n : FlowNode γ δ} {topicId : String}
    (h : n.matchedHandler topicId = none) (handler : Nat) : ¬ n.Handles topicId handler := by
  rintro ⟨pattern, hl, hmatch⟩
  have hnone := List.find?_eq_none.mp (Option.map_eq_none_iff.mp h)
  exact hnone ⟨pattern, handler⟩ (AList.mem_lookup_iff.mp hl) hmatch

theorem matchedHandler_some {n : FlowNode γ δ} {topicId : String} {handler : Nat}
    (h : n.matchedHandler topicId = some handler) : n.Handles topicId handler := by
  obtain ⟨entry, hfind, rfl⟩ := Option.map_eq_some_iff.mp h
  have hmatch := List.find?_some hfind
  exact ⟨entry.1, AList.mem_lookup_iff.mpr (List.mem_of_find?_eq_some hfind), hmatch⟩

/-- A decodable message is delivered to the first handler that matches. -/
theorem reaches_deliverLocal_iff {n : FlowNode γ δ} {flowId topicId messageType : String}
    {payload : Bytes} {message : δ}
    (hmsg : MessageRegistry.decode n.registry messageType payload = .ok message) :
    n.Reaches flowId topicId message
        (n.deliverLocal flowId topicId messageType payload).toList ↔
      ∀ h h', n.Handles topicId h → n.Handles topicId h' → h = h' := by
  unfold deliverLocal
  rw [hmsg]
  cases hfirst : n.matchedHandler topicId with
  | none =>
    have hnone := matchedHandler_none hfirst
    refine iff_of_true ⟨List.nodup_nil, fun d => iff_of_false List.not_mem_nil ?_⟩ ?_
    · rintro ⟨handler, hh, -⟩
      exact hnone handler hh
    · intro h h' hh
      exact absurd hh (hnone h)
  | some first =>
    have hhandles := matchedHandler_some hfirst
    constructor
    · intro hreach
      -- one call has room for one handler
      have hone : ∀ h, n.Handles topicId h → h = first := by
        intro h hh
        have hd := (hreach.exact ⟨h, flowId, topicId, message⟩).mpr ⟨h, hh, rfl⟩
        exact congrArg Delivery.handler (List.mem_singleton.mp hd)
      intro h h' hh hh'
      rw [hone h hh, hone h' hh']
    · intro hsame
      refine ⟨List.nodup_singleton _, fun d => ?_⟩
      constructor
      · intro hd
        exact ⟨first, hhandles, List.mem_singleton.mp hd⟩
      · rintro ⟨handler, hh, rfl⟩
        rw [hsame handler first hh hhandles]
        exact List.mem_singleton_self _

/-- Once the tasks of `subscribe` have run, `publish` delivers as an incoming envelope would. -/
theorem publishLocal_eq {n : FlowNode γ δ} (hsubs : n.Subscribed)
    (flowId topicId messageType : String) (payload : Bytes) :
    n.publishLocal flowId topicId messageType payload =
      n.deliverLocal flowId topicId messageType payload := by
  unfold publishLocal
  split
  · rfl
  · next hnot =>
    -- no local subscription matches, so no handler does
    have hnone : n.matchedHandler topicId = none := by
      rw [Option.eq_none_iff_forall_ne_some]
      intro handler hsome
      obtain ⟨pattern, hl, hmatch⟩ := matchedHandler_some hsome
      have hmem : pattern ∈ n.topicHandlers := by
        rw [← AList.lookup_isSome, hl]
        rfl
      exact hnot (List.any_eq_true.mpr ⟨pattern, (hsubs pattern).mpr hmem, hmatch⟩)
    unfold deliverLocal
    rw [hnone]
    split <;> rfl

theorem handles_reorder {n : FlowNode γ δ} {handlers : HashMap String Nat}
    (hperm : handlers.entries.Perm n.topicHandlers.entries) (topicId : String) (handler : Nat) :
    (n.reorder handlers).Handles topicId handler ↔ n.Handles topicId handler := by
  unfold Handles
  refine exists_congr fun pattern => and_congr_left fun _ => ?_
  show handlers.lookup pattern = _ ↔ _
  rw [AList.perm_lookup hperm]

theorem Reaches.congr {n n' : FlowNode γ δ} {flowId topicId : String} {message : δ}
    {calls : List (Delivery δ)} (hr : n'.Reaches flowId topicId message calls)
    (h : ∀ handler, n'.Handles topicId handler ↔ n.Handles topicId handler) :
    n.Reaches flowId topicId message calls := by
  refine ⟨hr.once, fun d => (hr.exact d).trans ?_⟩
  exact exists_congr fun handler => and_congr_left fun _ => h handler

/-! ## Every iteration order -/

variable [PetGraph γ]

theorem publish_delivery {η : Type} [BinaryHeap η] {b : Build} {clock : Clock} {nonce : String}
    {n : FlowNode γ δ} {flowId topicId messageType : String} {codec : Codec} {payload : Bytes}
    {out : Published δ}
    (h : n.publish η b clock nonce flowId topicId messageType codec payload = .ok out) :
    out.delivery = n.publishLocal flowId topicId messageType payload := by
  unfold publish at h
  simp only at h
  split at h
  · cases h
    rfl
  · cases ht : n.graph.computeForwardingTable η b n.nodeId (n.subscribers topicId) with
    | error e =>
      rw [ht] at h
      cases h
    | ok table =>
      rw [ht, except_ok_bind] at h
      cases h
      rfl

/-- Both delivery paths call the handlers of `n` that match: for every envelope with this topic
and message, and for every call of `publish`. -/
structure Dispatches (η : Type) [BinaryHeap η] (n n' : FlowNode γ δ)
    (flowId topicId messageType : String) (payload : Bytes) (message : δ) : Prop where
  received : ∀ (envelope : Envelope) (header : RoutingHeader), envelope.header = some header →
    header.flowId = flowId → header.topicId = topicId → envelope.messageType = messageType →
    envelope.payload = payload →
    n.Reaches flowId topicId message (n'.receive envelope).1.toList
  publishing : n.Reaches flowId topicId message
    (n'.publishLocal flowId topicId messageType payload).toList
  published : ∀ (b : Build) (clock : Clock) (nonce : String) (codec : Codec) (out : Published δ),
    n'.publish η b clock nonce flowId topicId messageType codec payload = .ok out →
    n.Reaches flowId topicId message out.delivery.toList

/-- **When local dispatch reaches every matching handler.**  For every iteration order of the
map, both delivery paths call exactly the handlers whose pattern matches the topic, each once,
exactly if all patterns that match the topic are registered with one handler. -/
theorem dispatch_iff (η : Type) [BinaryHeap η] (n : FlowNode γ δ) (hsubs : n.Subscribed)
    (flowId topicId messageType : String) (payload : Bytes) (message : δ)
    (hmsg : MessageRegistry.decode n.registry messageType payload = .ok message) :
    (∀ handlers : HashMap String Nat, handlers.entries.Perm n.topicHandlers.entries →
      Dispatches η n (n.reorder handlers) flowId topicId messageType payload message) ↔
    ∀ p q h h', n.topicHandlers.lookup p = some h → matchTopic p topicId = true →
      n.topicHandlers.lookup q = some h' → matchTopic q topicId = true → h = h' := by
  constructor
  · intro hall p q h h' hp hpm hq hqm
    have hreach := (hall n.topicHandlers (.refl _)).publishing
    change n.Reaches flowId topicId message
      (n.publishLocal flowId topicId messageType payload).toList at hreach
    rw [publishLocal_eq hsubs, reaches_deliverLocal_iff hmsg] at hreach
    exact hreach h h' ⟨p, hp, hpm⟩ ⟨q, hq, hqm⟩
  · intro hsame handlers hperm
    have hsubs' : (n.reorder handlers).Subscribed := by
      intro pattern
      rw [← AList.lookup_isSome]
      show _ ↔ (handlers.lookup pattern).isSome = true
      rw [AList.perm_lookup hperm, AList.lookup_isSome]
      exact hsubs pattern
    have hlocal : n.Reaches flowId topicId message
        ((n.reorder handlers).deliverLocal flowId topicId messageType payload).toList := by
      refine Reaches.congr ((reaches_deliverLocal_iff (n := n.reorder handlers) hmsg).mpr
        fun h h' hh hh' => ?_) (handles_reorder hperm topicId)
      obtain ⟨p, hp, hpm⟩ := (handles_reorder hperm topicId h).mp hh
      obtain ⟨q, hq, hqm⟩ := (handles_reorder hperm topicId h').mp hh'
      exact hsame p q h h' hp hpm hq hqm
    refine ⟨?_, ?_, ?_⟩
    · rintro envelope header hhead rfl rfl rfl rfl
      unfold receive
      rw [hhead]
      exact hlocal
    · rw [publishLocal_eq hsubs']
      exact hlocal
    · intro b clock nonce codec out hout
      rw [publish_delivery hout, publishLocal_eq hsubs']
      exact hlocal

end FlowNode

/-! ## Overlapping patterns -/

/-- A node with the handlers 0 on `a.*` and `h` on `a.#`, and a message type it can decode. -/
def overlapNode (h : Nat) : FlowNode VecGraph Bytes :=
  { (.new "n" ((∅ : MessageRegistry Bytes).insert "raw" .ok) : FlowNode VecGraph Bytes) with
    topicHandlers := ((∅ : HashMap String Nat).insert "a.*" 0).insert "a.#" h
    localSubscriptions := ["a.*", "a.#"] }

theorem overlapNode_subscribed (h : Nat) : (overlapNode h).Subscribed := by
  intro pattern
  rw [AList.mem_keys]
  exact (List.Perm.swap _ _ _).mem_iff

/-- Handler 0 is not called for `a.b`, though its pattern matches; in the other iteration order
handler 1 is not. -/
theorem overlapping_handler_skipped :
    let n := overlapNode 1
    let handlers := ((∅ : HashMap String Nat).insert "a.#" 1).insert "a.*" 0
    let envelope : Envelope := ⟨some ⟨"p", "f", "a.b", "", "", 0, 0, 0, ∅⟩, "raw", 0, [7]⟩
    n.Subscribed ∧ handlers.entries.Perm n.topicHandlers.entries ∧
    (n.receive envelope).1 = some ⟨1, "f", "a.b", [7]⟩ ∧
    ((n.reorder handlers).receive envelope).1 = some ⟨0, "f", "a.b", [7]⟩ ∧
    ¬ n.Reaches "f" "a.b" [7] (n.receive envelope).1.toList := by
  intro n handlers envelope
  refine ⟨overlapNode_subscribed 1, List.Perm.swap _ _ _, rfl, rfl, fun hreach => ?_⟩
  have hzero : n.Handles "a.b" 0 := ⟨"a.*", rfl, by decide⟩
  have hcall := (hreach.exact ⟨0, "f", "a.b", [7]⟩).mpr ⟨0, hzero, rfl⟩
  have heq : (0 : Nat) = 1 := congrArg Delivery.handler (List.mem_singleton.mp hcall)
  exact absurd heq (by decide)

/-- One handler on both patterns is called once, also in the other order. -/
theorem shared_handler_called_once :
    let handlers := ((∅ : HashMap String Nat).insert "a.#" 0).insert "a.*" 0
    handlers.entries.Perm (overlapNode 0).topicHandlers.entries ∧
    FlowNode.Dispatches ListHeap (overlapNode 0) ((overlapNode 0).reorder handlers)
      "f" "a.b" "raw" [7] [7] := by
  intro handlers
  have hzero : ∀ p h, (overlapNode 0).topicHandlers.lookup p = some h → h = 0 := by
    intro p h hl
    rcases List.mem_cons.mp (AList.mem_lookup_iff.mp hl) with heq | hmem
    · cases heq
      rfl
    · cases List.mem_singleton.mp hmem
      rfl
  have hperm : handlers.entries.Perm (overlapNode 0).topicHandlers.entries := List.Perm.swap _ _ _
  refine ⟨hperm, (FlowNode.dispatch_iff ListHeap (overlapNode 0) (overlapNode_subscribed 0)
    "f" "a.b" "raw" [7] [7] rfl).mpr (fun p q h h' hp _ hq _ => ?_) handlers hperm⟩
  rw [hzero p h hp, hzero q h' hq]

end Stric.Flow
