import Stric.Tower.Wire

/-!
# Headers and the order of the map (`client.rs`, `server.rs`)

The map of an envelope is iterated in an order that differs between processes, and each entry is
inserted under its name in lower case, over what is there.  So two entries whose keys differ only
in case, with different values, leave the one that came last.

    the headers are the same in every order, exactly if entries with one name have one value

is `headers_order_iff`, for the request that the server hands to its service and for the response
that the client yields.
-/

namespace Stric.Tower

open Stric.Pool

/-! ## Maps filled in any order -/

section
variable {α κ υ : Type} [DecidableEq κ]

/-- The pair that comes last is in the map. -/
theorem HashMap.lookup_collect_last {f : α → Option (κ × υ)} (l : List α) {a : α} {k : κ} {v : υ}
    (h : f a = some (k, v)) : (HashMap.collect f (l ++ [a])).lookup k = some v := by
  rw [HashMap.collect_concat, h]
  exact AList.lookup_insert _

/-- Filling a map gives the same in every order exactly if no key gets two values. -/
theorem HashMap.collect_order_iff {f : α → Option (κ × υ)} {l : List α} :
    (∀ l₁ l₂ : List α, l₁.Perm l → l₂.Perm l → ∀ k,
      (HashMap.collect f l₁).lookup k = (HashMap.collect f l₂).lookup k) ↔
    ∀ a ∈ l, ∀ b ∈ l, ∀ k v w, f a = some (k, v) → f b = some (k, w) → v = w := by
  constructor
  · intro hall a ha b hb k v w hfa hfb
    -- one order ends with `a`, another with `b`
    have hlast : ∀ x ∈ l, ∃ rest : List α, (rest ++ [x]).Perm l := by
      intro x hx
      obtain ⟨s, t, rfl⟩ := List.append_of_mem hx
      exact ⟨s ++ t, (List.perm_append_singleton x (s ++ t)).trans List.perm_middle.symm⟩
    obtain ⟨ra, hra⟩ := hlast a ha
    obtain ⟨rb, hrb⟩ := hlast b hb
    have heq := hall _ _ hra hrb k
    rw [HashMap.lookup_collect_last ra hfa, HashMap.lookup_collect_last rb hfb] at heq
    exact Option.some.inj heq
  · intro hone l₁ l₂ h₁ h₂ k
    have hmem : ∀ l' : List α, l'.Perm l → ∀ v,
        (HashMap.collect f l').lookup k = some v ↔ ∃ a ∈ l, f a = some (k, v) := by
      intro l' h v
      rw [HashMap.lookup_collect fun a ha b hb => hone a (h.mem_iff.mp ha) b (h.mem_iff.mp hb)]
      exact exists_congr fun a => and_congr_left fun _ => h.mem_iff
    exact Option.ext fun v => (hmem l₁ h₁ v).trans (hmem l₂ h₂ v).symm

end

section
variable [HttpHeaders]

theorem HeaderMap.same_iff {m m' : HeaderMap} :
    HeaderMap.Same m m' ↔ ∀ name, m.lookup name = m'.lookup name := by
  refine forall_congr' fun name => ?_
  unfold HeaderMap.getAll
  cases m.lookup name <;> cases m'.lookup name <;> simp [Prod.ext_iff]

/-! ## The two conversions -/

/-- The request the server builds from an envelope. -/
def RequestEnvelope.toRequest (e : RequestEnvelope) : Request Bytes :=
  ⟨e.path, fromWire e.headers, e.payload⟩

/-- The response the client builds from an envelope. -/
def ResponseEnvelope.toResponse (e : ResponseEnvelope) : Response Bytes :=
  ⟨e.statusCode.toUInt16, fromWire e.headers, e.payload⟩

/-- Entries that give one header name give it one value. -/
def OneValue (headers : HashMap String String) : Prop :=
  ∀ e ∈ headers.entries, ∀ e' ∈ headers.entries, ∀ name value value',
    HttpHeaders.nameFromBytes (utf8 e.1) = some name →
    HttpHeaders.nameFromBytes (utf8 e'.1) = some name →
    HttpHeaders.fromStr e.2 = some value → HttpHeaders.fromStr e'.2 = some value' → value = value'

/-- The headers built of the map are the same in any two iteration orders. -/
def OrderFree (build : HashMap String String → HeaderMap) (headers : HashMap String String) : Prop :=
  ∀ h₁ h₂ : HashMap String String, h₁.entries.Perm headers.entries →
    h₂.entries.Perm headers.entries → HeaderMap.Same (build h₁) (build h₂)

theorem headerEntry_eq_some {e : (_ : String) × String} {name : HeaderName}
    {p : HeaderValue × List HeaderValue} : headerEntry e = some (name, p) ↔
      HttpHeaders.nameFromBytes (utf8 e.1) = some name ∧
      ∃ value, HttpHeaders.fromStr e.2 = some value ∧ p = (value, []) := by
  unfold headerEntry
  cases HttpHeaders.nameFromBytes (utf8 e.1) <;> cases HttpHeaders.fromStr e.2 <;>
    simp [eq_comm]

theorem orderFree_fromWire_iff (headers : HashMap String String) :
    OrderFree fromWire headers ↔ OneValue headers := by
  have hlists : OrderFree fromWire headers ↔
      ∀ l₁ l₂ : List ((_ : String) × String), l₁.Perm headers.entries → l₂.Perm headers.entries →
        ∀ name, (HashMap.collect headerEntry l₁).lookup name =
          (HashMap.collect headerEntry l₂).lookup name := by
    -- every order of the entries is the order of a map
    constructor
    · intro h l₁ l₂ h₁ h₂
      have hnodup := headers.nodupKeys
      exact HeaderMap.same_iff.mp
        (h ⟨l₁, (List.perm_nodupKeys h₁).mpr hnodup⟩ ⟨l₂, (List.perm_nodupKeys h₂).mpr hnodup⟩ h₁ h₂)
    · intro h h₁ h₂ hp₁ hp₂
      exact HeaderMap.same_iff.mpr (h h₁.entries h₂.entries hp₁ hp₂)
  rw [hlists, HashMap.collect_order_iff]
  constructor
  · intro h e he e' he' name value value' hn hn' hv hv'
    have heq := h e he e' he' name (value, []) (value', [])
      (headerEntry_eq_some.mpr ⟨hn, value, hv, rfl⟩) (headerEntry_eq_some.mpr ⟨hn', value', hv', rfl⟩)
    exact congrArg Prod.fst heq
  · intro h e he e' he' name p q hf hf'
    obtain ⟨hn, value, hv, rfl⟩ := headerEntry_eq_some.mp hf
    obtain ⟨hn', value', hv', rfl⟩ := headerEntry_eq_some.mp hf'
    rw [h e he e' he' name value value' hn hn' hv hv']

/-- **When decoded headers do not depend on the order of the map**, on the server and on the
client: exactly if entries whose keys give one header name have one value. -/
theorem headers_order_iff (req : RequestEnvelope) (res : ResponseEnvelope) :
    (OrderFree (fun h => { req with headers := h }.toRequest.headers) req.headers ↔
      OneValue req.headers) ∧
    (OrderFree (fun h => { res with headers := h }.toResponse.headers) res.headers ↔
      OneValue res.headers) :=
  ⟨orderFree_fromWire_iff req.headers, orderFree_fromWire_iff res.headers⟩

end

section

open Ascii

/-- `X: a` and `x: b` in one map: which of the two the service sees is up to the order. -/
theorem header_depends_on_order :
    let h₁ := ((∅ : HashMap String String).insert "x" "b").insert "X" "a"
    let h₂ := ((∅ : HashMap String String).insert "X" "a").insert "x" "b"
    h₁.entries.Perm h₂.entries ∧
    HeaderMap.getAll (RequestEnvelope.toRequest ⟨"/", h₁, []⟩).headers nameX = [valueB] ∧
    HeaderMap.getAll (RequestEnvelope.toRequest ⟨"/", h₂, []⟩).headers nameX = [valueA] ∧
    HeaderMap.getAll (ResponseEnvelope.toResponse ⟨200, h₁, []⟩).headers nameX = [valueB] ∧
    HeaderMap.getAll (ResponseEnvelope.toResponse ⟨200, h₂, []⟩).headers nameX = [valueA] := by
  refine ⟨List.Perm.swap _ _ _, ?_, ?_, ?_, ?_⟩ <;> decide +kernel

end

end Stric.Tower
