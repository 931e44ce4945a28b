import Stric.Flow.Wire

/-!
# Topics and subscription capabilities (`routing.rs`, `node.rs`)

`match_topic` compares a pattern with a topic segment by segment, and so decides the language in
which `*` stands for one segment and the first `#` for all that are left (`matchTopic_iff`).  A
node's subscriptions are kept as capabilities of its descriptor, under the keys `sub:<pattern>`:
`subKey` writes such a key and `stripSub` reads it back (`stripSub_eq_some`).
-/

namespace Stric.Flow

/-- `split('.')`. -/
def segments (s : String) : List (List Char) := s.toList.splitOn '.'

/-- The loop of `match_topic` over the remaining segments of pattern and topic. -/
def matchParts : List (List Char) → List (List Char) → Bool
  | [], ts => ts.isEmpty
  | p :: ps, ts =>
    if p = ['#'] then true
    else
      match ts with
      | [] => false
      | t :: ts =>
        if p = ['*'] then matchParts ps ts
        else if p ≠ t then false
        else matchParts ps ts

def matchTopic (pattern topic : String) : Bool := matchParts (segments pattern) (segments topic)

/-! ## The language of a pattern -/

def SegmentMatches (p t : List Char) : Prop := p = ['*'] ∨ p = t

/-- The pattern segments before position `k` match the topic segments at their positions. -/
def MatchesBelow (k : Nat) (ps ts : List (List Char)) : Prop :=
  ∀ i < k, ∀ p t, ps[i]? = some p → ts[i]? = some t → SegmentMatches p t

/-- `k` is the position of the first `#` segment. -/
def FirstHash (ps : List (List Char)) (k : Nat) : Prop :=
  ps[k]? = some ['#'] ∧ ∀ j < k, ps[j]? ≠ some ['#']

theorem matchesBelow_cons (k : Nat) (p t : List Char) (ps ts : List (List Char)) :
    MatchesBelow (k + 1) (p :: ps) (t :: ts) ↔ SegmentMatches p t ∧ MatchesBelow k ps ts := by
  constructor
  · intro h
    refine ⟨h 0 (Nat.succ_pos k) p t rfl rfl, fun i hi p' t' hp ht => ?_⟩
    exact h (i + 1) (Nat.succ_lt_succ hi) p' t' hp ht
  · rintro ⟨hhead, htail⟩ i hi p' t' hp ht
    cases i with
    | zero =>
      cases hp
      cases ht
      exact hhead
    | succ i => exact htail i (Nat.lt_of_succ_lt_succ hi) p' t' hp ht

theorem firstHash_cons_succ {p : List Char} (hp : p ≠ ['#']) (ps : List (List Char)) (k : Nat) :
    FirstHash (p :: ps) (k + 1) ↔ FirstHash ps k := by
  refine and_congr_right fun _ => ⟨fun h j hj => h (j + 1) (Nat.succ_lt_succ hj), ?_⟩
  intro h j hj
  cases j with
  | zero =>
    intro heq
    exact hp (Option.some.inj heq)
  | succ j => exact h j (Nat.lt_of_succ_lt_succ hj)

/-- One round of the loop at a segment that is not `#`. -/
theorem matchParts_cons {p : List Char} (hp : p ≠ ['#']) (t : List Char)
    (ps ts : List (List Char)) :
    matchParts (p :: ps) (t :: ts) = true ↔ SegmentMatches p t ∧ matchParts ps ts = true := by
  unfold SegmentMatches
  rw [matchParts, if_neg hp]
  split
  · next hstar => simp only [hstar, true_or, true_and]
  · next hstar =>
    split
    · next hne => simp only [hstar, hne, or_self, false_and, Bool.false_eq_true]
    · next heq => simp only [not_not.mp heq, or_true, true_and]

theorem matchParts_iff (ps ts : List (List Char)) :
    matchParts ps ts = true ↔
      (['#'] ∉ ps ∧ ps.length = ts.length ∧ MatchesBelow ps.length ps ts) ∨
      ∃ k, FirstHash ps k ∧ k ≤ ts.length ∧ MatchesBelow k ps ts := by
  induction ps generalizing ts with
  | nil =>
    rw [matchParts, List.isEmpty_iff]
    constructor
    · rintro rfl
      exact Or.inl ⟨List.not_mem_nil, rfl, fun i hi => absurd hi (Nat.not_lt_zero i)⟩
    · rintro (⟨-, hlen, -⟩ | ⟨k, ⟨hk, -⟩, -⟩)
      · exact List.eq_nil_of_length_eq_zero hlen.symm
      · simp at hk
  | cons p ps ih =>
    by_cases hp : p = ['#']
    · have hall : matchParts (p :: ps) ts = true := by cases ts <;> rw [matchParts, if_pos hp]
      refine iff_of_true hall (Or.inr ⟨0, ⟨congrArg some hp, fun j hj => ?_⟩, Nat.zero_le _, ?_⟩)
      · exact absurd hj (Nat.not_lt_zero j)
      · exact fun i hi => absurd hi (Nat.not_lt_zero i)
    -- the first segment is not `#`, so the first `#` comes later
    have hfirst : ∀ k, FirstHash (p :: ps) k → ∃ j, k = j + 1 ∧ FirstHash ps j := by
      intro k hk
      cases k with
      | zero => exact absurd (Option.some.inj hk.1) hp
      | succ j => exact ⟨j, rfl, (firstHash_cons_succ hp ps j).mp hk⟩
    cases ts with
    | nil =>
      rw [matchParts, if_neg hp]
      refine iff_of_false Bool.false_ne_true ?_
      rintro (⟨-, hlen, -⟩ | ⟨k, hk, hle, -⟩)
      · exact absurd hlen (Nat.succ_ne_zero _)
      · obtain ⟨j, rfl, -⟩ := hfirst k hk
        exact absurd hle (Nat.not_succ_le_zero j)
    | cons t ts =>
      rw [matchParts_cons hp, ih ts]
      constructor
      · rintro ⟨hseg, ⟨hnone, hlen, hbelow⟩ | ⟨k, hk, hle, hbelow⟩⟩
        · refine Or.inl ⟨?_, congrArg Nat.succ hlen, (matchesBelow_cons _ p t ps ts).mpr
            ⟨hseg, hbelow⟩⟩
          rw [List.mem_cons, not_or]
          exact ⟨Ne.symm hp, hnone⟩
        · exact Or.inr ⟨k + 1, (firstHash_cons_succ hp ps k).mpr hk, Nat.succ_le_succ hle,
            (matchesBelow_cons k p t ps ts).mpr ⟨hseg, hbelow⟩⟩
      · rintro (⟨hnone, hlen, hbelow⟩ | ⟨k, hk, hle, hbelow⟩)
        · obtain ⟨hseg, hbelow⟩ := (matchesBelow_cons _ p t ps ts).mp hbelow
          exact ⟨hseg, Or.inl ⟨fun hmem => hnone (List.mem_cons_of_mem p hmem),
            Nat.succ.inj hlen, hbelow⟩⟩
        · obtain ⟨j, rfl, hj⟩ := hfirst k hk
          obtain ⟨hseg, hbelow⟩ := (matchesBelow_cons j p t ps ts).mp hbelow
          exact ⟨hseg, Or.inr ⟨j, hj, Nat.le_of_succ_le_succ hle, hbelow⟩⟩

/-- **`match_topic` decides the language of its pattern.**  Without a `#` the pattern has as many
segments as the topic and each stands for the one at its position; otherwise this holds up to the
first `#`, which absorbs zero or more segments. -/
theorem matchTopic_iff (pattern topic : String) :
    matchTopic pattern topic = true ↔
      (['#'] ∉ segments pattern ∧ (segments pattern).length = (segments topic).length ∧
        MatchesBelow (segments pattern).length (segments pattern) (segments topic)) ∨
      ∃ k, FirstHash (segments pattern) k ∧ k ≤ (segments topic).length ∧
        MatchesBelow k (segments pattern) (segments topic) :=
  matchParts_iff (segments pattern) (segments topic)

example : matchTopic "sensor.*" "sensor.temperature.celsius" = false := by decide

example : matchTopic "sensor.#" "sensor" = true := by decide

/-! ## `sub:` capabilities -/

def subChars : List Char := ['s', 'u', 'b', ':']

/-- `format!("sub:{}", pattern)`. -/
def subKey (pattern : String) : String := String.ofList (subChars ++ pattern.toList)

/-- `key[4..]`, if `key.starts_with("sub:")`. -/
def stripSub (key : String) : Option String :=
  if subChars.isPrefixOf key.toList then some (String.ofList (key.toList.drop 4)) else none

theorem stripSub_eq_some (key pattern : String) :
    stripSub key = some pattern ↔ key = subKey pattern := by
  unfold stripSub subKey
  split
  · next h =>
    obtain ⟨rest, hr⟩ := List.isPrefixOf_iff_prefix.mp h
    have hdrop : key.toList.drop 4 = rest := by rw [← hr]; rfl
    rw [hdrop, Option.some.injEq]
    constructor
    · rintro rfl
      rw [String.toList_ofList, hr, String.ofList_toList]
    · rintro rfl
      rw [String.toList_ofList] at hr
      rw [List.append_cancel_left hr, String.ofList_toList]
  · next h =>
    simp only [reduceCtorEq, false_iff]
    rintro rfl
    apply h
    rw [String.toList_ofList]
    exact List.isPrefixOf_iff_prefix.mpr (List.prefix_append _ _)

theorem subKey_injective : Function.Injective subKey := by
  intro p q h
  have hp := (stripSub_eq_some (subKey p) p).mpr rfl
  rw [h, (stripSub_eq_some (subKey q) q).mpr rfl] at hp
  exact (Option.some.inj hp).symm

/-- The patterns a descriptor's `sub:` capabilities subscribe to. -/
def NodeDescriptor.subscriptions (d : NodeDescriptor) : List String :=
  d.capabilities.keys.filterMap stripSub

theorem NodeDescriptor.mem_subscriptions (d : NodeDescriptor) (pattern : String) :
    pattern ∈ d.subscriptions ↔ subKey pattern ∈ d.capabilities := by
  unfold NodeDescriptor.subscriptions
  rw [List.mem_filterMap, AList.mem_keys]
  constructor
  · rintro ⟨key, hk, hs⟩
    rwa [← (stripSub_eq_some key pattern).mp hs]
  · intro hk
    exact ⟨_, hk, (stripSub_eq_some _ _).mpr rfl⟩

end Stric.Flow
