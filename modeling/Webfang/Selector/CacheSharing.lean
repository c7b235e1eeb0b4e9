import Mathlib.Data.List.Induction
import Webfang.Selector.AdaptiveEngine

/-!
# Who an answer from the selector cache belongs to

The hasher keeps only its last `write`. For a text that is the byte `0xff`, and for a hash of a
hash it is the inner one, so every request of every engine has one and the same key.
-/
namespace Webfang.Selector

open Std

/-! ### The key -/

/-- Everything that was written before the last call of `write` is lost. -/
@[simp]
theorem FnvHasher.write_write (hasher : FnvHasher) (bytes more : List UInt8) :
    (hasher.write bytes).write more = hasher.write more := rfl

theorem structuralHash_eq (tagCounts other : TagCounts) :
    structuralHash tagCounts = structuralHash other := by
  simp only [structuralHash, hashStr, FnvHasher.write_write]

theorem cacheKey_eq (selector other : String) (hash : UInt64) :
    cacheKey selector hash = cacheKey other hash := by
  simp only [cacheKey, hashStr, hashU64, FnvHasher.write_write]

theorem key_eq (request other : Request) : request.key = other.key := by
  unfold Request.key Request.structuralHash
  rw [structuralHash_eq request.tagCounts other.tagCounts]
  exact cacheKey_eq request.selector other.selector _

variable {floats : Floats}

/-! ### One call -/

theorem cacheGet_eq_some {cache : Cache floats} {key : UInt64} {now : Instant}
    {entry : CachedEntry floats} :
    cacheGet cache key now = some entry ↔ cache[key]? = some entry ∧ now < entry.expiresAt := by
  simp [cacheGet, Option.filter_eq_some_iff]

/-- The producers of the entries are among `requests`. -/
def Held (requests : List Request) (cache : Cache floats) : Prop :=
  ∀ (key : UInt64) (entry : CachedEntry floats), cache[key]? = some entry →
    entry.producer ∈ requests

theorem Held.mono {requests more : List Request} {cache : Cache floats}
    (held : Held requests cache) (subset : requests ⊆ more) : Held more cache :=
  fun key entry found => subset (held key entry found)

namespace Engine

variable {engine : Engine floats} {cache : Cache floats} {call : Call floats}

theorem cacheInsert_held {requests : List Request} (held : Held requests cache)
    {request : Request} (listed : request ∈ requests) (outcome : AdaptiveRepairOutcome floats) :
    Held requests (engine.cacheInsert cache call request outcome) := by
  intro key entry found
  simp only [cacheInsert, ExtTreeMap.getElem?_insert] at found
  split at found
  · obtain rfl := Option.some.inj found
    exact listed
  · split at found
    · rw [ExtTreeMap.getElem?_filter] at found
      obtain ⟨present, -⟩ := Option.pfilter_eq_some_iff.mp found
      exact held key entry present
    · exact held key entry found

/-- What a call that misses the cache does to it: nothing, or it stores its own outcome. -/
def Missed (engine : Engine floats) (cache : Cache floats) (call : Call floats) (request : Request)
    (after : Cache floats × Answer floats) : Prop :=
  after.2.producer = none ∧
    (after.1 = cache ∨ ∃ outcome, after.1 = engine.cacheInsert cache call request outcome)

theorem store_missed (request : Request) (outcome : AdaptiveRepairOutcome floats) :
    engine.Missed cache call request (engine.store cache call request outcome) :=
  ⟨rfl, .inr ⟨outcome, rfl⟩⟩

theorem tier1Fallback_missed (inspection : Inspection floats) (latencyMs : Nat) :
    engine.Missed cache call inspection.request
      (engine.tier1Fallback cache call inspection latencyMs) := by
  unfold tier1Fallback
  split
  · exact ⟨rfl, .inl rfl⟩
  · apply store_missed

theorem tier2_missed (inspection : Inspection floats) :
    engine.Missed cache call inspection.request (engine.tier2 cache call inspection) := by
  unfold tier2
  split
  · apply tier1Fallback_missed
  · split
    · apply store_missed
    · apply tier1Fallback_missed
    · apply tier1Fallback_missed

theorem cascade_cases (engine : Engine floats) (cache : Cache floats) (call : Call floats)
    (inspection : Inspection floats) :
    (∃ entry, cache[inspection.request.key]? = some entry ∧ call.readAt < entry.expiresAt ∧
        engine.cascade cache call inspection =
          (cache, ⟨.ok entry.outcome.flagged, some entry.producer⟩)) ∨
      engine.Missed cache call inspection.request (engine.cascade cache call inspection) := by
  unfold cascade
  cases found : cacheGet cache inspection.request.key call.readAt with
  | some entry =>
    left
    obtain ⟨present, fresh⟩ := cacheGet_eq_some.mp found
    exact ⟨entry, present, fresh, rfl⟩
  | none =>
    right
    simp only
    split
    · apply store_missed
    · apply tier2_missed

theorem request_of_ok {inspection : Inspection floats} (inspected : call.inspection = .ok inspection) :
    call.request = some inspection.request := by
  simp [Call.request, inspected, Except.toOption]

theorem selectSyncAware_held (engine : Engine floats) {requests : List Request}
    (held : Held requests cache) (call : Call floats) :
    Held (requests ++ call.request.toList) (engine.selectSyncAware cache call).1 := by
  unfold selectSyncAware
  cases inspected : call.inspection with
  | error kind => exact held.mono (by simp)
  | ok inspection =>
    have same := request_of_ok inspected
    have listed : inspection.request ∈ requests ++ call.request.toList := by simp [same]
    have kept := held.mono (List.subset_append_left requests call.request.toList)
    obtain ⟨entry, -, -, hit⟩ | ⟨-, untouched | ⟨outcome, stored⟩⟩ :=
      engine.cascade_cases cache call inspection
    · simpa only [hit] using kept
    · simpa only [untouched] using kept
    · simp only [stored]
      exact cacheInsert_held kept listed outcome

/-- An answer from the cache is that of an entry under the call's own key. -/
theorem selectSyncAware_hit {producer : Request}
    (answered : (engine.selectSyncAware cache call).2.producer = some producer) :
    ∃ request entry, call.request = some request ∧ cache[request.key]? = some entry ∧
      entry.producer = producer ∧
      (engine.selectSyncAware cache call).2.result = .ok entry.outcome.flagged := by
  unfold selectSyncAware at answered ⊢
  cases inspected : call.inspection with
  | error kind => simp [inspected] at answered
  | ok inspection =>
    simp only [inspected] at answered ⊢
    obtain ⟨entry, present, -, hit⟩ | ⟨missed, -⟩ :=
      engine.cascade_cases cache call inspection
    · rw [hit] at answered ⊢
      exact ⟨inspection.request, entry, request_of_ok inspected, present,
        Option.some.inj answered, rfl⟩
    · simp [missed] at answered

end Engine

/-! ### Runs -/

def requests (calls : List (Call floats)) : List Request := calls.filterMap Call.request

namespace Engine

variable {engine : Engine floats}

theorem runCalls_snoc (before : List (Call floats)) (call : Call floats) :
    engine.runCalls (before ++ [call]) = (engine.selectSyncAware (engine.runCalls before) call).1 := by
  simp [runCalls]

theorem runCalls_held (calls : List (Call floats)) :
    Held (requests calls) (engine.runCalls calls) := by
  induction calls using List.reverseRecOn with
  | nil =>
    intro key entry found
    simp [runCalls] at found
  | append_singleton before call ih =>
    rw [runCalls_snoc]
    have held := selectSyncAware_held engine ih call
    have grown : requests (before ++ [call]) = requests before ++ call.request.toList := by
      cases asked : call.request <;> simp [requests, asked]
    rwa [grown]

/-- Each answer from the cache was stored by an earlier call with the same request, and no two
different requests share an entry. -/
def Sound (engine : Engine floats) (calls : List (Call floats)) : Prop :=
  (∀ before call after, calls = before ++ call :: after →
    ∀ producer, (engine.answer before call).producer = some producer →
      producer ∈ requests before ∧ call.request = some producer) ∧
  ∀ a ∈ requests calls, ∀ b ∈ requests calls, a ≠ b → a.key ≠ b.key

/-- Every call that gets as far as the cache has the same selector and tag counts. -/
def OneRequest (calls : List (Call floats)) : Prop :=
  ∀ a ∈ requests calls, ∀ b ∈ requests calls, a = b

/-- Any second request before the entry expires is answered with the first one's outcome. -/
theorem answered_from_first {first second : Call floats} {inspection inspection' : Inspection floats}
    {best : SelectorSuggestion floats} (inspected : first.inspection = .ok inspection)
    (inspected' : second.inspection = .ok inspection') (found : inspection.bestTier1 = some best)
    (confident : floats.gt best.score engine.lexicalThreshold = true)
    (unexpired : second.readAt < first.storedAt + engine.cacheTtl) :
    engine.answer [first] second =
      ⟨.ok (acceptTier1 best inspection.tier1Score).flagged, some inspection.request⟩ := by
  have missed : cacheGet (∅ : Cache floats) inspection.request.key first.readAt = none := by
    simp [cacheGet]
  have ran : engine.runCalls [first] = engine.cacheInsert ∅ first inspection.request
      (acceptTier1 best inspection.tier1Score) := by
    simp [runCalls, selectSyncAware, inspected, cascade, missed, found, Option.filter, confident,
      store]
  have hit : cacheGet (engine.runCalls [first]) inspection'.request.key second.readAt =
      some ⟨acceptTier1 best inspection.tier1Score, first.storedAt + engine.cacheTtl,
        inspection.request⟩ := by
    rw [cacheGet_eq_some, ran, key_eq inspection'.request inspection.request]
    exact ⟨by simp [cacheInsert], unexpired⟩
  simp only [answer, selectSyncAware, inspected', cascade, hit]

/-- A run's cache is sound if and only if the run never asks for two different things. Where it does, the
second is answered with what was selected for the first, if that was stored and has not expired. -/
theorem sound_iff (engine : Engine floats) (calls : List (Call floats)) :
    (engine.Sound calls ↔ OneRequest calls) ∧
    ∀ (first second : Call floats) (inspection inspection' : Inspection floats) (best : SelectorSuggestion floats),
      first.inspection = .ok inspection → second.inspection = .ok inspection' →
      inspection.bestTier1 = some best → floats.gt best.score engine.lexicalThreshold = true →
      second.readAt < first.storedAt + engine.cacheTtl →
      engine.answer [first] second =
        ⟨.ok (acceptTier1 best inspection.tier1Score).flagged, some inspection.request⟩ := by
  refine ⟨⟨?_, ?_⟩, fun _ _ _ _ _ => answered_from_first⟩
  · rintro ⟨-, separate⟩ a listed b listed'
    by_contra distinct
    exact separate a listed b listed' distinct (key_eq a b)
  · intro one
    refine ⟨?_, fun a listed b listed' distinct => absurd (one a listed b listed') distinct⟩
    rintro before call after rfl producer answered
    obtain ⟨request, entry, asked, present, same, -⟩ := selectSyncAware_hit answered
    have stored : producer ∈ requests before := by
      rw [← same]
      exact runCalls_held before request.key entry present
    -- the stored request and this one are both of the run, so they are the same
    have listed : producer ∈ requests (before ++ call :: after) := by
      simp only [requests, List.filterMap_append, List.mem_append]
      exact .inl stored
    have listed' : request ∈ requests (before ++ call :: after) := by
      simp [requests, asked]
    rw [one producer listed request listed']
    exact ⟨one producer listed request listed' ▸ stored, asked⟩

end Engine

/-! ### FNV-1a over the concatenation -/

def fnv1a (bytes : List UInt8) : UInt64 := bytes.foldl FnvHasher.step FnvHasher.offsetBasis

def structuralBytes (request : Request) : List UInt8 :=
  (combined request.tagCounts).toUTF8.toList ++ [0xff]

def keyBytes (request : Request) (structuralHash : UInt64) : List UInt8 :=
  request.selector.toUTF8.toList ++ [0xff] ++ leBytes structuralHash

/-- All that the hashers of a request are fed, with the code's structural hash and with the one
over the concatenation. -/
def fedBytes (request : Request) : List (List UInt8) :=
  [structuralBytes request, keyBytes request request.structuralHash,
    keyBytes request (fnv1a (structuralBytes request))]

def NoCollision (calls : List (Call floats)) : Prop :=
  ∀ a ∈ (requests calls).flatMap fedBytes, ∀ b ∈ (requests calls).flatMap fedBytes,
    fnv1a a = fnv1a b → a = b

/-! Two selectors on one page, each with a confident lexical suggestion. -/

namespace TwoSelectors

/-- Scores as whole percentages. -/
def percent : Floats where
  F64 := Nat
  F32 := Nat
  zero := 0
  partialCmp a b := some (compare a b)
  gt a b := b < a
  ge a b := b ≤ a
  widen := id

def engine : Engine percent := ⟨false, (85 : Nat), (75 : Nat), 1800, 10000⟩

def report : DomStructureReport :=
  ⟨.ofList [("html", 1), ("head", 1), ("body", 1), ("span", 2)], [], []⟩

def call (selector suggestion : String) (now : Instant) : Call percent where
  htmlRaw := "<span class=\"price-tag\">9</span><span class=\"headline\">Tea</span>"
  selector := selector
  domain := none
  inspected := .ok report
  suggested := .ok [⟨suggestion, (90 : Nat)⟩]
  fragmented := .ok report
  permit := true
  findSemanticMatch := fun _ => .ok none
  tier2LatencyMs := 0
  readAt := now
  purgedAt := now
  storedAt := now

def price : Call percent := call ".price" ".price-tag" 1

def headlines : Call percent := call ".headlines" ".headline" 2

end TwoSelectors

open TwoSelectors in
/-- The repair of `.headlines` is the one found for `.price`. -/
theorem other_selector_answered :
    NoCollision [price, headlines] ∧
      (∃ trace, (engine.answer [price] headlines).result =
        .ok ⟨⟨".price-tag", (90 : Nat)⟩, .repaired, trace⟩) ∧
      ¬ ∀ (floats : Floats) (engine : Engine floats) (calls : List (Call floats)),
        NoCollision calls → engine.Sound calls := by
  have apart : NoCollision [price, headlines] := by
    unfold NoCollision
    decide +kernel
  have unexpired : headlines.readAt < price.storedAt + engine.cacheTtl := by decide
  have answered : engine.answer [price] headlines =
      ⟨.ok (Engine.acceptTier1 ⟨".price-tag", (90 : Nat)⟩ (90 : Nat)).flagged,
        some ⟨".price", report.tagCounts⟩⟩ :=
    Engine.answered_from_first rfl rfl rfl rfl unexpired
  refine ⟨apart, ⟨_, by rw [answered]; rfl⟩, fun sound => ?_⟩
  obtain ⟨hits, -⟩ := sound percent engine [price, headlines] apart
  obtain ⟨-, same⟩ := hits [price] headlines [] rfl _ (congrArg Answer.producer answered)
  have selector := congrArg (Option.map Request.selector) same
  exact absurd selector (by decide)

end Webfang.Selector
