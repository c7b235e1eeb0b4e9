import Mathlib.Algebra.Order.Ring.Int

/-!
# The adaptive selector engine

`application/adaptive_engine`: a failed selector is repaired from lexical suggestions (Tier 1)
or by a semantic match (Tier 2), and the outcome is kept in a cache under a 64-bit key. A cache
entry also names the request that stored it, which the code does not keep and no decision reads.
-/
namespace Webfang.Selector

open Std

/-! ### The hasher and what `std`'s `Hash` feeds it -/

structure FnvHasher where
  state : UInt64

namespace FnvHasher

def default : FnvHasher := ⟨0⟩

def offsetBasis : UInt64 := 0xcbf29ce484222325

def step (h : UInt64) (b : UInt8) : UInt64 := (h ^^^ b.toUInt64) * 0x100000001b3

/-- Each `write` starts from the offset basis and overwrites the state. -/
def write (_ : FnvHasher) (bytes : List UInt8) : FnvHasher := ⟨bytes.foldl step offsetBasis⟩

def finish (hasher : FnvHasher) : UInt64 := hasher.state

end FnvHasher

def leBytes (value : UInt64) : List UInt8 :=
  (List.range 8).map fun i => (value >>> (8 * i).toUInt64).toUInt8

/-- `str::hash`: the bytes in one write, then `0xff` in another. -/
def hashStr (hasher : FnvHasher) (text : String) : FnvHasher :=
  (hasher.write text.toUTF8.toList).write [0xff]

def hashU64 (hasher : FnvHasher) (value : UInt64) : FnvHasher := hasher.write (leBytes value)

abbrev TagCounts := ExtTreeMap String Nat

/-- `tag:count,` for each tag, sorted by tag. -/
def combined (tagCounts : TagCounts) : String :=
  tagCounts.toList.foldl (fun text (tag, count) => text ++ tag ++ ":" ++ toString count ++ ",") ""

def structuralHash (tagCounts : TagCounts) : UInt64 :=
  (hashStr .default (combined tagCounts)).finish

def cacheKey (selector : String) (structuralHash : UInt64) : UInt64 :=
  (hashU64 (hashStr .default selector) structuralHash).finish

/-! ### Data -/

/-- The two float types: `gt` and `ge` are `>` and `>=`, `widen` is the cast. -/
structure Floats where
  F64 : Type
  F32 : Type
  zero : F64
  partialCmp : F64 → F64 → Option Ordering
  gt : F64 → F64 → Bool
  ge : F32 → F32 → Bool
  widen : F32 → F64

abbrev Instant := Nat

structure DomStructureReport where
  tagCounts : TagCounts
  commonClasses : List (String × Nat)
  commonIds : List (String × Nat)

inductive TierSource where
  | lexical
  | semantic

inductive RepairStatus where
  | original
  | repaired
  | degraded
  deriving DecidableEq, Repr

/-- What a call asks for, as far as the cache is concerned. -/
structure Request where
  selector : String
  tagCounts : TagCounts

section Data

variable (floats : Floats)

structure SelectorSuggestion where
  selector : String
  score : floats.F64

structure SemanticMatch where
  selector : String
  confidence : floats.F32
  source : TierSource

structure SemanticContext where
  targetText : String
  domFragments : List String
  domainHint : Option String

structure RepairFailureDiagnostic where
  tier1Best : Option (SelectorSuggestion floats)
  tier2Best : Option (SemanticMatch floats)
  candidatesEvaluated : Nat
  structuralHash : UInt64

inductive SelectorErrorKind where
  | zeroMatches
  | invalidSelector (message : String)
  | emptyDocument
  | repairInconclusive (diagnostic : RepairFailureDiagnostic floats)
  | blockingTaskFailed (message : String)

structure CascadeTrace where
  tier1Score : floats.F64
  tier2Score : Option floats.F32
  tier2LatencyMs : Nat
  cacheHit : Bool

structure AdaptiveRepairOutcome where
  suggestion : SelectorSuggestion floats
  status : RepairStatus
  trace : Option (CascadeTrace floats)

structure CachedEntry where
  outcome : AdaptiveRepairOutcome floats
  expiresAt : Instant
  /-- Not in the code: the request of the call that stored the entry. -/
  producer : Request

abbrev Cache := ExtTreeMap UInt64 (CachedEntry floats)

/-- One call of `select_sync_aware`: its arguments, what the blocking tasks and the semantic
provider answer, and what the clock reads. A task that fails gives its error's text. -/
structure Call where
  htmlRaw : String
  selector : String
  domain : Option String
  inspected : Except String DomStructureReport
  suggested : Except String (List (SelectorSuggestion floats))
  fragmented : Except String DomStructureReport
  permit : Bool
  findSemanticMatch :
    SemanticContext → Except (SelectorErrorKind floats) (Option (SemanticMatch floats))
  tier2LatencyMs : Nat
  readAt : Instant
  purgedAt : Instant
  storedAt : Instant

structure Engine where
  hasSemantic : Bool
  lexicalThreshold : floats.F64
  semanticThreshold : floats.F32
  cacheTtl : Nat
  maxCacheEntries : Nat

/-- The result of a call and, where it came from the cache, who stored it. -/
structure Answer where
  result : Except (SelectorErrorKind floats) (AdaptiveRepairOutcome floats)
  producer : Option Request

/-- What the blocking tasks of a call hand to the cascade. -/
structure Inspection where
  request : Request
  bestTier1 : Option (SelectorSuggestion floats)
  ctx : SemanticContext

end Data

variable {floats : Floats}

/-! ### Before the cascade -/

/-- `Iterator::max_by`: of equal elements the last. -/
def maxBy {α : Type} (compare : α → α → Ordering) : List α → Option α
  | [] => none
  | first :: rest =>
    some (rest.foldl (fun best other => if compare best other = .gt then best else other) first)

def best (suggestions : List (SelectorSuggestion floats)) : Option (SelectorSuggestion floats) :=
  maxBy (fun a b => (floats.partialCmp a.score b.score).getD .eq) suggestions

namespace Call

variable (call : Call floats)

def blockingTask {α : Type} (name : String) (task : Except String α) :
    Except (SelectorErrorKind floats) α :=
  task.mapError fun e => .blockingTaskFailed (name ++ " task failed: " ++ e)

def inspection : Except (SelectorErrorKind floats) (Inspection floats) := do
  let report ← blockingTask "tier1 structural hash" call.inspected
  let t1Suggestions ← blockingTask "tier1 suggestion" call.suggested
  let fragments ← blockingTask "dom fragment extraction" call.fragmented
  return {
    request := ⟨call.selector, report.tagCounts⟩
    bestTier1 := best t1Suggestions
    ctx := {
      targetText := call.htmlRaw
      domFragments := fragments.commonClasses.map Prod.fst ++ fragments.commonIds.map Prod.fst
      domainHint := call.domain } }

def request : Option Request := call.inspection.toOption.map Inspection.request

end Call

def Request.structuralHash (request : Request) : UInt64 := Selector.structuralHash request.tagCounts

def Request.key (request : Request) : UInt64 := cacheKey request.selector request.structuralHash

def Inspection.tier1Score (inspection : Inspection floats) : floats.F64 :=
  (inspection.bestTier1.map SelectorSuggestion.score).getD floats.zero

/-! ### The cascade -/

def AdaptiveRepairOutcome.repaired (suggestion : SelectorSuggestion floats)
    (trace : CascadeTrace floats) : AdaptiveRepairOutcome floats :=
  ⟨suggestion, .repaired, some trace⟩

def AdaptiveRepairOutcome.flagged (outcome : AdaptiveRepairOutcome floats) :
    AdaptiveRepairOutcome floats :=
  { outcome with trace := outcome.trace.map fun trace => { trace with cacheHit := true } }

def cacheGet (cache : Cache floats) (key : UInt64) (now : Instant) : Option (CachedEntry floats) :=
  cache[key]?.filter fun entry => now < entry.expiresAt

namespace Engine

variable (engine : Engine floats)

def cacheInsert (cache : Cache floats) (call : Call floats) (request : Request)
    (outcome : AdaptiveRepairOutcome floats) : Cache floats :=
  let kept := if engine.maxCacheEntries ≤ cache.size
    then cache.filter fun _ entry => call.purgedAt < entry.expiresAt
    else cache
  kept.insert request.key ⟨outcome, call.storedAt + engine.cacheTtl, request⟩

def store (cache : Cache floats) (call : Call floats) (request : Request)
    (outcome : AdaptiveRepairOutcome floats) : Cache floats × Answer floats :=
  (engine.cacheInsert cache call request outcome, ⟨.ok outcome, none⟩)

def acceptTier1 (best : SelectorSuggestion floats) (tier1Score : floats.F64) :
    AdaptiveRepairOutcome floats :=
  .repaired best ⟨tier1Score, none, 0, false⟩

def acceptTier2 (semMatch : SemanticMatch floats) (tier1Score : floats.F64) (latencyMs : Nat) :
    AdaptiveRepairOutcome floats :=
  let suggestion := ⟨semMatch.selector, floats.widen semMatch.confidence⟩
  let trace := ⟨tier1Score, some semMatch.confidence, latencyMs, false⟩
  if floats.ge semMatch.confidence engine.semanticThreshold then .repaired suggestion trace
  else ⟨suggestion, .degraded, some trace⟩

def tier1Fallback (cache : Cache floats) (call : Call floats) (inspection : Inspection floats)
    (latencyMs : Nat) : Cache floats × Answer floats :=
  match inspection.bestTier1 with
  | none =>
    (cache, ⟨.error (.repairInconclusive ⟨none, none, 0, inspection.request.structuralHash⟩), none⟩)
  | some best =>
    engine.store cache call inspection.request
      (.repaired best ⟨inspection.tier1Score, none, latencyMs, false⟩)

/-- Past the cache and the fast path: the semantic provider, or the lexical suggestion. -/
def tier2 (cache : Cache floats) (call : Call floats) (inspection : Inspection floats) :
    Cache floats × Answer floats :=
  if !engine.hasSemantic || !call.permit then engine.tier1Fallback cache call inspection 0
  else
    match call.findSemanticMatch inspection.ctx with
    | .ok (some semMatch) =>
      engine.store cache call inspection.request
        (engine.acceptTier2 semMatch inspection.tier1Score call.tier2LatencyMs)
    | .ok none | .error _ => engine.tier1Fallback cache call inspection call.tier2LatencyMs

def cascade (cache : Cache floats) (call : Call floats) (inspection : Inspection floats) :
    Cache floats × Answer floats :=
  match cacheGet cache inspection.request.key call.readAt with
  | some cached => (cache, ⟨.ok cached.outcome.flagged, some cached.producer⟩)
  | none =>
    -- a suggestion above the threshold is taken without asking Tier 2
    match inspection.bestTier1.filter fun best => floats.gt best.score engine.lexicalThreshold with
    | some best =>
      engine.store cache call inspection.request (acceptTier1 best inspection.tier1Score)
    | none => engine.tier2 cache call inspection

def selectSyncAware (cache : Cache floats) (call : Call floats) : Cache floats × Answer floats :=
  match call.inspection with
  | .ok inspection => engine.cascade cache call inspection
  | .error kind => (cache, ⟨.error kind, none⟩)

def runCalls (calls : List (Call floats)) : Cache floats :=
  calls.foldl (fun cache call => (engine.selectSyncAware cache call).1) ∅

def answer (before : List (Call floats)) (call : Call floats) : Answer floats :=
  (engine.selectSyncAware (engine.runCalls before) call).2

end Engine

end Webfang.Selector
