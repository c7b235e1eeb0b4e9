import Webfang.Waf.Inspector

/-!
# When a challenge marker blocks

A challenge signature blocks at every status if the scan reports it. The scan is
non-overlapping and reports the match that ends first, so a fingerprint that ends inside an
occurrence of a challenge signature consumes it. The verdict is decided by whether some
challenge occurrence is left uncut.
-/
namespace Webfang.Waf

open Library.PatternScan

/-! ### The signatures -/

theorem bytes_ne_nil : ∀ sig ∈ wafBodySignatures, sig.bytes ≠ [] := by decide +kernel

theorem challenge_of_suffix : ∀ a ∈ wafBodySignatures, ∀ b ∈ wafBodySignatures,
    a.bytes <:+ b.bytes → a = b ∨ (a.tier = .challenge ∧ b.tier = .challenge) := by
  decide +kernel

/-! ### What the body's matches come to -/

theorem passesBoundaryFilter_of_challenge {body : Bytes} {mat : SigMatch}
    (challenge : mat.pattern.tier = .challenge) : passesBoundaryFilter body mat = true := by
  simp [passesBoundaryFilter, challenge]

variable {body : Bytes}

theorem tier_cases (tier : WafTier) : tier = .challenge ∨ tier = .fingerprint := by
  cases tier <;> simp

/-- Neither the filter nor the cap hides a reported challenge. -/
theorem collectMatches_challenge {evidences : List WafEvidence} (genuine : Bool)
    (fingerprints : ∀ ev ∈ evidences, ev.tier = .fingerprint) (mats : List SigMatch) :
    (∃ ev ∈ (collectMatches body evidences genuine mats).1, ev.tier = .challenge) ↔
      ∃ mat ∈ mats, mat.pattern.tier = .challenge := by
  induction mats generalizing evidences genuine with
  | nil =>
    simp only [collectMatches, List.not_mem_nil, false_and, exists_false, iff_false]
    rintro ⟨ev, listed, challenge⟩
    rw [fingerprints ev listed] at challenge
    cases challenge
  | cons mat rest ih =>
    simp only [collectMatches, List.exists_mem_cons_iff]
    cases tier : mat.pattern.tier with
    | challenge =>
      -- the filter lets it through, and the loop stops
      simp [passesBoundaryFilter_of_challenge tier, bodyEvidence, tier]
    | fingerprint =>
      -- a fingerprint is kept, cut or filtered out, and the loop goes on without a challenge
      have kept : ∀ ev ∈ evidences ++ [bodyEvidence mat.pattern], ev.tier = .fingerprint := by
        intro ev listed
        obtain old | new := List.mem_append.mp listed
        · exact fingerprints ev old
        · rw [List.mem_singleton.mp new]
          exact tier
      simp only [reduceCtorEq, false_or]
      split
      · exact ih genuine fingerprints
      · split
        · exact ih _ kept
        · exact ih _ fingerprints

/-- A fingerprint that passes the filter and is no quoted configuration value. -/
def IsGenuine (body : Bytes) (mat : SigMatch) : Prop :=
  passesBoundaryFilter body mat = true ∧ isConfigStringMatch body mat = false

theorem collectMatches_genuine {mats : List SigMatch}
    (fingerprints : ∀ mat ∈ mats, mat.pattern.tier = .fingerprint) (evidences : List WafEvidence)
    (genuine : Bool) : (collectMatches body evidences genuine mats).2 = true ↔
      genuine = true ∨ ∃ mat ∈ mats, IsGenuine body mat := by
  induction mats generalizing evidences genuine with
  | nil => simp [collectMatches]
  | cons mat rest ih =>
    obtain ⟨tier, later⟩ := List.forall_mem_cons.mp fingerprints
    simp only [collectMatches, List.exists_mem_cons_iff, tier]
    by_cases passes : passesBoundaryFilter body mat = true
    · simp only [passes, Bool.not_true, Bool.false_eq_true, ↓reduceIte]
      -- the cap does not matter for the flag
      split
      · rw [ih later]
        simp [IsGenuine, passes, or_assoc]
      · rw [ih later]
        simp [IsGenuine, passes, or_assoc]
    · simp [passes, ih later, IsGenuine]

/-! ### The verdict -/

def Scanned (ctx : InspectionContext) : Prop := shouldScanBody ctx = true ∧ ctx.ignoreWaf = false

variable {floats : Floats} {ctx : InspectionContext}

theorem blocks_of_challenge {ev : WafEvidence} (challenge : ev.tier = .challenge) :
    blocks ctx ev = true := by
  simp [blocks, challenge]

theorem inspect_scanned (scanned : Scanned ctx) :
    (inspect floats body ctx).evidences = (collectBodyEvidence body).1 ++
      collectHeaderEvidence ctx.headers ++ (floats.entropyEvidence body ctx
        ((collectBodyEvidence body).2 || !(collectHeaderEvidence ctx.headers).isEmpty)).toList := by
  obtain ⟨scan, heeded⟩ := scanned
  simp [inspect, scan, heeded]

theorem isBlocked_iff (scanned : Scanned ctx) : (inspect floats body ctx).isBlocked = true ↔
      ∃ ev ∈ (inspect floats body ctx).evidences, blocks ctx ev = true := by
  have verdict : (inspect floats body ctx).isBlocked =
      decide (inspect floats body ctx).evidences ctx := by
    simp [inspect, scanned.2]
  rw [verdict]
  exact List.any_eq_true

/-- Some challenge signature is among the matches of the scan. -/
def ChallengeFound (body : Bytes) : Prop := ∃ mat ∈ findIter body, mat.pattern.tier = .challenge

theorem collectBodyEvidence_challenge :
    (∃ ev ∈ (collectBodyEvidence body).1, ev.tier = .challenge) ↔ ChallengeFound body :=
  collectMatches_challenge false (by simp) (findIter body)

theorem isBlocked_of_challengeFound (scanned : Scanned ctx) (found : ChallengeFound body) :
    (inspect floats body ctx).isBlocked = true := by
  rw [isBlocked_iff scanned, inspect_scanned scanned]
  obtain ⟨ev, listed, challenge⟩ := collectBodyEvidence_challenge.mpr found
  refine ⟨ev, ?_, blocks_of_challenge challenge⟩
  simp [listed]

theorem isBlocked_of_highEntropy (scanned : Scanned ctx) (high : floats.highEntropy body = true)
    (genuine : (collectBodyEvidence body).2 = true) :
    (inspect floats body ctx).isBlocked = true := by
  rw [isBlocked_iff scanned, inspect_scanned scanned]
  refine ⟨⟨"Obfuscated WAF", .challenge, "high-entropy body", .body⟩, ?_, blocks_of_challenge rfl⟩
  simp [Floats.entropyEvidence, high, genuine]

theorem default_scanned : Scanned .default := ⟨rfl, rfl⟩

theorem entropyEvidence_default {genuine : Bool} {ev : WafEvidence}
    (entropic : floats.entropyEvidence body .default genuine = some ev) :
    floats.highEntropy body = true ∧ genuine = true := by
  by_cases rule : (floats.highEntropy body && genuine) = true
  · simpa using rule
  · -- rule (b) asks for a status
    simp [Floats.entropyEvidence, InspectionContext.default, isT2BlockingStatus, rule] at entropic

/-- With no status and no headers only challenges block: the scan's own, or that of the entropy. -/
theorem isBlocked_default (blocked : (inspect floats body .default).isBlocked = true) :
    ChallengeFound body ∨
      floats.highEntropy body = true ∧ (collectBodyEvidence body).2 = true := by
  rw [isBlocked_iff default_scanned, inspect_scanned default_scanned] at blocked
  obtain ⟨ev, listed, blocking⟩ := blocked
  have challenge : ev.tier = .challenge := by
    obtain same | same := tier_cases ev.tier
    · exact same
    · simp [blocks, same, InspectionContext.default, isT2BlockingStatus] at blocking
  have noHeaders : collectHeaderEvidence InspectionContext.default.headers = [] := by
    simp [collectHeaderEvidence, InspectionContext.default]
  rw [noHeaders, List.append_nil] at listed
  obtain inBody | entropic := List.mem_append.mp listed
  · exact .inl (collectBodyEvidence_challenge.mp ⟨ev, inBody, challenge⟩)
  · right
    simpa using entropyEvidence_default (Option.mem_toList.mp entropic)

/-! ### Which challenge occurrences the scan reports -/

def ContainsChallenge (body : Bytes) : Prop :=
  ∃ sig ∈ wafBodySignatures, sig.tier = .challenge ∧ sig.bytes <:+: body

/-- A challenge signature occurs in the body, and no match of the scan ends strictly inside. -/
def UncutChallenge (body : Bytes) : Prop :=
  ∃ m : SigMatch, m.pattern.tier = .challenge ∧ Occurs wafBodySignatures Signature.bytes body m ∧
    Uncut wafBodySignatures Signature.bytes body m

/-- Some match of the scan is a genuine fingerprint. -/
def GenuineFingerprint (body : Bytes) : Prop :=
  ∃ m : SigMatch, m.pattern.tier = .fingerprint ∧ Read wafBodySignatures Signature.bytes body m ∧
    IsGenuine body m

/-- A match that ends together with another is that one, unless both are challenges. -/
theorem match_together {m other : SigMatch} (read : Read wafBodySignatures Signature.bytes body m)
    (occurs' : Occurs wafBodySignatures Signature.bytes body other) (together : m.stop = other.stop) :
    m = other ∨ (m.pattern.tier = .challenge ∧ other.pattern.tier = .challenge) := by
  obtain ⟨_, -, first⟩ := read
  have occurs := first.occurs
  have related : m.pattern = other.pattern ∨
      (m.pattern.tier = .challenge ∧ other.pattern.tier = .challenge) := by
    obtain suffix | suffix := occurs.suffix occurs' together
    · exact challenge_of_suffix _ occurs.listed _ occurs'.listed suffix
    · obtain same | ⟨tier', tier⟩ := challenge_of_suffix _ occurs'.listed _ occurs.listed suffix
      · exact .inl same.symm
      · exact .inr ⟨tier, tier'⟩
  refine related.imp_left fun same => ?_
  have sized := occurs.sized
  have sized' := occurs'.sized
  rw [same] at sized
  obtain ⟨pattern, start, stop⟩ := m
  obtain ⟨pattern', start', stop'⟩ := other
  simp only at same together sized sized'
  simp only [Match.mk.injEq]
  exact ⟨same, by omega, together⟩

theorem challengeFound_iff : ChallengeFound body ↔ UncutChallenge body := by
  constructor
  · rintro ⟨m, reported, challenge⟩
    have read := read_of_mem bytes_ne_nil reported
    obtain ⟨_, -, first⟩ := read
    exact ⟨m, challenge, first.occurs, (read_of_mem bytes_ne_nil reported).uncut⟩
  · rintro ⟨m, challenge, occurs, uncut⟩
    obtain ⟨read, isRead, ends⟩ := uncut.read bytes_ne_nil occurs
    obtain ⟨reported, listed, ends'⟩ := exists_mem_of_read bytes_ne_nil isRead
    have isRead' := read_of_mem bytes_ne_nil listed
    refine ⟨reported, listed, ?_⟩
    obtain rfl | ⟨tier, -⟩ := match_together isRead' occurs (ends'.trans ends)
    · exact challenge
    · exact tier

theorem collectBodyEvidence_genuine (missed : ¬ ChallengeFound body) :
    (collectBodyEvidence body).2 = true ↔ GenuineFingerprint body := by
  have fingerprints : ∀ mat ∈ findIter body, mat.pattern.tier = .fingerprint := by
    intro mat reported
    exact (tier_cases mat.pattern.tier).resolve_left fun tier => missed ⟨mat, reported, tier⟩
  simp only [collectBodyEvidence, collectMatches_genuine fingerprints, Bool.false_eq_true, false_or]
  constructor
  · rintro ⟨m, reported, genuine⟩
    exact ⟨m, fingerprints m reported, read_of_mem bytes_ne_nil reported, genuine⟩
  · rintro ⟨m, tier, read, genuine⟩
    obtain ⟨reported, listed, ends⟩ := exists_mem_of_read bytes_ne_nil read
    obtain ⟨_, -, first⟩ := read_of_mem bytes_ne_nil listed
    obtain rfl | ⟨tier', -⟩ := match_together read first.occurs ends.symm
    · exact ⟨m, listed, genuine⟩
    · rw [tier] at tier'
      cases tier'

/-- A body with a challenge signature is blocked in every context that scans it, if and only if
no match of the scan cuts some challenge occurrence, or the body is large and of high entropy
with a genuine fingerprint. -/
theorem blocks_every_context_iff (floats : Floats) (body : Bytes) :
    (∀ ctx, Scanned ctx → ContainsChallenge body → (inspect floats body ctx).isBlocked = true) ↔
      (ContainsChallenge body → UncutChallenge body ∨
        floats.highEntropy body = true ∧ GenuineFingerprint body) := by
  constructor
  · intro blocks contains
    by_cases found : ChallengeFound body
    · exact .inl (challengeFound_iff.mp found)
    · right
      obtain found' | ⟨high, genuine⟩ := isBlocked_default (blocks .default default_scanned contains)
      · exact absurd found' found
      · exact ⟨high, (collectBodyEvidence_genuine found).mp genuine⟩
  · intro condition ctx scanned contains
    by_cases found : ChallengeFound body
    · exact isBlocked_of_challengeFound scanned found
    · obtain uncut | ⟨high, genuine⟩ := condition contains
      · exact absurd (challengeFound_iff.mpr uncut) found
      · exact isBlocked_of_highEntropy scanned high ((collectBodyEvidence_genuine found).mpr genuine)

/-! The script of hCaptcha on a page with status 200. The vendor's bare name ends inside the
challenge signature. -/

namespace HcaptchaScript

def page : Bytes := bytes "<script src=\"/hcaptcha-api\"></script>"

def context : InspectionContext := ⟨some 200, some "text/html", ∅, false⟩

/-- The page is too small for its entropy to be asked for. -/
def wholeNumbers : Floats where
  F64 := Nat
  zero := 0
  ofNat := id
  sub := Nat.sub
  mul := Nat.mul
  div := Nat.div
  log2 := Nat.log2
  gt a b := b < a
  entropyThreshold := 5

end HcaptchaScript

open HcaptchaScript in
theorem hcaptcha_api_not_blocked :
    Scanned context ∧ ContainsChallenge page ∧
      (inspect wholeNumbers page context).isBlocked = false ∧
      ¬ ∀ (floats : Floats) (body : Bytes) (ctx : InspectionContext),
        Scanned ctx → ContainsChallenge body → (inspect floats body ctx).isBlocked = true := by
  have scanned : Scanned context := by
    constructor
    · decide
    · rfl
  have contains : ContainsChallenge page := by
    unfold ContainsChallenge
    decide +kernel
  have passed : (inspect wholeNumbers page context).isBlocked = false := by decide +kernel
  refine ⟨scanned, contains, passed, fun blocks => ?_⟩
  have blocked := blocks wholeNumbers page context scanned contains
  rw [passed] at blocked
  cases blocked

end Webfang.Waf
