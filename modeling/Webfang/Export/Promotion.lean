import Webfang.Export.CommittedLines

/-!
# Flush-proof promotions

When the promotion of a page whose line is in the output file reaches `COMMITTED`. The drive from a
lower status clears the error and counts an attempt. An `EXPORTED` record is taken as it is, so the
commit point refuses it for what it carries, in this run and in every later one.
-/
namespace Webfang.Export

open Library Domain CommitSession

variable {crates : UrlCrates} {session : CommitSession} {record : RawRecord}
  {url outputLocation contentHash : String} {freshHash : Option String} {now : Int64}

/-- The commit point will take what the promotion makes of the record. -/
def Promotable (record : RawRecord) : Prop :=
  if record.status = .exported then record.lastError = none ∧ record.attempts ≠ 0
  else record.attempts + 1 ≠ 0

def CleanlyCommitted (slot : Option RawRecord) : Prop :=
  ∃ record, slot = some record ∧ record.status = .committed ∧ record.lastError = none

def BelowCommitted (slot : Option RawRecord) : Prop :=
  ∀ record, slot = some record → record.status ≠ .committed

/-! ### One promotion -/

theorem status_of_promoted (found : session.records[crates.canonicalKey url]? = some record)
    (valid : record.Valid) (decided : session.decide crates url freshHash = .promoteFromFlushProof) :
    record.status ≠ .committed := by
  intro here
  obtain ⟨⟨ctx, context, resume⟩, -⟩ := decide_promote decided
  have reconciles : (Stateful.reconcile .committed record).isOk = true := by
    rw [valid.reconcile here]
    rfl
  simp [CommitSession.decide, context, resume, found, reconciles] at decided

theorem promoted_slot (found : session.records[crates.canonicalKey url]? = some record)
    (valid : record.Valid) (decided : session.decide crates url freshHash = .promoteFromFlushProof) :
    (session.promoteFromFlushProof crates url outputLocation contentHash now).1.records[
        crates.canonicalKey url]? =
      some (settle (if record.status = .exported then record
        else flushOpen record contentHash outputLocation now)) := by
  have below := status_of_promoted found valid decided
  obtain ⟨⟨ctx, context, -⟩, -⟩ := decide_promote decided
  have slot := (promoteFromFlushProof_spec crates session context url outputLocation contentHash now).2
    (crates.canonicalKey url)
  rw [slot, if_pos rfl, exportedForPromotion, entryOrDiscovered, found]
  dsimp only [Option.bind_some]
  rw [driveToExportFlushed_eq (held_of_valid valid)]
  cases here : record.status with
  | committed => exact absurd here below
  | exported => rfl
  | _ => rfl

theorem promoted_iff (found : session.records[crates.canonicalKey url]? = some record)
    (valid : record.Valid) (decided : session.decide crates url freshHash = .promoteFromFlushProof) :
    CleanlyCommitted ((session.promoteFromFlushProof crates url outputLocation contentHash now).1.records[
        crates.canonicalKey url]?) ↔ Promotable record := by
  rw [promoted_slot found valid decided, Promotable]
  by_cases exported : record.status = .exported
  · rw [if_pos exported, if_pos exported, settle_eq (held_of_valid valid) exported]
    by_cases ready : record.lastError = none ∧ record.attempts ≠ 0
    · rw [if_pos ready]
      exact ⟨fun _ => ready, fun _ => ⟨_, rfl, rfl, ready.1⟩⟩
    · rw [if_neg ready]
      refine ⟨?_, fun now => absurd now ready⟩
      rintro ⟨after, same, committed, -⟩
      cases same
      rw [exported] at committed
      cases committed
  · -- the drive leaves no error, and one attempt more
    rw [if_neg exported, if_neg exported,
      settle_eq (flushOpen_held valid.identity contentHash outputLocation now) rfl]
    have cleared : (flushOpen record contentHash outputLocation now).lastError = none := rfl
    have counted : (flushOpen record contentHash outputLocation now).attempts = record.attempts + 1 := rfl
    rw [counted]
    by_cases ready : record.attempts + 1 ≠ 0
    · rw [if_pos ⟨cleared, ready⟩]
      exact ⟨fun _ => ready, fun _ => ⟨_, rfl, rfl, rfl⟩⟩
    · rw [if_neg (fun both => ready both.2)]
      refine ⟨?_, fun now => absurd now ready⟩
      rintro ⟨after, same, committed, -⟩
      cases same
      cases committed

/-! ### Later resume runs -/

structure ResumeRun where
  session : CommitSession
  freshHash : Option String
  outputLocation : String
  contentHash : String
  now : Int64

/-- The run resumes, finds the slot as the store has it, and the output file still has the lines. -/
structure ResumeRun.Follows (lines : Std.ExtTreeSet String) (key : String) (slot : Option RawRecord)
    (run : ResumeRun) : Prop where
  resumes : ∃ ctx, run.session.ctx = some ctx ∧ ctx.resume = true
  found : run.session.records[key]? = slot
  kept : ∀ hash ∈ lines, hash ∈ run.session.hashIndex

/-- What the run makes of the slot: the gate skips the page, promotes it, or has it exported again,
with whatever result. -/
def ResumeRun.Takes (crates : UrlCrates) (url : String) (slot : Option RawRecord) (run : ResumeRun)
    (after : Option RawRecord) : Prop :=
  match run.session.decide crates url run.freshHash with
  | .alreadyCommitted => after = slot
  | .promoteFromFlushProof =>
    after = (run.session.promoteFromFlushProof crates url run.outputLocation run.contentHash
      run.now).1.records[crates.canonicalKey url]?
  | .driveAndCommit => True

/-- Below `COMMITTED` now, and after any number of later resume runs. -/
def StaysBelow (crates : UrlCrates) (url : String) (lines : Std.ExtTreeSet String)
    (slot : Option RawRecord) : Prop :=
  ∀ after,
    Reachable (ResumeRun.Takes crates url) (ResumeRun.Follows lines (crates.canonicalKey url)) slot after →
      BelowCommitted after

/-- An `EXPORTED` record that the commit point refuses is promoted again and again. -/
theorem refused_stays {lines : Std.ExtTreeSet String} (valid : record.Valid)
    (exported : record.status = .exported) (refused : ¬ Promotable record)
    (proven : ∃ hash, record.contentHash = some hash ∧ hash ∈ lines) :
    StaysBelow crates url lines (some record) := by
  intro after reached
  have same : after = some record := by
    refine reached.invariant (motive := fun slot => slot = some record) rfl ?_
    rintro slot run after rfl ⟨⟨ctx, context, resume⟩, found, kept⟩ taken
    obtain ⟨hash, hashed, line⟩ := proven
    have open_ : (Stateful.reconcile .committed record).isOk = false :=
      reconcile_mismatch (by rw [exported]; nofun)
    have decided : run.session.decide crates url run.freshHash = .promoteFromFlushProof := by
      simp [CommitSession.decide, context, resume, found, open_, hashed, kept hash line]
    rw [ResumeRun.Takes, decided] at taken
    rw [taken, promoted_slot found valid decided, if_pos exported, settle_eq (held_of_valid valid) exported]
    rw [Promotable, if_pos exported] at refused
    rw [if_neg refused]
  rintro record' here
  rw [same] at here
  cases here
  rw [exported]
  nofun

/-- The promotion commits the page for good. -/
def Settles (crates : UrlCrates) (url : String) (lines : Std.ExtTreeSet String) (slot : Option RawRecord) :
    Prop :=
  CleanlyCommitted slot ∧ ¬ StaysBelow crates url lines slot

theorem promotion_settles_iff (found : session.records[crates.canonicalKey url]? = some record)
    (valid : record.Valid) (decided : session.decide crates url freshHash = .promoteFromFlushProof) :
    Settles crates url session.hashIndex
        ((session.promoteFromFlushProof crates url outputLocation contentHash now).1.records[
          crates.canonicalKey url]?) ↔
      Promotable record := by
  rw [← promoted_iff found valid decided]
  refine ⟨And.left, fun committed => ⟨committed, fun stays => ?_⟩⟩
  obtain ⟨after, slot, here, -⟩ := committed
  exact stays _ .start after slot here

/-! A page that was extracted, and one whose re-export failed after its line was flushed. -/

namespace FlushedPage

def extracted : RawRecord where
  url := "https://a.test/p"
  canonicalUrl := "https://a.test/p"
  runId := "run-1"
  contentHash := some "h"
  attempts := 1
  status := .extracted
  lastError := some ⟨.transientRetriable, "timeout"⟩
  outputLocation := none
  updatedAt := 1

def failedLater : RawRecord :=
  { extracted with status := .exported, outputLocation := some "out/export.jsonl" }

def resumed (record : RawRecord) : CommitSession where
  ctx := some ⟨"run-2", true⟩
  records := (∅ : DomainRecords).insert "https://a.test/p" record
  hashIndex := (∅ : Std.ExtTreeSet String).insert "h"
  driven := []
  skippedNonUtf8 := 0

def promoted (record : RawRecord) : Option RawRecord :=
  ((resumed record).promoteFromFlushProof plainUrls "https://a.test/p" "out/export.jsonl" "h" 2).1.records[
    plainUrls.canonicalKey "https://a.test/p"]?

/-- The error of the extracted page is cleared. -/
theorem extracted_settles :
    Settles plainUrls "https://a.test/p" (resumed extracted).hashIndex (promoted extracted) := by
  have decided : (resumed extracted).decide plainUrls "https://a.test/p" (some "h") =
      .promoteFromFlushProof := by decide
  refine (@promotion_settles_iff plainUrls (resumed extracted) extracted _ _ _ _ _ ?_ ?_ decided).mpr ?_
  · decide
  · decide
  · rw [Promotable, if_neg (by decide)]
    decide

/-- The page that failed later is promoted, and stays `EXPORTED` in every run. -/
theorem failed_later_stays : failedLater.Valid ∧
    (resumed failedLater).decide plainUrls "https://a.test/p" (some "h") = .promoteFromFlushProof ∧
    ¬ CleanlyCommitted (promoted failedLater) ∧
    StaysBelow plainUrls "https://a.test/p" (resumed failedLater).hashIndex (promoted failedLater) := by
  have refused : ¬ Promotable failedLater := by
    rw [Promotable, if_pos (by decide)]
    rintro ⟨cleared, -⟩
    cases cleared
  have valid : failedLater.Valid := by decide
  have decided : (resumed failedLater).decide plainUrls "https://a.test/p" (some "h") =
      .promoteFromFlushProof := by decide
  have slot : promoted failedLater = some failedLater := by decide
  refine ⟨valid, decided, ?_, ?_⟩
  · rw [slot]
    rintro ⟨record, same, here, -⟩
    cases same
    cases here
  · rw [slot]
    exact refused_stays valid rfl refused ⟨"h", rfl, by decide⟩

end FlushedPage

end Webfang.Export
