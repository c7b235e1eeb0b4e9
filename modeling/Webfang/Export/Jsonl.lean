import Webfang.Library.Json
import Webfang.Library.Segments

/-!
# JSONL output file

The one reader of an existing output file (`read_jsonl_checksum_index` of
`application/export_factory.rs`) and the torn-tail recovery a writer session runs before
it appends (`infrastructure/export/tail_window.rs`). The JSON text parser is a parameter.
-/
namespace Webfang.Export

open Library Segments

abbrev Bytes := List UInt8

def newline : UInt8 := 10

def carriageReturn : UInt8 := 13

/-- The field name that writer and readers share. -/
def checksumField : String := "checksum_sha256"

/-! ### The checksum index -/

structure JsonlIndexReport where
  lines : Nat
  withoutChecksum : Nat
  skippedNonUtf8 : Nat
  deriving DecidableEq, Repr

structure JsonlChecksumIndex where
  hashes : Std.ExtTreeSet String
  report : JsonlIndexReport

def JsonlChecksumIndex.empty : JsonlChecksumIndex := ⟨∅, ⟨0, 0, 0⟩⟩

def stripTerminator (line : Bytes) : Bytes :=
  line.rdropWhile fun b => b == newline || b == carriageReturn

def fromUtf8 (line : Bytes) : Option String := String.fromUTF8? ⟨line.toArray⟩

variable (fromStr : String → Option Json)

/-- The body of the read loop for one line, terminator included. -/
def indexLine (index : JsonlChecksumIndex) (read : Bytes) : JsonlChecksumIndex :=
  let line := stripTerminator read
  if line = [] then index
  else
    let counted := { index.report with lines := index.report.lines + 1 }
    match fromUtf8 line with
    | none => { index with report := { counted with skippedNonUtf8 := counted.skippedNonUtf8 + 1 } }
    | some text =>
      match fromStr text with
      | none => { index with report := counted }
      | some value =>
        match (value.get checksumField).bind Json.asStr with
        | some hash => { hashes := index.hashes.insert hash, report := counted }
        | none =>
          { index with report := { counted with withoutChecksum := counted.withoutChecksum + 1 } }

def readJsonlChecksumIndex (bytes : Bytes) : JsonlChecksumIndex :=
  (segments newline bytes).foldl (indexLine fromStr) .empty

def lineChecksum (read : Bytes) : Option String :=
  let line := stripTerminator read
  if line = [] then none
  else (fromUtf8 line).bind fun text =>
    (fromStr text).bind fun value => (value.get checksumField).bind Json.asStr

variable {fromStr}

theorem indexLine_hashes (index : JsonlChecksumIndex) (read : Bytes) (hash : String) :
    hash ∈ (indexLine fromStr index read).hashes ↔
      hash ∈ index.hashes ∨ lineChecksum fromStr read = some hash := by
  unfold indexLine lineChecksum
  by_cases blank : stripTerminator read = []
  · simp [blank]
  · simp only [blank, if_false]
    cases fromUtf8 (stripTerminator read) with
    | none => simp
    | some text =>
      cases parsed : fromStr text with
      | none => simp [parsed]
      | some value =>
        cases found : (value.get checksumField).bind Json.asStr with
        | none => simp [parsed, found]
        | some checksum => simp [parsed, found, or_comm]

/-- A hash is indexed exactly when some line of the file carries it. -/
theorem mem_readJsonlChecksumIndex {bytes : Bytes} {hash : String} :
    hash ∈ (readJsonlChecksumIndex fromStr bytes).hashes ↔
      ∃ line ∈ segments newline bytes, lineChecksum fromStr line = some hash := by
  have loop : ∀ (lines : List Bytes) (index : JsonlChecksumIndex),
      hash ∈ (lines.foldl (indexLine fromStr) index).hashes ↔
        hash ∈ index.hashes ∨ ∃ line ∈ lines, lineChecksum fromStr line = some hash := by
    intro lines
    induction lines with
    | nil => simp
    | cons line rest ih =>
      intro index
      rw [List.foldl_cons, ih, indexLine_hashes]
      simp [or_assoc]
  rw [readJsonlChecksumIndex, loop]
  simp [JsonlChecksumIndex.empty]

/-! ### Torn-tail recovery -/

def tailWindowBytes : Nat := 64 * 1024

def maxTailWindowBytes : Nat := 8 * 1024 * 1024

/-- The tail is longer than the recovery may inspect. -/
inductive TailError where
  | tailTooLong
  deriving DecidableEq, Repr

def readRange (bytes : Bytes) (start len : Nat) : Bytes := (bytes.drop start).take len

/-- The window loop from a given window on; it doubles until it meets a newline, the start
of the file, or the cap. -/
def readTailWindowFrom (bytes : Bytes) (window : Nat) : Except TailError (Bytes × Nat) :=
  let start := bytes.length - window
  let read := readRange bytes start window
  if newline ∈ read ∨ start = 0 then .ok (read, start)
  else if maxTailWindowBytes ≤ window then .error .tailTooLong
  else if window = 0 then .error .tailTooLong -- only an empty file has this window
  else readTailWindowFrom bytes (min (min (window * 2) maxTailWindowBytes) bytes.length)
termination_by maxTailWindowBytes - window
decreasing_by omega

def readTailWindow (bytes : Bytes) : Except TailError (Bytes × Nat) :=
  readTailWindowFrom bytes (min tailWindowBytes bytes.length)

/-- `rposition`: the index of the last element that satisfies the test. -/
def rposition (test : UInt8 → Bool) (bytes : Bytes) : Option Nat :=
  (bytes.reverse.findIdx? test).map fun fromEnd => bytes.length - 1 - fromEnd

structure Recovered where
  file : Bytes
  /-- The bytes handed to the backup, when any were cut. -/
  abandoned : Option Bytes
  deriving DecidableEq, Repr

def recoverTornTail (bytes : Bytes) : Except TailError Recovered :=
  if bytes.length = 0 then .ok ⟨bytes, none⟩
  else
    match readTailWindow bytes with
    | .error e => .error e
    | .ok (window, windowStart) =>
      match rposition (· == newline) window with
      | some lastNewline =>
        let boundary := windowStart + lastNewline + 1
        let trailing := bytes.length - boundary
        if 0 < trailing then .ok ⟨bytes.take boundary, some (window.drop (lastNewline + 1))⟩
        else .ok ⟨bytes, none⟩
      | none => .ok ⟨[], some window⟩

/-- No newline in the last bytes that the recovery may inspect, and more bytes before. -/
def TailTooLong (bytes : Bytes) : Prop :=
  maxTailWindowBytes < bytes.length ∧
    newline ∉ bytes.drop (bytes.length - maxTailWindowBytes)

theorem readRange_to_end {bytes : Bytes} {window : Nat} (fits : window ≤ bytes.length) :
    readRange bytes (bytes.length - window) window = bytes.drop (bytes.length - window) := by
  rw [readRange, List.take_of_length_le]
  simp only [List.length_drop]
  omega

/-- The loop ends in the cap, or in a suffix that holds a newline or is the whole file. -/
theorem readTailWindowFrom_spec {bytes : Bytes} {window : Nat} (positive : 0 < window)
    (fits : window ≤ bytes.length) (capped : window ≤ maxTailWindowBytes) :
    (readTailWindowFrom bytes window = .error .tailTooLong ∧ TailTooLong bytes) ∨
      ∃ start, readTailWindowFrom bytes window = .ok (bytes.drop start, start) ∧
        (newline ∈ bytes.drop start ∨ start = 0) ∧ ¬ TailTooLong bytes := by
  unfold readTailWindowFrom
  simp only [readRange_to_end fits]
  split
  next found =>
    refine .inr ⟨bytes.length - window, rfl, found, ?_⟩
    rintro ⟨longer, absent⟩
    obtain present | atStart := found
    · have suffix : bytes.drop (bytes.length - window) <:+
          bytes.drop (bytes.length - maxTailWindowBytes) :=
        List.drop_suffix_drop_left bytes (by omega)
      exact absent (suffix.subset present)
    · omega
  next missing =>
    obtain ⟨absent, before⟩ := not_or.mp missing
    split
    next atCap =>
      have equal : window = maxTailWindowBytes := by omega
      exact .inl ⟨rfl, by omega, equal ▸ absent⟩
    next below =>
      rw [if_neg (by omega)]
      exact readTailWindowFrom_spec (by omega) (by omega) (by omega)
termination_by maxTailWindowBytes - window
decreasing_by omega

theorem readTailWindow_spec {bytes : Bytes} (more : bytes ≠ []) :
    (readTailWindow bytes = .error .tailTooLong ∧ TailTooLong bytes) ∨
      ∃ start, readTailWindow bytes = .ok (bytes.drop start, start) ∧
        (newline ∈ bytes.drop start ∨ start = 0) ∧ ¬ TailTooLong bytes := by
  have nonempty := List.length_pos_iff.mpr more
  apply readTailWindowFrom_spec
  · simp only [tailWindowBytes]; omega
  · exact Nat.min_le_right _ _
  · simp only [tailWindowBytes, maxTailWindowBytes]; omega

/-- A sequence that holds the newline is cut right after its last one. -/
theorem split_at_last_newline {bytes : Bytes} (present : newline ∈ bytes) :
    ∃ before after, bytes = before ++ newline :: after ∧ newline ∉ after ∧
      terminatedPrefix newline bytes = before ++ [newline] ∧ tornTail newline bytes = after := by
  have whole := terminatedPrefix_append_tornTail newline bytes
  have absent := not_mem_tornTail newline bytes
  obtain empty | ⟨before, ended⟩ := terminated_terminatedPrefix newline bytes
  · rw [empty, List.nil_append] at whole
    rw [whole] at absent
    exact absurd present absent
  · rw [ended] at whole
    exact ⟨before, tornTail newline bytes, by simpa using whole.symm, absent, ended, rfl⟩

/-- The search from the right finds that newline. -/
theorem rposition_newline (bytes : Bytes) :
    (rposition (· == newline) bytes = none ∧ newline ∉ bytes) ∨
      ∃ last, rposition (· == newline) bytes = some last ∧ last < bytes.length ∧
        terminatedPrefix newline bytes = bytes.take (last + 1) ∧
        tornTail newline bytes = bytes.drop (last + 1) := by
  by_cases present : newline ∈ bytes
  · obtain ⟨before, after, split, absent, ended, torn⟩ := split_at_last_newline present
    have recut := List.append_cons before newline after
    have size : (before ++ [newline]).length = before.length + 1 := by simp
    refine .inr ⟨before.length, ?_, by simp [split], ?_, ?_⟩
    · have passes : ∀ b ∈ after.reverse, (b == newline) = false := by
        intro b member
        simpa using fun equal : b = newline => absent (equal ▸ List.mem_reverse.mp member)
      have found : bytes.reverse.findIdx? (· == newline) = some after.length := by
        rw [split, List.reverse_append, List.reverse_cons, List.append_assoc,
          List.findIdx?_append, List.findIdx?_eq_none_iff.mpr passes]
        simp [List.findIdx?_cons]
      rw [rposition, found, Option.map_some, split]
      simp
    · rw [ended, split, recut]
      exact (List.take_left' size).symm
    · rw [torn, split, recut]
      exact (List.drop_left' size).symm
  · refine .inl ⟨?_, present⟩
    have passes : ∀ b ∈ bytes.reverse, (b == newline) = false := by
      intro b member
      simpa using fun equal : b = newline => present (equal ▸ List.mem_reverse.mp member)
    rw [rposition, List.findIdx?_eq_none_iff.mpr passes, Option.map_none]

/-- The recovery is the whole-file rule: it keeps the longest prefix that ends in a newline
and hands on the rest, unless the tail is longer than it may inspect. -/
theorem recoverTornTail_eq (bytes : Bytes) [Decidable (TailTooLong bytes)] :
    recoverTornTail bytes =
      if TailTooLong bytes then .error .tailTooLong
      else .ok {
        file := terminatedPrefix newline bytes
        abandoned :=
          if tornTail newline bytes = [] then none else some (tornTail newline bytes) } := by
  by_cases empty : bytes = []
  · subst empty
    have short : ¬ TailTooLong [] := fun tooLong => absurd tooLong.1 (by simp)
    rw [if_neg short]
    rfl
  have nonempty := List.length_pos_iff.mpr empty
  rw [recoverTornTail, if_neg (by omega)]
  obtain ⟨failed, tooLong⟩ | ⟨start, read, reached, short⟩ := readTailWindow_spec empty
  · rw [failed, if_pos tooLong]
  rw [read, if_neg short]
  dsimp only
  obtain ⟨none, absent⟩ | ⟨last, found, below, ended, torn⟩ := rposition_newline (bytes.drop start)
  · -- the window covers the whole file and holds no newline
    have atStart : start = 0 := reached.resolve_left absent
    subst atStart
    rw [List.drop_zero] at none absent
    have unterminated := terminatedPrefix_eq newline (.inl rfl) absent
    have allTorn := tornTail_eq newline (.inl rfl) absent
    rw [List.nil_append] at unterminated allTorn
    simp [none, unterminated, allTorn, empty]
  · -- the window's last newline is the last one of the file
    have split : bytes = (bytes.take start ++ (bytes.drop start).take (last + 1)) ++
        (bytes.drop start).drop (last + 1) := by
      rw [List.append_assoc, List.take_append_drop, List.take_append_drop]
    have absent : newline ∉ (bytes.drop start).drop (last + 1) :=
      torn ▸ not_mem_tornTail newline (bytes.drop start)
    have boundary : Terminated newline (bytes.take start ++ (bytes.drop start).take (last + 1)) := by
      obtain nothing | ⟨before, cut⟩ := terminated_terminatedPrefix newline (bytes.drop start)
      · rw [ended, List.take_eq_nil_iff] at nothing
        obtain impossible | impossible := nothing
        · omega
        · rw [impossible] at below
          simp at below
      · rw [← ended, cut]
        exact .inr ⟨bytes.take start ++ before, by simp⟩
    have kept : terminatedPrefix newline bytes = bytes.take (start + last + 1) := by
      have cut := terminatedPrefix_eq newline boundary absent
      rw [← split] at cut
      have joined : bytes.take (start + (last + 1)) =
          bytes.take start ++ (bytes.drop start).take (last + 1) := List.take_add
      rw [cut, Nat.add_assoc, joined]
    have lost : tornTail newline bytes = (bytes.drop start).drop (last + 1) := by
      have cut := tornTail_eq newline boundary absent
      rwa [← split] at cut
    have lostLength := congrArg List.length lost
    rw [List.length_drop, List.length_drop] at lostLength
    rw [found]
    dsimp only
    rw [kept, lost]
    -- a file that ends with that newline is left as it is
    by_cases clean : (bytes.drop start).drop (last + 1) = []
    · have trailing : ¬ 0 < bytes.length - (start + last + 1) := by
        have zero := congrArg List.length clean
        simp only [List.length_drop, List.length_nil] at zero
        omega
      rw [if_neg trailing, if_pos clean, List.take_of_length_le (by omega)]
    · have trailing : 0 < bytes.length - (start + last + 1) := by
        have positive := List.length_pos_iff.mpr clean
        simp only [List.length_drop] at positive
        omega
      rw [if_pos trailing, if_neg clean]

/-- The file a recovery leaves, changed or not. -/
def afterRecovery (bytes : Bytes) : Bytes :=
  match recoverTornTail bytes with
  | .ok recovered => recovered.file
  | .error _ => bytes

theorem afterRecovery_of_short {bytes : Bytes} (short : ¬ TailTooLong bytes) :
    afterRecovery bytes = terminatedPrefix newline bytes := by
  classical
  rw [afterRecovery, recoverTornTail_eq, if_neg short]

theorem afterRecovery_of_tooLong {bytes : Bytes} (tooLong : TailTooLong bytes) :
    afterRecovery bytes = bytes := by
  classical
  rw [afterRecovery, recoverTornTail_eq, if_pos tooLong]

/-- `JsonlSession::open`: recover first, then index what survived. -/
def jsonlSessionOpen (fromStr : String → Option Json) (output : Option Bytes) :
    Except TailError (Bytes × Std.ExtTreeSet String) :=
  match output with
  | none => .ok ([], ∅)
  | some bytes =>
    match recoverTornTail bytes with
    | .error e => .error e
    | .ok recovered =>
      .ok (recovered.file, (readJsonlChecksumIndex fromStr recovered.file).hashes)

end Webfang.Export

/-! ### The torn tail and its backup

`recover_torn_tail` of `infrastructure/export/tail_window.rs` with the file it rewrites and the
`.bak` sibling that `preserve_abandoned_bytes` (`application/resume.rs`) keeps for it. -/

namespace Webfang.Export

open Library Segments

/-- An output file and its backup. -/
structure Artifact where
  file : Option Bytes
  backup : Option Bytes
  deriving DecidableEq

/-- `preserve_abandoned_bytes`: the first bytes win, and a write that fails is no error. -/
def preserveAbandonedBytes (written : Bool) (backup : Option Bytes) (bytes : Bytes) : Option Bytes :=
  if backup.isSome then backup else if written then some bytes else none

def recoverArtifact (written : Bool) (artifact : Artifact) : Except TailError Unit × Artifact :=
  match artifact.file with
  | none => (.ok (), artifact)
  | some bytes =>
    match recoverTornTail bytes with
    | .error e => (.error e, artifact)
    | .ok recovered =>
      (.ok (), {
        file := some recovered.file
        backup :=
          match recovered.abandoned with
          | none => artifact.backup
          | some cut => preserveAbandonedBytes written artifact.backup cut })

/-- The rounds of `read_tail_window`, no more than a number of them. -/
def tailWindowRounds (bytes : Bytes) : Nat → Nat → Option (Except TailError (Bytes × Nat))
  | 0, _ => none
  | rounds + 1, window =>
    let start := bytes.length - window
    let read := readRange bytes start window
    if newline ∈ read ∨ start = 0 then some (.ok (read, start))
    else if maxTailWindowBytes ≤ window then some (.error .tailTooLong)
    else tailWindowRounds bytes rounds (min (min (window * 2) maxTailWindowBytes) bytes.length)

/-- The longest prefix that ends in a newline, or nothing. -/
structure LongestLines (bytes kept : Bytes) : Prop where
  ended : Terminated newline kept
  starts : kept <+: bytes
  longest : ∀ other, Terminated newline other → other <+: bytes → other <+: kept

variable {bytes : Bytes}

theorem longestLines_terminatedPrefix (bytes : Bytes) :
    LongestLines bytes (terminatedPrefix newline bytes) where
  ended := terminated_terminatedPrefix newline bytes
  starts := ⟨tornTail newline bytes, terminatedPrefix_append_tornTail newline bytes⟩
  longest _ ended starts := prefix_terminatedPrefix newline ended starts

/-- A window that the rounds can double up to the cap, or to the whole file, is the last one. -/
theorem tailWindowRounds_eq {rounds window : Nat} (positive : 0 < window)
    (enough : min maxTailWindowBytes bytes.length ≤ window * 2 ^ rounds) :
    tailWindowRounds bytes (rounds + 1) window = some (readTailWindowFrom bytes window) := by
  induction rounds generalizing window with
  | zero =>
    rw [tailWindowRounds, readTailWindowFrom]
    split
    next => rfl
    next missing =>
      rw [if_pos (by omega), if_pos (by omega)]
  | succ rounds ih =>
    rw [tailWindowRounds, readTailWindowFrom]
    split
    next => rfl
    next missing =>
      split
      next => rfl
      next below =>
        rw [if_neg (by omega)]
        apply ih (by omega)
        -- the next window is twice as wide, or has reached its bound
        have next : min (min (window * 2) maxTailWindowBytes) bytes.length = window * 2 ∨
            min maxTailWindowBytes bytes.length ≤
              min (min (window * 2) maxTailWindowBytes) bytes.length := by omega
        rcases next with doubled | bounded
        · rw [doubled, Nat.mul_assoc, ← Nat.pow_succ']
          exact enough
        · exact bounded.trans (Nat.le_mul_of_pos_right _ (Nat.two_pow_pos rounds))

/-- Eight rounds are enough for every file. -/
theorem tailWindowRounds_readTailWindow (more : bytes ≠ []) :
    tailWindowRounds bytes 8 (min tailWindowBytes bytes.length) = some (readTailWindow bytes) := by
  have nonempty := List.length_pos_iff.mpr more
  apply tailWindowRounds_eq
  · simp only [tailWindowBytes]
    omega
  · simp only [tailWindowBytes, maxTailWindowBytes]
    omega

/-- The recovery through the window has the effect of the rule for the whole file. -/
theorem recoverArtifact_whole (written : Bool) (bytes : Bytes) (backup : Option Bytes) :
    (TailTooLong bytes →
      recoverArtifact written ⟨some bytes, backup⟩ = (.error .tailTooLong, ⟨some bytes, backup⟩)) ∧
    (¬ TailTooLong bytes → ∃ kept abandoned, LongestLines bytes kept ∧ kept ++ abandoned = bytes ∧
      recoverArtifact written ⟨some bytes, backup⟩ = (.ok (), {
        file := some kept
        backup := if abandoned = [] then backup else preserveAbandonedBytes written backup abandoned })) ∧
    (bytes ≠ [] →
      tailWindowRounds bytes 8 (min tailWindowBytes bytes.length) = some (readTailWindow bytes)) := by
  classical
  refine ⟨fun tooLong => ?_, fun short => ?_, tailWindowRounds_readTailWindow⟩
  · have failed := recoverTornTail_eq bytes
    rw [if_pos tooLong] at failed
    simp only [recoverArtifact, failed]
  · have cut := recoverTornTail_eq bytes
    rw [if_neg short] at cut
    refine ⟨_, _, longestLines_terminatedPrefix bytes, terminatedPrefix_append_tornTail newline bytes, ?_⟩
    simp only [recoverArtifact, cut]
    by_cases clean : tornTail newline bytes = []
    · rw [if_pos clean, if_pos clean]
    · rw [if_neg clean, if_neg clean]

end Webfang.Export
