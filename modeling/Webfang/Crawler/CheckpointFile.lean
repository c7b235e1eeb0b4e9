import Mathlib.Data.Finset.Sort
import Mathlib.Data.String.Basic
import Webfang.Library.Frames
import Webfang.Library.Json

/-!
# The checkpoint file

`application/crawler/checkpoint.rs`: the state behind its CRC32, the plain JSON of the format before
it, and the version gate of both. A document is what the JSON text says, a repeated key included.
-/
namespace Webfang.Crawler.CheckpointFile

open Library ChecksumFrame

abbrev Bytes := List UInt8

/-- `DateTime<Utc>` under its JSON string. -/
structure Calendar (Instant : Type) where
  write : Instant → String
  read : String → Option Instant
  read_write : ∀ instant, read (write instant) = some instant

structure HashOrder where
  iterate : Finset String → List String
  complete : ∀ set, (iterate set).toFinset = set

/-- `serde_json`, `crc32fast` and the machine. -/
structure Codec where
  parse : Bytes → Option Json
  render : Json → Bytes
  crc32 : Bytes → UInt32
  bigEndian : Bool

variable {Instant : Type} (calendar : Calendar Instant) (order : HashOrder) (codec : Codec)

/-! ### The state -/

def currentCheckpointVersion : UInt32 := 2

def defaultVersion : UInt32 := 1

structure BannedDomain (Instant : Type) where
  domain : String
  bannedUntil : Option Instant
  reason : String

structure CrawlCheckpoint (Instant : Type) where
  visited : Finset String
  queued : List String
  pagesCrawled : UInt64
  bannedDomains : List (BannedDomain Instant)
  version : UInt32

/-- The format before the checksum. -/
structure OldCheckpointSchema (Instant : Type) where
  visited : List String
  queued : List String
  pagesCrawled : UInt64
  version : UInt32
  bannedDomains : List (BannedDomain Instant)

def OldCheckpointSchema.into (old : OldCheckpointSchema Instant) : CrawlCheckpoint Instant where
  visited := old.visited.toFinset
  queued := old.queued
  pagesCrawled := old.pagesCrawled
  bannedDomains := old.bannedDomains
  version := old.version

/-! ### Its JSON -/

/-- The fields of a derived decoder: by name from an object that repeats none of them, in order
from an array that is not longer. -/
def structFields (names : List String) : Json → Option (List (Option Json))
  | .obj fields =>
    if names.all fun name => decide (fields.countP (fun field => field.1 == name) ≤ 1) then
      some (names.map (Json.obj fields).get)
    else none
  | .arr items =>
    if items.length ≤ names.length then
      some (items.map some ++ List.replicate (names.length - items.length) none)
    else none
  | _ => none

/-- `#[serde(default)]`. -/
def withDefault {α : Type} (default : α) (decode : Json → Option α) : Option Json → Option α
  | none => some default
  | some value => decode value

def listOf {α : Type} (decode : Json → Option α) : Json → Option (List α)
  | .arr items => items.mapM decode
  | _ => none

def BannedDomain.toValue (banned : BannedDomain Instant) : Json :=
  .obj [
    ("domain", .str banned.domain),
    ("banned_until", .ofOption (fun instant => .str (calendar.write instant)) banned.bannedUntil),
    ("reason", .str banned.reason)]

def BannedDomain.ofFields : List (Option Json) → Option (BannedDomain Instant)
  | [some domain, bannedUntil, some reason] => do
    return {
      domain := ← domain.asStr
      bannedUntil := ← Json.asOption (fun text => text.asStr.bind calendar.read) bannedUntil
      reason := ← reason.asStr }
  | _ => none

def BannedDomain.fromValue (value : Json) : Option (BannedDomain Instant) :=
  (structFields ["domain", "banned_until", "reason"] value).bind (BannedDomain.ofFields calendar)

def CrawlCheckpoint.toValue (state : CrawlCheckpoint Instant) : Json :=
  .obj [
    ("visited", .arr ((order.iterate state.visited).map .str)),
    ("queued", .arr (state.queued.map .str)),
    ("pages_crawled", .int state.pagesCrawled.toNat),
    ("banned_domains", .arr (state.bannedDomains.map (BannedDomain.toValue calendar))),
    ("version", .int state.version.toNat)]

def CrawlCheckpoint.ofFields : List (Option Json) → Option (CrawlCheckpoint Instant)
  | [visited, queued, pagesCrawled, bannedDomains, version] => do
    return {
      visited := (← withDefault [] (listOf Json.asStr) visited).toFinset
      queued := ← withDefault [] (listOf Json.asStr) queued
      pagesCrawled := ← withDefault 0 Json.asU64 pagesCrawled
      bannedDomains := ← withDefault [] (listOf (BannedDomain.fromValue calendar)) bannedDomains
      version := ← withDefault defaultVersion Json.asU32 version }
  | _ => none

def CrawlCheckpoint.fromValue (value : Json) : Option (CrawlCheckpoint Instant) :=
  (structFields ["visited", "queued", "pages_crawled", "banned_domains", "version"] value).bind
    (CrawlCheckpoint.ofFields calendar)

def OldCheckpointSchema.ofFields : List (Option Json) → Option (OldCheckpointSchema Instant)
  | [some visited, queued, pagesCrawled, version, bannedDomains] => do
    return {
      visited := ← listOf Json.asStr visited
      queued := ← withDefault [] (listOf Json.asStr) queued
      pagesCrawled := ← withDefault 0 Json.asU64 pagesCrawled
      version := ← withDefault 0 Json.asU32 version
      bannedDomains := ← withDefault [] (listOf (BannedDomain.fromValue calendar)) bannedDomains }
  | _ => none

def OldCheckpointSchema.fromValue (value : Json) : Option (OldCheckpointSchema Instant) :=
  (structFields ["visited", "queued", "pages_crawled", "version", "banned_domains"] value).bind
    (OldCheckpointSchema.ofFields calendar)

/-! ### The file -/

/-- What each call of a save on the file system answers, an error with its text. -/
structure SaveCalls where
  create : Option String := none
  writeChecksum : Option String := none
  writePayload : Option String := none
  sync : Option String := none
  rename : Option String := none

def encode (state : CrawlCheckpoint Instant) : Bytes :=
  framed codec.bigEndian codec.crc32 (codec.render (state.toValue calendar order))

/-- The result, and the file afterwards: only the rename at the end touches it. -/
def save (calls : SaveCalls) (file : Option Bytes) (state : CrawlCheckpoint Instant) :
    Except String Unit × Option Bytes :=
  match calls.create, calls.writeChecksum, calls.writePayload, calls.sync, calls.rename with
  | some e, _, _, _, _ => (.error ("create checkpoint tmp file: " ++ e), file)
  | none, some e, _, _, _ => (.error ("write checkpoint checksum: " ++ e), file)
  | none, none, some e, _, _ => (.error ("write checkpoint payload: " ++ e), file)
  | none, none, none, some e, _ => (.error ("sync checkpoint file: " ++ e), file)
  | none, none, none, none, some e => (.error ("atomic rename checkpoint: " ++ e), file)
  | none, none, none, none, none => (.ok (), some (encode calendar order codec state))

/-- A state, or the bytes that are handed to the backup instead. -/
abbrev Loaded (Instant : Type) := Option (CrawlCheckpoint Instant) × Option Bytes

def acceptVersion (data : Bytes) (state : CrawlCheckpoint Instant) : Loaded Instant :=
  if state.version = currentCheckpointVersion then (some state, none) else (none, some data)

def decodeLegacy (data : Bytes) : Option (OldCheckpointSchema Instant) :=
  (codec.parse data).bind (OldCheckpointSchema.fromValue calendar)

def migrateLegacyCheckpoint (data : Bytes) : Loaded Instant :=
  match decodeLegacy calendar codec data with
  | none => (none, none)
  | some old => acceptVersion data old.into

def decode (payload : Bytes) : Option (CrawlCheckpoint Instant) :=
  (codec.parse payload).bind (CrawlCheckpoint.fromValue calendar)

def verifyAndParseCheckpoint (a b c d : UInt8) (payload : Bytes) : Loaded Instant :=
  let data := a :: b :: c :: d :: payload
  if fromNeBytes codec.bigEndian a b c d ≠ codec.crc32 payload then
    match migrateLegacyCheckpoint calendar codec data with
    | (some state, kept) => (some state, kept)
    -- a backup that stands is kept, so that the bytes are the same either way
    | (none, _) => (none, some data)
  else
    match decode calendar codec payload with
    | none => (none, some data)
    | some state => acceptVersion data state

def load (file : Option Bytes) : Loaded Instant :=
  match file with
  | some (a :: b :: c :: d :: payload) => verifyAndParseCheckpoint calendar codec a b c d payload
  | _ => (none, none)

/-! ### Reading back -/

section RoundTrip

theorem listOf_map {α : Type} (encode : α → Json) (decode : Json → Option α)
    (roundTrip : ∀ a, decode (encode a) = some a) (items : List α) :
    listOf decode (.arr (items.map encode)) = some items := by
  unfold listOf
  induction items with
  | nil => rfl
  | cons a rest ih =>
    simp only at ih
    simp [List.mapM_cons, roundTrip, ih]

theorem withDefault_some {α : Type} (default : α) (decode : Json → Option α) (value : Json) :
    withDefault default decode (some value) = decode value := rfl

theorem BannedDomain.fromValue_toValue (banned : BannedDomain Instant) :
    BannedDomain.fromValue calendar (banned.toValue calendar) = some banned := by
  have fields : structFields ["domain", "banned_until", "reason"] (banned.toValue calendar) = some [
      some (.str banned.domain),
      some (.ofOption (fun instant => .str (calendar.write instant)) banned.bannedUntil),
      some (.str banned.reason)] := by
    simp [structFields, BannedDomain.toValue, Json.get]
  have ends : Json.asOption (fun text => text.asStr.bind calendar.read)
      (some (.ofOption (fun instant => .str (calendar.write instant)) banned.bannedUntil)) =
        some banned.bannedUntil :=
    Json.asOption_ofOption _ calendar.read_write (fun _ => Json.noConfusion) _
  rw [BannedDomain.fromValue, fields, Option.bind_some, BannedDomain.ofFields, ends]
  rfl

theorem CrawlCheckpoint.fromValue_toValue (state : CrawlCheckpoint Instant) :
    CrawlCheckpoint.fromValue calendar (state.toValue calendar order) = some state := by
  have fields : structFields ["visited", "queued", "pages_crawled", "banned_domains", "version"]
      (state.toValue calendar order) = some [
        some (.arr ((order.iterate state.visited).map .str)),
        some (.arr (state.queued.map .str)), some (.int state.pagesCrawled.toNat),
        some (.arr (state.bannedDomains.map (BannedDomain.toValue calendar))),
        some (.int state.version.toNat)] := by
    simp [structFields, CrawlCheckpoint.toValue, Json.get]
  have texts := listOf_map Json.str Json.asStr fun _ => rfl
  have banned := listOf_map _ _ (BannedDomain.fromValue_toValue calendar) state.bannedDomains
  rw [CrawlCheckpoint.fromValue, fields, Option.bind_some, CrawlCheckpoint.ofFields, withDefault_some,
    withDefault_some, withDefault_some, withDefault_some, withDefault_some, texts, texts, banned,
    Json.asU64_int state.pagesCrawled, Json.asU32_int state.version]
  simp only [Option.pure_def, Option.bind_eq_bind, Option.bind_some, order.complete]

end RoundTrip

/-! ### What a load accepts -/

variable {calendar order codec} {data payload content : Bytes} {state found : CrawlCheckpoint Instant}

theorem acceptVersion_eq_some (data : Bytes) (found state : CrawlCheckpoint Instant) :
    (acceptVersion data found).1 = some state ↔ found = state ∧ state.version = currentCheckpointVersion := by
  unfold acceptVersion
  split
  next current =>
    refine ⟨fun same => ?_, fun same => by rw [same.1]⟩
    have equal := Option.some.inj same
    exact ⟨equal, equal ▸ current⟩
  next stale =>
    refine ⟨fun same => by injection same, fun same => ?_⟩
    rw [same.1] at stale
    exact absurd same.2 stale

/-- A frame gives the state of its payload, in the current version. -/
theorem load_framed :
    (load calendar codec (some (framed codec.bigEndian codec.crc32 payload))).1 = some state ↔
      decode calendar codec payload = some state ∧ state.version = currentCheckpointVersion := by
  rcases framed_split codec.bigEndian codec.crc32 payload with ⟨a, b, c, d, split, word⟩
  rw [split, load, verifyAndParseCheckpoint, if_neg (not_not.mpr word)]
  cases decode calendar codec payload with
  | none => simp
  | some found => rw [acceptVersion_eq_some, Option.some.injEq]

/-- Four bytes or more that are no frame give what the old format says of them. -/
theorem load_unframed (long : 4 ≤ content.length)
    (unframed : ∀ payload, content ≠ framed codec.bigEndian codec.crc32 payload) :
    (load calendar codec (some content)).1 = some state ↔
      ∃ old, decodeLegacy calendar codec content = some old ∧ old.into = state ∧
        state.version = currentCheckpointVersion := by
  match content with
  | a :: b :: c :: d :: payload =>
    have wrong : fromNeBytes codec.bigEndian a b c d ≠ codec.crc32 payload :=
      mt (eq_framed_iff a b c d payload).mpr (unframed payload)
    rw [load, verifyAndParseCheckpoint, if_pos wrong, migrateLegacyCheckpoint]
    cases decodeLegacy calendar codec (a :: b :: c :: d :: payload) with
    | none => simp
    | some old =>
      have accepted := acceptVersion_eq_some (a :: b :: c :: d :: payload) old.into state
      simp only [Option.some.injEq, exists_eq_left', ← accepted]
      cases acceptVersion (a :: b :: c :: d :: payload) old.into with
      | mk result kept => cases result <;> simp

/-- A file that is refused goes to the backup as a whole, unless it is too short for a checksum, and
one that is taken does not. -/
theorem load_kept (content : Bytes) : (load calendar codec (some content)).2 =
      if (load calendar codec (some content)).1.isSome ∨ content.length < 4 then none else some content := by
  have gate : ∀ found : CrawlCheckpoint Instant, (acceptVersion content found).2 =
      if (acceptVersion content found).1.isSome then none else some content := by
    intro found
    unfold acceptVersion
    split <;> rfl
  match content with
  | [] | [_] | [_, _] | [_, _, _] => simp [load]
  | a :: b :: c :: d :: payload =>
    have long : ¬ (a :: b :: c :: d :: payload).length < 4 := by simp
    simp only [long, or_false]
    rw [load, verifyAndParseCheckpoint]
    split
    next =>
      rw [migrateLegacyCheckpoint]
      cases decodeLegacy calendar codec (a :: b :: c :: d :: payload) with
      | none => rfl
      | some old =>
        by_cases current : old.into.version = currentCheckpointVersion
        · simp [acceptVersion, current]
        · simp [acceptVersion, current]
    next =>
      cases decode calendar codec payload with
      | none => rfl
      | some found => exact gate found

/-! ### The backup -/

/-- The checkpoint and the `.bak` beside it. -/
structure Files where
  file : Option Bytes
  backup : Option Bytes

inductive Call (Instant : Type) where
  /-- With what a write of the backup leaves. -/
  | load (write : Bytes → Option Bytes)
  | save (calls : SaveCalls) (state : CrawlCheckpoint Instant)
  | remove

variable (calendar order codec) in
/-- A backup that stands is kept as it is. -/
def Files.step (files : Files) : Call Instant → Files
  | .load write =>
    { files with backup := files.backup <|> (load calendar codec files.file).2.bind write }
  | .save calls state => { files with file := (save calendar order codec calls files.file state).2 }
  | .remove => { files with file := none }

theorem Files.run_backup {files : Files} {bytes : Bytes} (stands : files.backup = some bytes)
    (calls : List (Call Instant)) :
    (calls.foldl (Files.step calendar order codec) files).backup = some bytes := by
  induction calls generalizing files with
  | nil => exact stands
  | cons call rest ih =>
    apply ih
    cases call <;> simp [Files.step, stands]

/-- The first file that a load refuses stays in the backup, whatever is called after it; a load
that returns a state leaves the backup as it is. -/
theorem first_refused_kept (content : Bytes) (backup : Option Bytes) (write : Bytes → Option Bytes)
    (calls : List (Call Instant)) :
    (4 ≤ content.length → (load calendar codec (some content)).1 = none →
      (calls.foldl (Files.step calendar order codec)
        (Files.step calendar order codec ⟨some content, none⟩ (.load some))).backup = some content) ∧
    ((load calendar codec (some content)).1.isSome →
      Files.step calendar order codec ⟨some content, backup⟩ (.load write) = ⟨some content, backup⟩) := by
  have kept := @load_kept _ calendar codec content
  constructor
  · intro long refused
    apply Files.run_backup
    rw [refused, if_neg (by simpa using long)] at kept
    simp [Files.step, kept]
  · intro taken
    rw [if_pos (.inl taken)] at kept
    simp [Files.step, kept]

/-- A state is taken from nothing but the frame of a payload that holds it, in the current
version. -/
def TakesOnlyFrames (calendar : Calendar Instant) (codec : Codec) (content : Bytes) : Prop :=
  ∀ state, (load calendar codec (some content)).1 = some state →
    ∃ payload, content = framed codec.bigEndian codec.crc32 payload ∧
      decode calendar codec payload = some state ∧ state.version = currentCheckpointVersion

theorem takesOnlyFrames_iff (calendar : Calendar Instant) (codec : Codec) (content : Bytes) :
    TakesOnlyFrames calendar codec content ↔
      content.length < 4 ∨ (∃ payload, content = framed codec.bigEndian codec.crc32 payload) ∨
        ∀ old, decodeLegacy calendar codec content = some old → old.version ≠ currentCheckpointVersion := by
  by_cases whole : ∃ payload, content = framed codec.bigEndian codec.crc32 payload
  · refine iff_of_true ?_ (.inr (.inl whole))
    rcases whole with ⟨payload, rfl⟩
    exact fun state loaded => ⟨payload, rfl, load_framed.mp loaded⟩
  · by_cases short : content.length < 4
    · refine iff_of_true (fun state loaded => ?_) (.inl short)
      match content with
      | [] | [_] | [_, _] | [_, _, _] => cases loaded
      | _ :: _ :: _ :: _ :: _ => exact absurd short (by simp)
    · have unframed := not_exists.mp whole
      have loads : ∀ state, (load calendar codec (some content)).1 = some state ↔ _ := fun _ =>
        load_unframed (by omega) unframed
      constructor
      · intro takes
        refine .inr (.inr fun old legacy current => ?_)
        rcases takes old.into ((loads _).mpr ⟨old, legacy, rfl, current⟩) with ⟨payload, framed, -⟩
        exact unframed payload framed
      · intro condition state loaded
        have stale := (condition.resolve_left short).resolve_left whole
        rcases (loads state).mp loaded with ⟨old, legacy, rfl, current⟩
        exact absurd current (stale old legacy)

/-- What a save writes of a state of the current version is read back as that state; and a load takes
nothing but frames exactly where no plain document of the old format claims the current version. -/
theorem load_save_and_takes_iff {calls : SaveCalls} {file saved : Option Bytes}
    {state : CrawlCheckpoint Instant} (current : state.version = currentCheckpointVersion)
    (reads : codec.parse (codec.render (state.toValue calendar order)) = some (state.toValue calendar order))
    (wrote : save calendar order codec calls file state = (.ok (), saved)) (content : Bytes) :
    (load calendar codec saved).1 = some state ∧ (TakesOnlyFrames calendar codec content ↔
      content.length < 4 ∨ (∃ payload, content = framed codec.bigEndian codec.crc32 payload) ∨
        ∀ old, decodeLegacy calendar codec content = some old → old.version ≠ currentCheckpointVersion) := by
  refine ⟨?_, takesOnlyFrames_iff calendar codec content⟩
  have same : saved = some (encode calendar order codec state) := by
    unfold save at wrote
    split at wrote <;> cases wrote
    rfl
  rw [same, encode]
  refine load_framed.mpr ⟨?_, current⟩
  rw [decode, reads, Option.bind_some, CrawlCheckpoint.fromValue_toValue]

namespace CheckpointRuns

def crcByte (crc : UInt32) (byte : UInt8) : UInt32 :=
  (List.range 8).foldl
    (fun crc _ => if crc &&& 1 = 1 then (crc >>> 1) ^^^ 0xEDB88320 else crc >>> 1)
    (crc ^^^ byte.toUInt32)

def crc32 (bytes : Bytes) : UInt32 := bytes.foldl crcByte 0xFFFFFFFF ^^^ 0xFFFFFFFF

def utf8 (text : String) : Bytes := text.toUTF8.data.toList

example : crc32 (utf8 "123456789") = 0xCBF43926 := by decide +kernel

def savedText : Bytes :=
  utf8 ("\x7b\"visited\":[\"https://example.com/\"],\"queued\":[\"https://example.com/a\"]," ++
    "\"pages_crawled\":1,\"banned_domains\":[],\"version\":2\x7d")

def savedDocument : Json :=
  .obj [("visited", .arr [.str "https://example.com/"]), ("queued", .arr [.str "https://example.com/a"]),
    ("pages_crawled", .int 1), ("banned_domains", .arr []), ("version", .int 2)]

def plainText : Bytes := utf8 "\x7b\"visited\":[\"https://example.com/\"],\"version\":2\x7d"

def plainDocument : Json :=
  .obj [("visited", .arr [.str "https://example.com/"]), ("version", .int 2)]

/-- The JSON of the two documents. -/
def twoTexts : Codec where
  parse text :=
    if text = savedText then some savedDocument
    else if text = plainText then some plainDocument else none
  render document := if document == savedDocument then savedText else plainText
  crc32 := crc32
  bigEndian := false

def strings : Calendar String := ⟨id, some, fun _ => rfl⟩

def sorted : HashOrder := ⟨fun set => set.sort (· ≤ ·), fun set => set.sort_toFinset _⟩

def savedState : CrawlCheckpoint String :=
  ⟨{"https://example.com/"}, ["https://example.com/a"], 1, [], 2⟩

theorem savedState_toValue : savedState.toValue strings sorted = savedDocument := by
  simp [CrawlCheckpoint.toValue, savedState, savedDocument, sorted]

theorem load_save_frontier :
    (load strings twoTexts (some (encode strings sorted twoTexts savedState))).1 = some savedState ∧
    (TakesOnlyFrames strings twoTexts plainText ↔
      plainText.length < 4 ∨ (∃ payload, plainText = framed false crc32 payload) ∨
        ∀ old, decodeLegacy strings twoTexts plainText = some old →
          old.version ≠ currentCheckpointVersion) := by
  have reads : twoTexts.parse (twoTexts.render (savedState.toValue strings sorted)) =
      some (savedState.toValue strings sorted) := by
    rw [savedState_toValue]
    rfl
  have wrote : save strings sorted twoTexts {} none savedState =
    (.ok (), some (encode strings sorted twoTexts savedState)) := rfl
  exact load_save_and_takes_iff rfl reads wrote plainText

/-- A torn file outlasts the save over it, its load and its removal. -/
theorem torn_kept :
    ([Call.save {} savedState, .load some, .remove].foldl (Files.step strings sorted twoTexts)
      (Files.step strings sorted twoTexts ⟨some (utf8 "torn!"), none⟩ (.load some))).backup =
        some (utf8 "torn!") :=
  (first_refused_kept (utf8 "torn!") none some _).1 (by decide)
    (Option.isNone_iff_eq_none.mp (by decide +kernel))

/-- Plain JSON without a checksum is taken as a checkpoint of the current version. -/
theorem plain_text_taken : (∃ state, (load strings twoTexts (some plainText)).1 = some state ∧
      state.version = currentCheckpointVersion) ∧
    (∀ payload, plainText ≠ framed false crc32 payload) ∧ ¬ TakesOnlyFrames strings twoTexts plainText := by
  have unframed : ∀ payload, plainText ≠ framed false crc32 payload := by
    have split : plainText = 0x7B :: 0x22 :: 0x76 :: 0x69 :: plainText.drop 4 := by decide
    intro payload same
    have rest : payload = plainText.drop 4 := by
      rcases framed_split false crc32 payload with ⟨a, b, c, d, whole, -⟩
      rw [same, whole]
      rfl
    rw [split, ← rest, eq_framed_iff, rest] at same
    exact absurd same (by decide +kernel)
  have parsed : twoTexts.parse plainText = some plainDocument := by
    have other : plainText ≠ savedText := by decide
    simp [twoTexts, other]
  have legacy : decodeLegacy strings twoTexts plainText =
      some ⟨["https://example.com/"], [], 0, 2, []⟩ := by
    rw [decodeLegacy, parsed]
    rfl
  have long : 4 ≤ plainText.length := by decide
  have taken := (load_unframed long unframed).mpr ⟨_, legacy, rfl, rfl⟩
  refine ⟨⟨_, taken, rfl⟩, unframed, fun takes => ?_⟩
  rcases takes _ taken with ⟨payload, whole, -⟩
  exact unframed payload whole

end CheckpointRuns

end Webfang.Crawler.CheckpointFile
