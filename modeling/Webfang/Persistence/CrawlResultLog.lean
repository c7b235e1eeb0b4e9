import Webfang.Library.Frames
import Webfang.Library.Transition

/-!
# The crawl-result log

`application/crawl_result_repository.rs`: an append-only file of frames with an index from each
URL to the offset of its last frame. A session reads the index back from the file, queues the
records it is given, and a background writer appends them one by one. The file survives the
sessions; a session ends by a shutdown, or by a crash in the middle of a write.
-/
namespace Webfang.Persistence

open Library Frames

/-- `serde_json` on the serialised fields of `ScrapedContent`. A record is read back as it was
written, and its URL is the text under the key `url`. -/
structure RecordCodec (Record : Type) where
  url : Record → String
  toVec : Record → List UInt8
  fromSlice : List UInt8 → Except String Record
  urlField : List UInt8 → Option String
  fromSlice_toVec : ∀ record, fromSlice (toVec record) = .ok record
  urlField_toVec : ∀ record, urlField (toVec record) = some (url record)

/-- The `DashMap`. -/
abbrev OffsetIndex := String → Option Nat

def OffsetIndex.insert (index : OffsetIndex) (url : String) (offset : Nat) : OffsetIndex :=
  fun other => if other = url then some offset else index other

section Reading

variable {Record : Type} (codec : RecordCodec Record)

/-- The loop of `recover_index` from `offset` on. A payload that is not all there ends it; a
payload without a URL, or a missing terminator, does not. -/
def recoverFrom (offset : Nat) (bytes : List UInt8) (index : OffsetIndex) : OffsetIndex :=
  if bytes.length < 4 then index
  else
    let len := fromLeBytes (bytes.take 4)
    let rest := bytes.drop 4
    if rest.length < len then index
    else
      let index :=
        match codec.urlField (rest.take len) with
        | some url => index.insert url offset
        | none => index
      recoverFrom (offset + 4 + len + 1) (rest.drop (len + 1)) index
termination_by bytes.length
decreasing_by simp only [List.length_drop]; omega

def recoverIndex (log : List UInt8) : OffsetIndex := recoverFrom codec 0 log fun _ => none

def endOfFile : String := "failed to fill whole buffer"

def findByUrl (log : List UInt8) (index : OffsetIndex) (url : String) :
    Except String (Option Record) :=
  match index url with
  | none => .ok none
  | some offset =>
    let bytes := log.drop offset
    if bytes.length < 4 then .error ("lectura de longitud fallida: " ++ endOfFile)
    else
      let len := fromLeBytes (bytes.take 4)
      let rest := bytes.drop 4
      if rest.length < len then .error ("lectura de payload fallida: " ++ endOfFile)
      else
        match codec.fromSlice (rest.take len) with
        | .ok record => .ok (some record)
        | .error e => .error ("deserialización fallida: " ++ e)

end Reading

/-! ### Sessions -/

/-- One `CrawlResultRepositoryImpl` with its writer. -/
structure LogSession (Record : Type) where
  index : OffsetIndex
  queue : List Record
  /-- Where the writer takes the end of the file to be, once it has opened the file. -/
  offset : Option Nat
  writeError : Bool
  /-- The writer has returned, and the channel is closed. -/
  gone : Bool

/-- `written` are the records whose frames were written whole, over all sessions. -/
structure LogState (Record : Type) where
  log : List UInt8
  written : List Record
  session : Option (LogSession Record)

def LogState.start {Record : Type} : LogState Record := ⟨[], [], none⟩

inductive LogEvent (Record : Type) where
  | reopen
  /-- `full`: the channel has no room. -/
  | save (record : Record) (full : Bool)
  /-- The log cannot be opened or its size not be read, at the first append of the session. -/
  | openFails
  | write
  /-- Only `written` bytes of the frame reach the file. `sized`: the file tells its size. -/
  | writeFails (written : Nat) (sized : Bool)
  /-- The process ends, with `written` bytes of the frame it was about to write in the file. -/
  | crash (written : Nat)
  | shutdown

namespace LogState

variable {Record : Type} (codec : RecordCodec Record)

def frameOf (record : Record) : List UInt8 := frame (codec.toVec record)

/-- The record the writer is about to write. -/
def next (s : LogState Record) : Option Record :=
  s.session.bind fun session => if session.gone then none else session.queue.head?

/-- `save`: what the channel does not take is reported to the caller. -/
def save (session : LogSession Record) (record : Record) (full : Bool) : LogSession Record :=
  if session.writeError then session
  else if session.gone then { session with writeError := true }
  else if full then session
  else { session with queue := session.queue ++ [record] }

/-- `append_cmd` for the first record of the queue: its frame goes to the end of the file. -/
def append (log : List UInt8) (session : LogSession Record) (record : Record) : LogSession Record :=
  let offset := session.offset.getD log.length
  { session with
    index := session.index.insert (codec.url record) offset
    queue := session.queue.tail
    offset := some (offset + 4 + (codec.toVec record).length % 2 ^ 32 + 1) }

/-- A frame of which only a part is written: the record is not indexed. -/
def appendFails (before after : List UInt8) (session : LogSession Record) (sized : Bool) :
    LogSession Record :=
  { session with
    queue := session.queue.tail
    offset := some (if sized then after.length else session.offset.getD before.length)
    writeError := true }

/-- One event; `none` when it cannot happen. -/
def step (s : LogState Record) : LogEvent Record → Option (LogState Record)
  | .reopen =>
    match s.session with
    | none => some { s with session := some ⟨recoverIndex codec s.log, [], none, false, false⟩ }
    | some _ => none
  | .save record full => do
    let session ← s.session
    some { s with session := some (save session record full) }
  | .openFails => do
    let session ← s.session
    if session.gone = false ∧ session.queue ≠ [] ∧ session.offset = none then
      some { s with session := some { session with queue := [], writeError := true, gone := true } }
    else none
  | .write => do
    let session ← s.session
    let record ← s.next
    some ⟨s.log ++ frameOf codec record, s.written ++ [record],
      some (append codec s.log session record)⟩
  | .writeFails written sized => do
    let session ← s.session
    let record ← s.next
    let log := s.log ++ (frameOf codec record).take written
    if written < (frameOf codec record).length then
      some { s with log, session := some (appendFails s.log log session sized) }
    else none
  | .crash written => do
    let _ ← s.session
    match s.next with
    | none => some { s with session := none }
    | some record =>
      if written < (frameOf codec record).length then
        some { s with log := s.log ++ (frameOf codec record).take written, session := none }
      else none
  | .shutdown => do
    let _ ← s.session
    match s.next with
    | none => some { s with session := none }
    | some _ => none

def Step (s : LogState Record) (e : LogEvent Record) (s' : LogState Record) : Prop :=
  step codec s e = some s'

def latest (written : List Record) (url : String) : Option Record :=
  written.foldl (fun held record => if codec.url record = url then some record else held) none

/-- Every record that was written whole is found, in its latest version for the URL. -/
def Recovers (s : LogState Record) : Prop :=
  ∀ session, s.session = some session → ∀ url record, latest codec s.written url = some record →
    findByUrl codec s.log session.index url = .ok (some record)

/-! ### What one event does -/

/-- `put` bytes of the frame of the record reach the file. -/
inductive Steps (s : LogState Record) : LogEvent Record → LogState Record → Prop
  | reopened (ended : s.session = none) :
      Steps s .reopen { s with session := some ⟨recoverIndex codec s.log, [], none, false, false⟩ }
  | kept {e : LogEvent Record} {session session' : LogSession Record} (open_ : s.session = some session)
      (index : session'.index = session.index) (offset : session'.offset = session.offset) :
      Steps s e { s with session := some session' }
  | wrote {session : LogSession Record} {record : Record} (open_ : s.session = some session)
      (next : s.next = some record) :
      Steps s .write ⟨s.log ++ frameOf codec record, s.written ++ [record],
        some (append codec s.log session record)⟩
  | failed {session : LogSession Record} {record : Record} {written : Nat} {sized : Bool}
      (open_ : s.session = some session) (next : s.next = some record)
      (cut : written < (frameOf codec record).length) :
      Steps s (.writeFails written sized)
        { s with
          log := s.log ++ (frameOf codec record).take written
          session := some (appendFails s.log (s.log ++ (frameOf codec record).take written) session sized) }
  | crashed {record : Record} {written : Nat} (next : s.next = some record)
      (cut : written < (frameOf codec record).length) :
      Steps s (.crash written)
        { s with log := s.log ++ (frameOf codec record).take written, session := none }
  | ended {e : LogEvent Record} : Steps s e { s with session := none }

variable {codec} {s s' : LogState Record} {e : LogEvent Record}

theorem step_cases (taken : Step codec s e s') : Steps codec s e s' := by
  unfold Step at taken
  cases e with
  | reopen =>
    cases ended : s.session with
    | none =>
      simp only [step, ended] at taken
      cases taken
      exact .reopened ended
    | some session =>
      simp only [step, ended] at taken
      cases taken
  | save record full =>
    obtain ⟨session, open_, taken⟩ := Option.bind_eq_some_iff.mp taken
    cases taken
    refine .kept open_ ?_ ?_ <;> (unfold save; split_ifs <;> rfl)
  | openFails =>
    obtain ⟨session, open_, taken⟩ := Option.bind_eq_some_iff.mp taken
    obtain ⟨-, same⟩ := Option.ite_none_right_eq_some.mp taken
    cases same
    exact .kept open_ rfl rfl
  | write =>
    obtain ⟨session, open_, taken⟩ := Option.bind_eq_some_iff.mp taken
    obtain ⟨record, next, taken⟩ := Option.bind_eq_some_iff.mp taken
    cases taken
    exact .wrote open_ next
  | writeFails written sized =>
    obtain ⟨session, open_, taken⟩ := Option.bind_eq_some_iff.mp taken
    obtain ⟨record, next, taken⟩ := Option.bind_eq_some_iff.mp taken
    obtain ⟨cut, same⟩ := Option.ite_none_right_eq_some.mp taken
    cases same
    exact .failed open_ next cut
  | crash written =>
    obtain ⟨session, open_, taken⟩ := Option.bind_eq_some_iff.mp taken
    split at taken
    next =>
      cases taken
      exact .ended
    next record next =>
      obtain ⟨cut, same⟩ := Option.ite_none_right_eq_some.mp taken
      cases same
      exact .crashed next cut
  | shutdown =>
    obtain ⟨session, open_, taken⟩ := Option.bind_eq_some_iff.mp taken
    split at taken
    next =>
      cases taken
      exact .ended
    next => cases taken

end LogState

end Webfang.Persistence
