import Webfang.Export.VectorRuns

/-!
# Appenders of one vector file

Instances of the vector exporter that append a batch each to one path, step by step: the file is
opened, cut at its bracket, locked, read, written, patched and unlocked. Only the steps from the
lock on exclude each other.
-/
namespace Webfang.Export

open Domain

/-- A write at an offset; a gap behind the end is filled with zeros. -/
def writeAt (bytes : Bytes) (offset : Nat) (text : Bytes) : Bytes :=
  setLen bytes offset ++ text ++ bytes.drop (offset + text.length)

theorem writeAt_end (bytes text : Bytes) : writeAt bytes bytes.length text = bytes ++ text := by
  simp [writeAt, setLen]

/-- Where an instance is in its call. -/
inductive AppendPhase where
  | idle
  /-- `path.exists()` was false. -/
  | absent
  /-- An existing file is open. -/
  | opened
  /-- The bracket was looked for, or a new file created; with the offset of the handle. -/
  | looked (offset : Nat)
  | locked (offset : Nat)
  /-- The number of documents in the file, `none` when the next one is the first. -/
  | counted (existing : Option Nat) (offset : Nat)
  | written (total : Nat)
  | patched
  /-- The call returned `Ok`. -/
  | done
  deriving DecidableEq

namespace AppendPhase

/-- From the look at the file to the write. -/
def Looking : AppendPhase → Prop
  | absent | looked _ | locked _ | counted .. => True
  | _ => False

def Holding : AppendPhase → Prop
  | locked _ | counted .. | written _ | patched => True
  | _ => False

def HasWritten : AppendPhase → Prop
  | written _ | patched | done => True
  | _ => False

instance (phase : AppendPhase) : Decidable phase.Looking := by
  cases phase <;> unfold Looking <;> infer_instance

end AppendPhase

structure Appender where
  exporter : VectorExporter
  createdAt : Timestamp
  documents : List EmbeddedChunk
  phase : AppendPhase

structure SharedVector (ι : Type) where
  file : Option Bytes
  /-- The instance that holds the exclusive lock. -/
  holder : Option ι
  appenders : ι → Appender

namespace SharedVector

variable {ι : Type} [DecidableEq ι] (serde : SerdeJson) (s : SharedVector ι) (i : ι)

def move (phase : AppendPhase) : SharedVector ι :=
  { s with appenders := Function.update s.appenders i { s.appenders i with phase := phase } }

/-- The batch is in the file, and the exporter knows its dimensions. -/
def wrote (exporter : VectorExporter) (total : Nat) (file : Bytes) : SharedVector ι :=
  { s with
    file := some file
    appenders := Function.update s.appenders i { s.appenders i with
      exporter := exporter
      phase := .written total } }

/-- The next step of an instance in `export_batch`. There is none when it has returned, when it
waits for the lock, and when its call returns an error. -/
def step : Option (SharedVector ι) :=
  let a := s.appenders i
  let bytes := outputBytes s.file
  match a.phase with
  | .idle =>
    if a.documents = [] then some (s.move i .done)
    else if s.file.isSome then some (s.move i .opened)
    else some (s.move i .absent)
  | .absent => some { s.move i (.looked 0) with file := some bytes }
  | .opened =>
    let cut := truncateAtBracket bytes
    some { s.move i (.looked cut.length) with file := some cut }
  | .looked offset =>
    if s.holder.isNone then some { s.move i (.locked offset) with holder := some i } else none
  | .locked offset =>
    if bytes = [] then some (s.move i (.counted none offset))
    else
      match a.exporter.readAppendState bytes with
      | .error _ => none
      | .ok (existing, read) =>
        some { s.move i (.counted (some existing) read.length) with file := some read }
  | .counted existing offset =>
    let header := if existing.isSome then [] else a.exporter.buildHeaderLine (utf8 a.createdAt.text)
    let written := VectorExporter.writeDocuments serde a.exporter existing.isSome a.documents
    match written.result with
    | .error _ => none
    | .ok () => some (s.wrote i written.exporter (existing.getD 0 + a.documents.length)
        (writeAt bytes offset (header ++ written.text ++ closing)))
  | .written total =>
    match a.exporter.patchHeader bytes total with
    | (.error _, _) => none
    | (.ok (), left) => some { s.move i .patched with file := some left }
  | .patched => some { s.move i .done with holder := none }
  | .done => none

/-- What a step of an instance can do. -/
inductive Steps : SharedVector ι → Prop
  | skip (here : (s.appenders i).phase = .idle) (empty : (s.appenders i).documents = []) :
    Steps (s.move i .done)
  | miss (here : (s.appenders i).phase = .idle) (nonempty : (s.appenders i).documents ≠ [])
    (missing : s.file = none) : Steps (s.move i .absent)
  | opens (here : (s.appenders i).phase = .idle) (nonempty : (s.appenders i).documents ≠ []) :
    Steps (s.move i .opened)
  | create (here : (s.appenders i).phase = .absent) :
    Steps { s.move i (.looked 0) with file := some (outputBytes s.file) }
  | look (here : (s.appenders i).phase = .opened) :
    Steps { s.move i (.looked (truncateAtBracket (outputBytes s.file)).length) with
      file := some (truncateAtBracket (outputBytes s.file)) }
  | lock {offset : Nat} (here : (s.appenders i).phase = .looked offset) (free : s.holder = none) :
    Steps { s.move i (.locked offset) with holder := some i }
  | first {offset : Nat} (here : (s.appenders i).phase = .locked offset)
    (empty : outputBytes s.file = []) : Steps (s.move i (.counted none offset))
  | count {offset existing : Nat} {read : Bytes} (here : (s.appenders i).phase = .locked offset)
    (more : outputBytes s.file ≠ [])
    (answered : (s.appenders i).exporter.readAppendState (outputBytes s.file) = .ok (existing, read)) :
    Steps { s.move i (.counted (some existing) read.length) with file := some read }
  | write {existing : Option Nat} {offset : Nat} {header : Bytes} {written : VectorExporter.Written}
    (here : (s.appenders i).phase = .counted existing offset)
    (started : header = if existing.isSome then []
      else (s.appenders i).exporter.buildHeaderLine (utf8 (s.appenders i).createdAt.text))
    (serialized : written = VectorExporter.writeDocuments serde (s.appenders i).exporter existing.isSome
      (s.appenders i).documents) (ended : written.result = .ok ()) :
    Steps (s.wrote i written.exporter (existing.getD 0 + (s.appenders i).documents.length)
      (writeAt (outputBytes s.file) offset (header ++ written.text ++ closing)))
  | patch {total : Nat} {left : Bytes} (here : (s.appenders i).phase = .written total)
    (patched : (s.appenders i).exporter.patchHeader (outputBytes s.file) total = (.ok (), left)) :
    Steps { s.move i .patched with file := some left }
  | unlock (here : (s.appenders i).phase = .patched) : Steps { s.move i .done with holder := none }

variable {serde s i} {s' : SharedVector ι} {j : ι} {q : AppendPhase}

@[simp] theorem move_phase : ((s.move i q).appenders j).phase =
    if j = i then q else (s.appenders j).phase := by
  simp only [move, Function.update_apply]
  split <;> rfl

@[simp] theorem move_documents : ((s.move i q).appenders j).documents = (s.appenders j).documents := by
  simp only [move, Function.update_apply]
  split
  next same => rw [same]
  next => rfl

@[simp] theorem move_exporter : ((s.move i q).appenders j).exporter = (s.appenders j).exporter := by
  simp only [move, Function.update_apply]
  split
  next same => rw [same]
  next => rfl

section

variable {exporter : VectorExporter} {total : Nat} {file : Bytes}

@[simp] theorem wrote_phase : ((s.wrote i exporter total file).appenders j).phase =
    if j = i then .written total else (s.appenders j).phase := by
  simp only [wrote, Function.update_apply]
  split <;> rfl

@[simp] theorem wrote_documents :
    ((s.wrote i exporter total file).appenders j).documents = (s.appenders j).documents := by
  simp only [wrote, Function.update_apply]
  split
  next same => rw [same]
  next => rfl

@[simp] theorem wrote_exporter : ((s.wrote i exporter total file).appenders j).exporter =
    if j = i then exporter else (s.appenders j).exporter := by
  simp only [wrote, Function.update_apply]
  split <;> rfl

end

theorem step_cases (taken : s.step serde i = some s') : Steps serde s i s' := by
  unfold step at taken
  dsimp only at taken
  split at taken
  next here =>
    split at taken
    next empty =>
      cases taken
      exact .skip here empty
    next nonempty =>
      split at taken
      next =>
        cases taken
        exact .opens here nonempty
      next missing =>
        cases taken
        exact .miss here nonempty (by simpa using missing)
  next here =>
    cases taken
    exact .create here
  next here =>
    cases taken
    exact .look here
  next offset here =>
    split at taken
    next free =>
      cases taken
      exact .lock here (by simpa using free)
    next => cases taken
  next offset here =>
    split at taken
    next empty =>
      cases taken
      exact .first here empty
    next more =>
      split at taken
      next => cases taken
      next answered =>
        cases taken
        exact .count here more answered
  next existing offset here =>
    split at taken
    next => cases taken
    next ended =>
      cases taken
      exact .write here rfl rfl ended
  next total here =>
    split at taken
    next => cases taken
    next patched =>
      cases taken
      exact .patch here patched
  next here =>
    cases taken
    exact .unlock here
  next => cases taken

end SharedVector

end Webfang.Export
