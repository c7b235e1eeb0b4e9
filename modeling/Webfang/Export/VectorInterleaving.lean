import Webfang.Export.VectorAppenders

/-!
# Interleaved appends

Any number of instances append their batches to one file in any order of their steps. As long as
no instance writes while another one has looked at the file and not yet written, the file ends
as one object with the documents of all batches, each once. The lock alone does not give this:
the cut comes before it.
-/
namespace Webfang.Export

open Library

namespace SharedVector

open VectorExporter (textsOf)

variable {ι : Type} [DecidableEq ι] {serde : SerdeJson} {s s' start : SharedVector ι} {i j : ι}
  {q : AppendPhase}

/-! ### The lock -/

/-- The instances between their lock and their unlock hold the lock. -/
def Exclusive (s : SharedVector ι) : Prop :=
  ∀ i, s.holder = some i ↔ (s.appenders i).phase.Holding

omit [DecidableEq ι] in
theorem Exclusive.one (exclusive : s.Exclusive) (first : (s.appenders i).phase.Holding)
    (second : (s.appenders j).phase.Holding) : i = j := by
  have same := ((exclusive i).mpr first).symm.trans ((exclusive j).mpr second)
  exact Option.some.inj same

/-- A move on the same side of the lock. -/
theorem Exclusive.moved (exclusive : s.Exclusive) (holder : s'.holder = s.holder)
    (phases : ∀ j, (s'.appenders j).phase = if j = i then q else (s.appenders j).phase)
    (same : q.Holding ↔ (s.appenders i).phase.Holding) : s'.Exclusive := by
  intro j
  rw [holder, exclusive j, phases j]
  split
  next here => rw [here, same]
  next => rfl

theorem Exclusive.step (exclusive : s.Exclusive) (taken : Steps serde s i s') : s'.Exclusive := by
  cases taken with
  | skip here | miss here | opens here | create here | look here | first here | count here | patch here =>
    exact exclusive.moved rfl (fun _ => move_phase) (by rw [here]; exact Iff.rfl)
  | lock here free =>
    intro j
    simp only [move_phase, Option.some.injEq]
    split
    next same => exact ⟨fun _ => trivial, fun _ => same.symm⟩
    next other =>
      -- nobody held the free lock
      have none := exclusive j
      rw [free] at none
      exact ⟨fun same => absurd same.symm other, fun holding => nomatch none.mpr holding⟩
  | write here =>
    exact exclusive.moved rfl (fun _ => wrote_phase) (by rw [here]; exact Iff.rfl)
  | unlock here =>
    intro j
    simp only [move_phase]
    split
    next => exact ⟨nofun, nofun⟩
    next other =>
      refine ⟨nofun, fun holding => ?_⟩
      have held : (s.appenders i).phase.Holding := by rw [here]; trivial
      exact absurd (exclusive.one holding held) other

/-! ### The batches -/

/-- The documents of an instance's batch as its exporter writes them. -/
def entriesOf (start : SharedVector ι) (i : ι) : List ExportedChunk :=
  (start.appenders i).exporter.entries (start.appenders i).documents

/-- What the file holds after the batches of these instances, in this order. -/
def contents (start : SharedVector ι) (old : List ExportedChunk) (order : List ι) : List ExportedChunk :=
  old ++ order.flatMap start.entriesOf

/-- The batches still to be written are those of the start, and no empty one gets that far. -/
structure Untouched (start s : SharedVector ι) : Prop where
  documents : ∀ i, (s.appenders i).documents = (start.appenders i).documents
  exporter : ∀ i, ¬ (s.appenders i).phase.HasWritten →
    (s.appenders i).exporter = (start.appenders i).exporter
  nonempty : ∀ i, (s.appenders i).phase = .opened ∨ (s.appenders i).phase.Looking →
    (s.appenders i).documents ≠ []

theorem Untouched.moved (untouched : Untouched start s)
    (phases : ∀ j, (s'.appenders j).phase = if j = i then q else (s.appenders j).phase)
    (documents : ∀ j, (s'.appenders j).documents = (s.appenders j).documents)
    (exporters : ∀ j, j ≠ i ∨ ¬ q.HasWritten → (s'.appenders j).exporter = (s.appenders j).exporter)
    (wrote : (s.appenders i).phase.HasWritten → q.HasWritten)
    (started : q = .opened ∨ q.Looking → (s.appenders i).documents ≠ []) : Untouched start s' := by
  refine ⟨fun j => (documents j).trans (untouched.documents j), fun j before => ?_, fun j opened => ?_⟩
  · rw [phases] at before
    split at before
    next here =>
      subst here
      exact (exporters j (.inr before)).trans (untouched.exporter j fun already => before (wrote already))
    next other => exact (exporters j (.inl other)).trans (untouched.exporter j before)
  · rw [phases] at opened
    rw [documents]
    split at opened
    next here => exact here ▸ started opened
    next => exact untouched.nonempty j opened

theorem Untouched.step (untouched : Untouched start s) (taken : Steps serde s i s') :
    Untouched start s' := by
  have going {p : AppendPhase} (here : (s.appenders i).phase = p) (looking : p = .opened ∨ p.Looking) :
      (s.appenders i).documents ≠ [] := untouched.nonempty i (by rw [here]; exact looking)
  cases taken with
  | skip here | patch here | unlock here =>
    exact untouched.moved (fun _ => move_phase) (fun _ => move_documents) (fun _ _ => move_exporter)
      (fun _ => trivial) (by simp [AppendPhase.Looking])
  | miss here nonempty | opens here nonempty =>
    exact untouched.moved (fun _ => move_phase) (fun _ => move_documents) (fun _ _ => move_exporter)
      (by rw [here]; nofun) fun _ => nonempty
  | look here =>
    exact untouched.moved (fun _ => move_phase) (fun _ => move_documents) (fun _ _ => move_exporter)
      (by rw [here]; nofun) fun _ => going here (.inl rfl)
  | create here | lock here | first here | count here =>
    exact untouched.moved (fun _ => move_phase) (fun _ => move_documents) (fun _ _ => move_exporter)
      (by rw [here]; nofun) fun _ => going here (.inr trivial)
  | write here =>
    refine untouched.moved (fun _ => wrote_phase) (fun _ => wrote_documents) (fun j other => ?_)
      (fun _ => trivial) (by simp [AppendPhase.Looking])
    rw [wrote_exporter, if_neg (other.resolve_right (not_not.mpr trivial))]

/-! ### The file -/

/-- The file holds these documents. An instance that looks at it may have cut the closing, and
one that has written its batch may have left an older count. -/
def SharedHolds (bytes : Bytes) (texts : List String) (cut unpatched : Prop) : Prop :=
  (texts = [] ∧ bytes = []) ∨
    (texts ≠ [] ∧ ∃ (header : VectorHeader) (count : Nat), count < 10 ^ countFieldWidth ∧
      (¬ unpatched → count = texts.length) ∧ (cut → bytes = header.opened count texts) ∧
      (¬ cut → bytes = header.opened count texts ++ closing))

theorem SharedHolds.nil_iff {bytes : Bytes} {texts : List String} {cut unpatched : Prop}
    (holds : SharedHolds bytes texts cut unpatched) : bytes = [] ↔ texts = [] := by
  rcases holds with ⟨none, empty⟩ | ⟨more, header, count, -, -, open', closed⟩
  · exact ⟨fun _ => none, fun _ => empty⟩
  · have full : bytes ≠ [] := by
      intro empty
      have opened := opened_ne_nil header count texts
      by_cases looking : cut
      · exact opened ((open' looking).symm.trans empty)
      · exact opened (List.append_eq_nil_iff.mp ((closed looking).symm.trans empty)).1
    exact ⟨fun empty => absurd empty full, fun none => absurd none more⟩

/-- What an instance relies on in its phase. -/
def Knows (bytes : Bytes) (texts : List String) : AppendPhase → Prop
  | .absent => texts = []
  | .looked offset | .locked offset => texts = [] → offset = 0
  | .counted existing offset => offset = bytes.length ∧ (existing.isSome = true ↔ texts ≠ []) ∧
    existing.getD 0 = texts.length
  | .written total => total = texts.length
  | _ => True

/-- Only an instance that has counted the documents relies on the bytes of the file. -/
theorem Knows.of_uncounted {bytes bytes' : Bytes} {texts : List String} {phase : AppendPhase}
    (known : Knows bytes texts phase) (uncounted : ∀ existing offset, phase ≠ .counted existing offset) :
    Knows bytes' texts phase := by
  cases phase with
  | absent => exact show texts = [] from known
  | looked offset | locked offset => exact show texts = [] → offset = 0 from known
  | counted existing offset => exact absurd rfl (uncounted existing offset)
  | written total => exact show total = texts.length from known
  | idle | opened | patched | done => trivial

/-- Some instance looks at the file. -/
def Cut (s : SharedVector ι) : Prop := ∃ i, (s.appenders i).phase.Looking

def Unpatched (s : SharedVector ι) : Prop := ∃ i total, (s.appenders i).phase = .written total

/-- The batches of `order` are in the file, one instance at most looks at it, and each instance is
right about what it relies on. -/
structure Sound (serde : SerdeJson) (start : SharedVector ι) (old : List ExportedChunk)
    (order : List ι) (s : SharedVector ι) : Prop where
  nodup : order.Nodup
  members : ∀ i, i ∈ order ↔ (s.appenders i).phase.HasWritten
  finite : ∀ e ∈ start.contents old order, e.stored.Finite
  single : ∀ i j, (s.appenders i).phase.Looking → (s.appenders j).phase.Looking → i = j
  file : SharedHolds (outputBytes s.file) (textsOf serde (start.contents old order)) s.Cut s.Unpatched
  knows : ∀ i, Knows (outputBytes s.file) (textsOf serde (start.contents old order)) (s.appenders i).phase

variable {old : List ExportedChunk} {order : List ι}

/-- A move on the same side of the write. -/
theorem Sound.members_moved (sound : Sound serde start old order s)
    (phases : ∀ j, (s'.appenders j).phase = if j = i then q else (s.appenders j).phase)
    (wrote : q.HasWritten ↔ (s.appenders i).phase.HasWritten) (j : ι) :
    j ∈ order ↔ (s'.appenders j).phase.HasWritten := by
  rw [phases, sound.members j]
  split
  next here => rw [here, wrote]
  next => rfl

/-- A move that leaves the file and the documents in it as they are. -/
theorem Sound.moved (sound : Sound serde start old order s) {order' : List ι} (nodup : order'.Nodup)
    (same : start.contents old order' = start.contents old order)
    (members : ∀ j, j ∈ order' ↔ (s'.appenders j).phase.HasWritten)
    (bytes : outputBytes s'.file = outputBytes s.file)
    (phases : ∀ j, (s'.appenders j).phase = if j = i then q else (s.appenders j).phase)
    (alone : q.Looking → ∀ j, j ≠ i → ¬ (s.appenders j).phase.Looking)
    (looks : (q.Looking ↔ (s.appenders i).phase.Looking) ∨
      textsOf serde (start.contents old order) = [])
    (settled : ∀ total, (s.appenders i).phase ≠ .written total)
    (knows : Knows (outputBytes s.file) (textsOf serde (start.contents old order)) q) :
    Sound serde start old order' s' := by
  refine ⟨nodup, members, by rw [same]; exact sound.finite, fun j k first second => ?_, ?_, fun j => ?_⟩
  · rw [phases] at first second
    split at first
    next here =>
      split at second
      next there => rw [here, there]
      next other => exact absurd second (alone first k other)
    next other =>
      split at second
      next => exact absurd first (alone second j other)
      next => exact sound.single j k first second
  · rw [bytes, same]
    rcases sound.file with none | ⟨more, header, count, room, counted, cut, closed⟩
    · exact .inl none
    · -- the same instances look, and the same ones are still to patch
      have still : s'.Cut ↔ s.Cut := by
        have looking := looks.resolve_right more
        constructor
        · rintro ⟨j, looks⟩
          rw [phases] at looks
          split at looks
          next here => exact ⟨i, looking.mp looks⟩
          next => exact ⟨j, looks⟩
        · rintro ⟨j, looks⟩
          by_cases here : j = i
          · exact ⟨i, by rw [phases, if_pos rfl]; exact looking.mpr (here ▸ looks)⟩
          · exact ⟨j, by rw [phases, if_neg here]; exact looks⟩
      have later : s.Unpatched → s'.Unpatched := by
        rintro ⟨j, total, written⟩
        by_cases here : j = i
        · exact absurd (here ▸ written) (settled total)
        · exact ⟨j, total, by rw [phases, if_neg here]; exact written⟩
      exact .inr ⟨more, header, count, room, fun patched => counted fun left => patched (later left),
        fun now => cut (still.mp now), fun none => closed fun now => none (still.mpr now)⟩
  · rw [bytes, phases, same]
    split
    next => exact knows
    next => exact sound.knows j

/-- A move of the one instance that looks at the file, which leaves the file as it is. -/
theorem Sound.advance (sound : Sound serde start old order s)
    (bytes : outputBytes s'.file = outputBytes s.file)
    (phases : ∀ j, (s'.appenders j).phase = if j = i then q else (s.appenders j).phase)
    (looks : (s.appenders i).phase.Looking) (still : q.Looking)
    (knows : Knows (outputBytes s.file) (textsOf serde (start.contents old order)) q) :
    Sound serde start old order s' := by
  have unwritten {phase : AppendPhase} (looks : phase.Looking) : ¬ phase.HasWritten := by
    cases phase with
    | absent | looked offset | locked offset | counted existing offset => exact id
    | idle | opened | written total | patched | done => cases looks
  refine sound.moved sound.nodup rfl ?_ bytes phases ?_ (.inl ⟨fun _ => looks, fun _ => still⟩) ?_ knows
  · exact sound.members_moved phases ⟨fun wrote => absurd wrote (unwritten still),
      fun wrote => absurd wrote (unwritten looks)⟩
  · exact fun _ j other looking => other (sound.single j i looking looks)
  · intro total written
    rw [written] at looks
    cases looks

/-- The cut of an instance when no other one looks at the file. -/
theorem Sound.look (sound : Sound serde start old order s) (here : (s.appenders i).phase = .opened)
    (boundary : BoundaryScan (outputBytes s.file)) (alone : ¬ s.Cut) :
    Sound serde start old order { s.move i (.looked (truncateAtBracket (outputBytes s.file)).length) with
      file := some (truncateAtBracket (outputBytes s.file)) } := by
  have quiet (j : ι) : ¬ (s.appenders j).phase.Looking := fun looks => alone ⟨j, looks⟩
  have cutNil (empty : outputBytes s.file = []) : truncateAtBracket (outputBytes s.file) = [] := by
    rw [empty]
    exact truncateAtBracket_nil
  refine ⟨sound.nodup, fun j => ?_, sound.finite, fun j k first second => ?_, ?_, fun j => ?_⟩
  · rw [sound.members j]
    simp only [move_phase]
    split
    next same => rw [same, here]; exact Iff.rfl
    next => rfl
  · simp only [move_phase] at first second
    split at first
    next same =>
      split at second
      next same' => rw [same, same']
      next => exact absurd second (quiet k)
    next => exact absurd first (quiet j)
  · rcases sound.file with ⟨none, empty⟩ | ⟨more, header, count, room, counted, -, closed⟩
    · refine .inl ⟨none, ?_⟩
      rw [outputBytes, Option.getD_some, cutNil empty]
    · have bytes := closed alone
      rw [bytes] at boundary ⊢
      refine .inr ⟨more, header, count, room, fun patched => counted fun left => patched ?_, ?_, ?_⟩
      · obtain ⟨j, total, written⟩ := left
        have other : j ≠ i := by
          rintro rfl
          rw [here] at written
          cases written
        exact ⟨j, total, by simp [other, written]⟩
      · intro _
        rw [outputBytes, Option.getD_some, truncateAtBracket_opened boundary]
      · exact fun none => absurd ⟨i, by simp [AppendPhase.Looking]⟩ none
  · simp only [move_phase]
    split
    next =>
      -- the offset is the new end of the file, so 0 in an empty one
      rw [Knows]
      intro none
      rcases sound.file with ⟨-, empty⟩ | ⟨more, -⟩
      · rw [cutNil empty, List.length_nil]
      · exact absurd none more
    next =>
      apply (sound.knows j).of_uncounted
      intro existing offset phase
      exact quiet j (by rw [phase]; trivial)

/-- An empty batch changes nothing. -/
theorem Sound.skip (sound : Sound serde start old order s) (untouched : Untouched start s)
    (here : (s.appenders i).phase = .idle) (empty : (s.appenders i).documents = []) :
    Sound serde start old (order ++ [i]) (s.move i .done) := by
  have none : start.entriesOf i = [] := by
    rw [entriesOf, ← untouched.documents i, empty]
    rfl
  have same : start.contents old (order ++ [i]) = start.contents old order := by
    simp [contents, none]
  have fresh : i ∉ order := by
    rw [sound.members i, here]
    exact id
  refine sound.moved (List.nodup_append_comm.mp ?_) same (fun j => ?_) rfl (fun _ => move_phase) nofun
    (.inl (by rw [here]; exact Iff.rfl)) (by rw [here]; nofun) trivial
  · exact List.nodup_cons.mpr ⟨fresh, sound.nodup⟩
  · rw [List.mem_append, List.mem_singleton, sound.members j, move_phase]
    split
    next here => exact ⟨fun _ => trivial, fun _ => .inr here⟩
    next other => exact or_iff_left other

theorem patchHeader_nil (exporter : VectorExporter) (total : Nat) (left : Bytes) :
    exporter.patchHeader [] total ≠ (.ok (), left) := by
  have failed : ∃ e, patchHeaderField [] (readHeaderBytes []) totalMarker "total_documents"
      (countField total) countFieldWidth = (.error e, []) := by
    unfold patchHeaderField
    split
    next => exact ⟨_, rfl⟩
    next => exact ⟨_, rfl⟩
  obtain ⟨e, failed⟩ := failed
  rw [VectorExporter.patchHeader, failed]
  rintro ⟨⟩

/-- The patch puts the present count under the same documents. -/
theorem SharedHolds.patch {exporter : VectorExporter} {bytes left : Bytes} {texts : List String}
    {cut unpatched still : Prop} (holds : SharedHolds bytes texts cut unpatched)
    (patched : exporter.patchHeader bytes texts.length = (.ok (), left)) :
    SharedHolds left texts cut still := by
  rcases holds with ⟨-, rfl⟩ | ⟨more, header, count, room, -, open', closed⟩
  · exact absurd patched (patchHeader_nil _ _ _)
  · have split (ended : Bytes) : header.opened count texts ++ ended =
        header.line count ++ (documentsMarker ++ vectorBody (texts.map utf8) ++ ended) := by
      rw [VectorHeader.opened, List.append_assoc]
    by_cases looking : cut
    · rw [open' looking, ← List.append_nil (header.opened count texts), split] at patched
      obtain ⟨roomTotal, header', rfl, -⟩ := VectorHeader.patchHeader_line room patched
      refine .inr ⟨more, header', texts.length, roomTotal, fun _ => rfl, fun _ => ?_,
        fun none => absurd looking none⟩
      rw [VectorHeader.opened, List.append_nil]
    · rw [closed looking, split] at patched
      obtain ⟨roomTotal, header', rfl, -⟩ := VectorHeader.patchHeader_line room patched
      refine .inr ⟨more, header', texts.length, roomTotal, fun _ => rfl, fun now => absurd now looking,
        fun _ => ?_⟩
      rw [VectorHeader.opened, List.append_assoc (header'.line _)]

/-- The header windows of a batch that was written. -/
theorem Sound.patch (sound : Sound serde start old order s) (exclusive : s.Exclusive) {total : Nat}
    {left : Bytes} (here : (s.appenders i).phase = .written total)
    (patched : (s.appenders i).exporter.patchHeader (outputBytes s.file) total = (.ok (), left)) :
    Sound serde start old order { s.move i .patched with file := some left } := by
  have total_eq : total = (textsOf serde (start.contents old order)).length := by
    have known := sound.knows i
    rwa [here] at known
  have still : ({ s.move i .patched with file := some left } : SharedVector ι).Cut = s.Cut := by
    apply propext
    constructor
    · rintro ⟨j, looks⟩
      simp only [move_phase] at looks
      split at looks
      next => cases looks
      next => exact ⟨j, looks⟩
    · rintro ⟨j, looks⟩
      have other : j ≠ i := by
        rintro rfl
        rw [here] at looks
        cases looks
      exact ⟨j, by simp [other, looks]⟩
  refine ⟨sound.nodup, fun j => ?_, sound.finite, fun j k first second => ?_, ?_, fun j => ?_⟩
  · exact sound.members_moved (fun _ => move_phase) (by rw [here]; exact Iff.rfl) j
  · simp only [move_phase] at first second
    split at first
    next => cases first
    next =>
      split at second
      next => cases second
      next => exact sound.single j k first second
  · rw [total_eq] at patched
    rw [still]
    exact sound.file.patch patched
  · simp only [move_phase]
    split
    next => trivial
    next other =>
      apply (sound.knows j).of_uncounted
      intro existing offset phase
      -- both would hold the lock
      have both := exclusive.one (i := j) (j := i) (by rw [phase]; trivial) (by rw [here]; trivial)
      exact other both

/-- A batch goes behind the documents there are, under a header that keeps its count for now. -/
theorem SharedHolds.write {exporter : VectorExporter} {createdAt : Timestamp} {existing : Option Nat}
    {bytes header text : Bytes} {texts more : List String} {cut unpatched cut' unpatched' : Prop}
    (holds : SharedHolds bytes texts cut unpatched) (looking : cut)
    (known : existing.isSome = true ↔ texts ≠ [])
    (started : header = if existing.isSome then [] else exporter.buildHeaderLine (utf8 createdAt.text))
    (room : ∀ n, exporter.dimensions = some n → n < 10 ^ dimFieldWidth) (nonempty : more ≠ [])
    (body : vectorBody ((texts ++ more).map utf8) = vectorBody (texts.map utf8) ++ text)
    (done : ¬ cut') (left : unpatched') :
    SharedHolds (writeAt bytes bytes.length (header ++ text ++ closing)) (texts ++ more) cut' unpatched' := by
  rw [writeAt_end]
  right
  refine ⟨by simp [nonempty], ?_⟩
  rcases holds with ⟨rfl, rfl⟩ | ⟨old, header', count, small, -, open', -⟩
  · -- the first documents of the file
    have unknown : ¬ existing.isSome = true := fun some => known.mp some rfl
    rw [if_neg unknown] at started
    refine ⟨⟨exporter.dimensions, createdAt, room⟩, 0, by decide, fun patched => absurd left patched,
      fun now => absurd now done, fun _ => ?_⟩
    have new : vectorBody (more.map utf8) = text := by simpa [vectorBody] using body
    rw [started, List.nil_append, List.nil_append, VectorHeader.opened, new]
    simp [VectorHeader.line, VectorExporter.buildHeaderLine]
  · rw [if_pos (known.mpr old)] at started
    refine ⟨header', count, small, fun patched => absurd left patched, fun now => absurd now done,
      fun _ => ?_⟩
    rw [started, open' looking, VectorHeader.opened, VectorHeader.opened, body]
    simp

/-- The dimensions of an exporter that has written do not fit, so its call will not return
`Ok`. -/
def Doomed (s : SharedVector ι) : Prop :=
  ∃ i total n, (s.appenders i).phase = .written total ∧ (s.appenders i).exporter.dimensions = some n ∧
    ¬ n < 10 ^ dimFieldWidth

theorem some_iff_map {existing : Option Nat} {texts : List String}
    (known : existing.isSome = true ↔ texts ≠ []) : existing.isSome = true ↔ texts.map utf8 ≠ [] := by
  rw [known, ne_eq, ne_eq, List.map_eq_nil_iff]

/-- The write of an instance when no other one has looked at the file. -/
theorem Sound.write (sound : Sound serde start old order s) (exclusive : s.Exclusive)
    (untouched : Untouched start s) {existing : Option Nat} {offset : Nat} {header : Bytes}
    {written : VectorExporter.Written} (here : (s.appenders i).phase = .counted existing offset)
    (started : header = if existing.isSome then []
      else (s.appenders i).exporter.buildHeaderLine (utf8 (s.appenders i).createdAt.text))
    (serialized : written = VectorExporter.writeDocuments serde (s.appenders i).exporter existing.isSome
      (s.appenders i).documents) (ended : written.result = .ok ())
    (alone : ∀ j, j ≠ i → ¬ (s.appenders j).phase.Looking)
    (room : ∀ n, (s.appenders i).exporter.dimensions = some n → n < 10 ^ dimFieldWidth) :
    Sound serde start old (order ++ [i])
      (s.wrote i written.exporter (existing.getD 0 + (s.appenders i).documents.length)
        (writeAt (outputBytes s.file) offset (header ++ written.text ++ closing))) := by
  have fresh : i ∉ order := by
    rw [sound.members i, here]
    exact id
  have entries : start.entriesOf i = (s.appenders i).exporter.entries (s.appenders i).documents := by
    rw [entriesOf, untouched.documents i, untouched.exporter i (by rw [here]; exact id)]
  have grown : start.contents old (order ++ [i]) = start.contents old order ++ start.entriesOf i := by
    simp [contents]
  have texts : textsOf serde (start.contents old (order ++ [i])) =
      textsOf serde (start.contents old order) ++ textsOf serde (start.entriesOf i) := by
    rw [grown, textsOf, List.map_append]
    rfl
  obtain ⟨offset_eq, known, counted⟩ : offset = (outputBytes s.file).length ∧
      (existing.isSome = true ↔ textsOf serde (start.contents old order) ≠ []) ∧
      existing.getD 0 = (textsOf serde (start.contents old order)).length := by
    have knows := sound.knows i
    rwa [here] at knows
  subst serialized
  obtain ⟨body, finite, -⟩ := VectorExporter.writeDocuments_ok (some_iff_map known) ended
  rw [← entries] at body finite
  refine ⟨?_, fun j => ?_, ?_, fun j k lookingFirst lookingSecond => ?_, ?_, fun j => ?_⟩
  · exact List.nodup_append_comm.mp (List.nodup_cons.mpr ⟨fresh, sound.nodup⟩)
  · rw [List.mem_append, List.mem_singleton, sound.members j, wrote_phase]
    split
    next same => exact ⟨fun _ => trivial, fun _ => .inr same⟩
    next other => exact or_iff_left other
  · intro e member
    rw [grown] at member
    rcases List.mem_append.mp member with before | new
    · exact sound.finite e before
    · exact finite e new
  · rw [wrote_phase] at lookingFirst
    split at lookingFirst
    next => cases lookingFirst
    next other => exact absurd lookingFirst (alone j other)
  · rw [texts, offset_eq]
    refine sound.file.write ⟨i, by rw [here]; trivial⟩ known started room ?_ ?_ ?_
      ⟨i, existing.getD 0 + (s.appenders i).documents.length, ?_⟩
    · have nonempty := untouched.nonempty i (.inr (by rw [here]; trivial))
      rw [entries, textsOf, ne_eq, List.map_eq_nil_iff, ← List.length_eq_zero_iff,
        VectorExporter.length_entries, List.length_eq_zero_iff]
      exact nonempty
    · rw [List.map_append, VectorExporter.map_utf8_textsOf (start.entriesOf i)]
      exact body
    · rintro ⟨j, looks⟩
      rw [wrote_phase] at looks
      split at looks
      next => cases looks
      next other => exact alone j other looks
    · rw [wrote_phase, if_pos rfl]
  · rw [wrote_phase]
    split
    next =>
      change _ = _
      rw [texts, List.length_append, counted, entries, textsOf, textsOf, List.length_map, List.length_map,
        VectorExporter.length_entries]
    next other =>
      have quiet := alone j other
      cases phase : (s.appenders j).phase with
      | written total =>
        -- both would hold the lock
        have both := exclusive.one (i := j) (j := i) (by rw [phase]; trivial) (by rw [here]; trivial)
        exact absurd both other
      | idle | opened | patched | done => trivial
      | absent | looked offset | locked offset | counted existing offset =>
        rw [phase] at quiet
        exact absurd trivial quiet

/-! ### Runs -/

/-- Two instances have looked at the file, so neither may write. -/
def Stuck (s : SharedVector ι) : Prop :=
  ∃ i j, i ≠ j ∧ (s.appenders i).phase.Looking ∧ (s.appenders j).phase.Looking

/-- An instance looks for the bracket from a character on, and writes only when no other one has
looked at the file and is still to write. -/
def Ordered (s : SharedVector ι) (i : ι) : Prop :=
  match (s.appenders i).phase with
  | .opened => BoundaryScan (outputBytes s.file)
  | .counted .. => ∀ j, j ≠ i → ¬ (s.appenders j).phase.Looking
  | _ => True

theorem Steps.frame (taken : Steps serde s i s') (other : j ≠ i) :
    (s'.appenders j).phase = (s.appenders j).phase ∧
      (s'.appenders j).exporter = (s.appenders j).exporter := by
  cases taken with
  | write => exact ⟨by rw [wrote_phase, if_neg other], by rw [wrote_exporter, if_neg other]⟩
  | _ => exact ⟨by simp only [move_phase, if_neg other], by simp only [move_exporter]⟩

/-- Only the write ends a look at the file. -/
theorem Steps.looking (taken : Steps serde s i s') (looks : (s.appenders i).phase.Looking)
    (unwritten : ∀ existing offset, (s.appenders i).phase ≠ .counted existing offset) :
    (s'.appenders i).phase.Looking := by
  cases taken with
  | create here | lock here | first here | count here =>
    simp only [move_phase]
    trivial
  | write here => exact absurd here (unwritten _ _)
  | skip here | miss here | opens here | look here | patch here | unlock here =>
    rw [here] at looks
    cases looks

theorem Stuck.step (stuck : s.Stuck) (ordered : s.Ordered i) (taken : Steps serde s i s') : s'.Stuck := by
  obtain ⟨j, k, apart, first, second⟩ := stuck
  have still {j k : ι} (apart : j ≠ k) (first : (s.appenders j).phase.Looking)
      (second : (s.appenders k).phase.Looking) : (s'.appenders j).phase.Looking := by
    by_cases here : j = i
    · subst here
      apply taken.looking first
      intro existing offset counted
      rw [Ordered, counted] at ordered
      exact ordered k apart.symm second
    · rw [(taken.frame here).1]
      exact first
  exact ⟨j, k, apart, still apart first second, still apart.symm second first⟩

theorem Doomed.step (doomed : s.Doomed) (taken : Steps serde s i s') : s'.Doomed := by
  obtain ⟨j, total, n, written, known, misfit⟩ := doomed
  by_cases here : j = i
  · subst here
    cases taken with
    | patch here patched => exact absurd (VectorExporter.fits_of_patchHeader patched n known) misfit
    | skip here | miss here | opens here | create here | look here | lock here | first here | count here
    | write here | unlock here =>
      rw [here] at written
      cases written
  · obtain ⟨phase, exporter⟩ := taken.frame here
    exact ⟨j, total, n, phase.trans written, exporter ▸ known, misfit⟩

theorem Sound.step (sound : Sound serde start old order s) (exclusive : s.Exclusive)
    (untouched : Untouched start s) (ordered : s.Ordered i) (taken : Steps serde s i s') :
    s'.Stuck ∨ s'.Doomed ∨ ∃ order', Sound serde start old order' s' := by
  have known {p : AppendPhase} (here : (s.appenders i).phase = p) :
      Knows (outputBytes s.file) (textsOf serde (start.contents old order)) p := by
    have knows := sound.knows i
    rwa [here] at knows
  -- an instance that begins to look while another one looks
  have crowded (cut : s.Cut) (idle : ¬ (s.appenders i).phase.Looking)
      (looks : (s'.appenders i).phase.Looking) : s'.Stuck := by
    obtain ⟨j, looking⟩ := cut
    have other : j ≠ i := by
      rintro rfl
      exact idle looking
    exact ⟨i, j, other.symm, looks, by rw [(taken.frame other).1]; exact looking⟩
  cases taken with
  | skip here empty => exact .inr (.inr ⟨_, sound.skip untouched here empty⟩)
  | miss here nonempty missing =>
    have none : textsOf serde (start.contents old order) = [] :=
      sound.file.nil_iff.mp (by rw [missing]; rfl)
    by_cases cut : s.Cut
    · exact .inl (crowded cut (by rw [here]; exact id) (by simp [AppendPhase.Looking]))
    · refine .inr (.inr ⟨order, sound.moved sound.nodup rfl ?_ rfl (fun _ => move_phase) ?_ (.inr none) ?_ none⟩)
      · exact sound.members_moved (fun _ => move_phase) (by rw [here]; exact Iff.rfl)
      · exact fun _ j _ looks => cut ⟨j, looks⟩
      · rw [here]
        rintro total ⟨⟩
  | opens here nonempty =>
    refine .inr (.inr ⟨order, sound.moved sound.nodup rfl ?_ rfl (fun _ => move_phase) ?_ (.inl ?_) ?_ trivial⟩)
    · exact sound.members_moved (fun _ => move_phase) (by rw [here]; exact Iff.rfl)
    · exact False.elim
    · rw [here]
      exact Iff.rfl
    · rw [here]
      rintro total ⟨⟩
  | create here =>
    exact .inr (.inr ⟨order, sound.advance rfl (fun _ => move_phase) (by rw [here]; trivial) trivial
      fun _ => rfl⟩)
  | look here =>
    by_cases cut : s.Cut
    · exact .inl (crowded cut (by rw [here]; exact id) (by simp [AppendPhase.Looking]))
    · rw [Ordered, here] at ordered
      exact .inr (.inr ⟨order, sound.look here ordered cut⟩)
  | @lock offset here free =>
    have relied : Knows _ _ (.looked offset) := known here
    exact .inr (.inr ⟨order, sound.advance rfl (fun _ => move_phase) (by rw [here]; trivial) trivial
      relied⟩)
  | first here empty =>
    have none := sound.file.nil_iff.mp empty
    refine .inr (.inr ⟨order, sound.advance rfl (fun _ => move_phase) (by rw [here]; trivial) trivial ?_⟩)
    refine ⟨?_, by simp [none], ?_⟩
    · rw [empty]
      exact known here none
    · rw [none]
      rfl
  | @count offset existing read here more answered =>
    rcases sound.file with ⟨-, empty⟩ | ⟨some, header, count, room, counted, open', -⟩
    · exact absurd empty more
    · -- nobody else is between its write and its patch, as that takes the lock
      have patched : ¬ s.Unpatched := by
        rintro ⟨j, total, written⟩
        have both := exclusive.one (i := j) (j := i) (by rw [written]; trivial) (by rw [here]; trivial)
        rw [both, here] at written
        cases written
      have bytes := open' ⟨i, by rw [here]; trivial⟩
      have count_eq := counted patched
      subst count_eq
      have asked := @VectorHeader.readAppendState_line header (s.appenders i).exporter _
        (List.length_pos_iff.mpr some) room
        (documentsMarker ++ vectorBody ((textsOf serde (start.contents old order)).map utf8))
      rw [bytes, VectorHeader.opened, asked] at answered
      cases answered
      refine .inr (.inr ⟨order, sound.advance bytes.symm (fun _ => move_phase) (by rw [here]; trivial) trivial ?_⟩)
      refine ⟨by rw [bytes]; rfl, by simp [some], rfl⟩
  | write here started serialized ended =>
    rw [Ordered, here] at ordered
    by_cases room : ∀ n, (s.appenders i).exporter.dimensions = some n → n < 10 ^ dimFieldWidth
    · exact .inr (.inr ⟨_, sound.write exclusive untouched here started serialized ended ordered room⟩)
    · -- an exporter keeps the dimensions it knows
      obtain ⟨n, misfit⟩ := not_forall.mp room
      obtain ⟨recorded, misfit⟩ := Classical.not_imp.mp misfit
      refine .inr (.inl ⟨i, _, n, by rw [wrote_phase, if_pos rfl], ?_, misfit⟩)
      obtain ⟨-, some, -⟩ := known here
      rw [wrote_exporter, if_pos rfl, serialized]
      rw [serialized] at ended
      rw [(VectorExporter.writeDocuments_ok (some_iff_map some) ended).2.2]
      exact VectorExporter.foldl_learn _ _ recorded
  | patch here patched => exact .inr (.inr ⟨order, sound.patch exclusive here patched⟩)
  | unlock here =>
    refine .inr (.inr ⟨order, sound.moved sound.nodup rfl ?_ rfl (fun _ => move_phase) ?_ (.inl ?_) ?_ trivial⟩)
    · exact sound.members_moved (fun _ => move_phase) (by rw [here]; exact Iff.rfl)
    · exact False.elim
    · rw [here]
      exact Iff.rfl
    · rw [here]
      rintro total ⟨⟩

/-- Before the calls: nobody has opened the file, and it holds documents of earlier calls. -/
structure Fresh (serde : SerdeJson) (old : List ExportedChunk) (start : SharedVector ι) : Prop where
  unlocked : start.holder = none
  idle : ∀ i, (start.appenders i).phase = .idle
  file : VectorHolds (outputBytes start.file) (textsOf serde old)
  finite : ∀ e ∈ old, e.stored.Finite

omit [DecidableEq ι] in
theorem Fresh.sound (fresh : Fresh serde old start) : Sound serde start old [] start := by
  have none : start.contents old [] = old := List.append_nil old
  have quiet : ¬ start.Cut := by
    rintro ⟨i, looks⟩
    rw [fresh.idle i] at looks
    cases looks
  refine ⟨List.nodup_nil, fun i => ?_, by rw [none]; exact fresh.finite, fun i j looks => ?_, ?_, fun i => ?_⟩
  · rw [fresh.idle i]
    exact ⟨nofun, nofun⟩
  · exact absurd ⟨i, looks⟩ quiet
  · rw [none]
    rcases fresh.file with empty | ⟨more, room, header, closed⟩
    · exact .inl empty
    · exact .inr ⟨more, header, _, room, fun _ => rfl, fun cut => absurd cut quiet, fun _ => closed⟩
  · rw [fresh.idle i]
    trivial

omit [DecidableEq ι] in
/-- Once every instance has returned, the file holds all batches in some order, each once. -/
theorem Sound.holds (sound : Sound serde start old order s)
    (returned : ∀ i, (s.appenders i).phase = .done) :
    VectorHolds (outputBytes s.file) (textsOf serde (start.contents old order)) := by
  rcases sound.file with empty | ⟨more, header, count, room, counted, -, closed⟩
  · exact .inl empty
  · have quiet : ¬ s.Cut := by
      rintro ⟨i, looks⟩
      rw [returned i] at looks
      cases looks
    have patched : ¬ s.Unpatched := by
      rintro ⟨i, total, written⟩
      rw [returned i] at written
      cases written
    have count_eq := counted patched
    subst count_eq
    exact .inr ⟨more, room, header, closed quiet⟩

theorem batches_merged {double : List Char → UInt64} (spelled : serde.Spelled double)
    (fresh : Fresh serde old start)
    (reached : Reachable (fun s i s' => step serde s i = some s') Ordered start s)
    (returned : ∀ i, (s.appenders i).phase = .done) :
    ∃ order : List ι, order.Nodup ∧ (∀ i, i ∈ order) ∧
      ObjectOf serde double s.file (old ++ order.flatMap start.entriesOf) := by
  have established : s.Exclusive ∧ Untouched start s ∧
      (s.Stuck ∨ s.Doomed ∨ ∃ order, Sound serde start old order s) := by
    refine reached.invariant (motive := fun s => s.Exclusive ∧ Untouched start s ∧
      (s.Stuck ∨ s.Doomed ∨ ∃ order, Sound serde start old order s)) ?_ ?_
    · refine ⟨fun i => ?_, ⟨fun _ => rfl, fun _ _ => rfl, fun i opened => ?_⟩, .inr (.inr ⟨[], fresh.sound⟩)⟩
      · rw [fresh.unlocked, fresh.idle i]
        exact ⟨nofun, nofun⟩
      · rw [fresh.idle i] at opened
        exact absurd opened (by simp [AppendPhase.Looking])
    · rintro s i s' ⟨exclusive, untouched, standing⟩ ordered taken
      have steps := step_cases taken
      refine ⟨exclusive.step steps, untouched.step steps, ?_⟩
      rcases standing with stuck | doomed | ⟨order, sound⟩
      · exact .inl (stuck.step ordered steps)
      · exact .inr (.inl (doomed.step steps))
      · exact sound.step exclusive untouched ordered steps
  obtain ⟨-, -, ⟨i, j, -, looks, -⟩ | ⟨i, total, n, written, -⟩ | ⟨order, sound⟩⟩ := established
  · rw [returned i] at looks
    cases looks
  · rw [returned i] at written
    cases written
  · refine ⟨order, sound.nodup, fun i => ?_, (sound.holds returned).object spelled sound.finite⟩
    rw [sound.members i, returned i]
    trivial

/-! Two instances append a document each to a file of one. In the first run the second instance
opens the file once the first one has written; in the other one it cuts the file, at a bracket in
the text of the document, while the first one holds the lock. -/

namespace Footnote

open VectorSession.Price (plainSerde plainDouble plainSerde_spelled createdAt document)

def held : List ExportedChunk := [⟨document "see [1]" [], none⟩]

def header : VectorHeader := ⟨none, createdAt, nofun⟩

def appender (content : String) : Appender := ⟨.new, createdAt, [document content []], .idle⟩

def beginning : SharedVector Bool where
  file := some (header.opened 1 (textsOf plainSerde held) ++ closing)
  holder := none
  appenders i := appender (if i then "b" else "a")

theorem beginning_fresh : Fresh plainSerde held beginning where
  unlocked := rfl
  idle _ := rfl
  file := .inr ⟨by simp [textsOf, held], by decide, header, rfl⟩
  finite e member := by
    rw [List.mem_singleton.mp member]
    rintro components ⟨⟩

def inTurn : List Bool :=
  [false, false, false, false, false, true, true, false, false, true, true, true, true, true]

def crossed : List Bool :=
  [false, false, false, false, true, true, false, false, false, true, true, true, true, true]

instance (s : SharedVector Bool) (i : Bool) : Decidable (s.Ordered i) := by
  unfold Ordered
  split <;> infer_instance

theorem in_turn_merged : ∃ (s : SharedVector Bool) (order : List Bool), order.Nodup ∧ (∀ i, i ∈ order) ∧
    ObjectOf plainSerde plainDouble s.file (held ++ order.flatMap beginning.entriesOf) := by
  have ran : ((runEvents (fun s i => if decide (s.Ordered i) then step plainSerde s i else none)
      beginning inTurn).any fun s => decide (∀ i, (s.appenders i).phase = .done)) = true := by decide +kernel
  obtain ⟨s, ran, done⟩ := (Option.any_eq_true _ _).mp ran
  have reached : Reachable (fun s i s' => step plainSerde s i = some s') Ordered beginning s :=
    Reachable.run_checked .start (fun _ _ => of_decide_eq_true) ran
  exact ⟨s, batches_merged plainSerde_spelled beginning_fresh reached (of_decide_eq_true done)⟩

theorem crossed_lost : ∃ s, Fresh plainSerde held beginning ∧
    Reachable (fun s i s' => step plainSerde s i = some s') (fun _ _ => True) beginning s ∧
    (∀ i, (s.appenders i).phase = .done) ∧
    ∀ exported, ¬ ObjectOf plainSerde plainDouble s.file exported := by
  have ran : ((runEvents (step plainSerde) beginning crossed).any fun s =>
      decide (∀ i, (s.appenders i).phase = .done) && (outputBytes s.file).contains 0) = true := by
    decide +kernel
  obtain ⟨s, ran, ended⟩ := (Option.any_eq_true _ _).mp ran
  obtain ⟨done, zero⟩ := Bool.and_eq_true_iff.mp ended
  exact ⟨s, beginning_fresh, Reachable.run .start (fun _ _ _ => trivial) ran, of_decide_eq_true done,
    fun _ => not_objectOf_of_zero (List.mem_of_elem_eq_true zero)⟩

end Footnote

end SharedVector

end Webfang.Export
