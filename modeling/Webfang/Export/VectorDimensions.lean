import Webfang.Export.VectorRuns

/-!
# The dimensions of a vector file

One exporter after the other appends to one file, and each knows the dimensions of the embeddings it
met itself. The file keeps one length for all its embeddings, and its header names it, as long as the
first embedding that an exporter meets has the length of those in the file.
-/
namespace Webfang.Export

open Library

/-! ### The window of the dimensions -/

theorem trim_dimensions (dimensions : Option Nat) :
    Text.trim (Text.padLeft dimFieldWidth (dimensions.elim "null" toString)) =
      dimensions.elim "null" toString := by
  cases dimensions with
  | none => decide
  | some n => exact Text.trim_padLeft dimFieldWidth n

theorem dimensionsField_inj {first second : Option Nat}
    (same : dimensionsField first = dimensionsField second) : first = second := by
  have texts := congrArg fromUtf8 same
  rw [dimensionsField, dimensionsField, fromUtf8_utf8, fromUtf8_utf8, Option.some.injEq] at texts
  have shown := congrArg Text.trim texts
  rw [trim_dimensions, trim_dimensions] at shown
  -- the text of a number has no letter
  have letter (n : Nat) : toString n ≠ "null" := by
    intro null
    have member : 'n' ∈ Nat.toDigits 10 n := by
      rw [← toList_toString, null]
      decide
    exact absurd (Nat.isDigit_of_mem_toDigits (by decide) (by decide) member) (by decide)
  cases first with
  | none =>
    cases second with
    | none => rfl
    | some n => exact absurd shown.symm (letter n)
  | some m =>
    cases second with
    | none => exact absurd shown (letter m)
    | some n =>
      have digits := congrArg String.toList shown
      simp only [Option.elim_some, toList_toString] at digits
      rw [← @Nat.ofDigitChars_ten_toDigits m, digits, Nat.ofDigitChars_ten_toDigits]

theorem VectorHeader.dimensions_unique {first second : VectorHeader} {m n : Nat} {after after' : Bytes}
    (same : first.line m ++ after = second.line n ++ after') : first.dimensions = second.dimensions := by
  have widthFirst := (length_dimensionsField_iff first.dimensions).mpr first.room
  have widthSecond := (length_dimensionsField_iff second.dimensions).mpr second.room
  simp only [line_eq, front, List.append_assoc] at same
  have rest := List.append_cancel_left (List.append_cancel_left same)
  exact dimensionsField_inj (List.append_inj_left rest (widthFirst.trans widthSecond.symm))

/-- The header of the file says these dimensions. -/
def Dimensioned (bytes : Bytes) (dimensions : Option Nat) : Prop :=
  ∃ (header : VectorHeader) (count : Nat) (after : Bytes),
    header.dimensions = dimensions ∧ bytes = header.line count ++ after

namespace VectorExporter

variable {serde : SerdeJson} {exporter : VectorExporter} {createdAt : Timestamp} {file : Option Bytes}
  {old : List String} {documents : List EmbeddedChunk}

theorem learn_mono (exporter : VectorExporter) (documents : List EmbeddedChunk) :
    (documents.foldl learn exporter).dimensions.or exporter.dimensions =
      (documents.foldl learn exporter).dimensions := by
  cases known : exporter.dimensions with
  | none => rw [Option.or_none]
  | some n => rw [foldl_learn exporter documents known, Option.some_or]

/-- The close of a call patches the dimensions of its exporter over those of the header. -/
theorem finish_dimensions {written : Written} {header : VectorHeader} {count total : Nat} {body : Bytes}
    (room : count < 10 ^ countFieldWidth)
    (returned : (finish written (header.line count ++ body) total).result = .ok ()) :
    Dimensioned (outputBytes (finish written (header.line count ++ body) total).file)
      (written.exporter.dimensions.or header.dimensions) := by
  unfold finish at returned ⊢
  dsimp only at returned ⊢
  cases ended : written.result with
  | error e =>
    rw [ended] at returned
    cases returned
  | ok =>
    rw [ended] at returned
    have whole : header.line count ++ body ++ written.text ++ closing =
        header.line count ++ (body ++ written.text ++ closing) := by
      simp only [List.append_assoc]
    rw [whole] at returned ⊢
    cases patched : written.exporter.patchHeader
      (header.line count ++ (body ++ written.text ++ closing)) total with
    | mk result left =>
      simp only [patched] at returned
      subst returned
      obtain ⟨-, header', rfl, same⟩ := VectorHeader.patchHeader_line room patched
      exact ⟨header', total, _, same, rfl⟩

theorem exportBatch_dimensions (holds : VectorHolds (outputBytes file) old)
    (boundary : BoundaryScan (outputBytes file)) (nonempty : documents ≠ [])
    {dimensions : Option Nat}
    (said : (old = [] ∧ dimensions = none) ∨ Dimensioned (outputBytes file) dimensions)
    (returned : (exporter.exportBatch serde (utf8 createdAt.text) file documents).result = .ok ()) :
    Dimensioned (outputBytes (exporter.exportBatch serde (utf8 createdAt.text) file documents).file)
        ((documents.foldl learn exporter).dimensions.or dimensions) := by
  rw [exportBatch, if_neg nonempty] at returned ⊢
  rcases holds with ⟨rfl, empty⟩ | ⟨more, small, header, closed⟩
  · -- the header of a new file has the dimensions known before the first document
    have opened : exporter.openForDocuments (utf8 createdAt.text) file =
        .ok (none, exporter.buildHeaderLine (utf8 createdAt.text)) := by
      rw [openForDocuments, openForAppend_eq, empty]
      exact if_pos truncateAtBracket_nil
    rw [opened] at returned ⊢
    dsimp only at returned ⊢
    have line : exporter.buildHeaderLine (utf8 createdAt.text) =
        VectorHeader.line ⟨exporter.dimensions, createdAt, room_of_batch returned⟩ 0 ++ documentsMarker := rfl
    have learned := exporter_of_ended (ended_of_finish returned)
    rw [line] at returned ⊢
    have patched := finish_dimensions (by decide) returned
    rw [learned] at patched
    dsimp only at patched
    rw [learn_mono] at patched
    rcases said with ⟨-, rfl⟩ | ⟨header, count, after, -, bytes⟩
    · rwa [Option.or_none]
    · rw [empty] at bytes
      have parts := congrArg List.length bytes
      rw [List.length_append, VectorHeader.line_eq] at parts
      simp only [List.length_append, VectorHeader.length_front, List.length_nil] at parts
      omega
  · have said : Dimensioned (outputBytes file) dimensions := said.resolve_left fun none => more none.1
    obtain ⟨other, count, after, same, bytes⟩ := said
    have whole : header.opened old.length old ++ closing =
        header.line old.length ++ (documentsMarker ++ vectorBody (old.map utf8) ++ closing) := by
      rw [VectorHeader.opened, List.append_assoc]
    have agrees : header.dimensions = dimensions := by
      rw [← same]
      exact VectorHeader.dimensions_unique (whole.symm.trans (closed.symm.trans bytes))
    have opened : exporter.openForDocuments (utf8 createdAt.text) file =
        .ok (some old.length, header.line old.length ++ (documentsMarker ++ vectorBody (old.map utf8))) := by
      rw [openForDocuments, openForAppend_eq, closed, truncateAtBracket_opened (closed ▸ boundary),
        if_neg (opened_ne_nil header _ _), VectorHeader.opened,
        VectorHeader.readAppendState_line exporter (List.length_pos_iff.mpr more) small]
      rfl
    rw [opened] at returned ⊢
    dsimp only at returned ⊢
    have patched := finish_dimensions small returned
    rwa [exporter_of_ended (ended_of_finish returned), agrees] at patched

/-! ### The embeddings of a call -/

/-- What an embedding stored by a call measures is what the exporter knows afterwards. -/
theorem length_of_stored {e : ExportedChunk} (member : e ∈ exporter.entries documents)
    {components : List UInt32} (stored : e.stored.embeddings = some components) :
    (documents.foldl learn exporter).dimensions = some components.length := by
  induction documents generalizing exporter with
  | nil => cases member
  | cons document rest ih =>
    rcases List.mem_cons.mp member with rfl | later
    · rw [List.foldl_cons]
      apply foldl_learn
      unfold ExportedChunk.stored at stored
      dsimp only [learn] at stored ⊢
      split at stored
      next expected listed known embedded =>
        split at stored
        · cases stored
        next agrees =>
          rw [embedded] at stored
          cases stored
          rw [known, Option.some_or, not_not.mp agrees]
      next free =>
        cases known : exporter.dimensions with
        | none => rw [stored, Option.none_or, Option.map_some]
        | some expected => exact absurd stored (free expected components known)
    · exact ih later

theorem stored_first (unknown : exporter.dimensions = none) {components : List UInt32}
    (first : documents.findSome? EmbeddedChunk.embeddings = some components) :
    ∃ e ∈ exporter.entries documents, e.stored.embeddings = some components := by
  induction documents generalizing exporter with
  | nil => cases first
  | cons document rest ih =>
    rw [List.findSome?_cons] at first
    cases embedded : document.embeddings with
    | some listed =>
      rw [embedded] at first
      cases first
      refine ⟨_, List.mem_cons_self, ?_⟩
      rw [ExportedChunk.stored, unknown]
      exact embedded
    | none =>
      rw [embedded] at first
      have unlearned : (exporter.learn document).dimensions = none := by
        rw [learn, unknown, embedded]
        rfl
      obtain ⟨e, member, stored⟩ := ih unlearned first
      exact ⟨e, List.mem_cons_of_mem _ member, stored⟩

/-- What the exporter knows after a call, from what it knew and the first embedding it met. -/
theorem foldl_learn_eq (exporter : VectorExporter) (documents : List EmbeddedChunk) :
    (documents.foldl learn exporter).dimensions =
      exporter.dimensions.or ((documents.findSome? EmbeddedChunk.embeddings).map List.length) := by
  induction documents generalizing exporter with
  | nil => rw [List.findSome?_nil, Option.map_none, Option.or_none]; rfl
  | cons document rest ih =>
    rw [List.foldl_cons, ih, learn, List.findSome?_cons, Option.or_assoc]
    cases document.embeddings with
    | none => rfl
    | some components => rfl

end VectorExporter

/-! ### Runs -/

namespace VectorSession

open VectorExporter (textsOf learn)

variable {serde : SerdeJson} {double : List Char → UInt64} {s s' start : VectorSession}

/-- The length of the embeddings in the file, that of the first one. -/
def storedLength (exported : List ExportedChunk) : Option Nat :=
  (exported.findSome? fun e => e.stored.embeddings).map List.length

/-- The first embedding that an exporter without dimensions meets has the length of those in the
file. -/
def AgreesWith (s : VectorSession) (documents : List EmbeddedChunk) : Prop :=
  s.exporter.dimensions = none → ∀ components length,
    documents.findSome? EmbeddedChunk.embeddings = some components →
      storedLength s.exported = some length → components.length = length

def Agrees (s : VectorSession) : VectorCall → Prop
  | .renew => True
  | .exportDocument _ document => s.AgreesWith [document]
  | .exportBatch _ documents => s.AgreesWith documents

/-- The call opens the file at a character, and its embeddings have the length of those in it. -/
def Fitting (s : VectorSession) (call : VectorCall) : Prop := s.Aligned call ∧ s.Agrees call

/-- The file has no document yet, or it is one JSON object of the exported documents in which all
embeddings have one length, and `dimensions` is that length or null. -/
def Uniform (serde : SerdeJson) (double : List Char → UInt64) (s : VectorSession) : Prop :=
  outputBytes s.file = [] ∨
    ∃ (text : String) (v : Json) (documents : List Json) (length : Nat),
      outputBytes s.file = utf8 text ∧ JsonText.Spells double (.value v) text.toList ∧
        documents = s.exported.map (fun e => e.stored.value serde) ∧
        v.get "documents" = some (.arr documents) ∧
        (∀ d ∈ documents, ∀ components, d.get "embeddings" = some (.arr components) →
          components.length = length) ∧
        (v.get "dimensions" = some .null ∨ v.get "dimensions" = some (.int length))

/-- One length for the embeddings, the exporter and the header. -/
structure Measured (s : VectorSession) : Prop where
  stored : ∀ e ∈ s.exported, ∀ components, e.stored.embeddings = some components →
    storedLength s.exported = some components.length
  knows : ∀ n, s.exporter.dimensions = some n → storedLength s.exported = some n
  said : s.exported = [] ∨ Dimensioned (outputBytes s.file) (storedLength s.exported)

theorem storedLength_append (old new : List ExportedChunk) :
    storedLength (old ++ new) = (storedLength old).or (storedLength new) := by
  rw [storedLength, List.findSome?_append, storedLength, storedLength]
  cases old.findSome? fun e => e.stored.embeddings <;> rfl

theorem exists_of_storedLength {exported : List ExportedChunk} {n : Nat}
    (length : storedLength exported = some n) :
    ∃ e ∈ exported, ∃ components, e.stored.embeddings = some components ∧ components.length = n := by
  obtain ⟨components, found, size⟩ := Option.map_eq_some_iff.mp length
  obtain ⟨e, member, stored⟩ := List.exists_of_findSome?_eq_some found
  exact ⟨e, member, components, stored, size⟩

/-- After a call that agrees, the length is that of the exporter, and else that of the file. -/
theorem Measured.length (measured : s.Measured) {documents : List EmbeddedChunk}
    (agrees : s.AgreesWith documents) :
    storedLength (s.exported ++ s.exporter.entries documents) =
      (documents.foldl learn s.exporter).dimensions.or (storedLength s.exported) := by
  rw [storedLength_append]
  cases after : (documents.foldl learn s.exporter).dimensions with
  | none =>
    have nothing : storedLength (s.exporter.entries documents) = none := by
      by_contra some
      obtain ⟨n, length⟩ := Option.ne_none_iff_exists'.mp some
      obtain ⟨e, member, components, stored, -⟩ := exists_of_storedLength length
      rw [VectorExporter.length_of_stored member stored] at after
      cases after
    rw [nothing, Option.or_none, Option.none_or]
  | some d =>
    rw [Option.some_or]
    have learned := VectorExporter.foldl_learn_eq s.exporter documents
    cases length : storedLength s.exported with
    | some n =>
      rw [Option.some_or, Option.some.injEq]
      cases known : s.exporter.dimensions with
      | some m =>
        have same := measured.knows m known
        rw [length] at same
        rw [known, after, Option.some_or] at learned
        rw [Option.some.inj same, Option.some.inj learned]
      | none =>
        rw [known, after, Option.none_or] at learned
        obtain ⟨components, first, size⟩ := Option.map_eq_some_iff.mp learned.symm
        rw [← size, agrees known components n first length]
    | none =>
      -- the first embedding of the file
      rw [Option.none_or]
      have unknown : s.exporter.dimensions = none := by
        by_contra some
        obtain ⟨m, known⟩ := Option.ne_none_iff_exists'.mp some
        rw [measured.knows m known] at length
        cases length
      rw [unknown, after, Option.none_or] at learned
      obtain ⟨components, first, -⟩ := Option.map_eq_some_iff.mp learned.symm
      obtain ⟨e, member, stored⟩ := VectorExporter.stored_first unknown first
      cases new : storedLength (s.exporter.entries documents) with
      | none =>
        rw [storedLength, Option.map_eq_none_iff, List.findSome?_eq_none_iff] at new
        exact absurd (stored.symm.trans (new e member)) (Option.some_ne_none _)
      | some n =>
        obtain ⟨e, member, components, stored, size⟩ := exists_of_storedLength new
        rw [VectorExporter.length_of_stored member stored, Option.some.injEq] at after
        rw [← size, after]

theorem Measured.extend (measured : s.Measured) {documents : List EmbeddedChunk}
    (agrees : s.AgreesWith documents)
    (exported : s'.exported = s.exported ++ s.exporter.entries documents)
    (exporter : s'.exporter = documents.foldl learn s.exporter)
    (said : Dimensioned (outputBytes s'.file)
      ((documents.foldl learn s.exporter).dimensions.or (storedLength s.exported))) :
    s'.Measured := by
  have length := measured.length agrees
  rw [← exported] at length
  refine ⟨fun e member components stored => ?_, fun n known => ?_, .inr (by rwa [length])⟩
  · rw [exported] at member ⊢
    rcases List.mem_append.mp member with old | new
    · rw [storedLength_append, measured.stored e old components stored, Option.some_or]
    · rw [exported] at length
      rw [length, VectorExporter.length_of_stored new stored, Option.some_or]
  · rw [exporter] at known
    rw [length, known, Option.some_or]

theorem exporter_of_exportBatch {exporter : VectorExporter} {createdAt : Bytes} {file : Option Bytes}
    {documents : List EmbeddedChunk}
    (returned : (exporter.exportBatch serde createdAt file documents).result = .ok ()) :
    (exporter.exportBatch serde createdAt file documents).exporter = documents.foldl learn exporter := by
  rw [VectorExporter.exportBatch] at returned ⊢
  split at returned
  next empty => rw [if_pos empty, empty]; rfl
  next more =>
    rw [if_neg more]
    split at returned
    next => cases returned
    next existing bytes opened =>
      have ended := VectorExporter.ended_of_finish returned
      rw [← VectorExporter.exporter_of_ended ended]
      unfold VectorExporter.finish
      rw [ended]

theorem Measured.batch (measured : s.Measured) (holds : s.Holds serde) {createdAt : Timestamp}
    {documents : List EmbeddedChunk} (nonempty : documents ≠ [])
    (boundary : BoundaryScan (outputBytes s.file)) (agrees : s.AgreesWith documents)
    (taken : s.returned documents
      (s.exporter.exportBatch serde (utf8 createdAt.text) s.file documents) = some s') :
    s'.Measured := by
  rw [returned] at taken
  split at taken
  next => cases taken
  next ok =>
    cases taken
    have said : (textsOf serde s.exported = [] ∧ storedLength s.exported = none) ∨
        Dimensioned (outputBytes s.file) (storedLength s.exported) := by
      refine measured.said.imp_left fun none => ?_
      rw [none]
      exact ⟨rfl, rfl⟩
    exact measured.extend agrees rfl (exporter_of_exportBatch ok)
      (VectorExporter.exportBatch_dimensions holds.file boundary nonempty said ok)

theorem Measured.step (measured : s.Measured) (holds : s.Holds serde) {call : VectorCall}
    (fitting : s.Fitting call) (taken : s.step serde call = some s') : s'.Measured := by
  obtain ⟨aligned, agrees⟩ := fitting
  cases call with
  | renew =>
    cases taken
    exact ⟨measured.stored, nofun, measured.said⟩
  | exportDocument createdAt document =>
    -- a document that is exported is a batch of one
    have ok : (s.exporter.exportDocument serde (utf8 createdAt.text) s.file document).result = .ok () := by
      rw [VectorSession.step, returned] at taken
      split at taken
      next => cases taken
      next ok => exact ok
    rw [VectorSession.step, VectorExporter.exportDocument_eq_exportBatch ok] at taken
    exact measured.batch holds (List.cons_ne_nil document []) aligned agrees taken
  | exportBatch createdAt documents =>
    by_cases nonempty : documents = []
    · subst nonempty
      rw [VectorSession.step, VectorExporter.exportBatch, if_pos rfl] at taken
      cases taken
      rw [show s.exporter.entries [] = [] from rfl, List.append_nil]
      exact measured
    · exact measured.batch holds nonempty (aligned nonempty) agrees taken

theorem get_embeddings (document : EmbeddedChunk) :
    (document.value serde).get "embeddings" = document.embeddings.map fun components =>
      .arr (components.map fun bits => .float (serde.single bits)) := by
  obtain ⟨chunk, embeddings⟩ := document
  cases embeddings with
  | none => cases correlated : chunk.correlationId <;>
      simp [EmbeddedChunk.value, Json.get, WebfangMetadata.optional, correlated]
  | some components => simp [EmbeddedChunk.value, Json.get, WebfangMetadata.optional]

theorem get_dimensions (header : VectorHeader) (values : List Json) :
    (header.object values).get "dimensions" = some (header.dimensions.elim .null fun n => .int n) := by
  simp [Json.get, VectorHeader.object]

theorem Measured.uniform (measured : s.Measured) (holds : s.Holds serde) (spelled : serde.Spelled double) :
    s.Uniform serde double := by
  rcases holds.file with ⟨-, empty⟩ | ⟨more, -, header, closed⟩
  · exact .inl empty
  · obtain ⟨text, bytes, object⟩ := header.spells_closed spelled holds.finite closed
    have said : Dimensioned (outputBytes s.file) (storedLength s.exported) := by
      refine measured.said.resolve_left fun none => more ?_
      rw [none]
      rfl
    obtain ⟨other, count, after, same, whole⟩ := said
    have dimensions : header.dimensions = storedLength s.exported := by
      rw [← same]
      rw [closed, VectorHeader.opened, List.append_assoc] at whole
      exact VectorHeader.dimensions_unique whole
    refine .inr ⟨text, _, _, (storedLength s.exported).getD 0, bytes, object, rfl, ?_, ?_, ?_⟩
    · simp [Json.get, VectorHeader.object]
    · intro d member components embedded
      obtain ⟨e, listed, rfl⟩ := List.mem_map.mp member
      rw [get_embeddings] at embedded
      obtain ⟨stored, present, same⟩ := Option.map_eq_some_iff.mp embedded
      cases same
      rw [measured.stored e listed stored present, List.length_map, Option.getD_some]
    · rw [← dimensions, get_dimensions]
      cases header.dimensions with
      | none => exact .inl rfl
      | some n => exact .inr rfl

/-- In a run whose calls all fit, every file is uniform. -/
theorem vector_files_uniform (spelled : serde.Spelled double) (unused : start.exported = [])
    (empty : outputBytes start.file = []) (fresh : start.exporter = .new)
    (reached : Reachable (fun s call s' => s.step serde call = some s') Fitting start s) :
    s.Uniform serde double := by
  have kept : s.Holds serde ∧ s.Measured := by
    refine reached.invariant (motive := fun s => s.Holds serde ∧ s.Measured) ⟨?_, ?_⟩ ?_
    · exact ⟨.inl ⟨by simp [textsOf, unused], empty⟩, by simp [unused]⟩
    · refine ⟨?_, ?_, .inl unused⟩
      · rw [unused]
        exact List.forall_mem_nil _
      · rw [fresh]
        rintro n ⟨⟩
    · rintro s call s' ⟨holds, measured⟩ fitting taken
      exact ⟨holds.step fitting.1 taken, measured.step holds fitting taken⟩
  exact kept.2.uniform kept.1 spelled

theorem Uniform.common (uniform : s.Uniform serde double) (written : outputBytes s.file ≠ []) :
    ∃ length, ∀ e ∈ s.exported, ∀ components, e.stored.embeddings = some components →
      components.length = length := by
  rcases uniform with empty | ⟨text, v, documents, length, -, -, rfl, -, lengths, -⟩
  · exact absurd empty written
  · refine ⟨length, fun e listed components stored => ?_⟩
    have embedded := @get_embeddings serde e.stored
    rw [stored] at embedded
    have found := lengths _ (List.mem_map_of_mem listed) _ embedded
    rwa [List.length_map] at found

instance (s : VectorSession) (documents : List EmbeddedChunk) : Decidable (s.AgreesWith documents) :=
  decidable_of_iff
    (s.exporter.dimensions = none → ∀ components ∈ documents.findSome? EmbeddedChunk.embeddings,
      ∀ length ∈ storedLength s.exported, components.length = length)
    ⟨fun agrees unknown components length first stored => agrees unknown components first length stored,
      fun agrees unknown components first length stored => agrees unknown components length first stored⟩

instance (s : VectorSession) (call : VectorCall) : Decidable (s.Fitting call) :=
  match call with
  | .renew => inferInstanceAs (Decidable (s.Aligned .renew ∧ True))
  | .exportDocument createdAt document =>
    inferInstanceAs (Decidable (s.Aligned (.exportDocument createdAt document) ∧ s.AgreesWith [document]))
  | .exportBatch createdAt documents =>
    inferInstanceAs (Decidable (s.Aligned (.exportBatch createdAt documents) ∧ s.AgreesWith documents))

/-! A second exporter meets an embedding of one component again, or first one of two. -/

namespace TwoModels

open Price

def vector (n : Nat) : EmbeddedChunk :=
  { document "b" [] with embeddings := some (List.replicate n 0) }

def calls (first : Nat) : List VectorCall :=
  [.exportDocument createdAt (vector 1), .renew, .exportBatch createdAt [vector first, vector 2]]

def lengths (s : VectorSession) : List Nat :=
  s.exported.filterMap fun e => e.stored.embeddings.map List.length

theorem same_model_uniform :
    ∃ s : VectorSession, lengths s = [1, 1] ∧ s.Uniform plainSerde plainDouble := by
  have ran : ((runEvents (fun s call => if decide (s.Fitting call) then s.step plainSerde call else none)
      Price.empty (calls 1)).any fun s => lengths s == [1, 1]) = true := by decide +kernel
  obtain ⟨s, ran, measured⟩ := (Option.any_eq_true _ _).mp ran
  have reached : Reachable (fun s call s' => VectorSession.step plainSerde s call = some s') Fitting
      Price.empty s :=
    Reachable.run_checked .start (fun _ _ => of_decide_eq_true) ran
  exact ⟨s, beq_iff_eq.mp measured, vector_files_uniform plainSerde_spelled rfl rfl rfl reached⟩

theorem other_model_mixed : ∃ s, Reachable (fun s call s' => VectorSession.step plainSerde s call = some s')
    Aligned Price.empty s ∧ lengths s = [1, 2, 2] ∧ ¬ s.Uniform plainSerde plainDouble := by
  have ran : ((runEvents (fun s call => if decide (s.Aligned call) then s.step plainSerde call else none)
      Price.empty (calls 2)).any fun s =>
        lengths s == [1, 2, 2] && !(outputBytes s.file).isEmpty) = true := by decide +kernel
  obtain ⟨s, ran, measured⟩ := (Option.any_eq_true _ _).mp ran
  rw [Bool.and_eq_true, beq_iff_eq] at measured
  refine ⟨s, Reachable.run_checked .start (fun _ _ => of_decide_eq_true) ran, measured.1, fun uniform => ?_⟩
  have written : outputBytes s.file ≠ [] := by simpa using measured.2
  obtain ⟨length, common⟩ := uniform.common written
  have each : ∀ n ∈ lengths s, n = length := by
    intro n member
    obtain ⟨e, listed, size⟩ := List.mem_filterMap.mp member
    obtain ⟨components, stored, rfl⟩ := Option.map_eq_some_iff.mp size
    exact common e listed components stored
  rw [measured.1] at each
  have one := each 1 (by decide)
  have two := each 2 (by decide)
  omega

end TwoModels

end VectorSession

end Webfang.Export
