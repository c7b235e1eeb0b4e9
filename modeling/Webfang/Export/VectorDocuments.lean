import Mathlib.Data.List.Induction
import Webfang.Export.VectorExporter

/-!
# The vector file, document by document

The bytes of a vector file that holds a given list of documents, and an append to it: with a
tail that decodes as it stands, an append that succeeds adds its document at the end and
counts it, and one that fails before the cut leaves the file alone.
-/
namespace Webfang.Export

open Library Domain Segments

/-- The documents behind the marker, one a line, from the second on after a comma. -/
def vectorBody : List Bytes → Bytes
  | [] => []
  | first :: rest => first ++ [newline] ++ rest.flatMap fun document => comma :: (document ++ [newline])

/-- A file of documents without its closing. -/
def vectorOpened (createdAt : Bytes) (documents : List Bytes) : Bytes :=
  headerWithCount (countField documents.length) createdAt ++ (documentsMarker ++ vectorBody documents)

/-- A missing or empty file has no documents. -/
def VectorLists (bytes : Bytes) (documents : List Bytes) : Prop :=
  (documents = [] ∧ bytes = []) ∨
    (documents ≠ [] ∧ ∃ createdAt : Rfc3339,
      bytes = vectorOpened (utf8 createdAt.text) documents ++ closing)

theorem vectorBody_concat {documents : List Bytes} (more : documents ≠ []) (document : Bytes) :
    vectorBody (documents ++ [document]) =
      vectorBody documents ++ comma :: (document ++ [newline]) := by
  cases documents with
  | nil => exact absurd rfl more
  | cons first rest => simp [vectorBody]

theorem vectorBody_terminated {documents : List Bytes} (more : documents ≠ []) :
    ∃ front, vectorBody documents = front ++ [newline] := by
  obtain rfl | ⟨before, last, rfl⟩ := documents.eq_nil_or_concat
  · exact absurd rfl more
  · by_cases first : before = []
    · exact ⟨last, by simp [first, vectorBody]⟩
    · rw [List.concat_eq_append, vectorBody_concat first]
      exact ⟨vectorBody before ++ comma :: last, by simp⟩

/-! ### The header -/

theorem find_totalMarker (after : Bytes) :
    Subslice.find totalMarker (readHeaderBytes (headerStart ++ after)) =
      some (headerStart.length - totalMarker.length) := by
  have marked : Subslice.find totalMarker (headerStart.take headerScanBytes) =
      some (headerStart.length - totalMarker.length) := by decide
  exact Subslice.find_take_append after marked

theorem valueStart_eq :
    headerStart.length - totalMarker.length + totalMarker.length = headerStart.length := by
  decide

theorem headerWithCount_split (count createdAt : Bytes) :
    ∃ rest, headerWithCount count createdAt = headerStart ++ (count ++ comma :: rest) := by
  have separator : utf8 ", \"created_at\": \"" = comma :: utf8 " \"created_at\": \"" := by
    decide
  exact ⟨utf8 " \"created_at\": \"" ++ (createdAt ++ utf8 "\", "), by simp [headerWithCount, separator]⟩

variable {count createdAt : Bytes}

theorem header_window (createdAt : Bytes) (size : count.length = countFieldWidth) (after : Bytes) :
    (readHeaderBytes (headerWithCount count createdAt ++ after))[headerStart.length +
        countFieldWidth]? = some comma ∧
      ((readHeaderBytes (headerWithCount count createdAt ++ after)).drop headerStart.length).take
        countFieldWidth = count := by
  obtain ⟨rest, split⟩ := headerWithCount_split count createdAt
  have room : headerStart.length + countFieldWidth < headerScanBytes := by decide
  have whole : headerWithCount count createdAt ++ after =
      (headerStart ++ count) ++ comma :: (rest ++ after) := by simp [split]
  constructor
  · rw [readHeaderBytes, List.getElem?_take_of_lt room, whole, ← size]
    have edge : headerStart.length + count.length = (headerStart ++ count).length := by simp
    rw [edge, List.getElem?_append_right (Nat.le_refl _), Nat.sub_self]
    rfl
  · rw [readHeaderBytes, whole, List.drop_take, List.append_assoc, List.drop_left, List.take_take,
      Nat.min_eq_left (by omega), ← size, List.take_left]

theorem patchCount_eq {env : AppendEnv} (unpatched : ∀ written, env.fault ≠ some (.patch written))
    (size : count.length = countFieldWidth) (after : Bytes) {total : Nat}
    (room : total < 10 ^ countFieldWidth) :
    patchCount env (headerWithCount count createdAt ++ after) total =
      (.ok (), headerWithCount (countField total) createdAt ++ after) := by
  have full : (countField total).length = countFieldWidth := (length_countField_iff total).mpr room
  obtain ⟨window, -⟩ := header_window createdAt size after
  have found : Subslice.find totalMarker
      (readHeaderBytes (headerWithCount count createdAt ++ after)) =
        some (headerStart.length - totalMarker.length) := by
    obtain ⟨rest, split⟩ := headerWithCount_split count createdAt
    rw [split, List.append_assoc]
    exact find_totalMarker _
  have written : Subslice.overwrite (headerWithCount count createdAt ++ after) headerStart.length
      (countField total) = headerWithCount (countField total) createdAt ++ after := by
    have behind : headerStart.length + (countField total).length =
        (headerStart ++ count).length := by
      rw [full, List.length_append, size]
    simp only [headerWithCount, List.append_assoc, Subslice.overwrite]
    rw [List.take_left, behind, ← List.append_assoc headerStart count, List.drop_left]
  unfold patchCount
  simp only [full, ne_eq, not_true_eq_false, ↓reduceIte, found, valueStart_eq, window]
  rw [written]

/-- A file that was cut at its closing counts its documents. -/
theorem readAppendState_eq (env : AppendEnv) {documents : List Bytes} (more : documents ≠ [])
    (room : documents.length < 10 ^ countFieldWidth) :
    readAppendState env (vectorOpened createdAt documents) =
      .ok (documents.length, vectorOpened createdAt documents) := by
  have size : (countField documents.length).length = countFieldWidth :=
    (length_countField_iff _).mpr room
  obtain ⟨window, read⟩ := header_window createdAt size
    (documentsMarker ++ vectorBody documents)
  have found : Subslice.find totalMarker (readHeaderBytes (vectorOpened createdAt documents)) =
      some (headerStart.length - totalMarker.length) := by
    obtain ⟨rest, split⟩ := headerWithCount_split (countField documents.length) createdAt
    rw [vectorOpened, split, List.append_assoc]
    exact find_totalMarker _
  have small : documents.length < 2 ^ 64 := by
    have width : countFieldWidth = 10 := rfl
    rw [width] at room
    omega
  have positive := List.length_pos_iff.mpr more
  unfold readAppendState
  simp only [found, valueStart_eq]
  rw [vectorOpened, window, if_pos rfl, read, parseCountField_countField small]
  cases counted : documents.length with
  | zero => omega
  | succ n => rfl

/-! ### One append -/

theorem newline_notMem_headerOf (documents : List Bytes) (createdAt : Rfc3339) :
    newline ∉ headerWithCount (countField documents.length) (utf8 createdAt.text) :=
  newline_notMem_headerWithCount (newline_notMem_countField _) fun member =>
    (createdAt.plain newline member).1 rfl

/-- A failure that comes before the file is changed. -/
def FailsEarly (env : AppendEnv) : Prop :=
  ∀ fault, env.fault = some fault → fault = .directory ∨ fault = .beforeCut

/-- The last bytes of the file, in which the bracket is looked for, decode as they stand. -/
def TailDecodes (bytes : Bytes) : Prop :=
  Subslice.fromUtf8Lossy (bracketWindow bytes) = bracketWindow bytes

theorem vectorExport_lists (crates : ExportCrates) {env : AppendEnv} (early : FailsEarly env)
    (createdAt : Rfc3339) {file file' : Option Bytes} {documents : List Bytes}
    (lists : VectorLists (outputBytes file) documents) (decodes : TailDecodes (outputBytes file))
    (room : documents.length + 1 < 10 ^ countFieldWidth) {document : DocumentChunk}
    {result : Except ExporterError Unit}
    (returned : vectorExport crates env createdAt file document = (result, file')) :
    (result = .ok () ∧
        VectorLists (outputBytes file') (documents ++ [serializeDocument crates document])) ∨
      (result ≠ .ok () ∧ outputBytes file' = outputBytes file) := by
  unfold vectorExport at returned
  split at returned
  next =>
    cases returned
    exact .inr ⟨nofun, rfl⟩
  next late =>
    have healthy := fault_eq_none early late
    have unpatched : ∀ written, env.fault ≠ some (.patch written) := by simp [healthy]
    have untorn : ∀ written, env.fault ≠ some (.append written) := by simp [healthy]
    dsimp only at returned
    rw [openForAppend_eq, if_neg (by simp [healthy])] at returned
    left
    obtain ⟨rfl, empty⟩ | ⟨more, created, closed⟩ := lists
    · -- the first document of a new file
      rw [empty, if_pos truncateAtBracket_nil, writeAndClose_untorn untorn] at returned
      have size : (countField 0).length = countFieldWidth := (length_countField_iff 0).mpr (by decide)
      have text : [] ++ (buildHeaderLine (utf8 createdAt.text) ++
          (serializeDocument crates document ++ [newline])) ++ closing =
          headerWithCount (countField 0) (utf8 createdAt.text) ++
            (documentsMarker ++ (serializeDocument crates document ++ [newline]) ++ closing) := by
        simp [buildHeaderLine]
      rw [text, patchCount_eq unpatched size _ (by decide)] at returned
      cases returned
      refine ⟨rfl, .inr ⟨by simp, createdAt, ?_⟩⟩
      simp [vectorOpened, vectorBody, outputBytes]
    · -- a later document behind the ones there are, and the count patched
      have opened : vectorOpened (utf8 created.text) documents ≠ [] := by
        have marker : documentsMarker ≠ [] := by decide
        simp [vectorOpened, marker]
      rw [TailDecodes, closed] at decodes
      rw [closed, truncateAtBracket_closing decodes, if_neg opened,
        readAppendState_eq env more (by omega)] at returned
      have size : (countField documents.length).length = countFieldWidth :=
        (length_countField_iff _).mpr (by omega)
      have text : vectorOpened (utf8 created.text) documents ++
          (comma :: (serializeDocument crates document ++ [newline])) ++ closing =
          headerWithCount (countField documents.length) (utf8 created.text) ++
            (documentsMarker ++ vectorBody (documents ++ [serializeDocument crates document]) ++
              closing) := by
        simp [vectorOpened, vectorBody_concat more]
      dsimp only at returned
      rw [writeAndClose_untorn untorn, text, patchCount_eq unpatched size _ room] at returned
      cases returned
      refine ⟨rfl, .inr ⟨by simp, created, ?_⟩⟩
      simp [vectorOpened, outputBytes]

/-! ### Reading the documents back -/

theorem holdsDocument_body {header : Bytes} (oneLine : newline ∉ header) {documents : List Bytes}
    (flat : ∀ document ∈ documents, newline ∉ document) {document : Bytes}
    (listed : document ∈ documents) (after : Bytes) :
    HoldsDocument (header ++ (documentsMarker ++ vectorBody documents ++ after)) document := by
  induction documents using List.reverseRecOn generalizing after with
  | nil => cases listed
  | append_singleton documents last ih =>
    -- the first document is behind the marker, every later one on a line of its own
    by_cases more : documents = []
    · subst more
      obtain rfl := List.mem_singleton.mp listed
      have first := holdsDocument_first oneLine (flat document (by simp)) after
      simpa [vectorBody] using first
    · rw [vectorBody_concat more]
      have flatBefore : ∀ document ∈ documents, newline ∉ document :=
        fun other member => flat other (List.mem_append_left _ member)
      obtain earlier | new := List.mem_append.mp listed
      · have held := ih flatBefore earlier (comma :: (last ++ [newline]) ++ after)
        simpa using held
      · obtain rfl := List.mem_singleton.mp new
        have ended : Terminated newline (header ++ (documentsMarker ++ vectorBody documents)) := by
          obtain ⟨front, ended⟩ := vectorBody_terminated more
          exact .inr ⟨header ++ (documentsMarker ++ front), by simp [ended]⟩
        have later := holdsDocument_later ended (by simp [show documentsMarker ≠ [] by decide])
          (flat document listed) after
        simpa using later

end Webfang.Export
