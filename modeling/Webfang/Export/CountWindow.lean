import Webfang.Export.VectorRuns

/-!
# Appends under any header

A vector file under any header whose count window a scan finds: those of the present layout, with
or without dimensions, and the older ones that the first append migrates. An append that finds the
bracket puts its document behind the others and counts it.
-/
namespace Webfang.Export

open Library Domain

/-- What stands around the count of a header. -/
structure CountWindow (front back : Bytes) : Prop where
  first : Subslice.find totalMarker (front ++ totalMarker) = some front.length
  scanned : front.length + totalMarker.length + countFieldWidth < headerScanBytes
  behind : ∃ rest, back = comma :: rest

/-- A file up to its closing. -/
def counted (front back : Bytes) (count : Nat) (documents : List Bytes) : Bytes :=
  front ++ totalMarker ++ countField count ++ (back ++ (documentsMarker ++ vectorBody documents))

namespace CountWindow

variable {front back : Bytes} {count total : Nat} {env : AppendEnv}

/-- What the readers of the header see. -/
theorem scan (window : CountWindow front back) (room : count < 10 ^ countFieldWidth) (after : Bytes) :
    ∃ head, readHeaderBytes (front ++ totalMarker ++ countField count ++ (back ++ after)) = head ∧
      Subslice.find totalMarker head = some front.length ∧
      head[front.length + totalMarker.length + countFieldWidth]? = some comma ∧
      (head.drop (front.length + totalMarker.length)).take countFieldWidth = countField count := by
  obtain ⟨rest, behind⟩ := window.behind
  have size := (length_countField_iff count).mpr room
  have marked : (front ++ totalMarker).length = front.length + totalMarker.length := List.length_append
  have edge : (front ++ totalMarker ++ countField count).length =
      front.length + totalMarker.length + countFieldWidth := by
    rw [List.length_append, marked, size]
  have short : (front ++ totalMarker).length ≤ headerScanBytes := by
    have scanned := window.scanned
    omega
  refine ⟨_, rfl, ?_, ?_, ?_⟩
  · have found : Subslice.find totalMarker ((front ++ totalMarker).take headerScanBytes) =
        some front.length := by
      rw [List.take_of_length_le short]
      exact window.first
    rw [List.append_assoc (front ++ totalMarker)]
    exact Subslice.find_take_append _ found
  · rw [readHeaderBytes, List.getElem?_take_of_lt window.scanned]
    refine @VectorHeader.getElem?_edge _ (front ++ totalMarker ++ countField count) (rest ++ after) _ ?_ _
      edge.symm
    rw [behind, List.cons_append]
  · rw [readHeaderBytes, List.drop_take, List.take_take, Nat.min_eq_left,
      List.append_assoc _ (countField count), ← marked, List.drop_left, ← size, List.take_left]
    have scanned := window.scanned
    omega

theorem read (window : CountWindow front back) (positive : 0 < count)
    (room : count < 10 ^ countFieldWidth) (after : Bytes) :
    readAppendState env (front ++ totalMarker ++ countField count ++ (back ++ after)) =
      .ok (count, front ++ totalMarker ++ countField count ++ (back ++ after)) := by
  obtain ⟨head, scanned, found, sentinel, field⟩ := window.scan room after
  have small : count < 2 ^ 64 := Nat.lt_trans room (by decide)
  rw [readAppendState, scanned, found]
  dsimp only
  rw [if_pos sentinel, field, parseCountField_countField small]
  cases count with
  | zero => exact absurd positive (Nat.lt_irrefl 0)
  | succ n => rfl

theorem patch (window : CountWindow front back) (healthy : env.fault = none)
    (room : count < 10 ^ countFieldWidth) (roomTotal : total < 10 ^ countFieldWidth) (after : Bytes) :
    patchCount env (front ++ totalMarker ++ countField count ++ (back ++ after)) total =
      (.ok (), front ++ totalMarker ++ countField total ++ (back ++ after)) := by
  obtain ⟨head, scanned, found, sentinel, -⟩ := window.scan room after
  have size := (length_countField_iff count).mpr room
  have sizeTotal := (length_countField_iff total).mpr roomTotal
  have written := @overwrite_window (front ++ totalMarker) (countField count) (countField total)
    (back ++ after) (size.trans sizeTotal.symm)
  rw [List.length_append] at written
  rw [patchCount, scanned, found, if_neg (not_not.mpr sizeTotal)]
  dsimp only
  rw [if_neg (not_not.mpr sentinel), healthy]
  dsimp only
  rw [written]

end CountWindow

/-! ### The headers -/

/-- A new header up to the marker of its count. -/
def newFront : Bytes :=
  utf8 "\x7b\"format_version\": \"1.0\", \"model_name\": null, \"dimensions\":     null, "

/-- A new header behind its count. -/
def newBack (createdAt : Rfc3339) : Bytes :=
  utf8 ", \"created_at\": \"" ++ utf8 createdAt.text ++ utf8 "\", "

theorem countWindow_new (createdAt : Rfc3339) : CountWindow newFront (newBack createdAt) where
  first := by decide
  scanned := by decide
  behind := by
    have sign : utf8 ", \"created_at\": \"" = comma :: utf8 " \"created_at\": \"" := by decide
    exact ⟨_, by rw [newBack, sign, List.cons_append, List.cons_append]⟩

theorem buildHeaderLine_eq (createdAt : Rfc3339) (after : Bytes) :
    buildHeaderLine (utf8 createdAt.text) ++ after =
      newFront ++ totalMarker ++ countField 0 ++ (newBack createdAt ++ (documentsMarker ++ after)) := by
  have start : headerStart = newFront ++ totalMarker := by decide
  rw [buildHeaderLine, headerWithCount, start, newBack]
  simp only [List.append_assoc]

/-! ### One append -/

/-- The documents of a file, and the header that the next append leaves: of a missing or empty file
the new one, else what the exporter's reader makes of the one there is. -/
inductive VectorView (createdAt : Rfc3339) (bytes : Bytes) : (front back : Bytes) → List Bytes → Prop
  | empty (none : bytes = []) : VectorView createdAt bytes newFront (newBack createdAt) []
  | listed {head front back : Bytes} {documents : List Bytes} {count : Nat} (more : documents ≠ [])
    (split : bytes = head ++ (documentsMarker ++ vectorBody documents) ++ closing)
    (window : CountWindow front back) (room : count < 10 ^ countFieldWidth)
    (read : readAppendState {} (head ++ (documentsMarker ++ vectorBody documents)) =
      .ok (documents.length, counted front back count documents)) :
    VectorView createdAt bytes front back documents

theorem CountWindow.view {front back : Bytes} (window : CountWindow front back) {documents : List Bytes}
    (more : documents ≠ []) (room : documents.length < 10 ^ countFieldWidth) (createdAt : Rfc3339) :
    VectorView createdAt (counted front back documents.length documents ++ closing) front back documents := by
  have split : counted front back documents.length documents =
      front ++ totalMarker ++ countField documents.length ++ back ++
        (documentsMarker ++ vectorBody documents) := by
    simp only [counted, List.append_assoc]
  refine .listed more (congrArg (· ++ closing) split) window room ?_
  rw [← split]
  exact window.read (List.length_pos_iff.mpr more) room (documentsMarker ++ vectorBody documents)

theorem VectorView.window {createdAt : Rfc3339} {bytes front back : Bytes} {documents : List Bytes}
    (view : VectorView createdAt bytes front back documents) : CountWindow front back := by
  cases view with
  | empty none => exact countWindow_new createdAt
  | listed more split window room read => exact window

/-- These are the documents of the file, whenever the next append comes. -/
def VectorListing (bytes : Bytes) (documents : List Bytes) : Prop :=
  ∀ createdAt, ∃ front back, VectorView createdAt bytes front back documents

theorem readAppendState_healthy {env : AppendEnv} (healthy : env.fault = none) (bytes : Bytes) :
    readAppendState env bytes = readAppendState {} bytes := by
  have migrated : migrateLegacyHeader env bytes = migrateLegacyHeader {} bytes := by
    simp [migrateLegacyHeader, healthy]
  rw [readAppendState, readAppendState, migrated]

/-- An append whose bracket is found succeeds, and the file has the document at its end. -/
theorem VectorView.append {crates : ExportCrates} {env : AppendEnv} {createdAt : Rfc3339}
    {file : Option Bytes} {front back : Bytes} {documents : List Bytes}
    (view : VectorView createdAt (outputBytes file) front back documents) (healthy : env.fault = none)
    (decodes : TailDecodes (outputBytes file)) (room : documents.length + 1 < 10 ^ countFieldWidth)
    (document : DocumentChunk) :
    vectorExport crates env createdAt file document =
      (.ok (), some (counted front back (documents.length + 1)
        (documents ++ [serializeDocument crates document]) ++ closing)) := by
  have early : ¬ (env.fault = some .directory ∨ env.fault = some .beforeCut) := by simp [healthy]
  have late : ¬ env.fault = some .afterCut := by simp [healthy]
  have untorn : ∀ written, env.fault ≠ some (.append written) := by simp [healthy]
  rw [vectorExport, if_neg early, openForAppend_eq]
  dsimp only
  rw [if_neg late]
  cases view with
  | empty none =>
    rw [none, if_pos truncateAtBracket_nil, writeAndClose_untorn untorn, List.nil_append, List.append_assoc,
      buildHeaderLine_eq, (countWindow_new createdAt).patch healthy (by decide) (by decide)]
    simp [counted, vectorBody]
  | listed more split window roomCount read =>
    rw [split] at decodes
    have marker : documentsMarker ≠ [] := by decide
    have opened {head : Bytes} : head ++ (documentsMarker ++ vectorBody documents) ≠ [] := by simp [marker]
    rw [split, truncateAtBracket_closing decodes, if_neg opened, readAppendState_healthy healthy, read]
    dsimp only
    have text (count : Nat) : counted front back count documents ++
        (comma :: (serializeDocument crates document ++ [newline])) ++ closing =
        front ++ totalMarker ++ countField count ++ (back ++ (documentsMarker ++
          vectorBody (documents ++ [serializeDocument crates document]) ++ closing)) := by
      simp only [counted, vectorBody_concat more, List.append_assoc]
    rw [writeAndClose_untorn untorn, text, window.patch healthy roomCount room]
    simp only [counted, List.append_assoc]

end Webfang.Export
