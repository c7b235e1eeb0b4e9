import Webfang.Library.Batch
import Webfang.Library.Segments
import Webfang.Llm.Extraction

/-!
# The chunks of the semantic cleaner

`split_into_chunks`, `embed_batch_raw` and `clean` of `infrastructure/semantic_cleaner.rs`. The
documentation counts the budget in characters, the code in bytes. A text is the list of its
characters; the extraction of the text and the relevance filter are parameters.
-/
namespace Webfang.Llm.SemanticCleaner

open Library

variable {maxChars : Nat} {Vector : Type}

/-- The trimmed lines of a text that are not empty. -/
def paragraphs (text : List Char) : List (List Char) :=
  ((text.splitOn '\n').map (trimEnds Text.isWhitespace)).filter fun p => !p.isEmpty

/-- One round of the packing loop, on the closed chunks and the current one. -/
def pack (maxChars : Nat) (state : List (List Char) × List Char) (paragraph : List Char) :
    List (List Char) × List Char :=
  let state :=
    if state.2 ≠ [] ∧ maxChars < Text.utf8Len state.2 + Text.utf8Len paragraph + 1 then
      (state.1 ++ [state.2], [])
    else state
  (state.1, if state.2 = [] then paragraph else state.2 ++ '\n' :: paragraph)

/-- The chunks before their check. -/
def packed (text : List Char) (maxChars : Nat) : List (List Char) :=
  let state := (paragraphs text).foldl (pack maxChars) ([], [])
  if state.2 = [] then state.1 else state.1 ++ [state.2]

def splitIntoChunks (text : List Char) (maxChars : Nat) : Except SemanticError (List (List Char)) :=
  let chunks := packed text maxChars
  match chunks.zipIdx.find? fun (chunk, _) => decide (maxChars < Text.utf8Len chunk) with
  | some (chunk, chunkId) =>
    .error (.chunkTooLarge (toString chunkId) (Text.utf8Len chunk) maxChars)
  | none => .ok chunks

/-- A port answers a batch of contents. -/
abbrev EmbeddingPort (Vector : Type) := List (List Char) → Except SemanticError (List Vector)

def embedBatchRaw (port : EmbeddingPort Vector) (contents : List (List Char)) :
    Except SemanticError (List Vector) := bisect port contents

/-- `clean`, with the text of a page and the relevance filter. -/
def clean (extractTextContent : String → List Char) (port : EmbeddingPort Vector)
    (filterByRelevance : List (List Char) → List Vector →
      Except SemanticError (List (List Char × Vector)))
    (maxChars : Nat) (html : String) : Except SemanticError (List (List Char × Vector)) :=
  let text := extractTextContent html
  if trimEnds Text.isWhitespace text = [] then .ok []
  else
    match splitIntoChunks text maxChars with
    | .error e => .error e
    | .ok contents =>
      match embedBatchRaw port contents with
      | .error e => .error e
      | .ok embeddings => filterByRelevance contents embeddings

/-! ### Packing -/

def joined (lines : List (List Char)) : List Char := ['\n'].intercalate lines

theorem joined_concat (lines : List (List Char)) (line : List Char) :
    joined (lines ++ [line]) = if lines = [] then line else joined lines ++ '\n' :: line := by
  induction lines with
  | nil => rw [if_pos rfl]; exact List.intercalate_singleton
  | cons first rest ih =>
    have next : joined (first :: (rest ++ [line])) = first ++ ['\n'] ++ joined (rest ++ [line]) := by
      rw [joined, List.intercalate_cons_of_ne_nil (by simp), joined]
    rw [List.cons_append, next, ih, if_neg (List.cons_ne_nil _ _)]
    by_cases last : rest = []
    · rw [if_pos last, last, joined, List.intercalate_singleton]
      simp
    · rw [if_neg last, joined, joined, List.intercalate_cons_of_ne_nil last]
      simp

/-- A part of a joined chunk is no longer than the chunk. -/
theorem utf8Len_le_joined {lines : List (List Char)} {line : List Char} (member : line ∈ lines) :
    Text.utf8Len line ≤ Text.utf8Len (joined lines) := by
  induction lines using List.reverseRecOn with
  | nil => cases member
  | append_singleton front last ih =>
    rw [joined_concat]
    split
    next first =>
      rw [first, List.nil_append, List.mem_singleton] at member
      rw [member]
    next more =>
      rw [Text.utf8Len_append]
      rcases List.mem_append.mp member with before | here
      · exact (ih before).trans (Nat.le_add_right _ _)
      · rw [List.mem_singleton.mp here, ← List.singleton_append, Text.utf8Len_append]
        omega

theorem mem_joined {lines : List (List Char)} {c : Char} (member : c ∈ joined lines) :
    c = '\n' ∨ ∃ line ∈ lines, c ∈ line := by
  induction lines using List.reverseRecOn with
  | nil => cases member
  | append_singleton front last ih =>
    rw [joined_concat] at member
    split at member
    next => exact .inr ⟨last, by simp, member⟩
    next =>
      rcases List.mem_append.mp member with before | behind
      · rcases ih before with feed | ⟨line, inside, within⟩
        · exact .inl feed
        · exact .inr ⟨line, List.mem_append_left _ inside, within⟩
      · rcases List.mem_cons.mp behind with feed | within
        · exact .inl feed
        · exact .inr ⟨last, by simp, within⟩

/-- Lines that fit into the budget together, or a single one. -/
def Fitting (maxChars : Nat) (lines : List (List Char)) : Prop :=
  Text.utf8Len (joined lines) ≤ maxChars ∨ ∃ line, lines = [line]

/-- What the loop holds after some lines: closed groups that fit, and a current one. -/
structure Packing (maxChars : Nat) (seen : List (List Char))
    (state : List (List Char) × List Char) (groups : List (List (List Char)))
    (current : List (List Char)) : Prop where
  lines : groups.flatten ++ current = seen
  closed : state.1 = groups.map joined
  opened : state.2 = joined current
  inhabited : ∀ group ∈ groups, group ≠ []
  fitting : ∀ group ∈ groups, Fitting maxChars group
  fits : Fitting maxChars current

theorem paragraphs_ne_nil {text line : List Char} (member : line ∈ paragraphs text) : line ≠ [] := by
  have kept := (List.mem_filter.mp member).2
  simpa using kept

theorem paragraphs_flat {text line : List Char} (member : line ∈ paragraphs text) : '\n' ∉ line := by
  rcases List.mem_map.mp (List.mem_filter.mp member).1 with ⟨piece, split, rfl⟩
  exact fun inside => Text.not_mem_of_mem_splitOn split (mem_of_mem_trimEnds inside)

theorem joined_eq_nil_iff {lines : List (List Char)} (filled : ∀ line ∈ lines, line ≠ []) :
    joined lines = [] ↔ lines = [] := by
  refine ⟨fun empty => ?_, fun none => by rw [none]; rfl⟩
  cases lines with
  | nil => rfl
  | cons line rest =>
    have short : Text.utf8Len line ≤ _ := utf8Len_le_joined (List.mem_cons_self (a := line) (l := rest))
    have long := Text.length_le_utf8Len line
    rw [empty] at short
    exact absurd (List.eq_nil_of_length_eq_zero (Nat.le_zero.mp (long.trans short)))
      (filled line List.mem_cons_self)

theorem pack_packing {seen groups current state} {line : List Char}
    (packing : Packing maxChars seen state groups current) (filled : ∀ l ∈ seen, l ≠ []) :
    ∃ groups' current', Packing maxChars (seen ++ [line]) (pack maxChars state line) groups' current' := by
  have empty : state.2 = [] ↔ current = [] := by
    rw [packing.opened]
    exact joined_eq_nil_iff fun l member => filled l (packing.lines ▸ List.mem_append_right _ member)
  by_cases fresh : current = []
  · refine ⟨groups, [line], ?_, ?_, ?_, packing.inhabited, packing.fitting, .inr ⟨line, rfl⟩⟩
    · rw [← packing.lines, fresh, List.append_nil]
    · simp [pack, empty.mpr fresh, packing.closed]
    · simp [pack, empty.mpr fresh, joined]
  · have begun : state.2 ≠ [] := mt empty.mp fresh
    by_cases full : maxChars < Text.utf8Len state.2 + Text.utf8Len line + 1
    · -- the current chunk is closed, and the line begins the next one
      refine ⟨groups ++ [current], [line], ?_, ?_, ?_, ?_, ?_, .inr ⟨line, rfl⟩⟩
      · simp [← packing.lines]
      · simp [pack, begun, full, packing.closed, ← packing.opened]
      · simp [pack, begun, full, joined]
      · intro group member
        rcases List.mem_append.mp member with before | last
        · exact packing.inhabited group before
        · rw [List.mem_singleton.mp last]
          exact fresh
      · intro group member
        rcases List.mem_append.mp member with before | last
        · exact packing.fitting group before
        · rw [List.mem_singleton.mp last]
          exact packing.fits
    · -- the line and the line feed in front of it still fit
      have together : joined (current ++ [line]) = state.2 ++ '\n' :: line := by
        rw [joined_concat, if_neg fresh, packing.opened]
      refine ⟨groups, current ++ [line], ?_, ?_, ?_, packing.inhabited, packing.fitting, .inl ?_⟩
      · rw [← packing.lines, List.append_assoc]
      · simp [pack, begun, full, packing.closed]
      · simp [pack, begun, full, together]
      · have feed : Text.utf8Len ['\n'] = 1 := rfl
        rw [together, ← List.singleton_append, Text.utf8Len_append, Text.utf8Len_append, feed]
        omega

theorem foldl_packing (lines : List (List Char)) {seen groups current state}
    (packing : Packing maxChars seen state groups current) (filled : ∀ l ∈ seen ++ lines, l ≠ []) :
    ∃ groups' current',
      Packing maxChars (seen ++ lines) (lines.foldl (pack maxChars) state) groups' current' := by
  induction lines generalizing seen groups current state with
  | nil =>
    rw [List.append_nil]
    exact ⟨groups, current, packing⟩
  | cons line rest ih =>
    rcases pack_packing packing fun l member => filled l (List.mem_append_left _ member)
      with ⟨groups', current', next⟩
    rw [List.append_cons] at filled ⊢
    exact ih next filled

/-- The chunks are the paragraphs in order, in groups that fit or stand alone. -/
theorem packed_groups (text : List Char) (maxChars : Nat) :
    ∃ groups : List (List (List Char)), packed text maxChars = groups.map joined ∧
      groups.flatten = paragraphs text ∧ ∀ group ∈ groups, group ≠ [] ∧ Fitting maxChars group := by
  have start : Packing maxChars [] ([], []) [] [] :=
    ⟨rfl, rfl, rfl, by simp, by simp, .inl (Nat.zero_le _)⟩
  rcases foldl_packing (paragraphs text) start fun l member => paragraphs_ne_nil member
    with ⟨groups, current, packing⟩
  have covered : groups.flatten ++ current = paragraphs text := packing.lines
  have filled : ∀ line ∈ current, line ≠ [] := fun line member =>
    paragraphs_ne_nil (covered ▸ List.mem_append_right groups.flatten member)
  have empty := joined_eq_nil_iff filled
  rw [← packing.opened] at empty
  by_cases none : current = []
  · refine ⟨groups, ?_, ?_, fun group member => ⟨packing.inhabited _ member, packing.fitting _ member⟩⟩
    · rw [packed, if_pos (empty.mpr none), packing.closed]
    · rw [← covered, none, List.append_nil]
  · refine ⟨groups ++ [current], ?_, ?_, fun group member => ?_⟩
    · rw [packed, if_neg (mt empty.mp none), packing.closed, packing.opened, List.map_append,
        List.map_singleton]
    · rw [← covered, List.flatten_append, List.flatten_singleton]
    · rcases List.mem_append.mp member with before | last
      · exact ⟨packing.inhabited _ before, packing.fitting _ before⟩
      · rw [List.mem_singleton.mp last]
        exact ⟨none, packing.fits⟩

/-! ### The check of the chunks -/

/-- The budget is checked on the bytes of each line. -/
theorem splitIntoChunks_eq (text : List Char) (maxChars : Nat) :
    splitIntoChunks text maxChars = .ok (packed text maxChars) ∧
        (∀ line ∈ paragraphs text, Text.utf8Len line ≤ maxChars) ∨
      (∃ chunkId bytes, splitIntoChunks text maxChars = .error (.chunkTooLarge chunkId bytes maxChars)) ∧
        ∃ line ∈ paragraphs text, maxChars < Text.utf8Len line := by
  rcases packed_groups text maxChars with ⟨groups, chunks, lines, fitting⟩
  cases found : (packed text maxChars).zipIdx.find? fun (chunk, _) =>
      decide (maxChars < Text.utf8Len chunk) with
  | none =>
    refine .inl ⟨by simp only [splitIntoChunks, found], fun line member => ?_⟩
    rw [← lines] at member
    rcases List.mem_flatten.mp member with ⟨group, within, inside⟩
    have chunk : joined group ∈ packed text maxChars := chunks ▸ List.mem_map_of_mem within
    rcases List.mem_iff_getElem.mp chunk with ⟨i, bounded, at_⟩
    have passed := List.find?_eq_none.mp found (joined group, i)
      (List.mem_zipIdx_iff_getElem?.mpr (by rw [← at_]; exact List.getElem?_eq_getElem bounded))
    have fits : Text.utf8Len (joined group) ≤ maxChars := by simpa using passed
    exact (utf8Len_le_joined inside).trans fits
  | some entry =>
    rcases entry with ⟨chunk, chunkId⟩
    have refused : splitIntoChunks text maxChars =
        .error (.chunkTooLarge (toString chunkId) (Text.utf8Len chunk) maxChars) := by
      simp only [splitIntoChunks, found]
    refine .inr ⟨⟨_, _, refused⟩, ?_⟩
    have long : maxChars < Text.utf8Len chunk := by simpa using List.find?_some found
    have member : chunk ∈ packed text maxChars :=
      List.mem_of_getElem? (List.mem_zipIdx_iff_getElem?.mp (List.mem_of_find?_eq_some found))
    rw [chunks] at member
    rcases List.mem_map.mp member with ⟨group, within, rfl⟩
    -- a group that is too long for the budget is a single line
    rcases (fitting group within).2 with fits | ⟨line, rfl⟩
    · exact absurd fits (by omega)
    · refine ⟨line, lines ▸ List.mem_flatten.mpr ⟨_, within, List.mem_cons_self⟩, ?_⟩
      rwa [joined, List.intercalate_singleton] at long

theorem packed_lines (text : List Char) (maxChars : Nat) :
    (packed text maxChars).flatMap (·.splitOn '\n') = paragraphs text := by
  rcases packed_groups text maxChars with ⟨groups, chunks, lines, fitting⟩
  have flat : ∀ group ∈ groups, ∀ line ∈ group, '\n' ∉ line := fun group member line inside =>
    paragraphs_flat (lines ▸ List.mem_flatten.mpr ⟨group, member, inside⟩)
  rw [chunks, List.flatMap_map, ← lines, List.flatten_eq_flatMap]
  refine List.flatMap_congr fun group member => ?_
  exact List.splitOn_intercalate '\n' (flat group member) (fitting group member).1

theorem packed_ne_nil {text : List Char} (shown : trimEnds Text.isWhitespace text ≠ []) :
    packed text maxChars ≠ [] := by
  intro none
  have lines := packed_lines text maxChars
  rw [none, List.flatMap_nil] at lines
  apply shown
  have blank : ∀ c ∈ text, Text.isWhitespace c = true := by
    intro c member
    have whole : joined (text.splitOn '\n') = text := List.intercalate_splitOn '\n'
    rw [← whole] at member
    rcases mem_joined member with rfl | ⟨line, piece, inside⟩
    · decide
    · refine all_of_trimEnds_eq_nil ?_ c inside
      by_contra more
      have kept : trimEnds Text.isWhitespace line ∈ paragraphs text :=
        List.mem_filter.mpr ⟨List.mem_map_of_mem piece, by simpa using more⟩
      rw [← lines] at kept
      cases kept
  rw [trimEnds, List.dropWhile_eq_nil_iff.mpr blank]
  rfl

theorem splitIntoChunks_ok_iff (text : List Char) (maxChars : Nat) (chunks : List (List Char)) :
    splitIntoChunks text maxChars = .ok chunks ↔
      chunks = packed text maxChars ∧ ∀ line ∈ paragraphs text, Text.utf8Len line ≤ maxChars := by
  rcases splitIntoChunks_eq text maxChars with ⟨done, short⟩ | ⟨⟨chunkId, bytes, failed⟩, line, member, long⟩
  · rw [done]
    exact ⟨fun same => ⟨(Except.ok.inj same).symm, short⟩, fun same => by rw [same.1]⟩
  · rw [failed]
    refine ⟨fun other => ?_, fun other => ?_⟩
    · cases other
    · exact absurd (other.2 line member) (by omega)

/-! ### The law of the documentation -/

/-- The budget counts characters, and the chunks hold the lines of the text in order. -/
def ChunksWithinChars (text : List Char) (maxChars : Nat) : Prop :=
  ((∃ chunks, splitIntoChunks text maxChars = .ok chunks) ↔
      ∀ line ∈ paragraphs text, line.length ≤ maxChars) ∧
    ∀ chunks, splitIntoChunks text maxChars = .ok chunks →
      (∀ chunk ∈ chunks, chunk.length ≤ maxChars) ∧ chunks.flatMap (·.splitOn '\n') = paragraphs text

/-- The vectors answer the contents part by part, and only a single content fails. -/
def EmbedsInOrder (port : EmbeddingPort Vector) (contents : List (List Char)) : Prop :=
  match embedBatchRaw port contents with
  | .ok vectors => AnsweredInParts port contents vectors ∧ vectors.length = contents.length
  | .error e => ∃ content ∈ contents, port [content] = .error e

theorem packed_short {text chunk : List Char}
    (short : ∀ line ∈ paragraphs text, Text.utf8Len line ≤ maxChars)
    (member : chunk ∈ packed text maxChars) : chunk.length ≤ maxChars := by
  rcases packed_groups text maxChars with ⟨groups, chunks, lines, fitting⟩
  rw [chunks] at member
  rcases List.mem_map.mp member with ⟨group, within, rfl⟩
  apply (Text.length_le_utf8Len _).trans
  rcases (fitting group within).2 with fits | ⟨line, rfl⟩
  · exact fits
  · rw [joined, List.intercalate_singleton]
    exact short line (lines ▸ List.mem_flatten.mpr ⟨_, within, List.mem_cons_self⟩)

theorem chunksWithinChars_iff (text : List Char) (maxChars : Nat) :
    ChunksWithinChars text maxChars ↔
      ((∀ line ∈ paragraphs text, line.length ≤ maxChars) →
        ∀ line ∈ paragraphs text, Text.utf8Len line ≤ maxChars) := by
  have done : (∃ chunks, splitIntoChunks text maxChars = .ok chunks) ↔
      ∀ line ∈ paragraphs text, Text.utf8Len line ≤ maxChars := by
    simp only [splitIntoChunks_ok_iff, exists_eq_left]
  constructor
  · intro law
    rw [← done]
    exact law.1.mpr
  · intro bytes
    refine ⟨done.trans ⟨fun short line member => ?_, bytes⟩, fun chunks split => ?_⟩
    · exact (Text.length_le_utf8Len line).trans (short line member)
    · rcases (splitIntoChunks_ok_iff ..).mp split with ⟨rfl, short⟩
      exact ⟨fun chunk member => packed_short short member, packed_lines text maxChars⟩

theorem embedsInOrder_iff {port : EmbeddingPort Vector}
    (each : ∀ batch vectors, port batch = .ok vectors → vectors.length = batch.length)
    (contents : List (List Char)) :
    EmbedsInOrder port contents ↔ (contents = [] → ∃ vectors, port [] = .ok vectors) := by
  unfold EmbedsInOrder embedBatchRaw
  cases ran : bisect port contents with
  | ok vectors =>
    have parts := bisect_ok ran
    refine iff_of_true ⟨parts, parts.length each⟩ ?_
    rintro rfl
    rw [bisect] at ran
    cases answer : port [] with
    | ok vectors => exact ⟨vectors, rfl⟩
    | error e => simp [answer] at ran
  | error e =>
    rcases bisect_error ran with alone | ⟨rfl, empty⟩
    · refine iff_of_true alone ?_
      rintro rfl
      rcases alone with ⟨content, member, -⟩
      cases member
    · refine iff_of_false ?_ ?_
      · rintro ⟨content, member, -⟩
        cases member
      · intro answered
        rcases answered rfl with ⟨vectors, answer⟩
        rw [empty] at answer
        cases answer

/-- The chunks keep to the budget in characters exactly where bytes make no difference, and the
embedding is in order and fails with a single content exactly where no empty batch fails. -/
theorem chunks_and_vectors_iff {port : EmbeddingPort Vector}
    (each : ∀ batch vectors, port batch = .ok vectors → vectors.length = batch.length)
    (text : List Char) (maxChars : Nat) (contents : List (List Char)) :
    (ChunksWithinChars text maxChars ↔
      ((∃ line ∈ paragraphs text, maxChars < line.length) ∨
        ∀ line ∈ paragraphs text, Text.utf8Len line ≤ maxChars)) ∧
    (EmbedsInOrder port contents ↔ (contents ≠ [] ∨ ∃ vectors, port [] = .ok vectors)) := by
  constructor
  · rw [chunksWithinChars_iff, imp_iff_not_or]
    simp
  · rw [embedsInOrder_iff each, imp_iff_not_or]

/-- A page never sends an empty batch, so its failures are a line that is too long, a single chunk
that the port refuses, or those of the filter. -/
theorem clean_error {extractTextContent : String → List Char} {port : EmbeddingPort Vector}
    {filterByRelevance : List (List Char) → List Vector → Except SemanticError (List (List Char × Vector))}
    {html : String} {e : SemanticError}
    (failed : clean extractTextContent port filterByRelevance maxChars html = .error e) :
    (∃ line ∈ paragraphs (extractTextContent html), maxChars < Text.utf8Len line) ∨
      (∃ chunk ∈ packed (extractTextContent html) maxChars, port [chunk] = .error e) ∨
      ∃ vectors, AnsweredInParts port (packed (extractTextContent html) maxChars) vectors ∧
        filterByRelevance (packed (extractTextContent html) maxChars) vectors = .error e := by
  simp only [clean] at failed
  split at failed
  next => cases failed
  next shown =>
    rcases splitIntoChunks_eq (extractTextContent html) maxChars with ⟨done, -⟩ | ⟨-, long⟩
    · rw [done] at failed
      simp only [embedBatchRaw] at failed
      cases ran : bisect port (packed (extractTextContent html) maxChars) with
      | ok vectors =>
        rw [ran] at failed
        exact .inr (.inr ⟨vectors, bisect_ok ran, failed⟩)
      | error other =>
        rw [ran] at failed
        cases failed
        rcases bisect_error ran with alone | ⟨none, -⟩
        · exact .inr (.inl alone)
        · exact absurd none (packed_ne_nil shown)
    · exact .inl long

namespace CleanerRuns

def lengths : EmbeddingPort Nat := fun batch => .ok (batch.map List.length)

theorem two_bytes_and_one_vector : (ChunksWithinChars "é".toList 1 ↔
      ((∃ line ∈ paragraphs "é".toList, 1 < line.length) ∨
        ∀ line ∈ paragraphs "é".toList, Text.utf8Len line ≤ 1)) ∧
    (EmbedsInOrder lengths ["é".toList] ↔ (["é".toList] ≠ [] ∨ ∃ vectors, lengths [] = .ok vectors)) :=
  chunks_and_vectors_iff (fun batch vectors answer => by cases answer; simp) "é".toList 1 ["é".toList]

/-- One character within a budget of one character is refused for its two bytes. -/
theorem two_bytes_refused : (∀ line ∈ paragraphs "é".toList, line.length ≤ 1) ∧
    splitIntoChunks "é".toList 1 = .error (.chunkTooLarge "0" 2 1) ∧
    ¬ ChunksWithinChars "é".toList 1 := by
  have short : ∀ line ∈ paragraphs "é".toList, line.length ≤ 1 := by decide
  have refused : splitIntoChunks "é".toList 1 = .error (.chunkTooLarge "0" 2 1) := by decide
  refine ⟨short, refused, fun law => ?_⟩
  rcases law.1.mpr short with ⟨chunks, split⟩
  rw [refused] at split
  cases split

theorem two_bytes_reported :
    clean String.toList lengths (fun _ _ => .ok []) 1 "é" = .error (.chunkTooLarge "0" 2 1) ∧
      ∃ line ∈ paragraphs "é".toList, 1 < Text.utf8Len line := by
  have refused : clean String.toList lengths (fun _ _ => .ok []) 1 "é" =
      .error (.chunkTooLarge "0" 2 1) := by decide
  rcases clean_error refused with long | ⟨_, _, ⟨⟩⟩ | ⟨_, _, ⟨⟩⟩
  exact ⟨refused, long⟩

end CleanerRuns

end Webfang.Llm.SemanticCleaner
