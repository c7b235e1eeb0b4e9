import Webfang.Export.VectorRuns

/-!
# Where an append cuts a vector file

The bracket is found in the decoded end of the file, and the file is cut at its offset there. Every byte
that the decoding replaces moves the cut by two bytes.
-/
namespace Webfang.Export

open Library

variable {front tail : Bytes}

theorem rposition_bracket (front : Bytes) (last : closingBracket ∉ tail) :
    rposition (· == closingBracket) (front ++ closingBracket :: tail) = some front.length := by
  have absent : tail.reverse.findIdx? (· == closingBracket) = none := by
    rw [List.findIdx?_eq_none_iff]
    intro b member
    rw [List.mem_reverse] at member
    exact beq_eq_false_iff_ne.mpr fun same => last (same ▸ member)
  have fromEnd : (front ++ closingBracket :: tail).reverse.findIdx? (· == closingBracket) =
      some tail.length := by
    have here : ([closingBracket] ++ front.reverse).findIdx? (· == closingBracket) = some 0 := rfl
    rw [List.reverse_append, List.reverse_cons, List.append_assoc, List.findIdx?_append, absent, here]
    simp
  rw [rposition, fromEnd]
  simp only [List.length_append, List.length_cons, Option.map_some, Option.some.injEq]
  omega

/-- The cut of a file whose last bracket is among the bytes that are scanned. -/
theorem truncateAtBracket_stray {chars : List Char}
    (whole : Subslice.encodeChars chars = front ++ closingBracket :: tail) (last : closingBracket ∉ tail)
    (near : tail.length < bracketScanBytes) :
    ∃ stray later, bracketWindow (front ++ closingBracket :: tail) = stray ++ Subslice.encodeChars later ∧
      stray.length ≤ 3 ∧ (∀ b ∈ stray, Subslice.isContinuation b = true) ∧
      Subslice.encodeChars later ≠ [] ∧
      truncateAtBracket (front ++ closingBracket :: tail) =
        setLen (front ++ closingBracket :: tail) (front.length + 2 * stray.length) := by
  have inFront : (front ++ closingBracket :: tail).length - bracketScanBytes ≤ front.length := by
    simp only [List.length_append, List.length_cons]
    omega
  rcases Subslice.drop_encodeChars_stray chars
    ((front ++ closingBracket :: tail).length - bracketScanBytes) with ⟨stray, later, split, few, continues⟩
  rw [whole] at split
  have window : bracketWindow (front ++ closingBracket :: tail) = stray ++ Subslice.encodeChars later := split
  rw [List.drop_append_of_le_length inFront] at split
  -- the bracket is behind the stray bytes
  obtain ⟨between, frontEnd, laterEq⟩ : ∃ between,
      front.drop ((front ++ closingBracket :: tail).length - bracketScanBytes) = stray ++ between ∧
        Subslice.encodeChars later = between ++ closingBracket :: tail := by
    rcases List.append_eq_append_iff.mp split with ⟨rest, strayEq, tailEq⟩ | ⟨rest, frontEq, laterEq⟩
    · cases rest with
      | nil => exact ⟨[], by simpa using strayEq.symm, by simpa using tailEq.symm⟩
      | cons b rest =>
        rw [List.cons_append, List.cons.injEq] at tailEq
        have bracket := continues b (by rw [strayEq]; simp)
        rw [← tailEq.1] at bracket
        exact absurd bracket (by decide)
    · exact ⟨rest, frontEq, laterEq⟩
  refine ⟨stray, later, window, few, continues, by simp [laterEq], ?_⟩
  have decoded : Subslice.fromUtf8Lossy (bracketWindow (front ++ closingBracket :: tail)) =
      ((stray.flatMap fun _ => Subslice.replacement) ++ between) ++ closingBracket :: tail := by
    rw [window, Subslice.fromUtf8Lossy_stray continues, laterEq, List.append_assoc]
  have sizes : front.length - ((front ++ closingBracket :: tail).length - bracketScanBytes) =
      stray.length + between.length := by
    rw [← List.length_drop, frontEnd, List.length_append]
  have offset : (front ++ closingBracket :: tail).length - bracketScanBytes +
      ((stray.flatMap fun _ => Subslice.replacement) ++ between).length =
        front.length + 2 * stray.length := by
    have replaced : ((stray.flatMap fun _ => Subslice.replacement) ++ between).length =
        3 * stray.length + between.length := by
      rw [List.length_append, Subslice.length_replacements]
    rw [replaced]
    omega
  unfold truncateAtBracket
  rw [decoded, rposition_bracket _ last]
  dsimp only
  rw [offset]

theorem setLen_eq_take {bytes : Bytes} {len : Nat} (short : len ≤ bytes.length) :
    setLen bytes len = bytes.take len := by
  rw [setLen, Nat.sub_eq_zero_of_le short, List.replicate_zero, List.append_nil]

theorem setLen_longer {bytes : Bytes} {len : Nat} (long : bytes.length < len) :
    ∃ zeros : Bytes, setLen bytes len = bytes ++ zeros ∧ 0 ∈ zeros := by
  refine ⟨List.replicate (len - bytes.length) 0, ?_, ?_⟩
  · rw [setLen, List.take_of_length_le (by omega)]
  · exact List.mem_replicate.mpr ⟨by omega, rfl⟩

def scanStart (bytes : Bytes) : Nat := bytes.length - bracketScanBytes

/-- How a file that ends in the brackets of its documents and its object is cut: at the first of the two,
behind the second, or nowhere, with zeros put behind it. -/
theorem truncateAtBracket_cases {chars : List Char} {ended : Bytes} (short : ended = [] ∨ ended = [newline])
    (whole : Subslice.encodeChars chars = front ++ closingBracket :: (0x7D :: ended)) :
    let bytes := front ++ closingBracket :: (0x7D :: ended)
    (Subslice.AtBoundary (scanStart bytes) bytes ∧ truncateAtBracket bytes = front) ∨
      (¬ Subslice.AtBoundary (scanStart bytes) bytes ∧ Subslice.AtBoundary (scanStart bytes + 1) bytes ∧
        truncateAtBracket bytes = front ++ [closingBracket, 0x7D]) ∨
      (¬ Subslice.AtBoundary (scanStart bytes) bytes ∧ ¬ Subslice.AtBoundary (scanStart bytes + 1) bytes ∧
        ∃ zeros, truncateAtBracket bytes = bytes ++ zeros ∧ 0 ∈ zeros) := by
  intro bytes
  have last : closingBracket ∉ (0x7D :: ended : Bytes) := by rcases short with rfl | rfl <;> decide
  have near : (0x7D :: ended : Bytes).length < bracketScanBytes := by rcases short with rfl | rfl <;> decide
  have few : ended.length ≤ 1 := by rcases short with rfl | rfl <;> simp
  rcases truncateAtBracket_stray whole last near with ⟨stray, later, window, three, continues, more, cut⟩
  have total : bytes.length = front.length + 2 + ended.length := by
    simp only [bytes, List.length_append, List.length_cons]
    omega
  have first (i : Nat) : bytes[scanStart bytes + i]? = (stray ++ Subslice.encodeChars later)[i]? := by
    rw [← window, bracketWindow, List.getElem?_drop]
    rfl
  have whole_char {b : UInt8} (here : (Subslice.encodeChars later)[0]? = some b) :
      Subslice.isContinuation b = false :=
    Subslice.isContinuation_head_encodeChars (by rw [List.head?_eq_getElem?]; exact here)
  rcases stray with _ | ⟨b, _ | ⟨c, rest⟩⟩
  · refine .inl ⟨fun b here => whole_char ?_, ?_⟩
    · rw [← here, ← Nat.add_zero (scanStart bytes), first 0]
      rfl
    · have inside : front.length ≤ bytes.length := by omega
      rw [cut, List.length_nil, Nat.mul_zero, Nat.add_zero, setLen_eq_take inside]
      exact List.take_left
  · have inside : bytes[scanStart bytes]? = some b := by
      rw [← Nat.add_zero (scanStart bytes), first 0]
      rfl
    refine .inr (.inl ⟨fun boundary => ?_, fun c here => whole_char ?_, ?_⟩)
    · exact absurd (boundary b inside) (by rw [continues b List.mem_cons_self]; decide)
    · rw [← here, first 1]
      rfl
    · have room : front.length + 2 ≤ bytes.length := by omega
      have parts : bytes = (front ++ [closingBracket, 0x7D]) ++ ended := by simp [bytes]
      rw [cut, List.length_singleton, Nat.mul_one, setLen_eq_take room, parts]
      exact List.take_left' (by simp)
  · have inside : bytes[scanStart bytes]? = some b := by
      rw [← Nat.add_zero (scanStart bytes), first 0]
      rfl
    have second : bytes[scanStart bytes + 1]? = some c := by
      rw [first 1]
      rfl
    have long : bytes.length < front.length + 2 * (b :: c :: rest).length := by
      simp only [List.length_cons]
      omega
    refine .inr (.inr ⟨fun boundary => ?_, fun boundary => ?_, ?_⟩)
    · exact absurd (boundary b inside) (by rw [continues b List.mem_cons_self]; decide)
    · exact absurd (boundary c second) (by rw [continues c (by simp)]; decide)
    · rw [cut]
      exact setLen_longer long

end Webfang.Export
