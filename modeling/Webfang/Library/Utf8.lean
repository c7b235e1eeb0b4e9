/-!
# Texts as bytes

The UTF-8 bytes of a text: those of its characters one after the other. They determine the text,
and a text whose bytes begin with those of a character begins with that character.
-/
namespace Library.Utf8

def encode (text : String) : List UInt8 := text.toUTF8.toList

/-- `String::from_utf8`. -/
def decode? (bytes : List UInt8) : Option String := String.fromUTF8? ⟨bytes.toArray⟩

/-- U+FEFF in UTF-8. -/
def bom : List UInt8 := [0xEF, 0xBB, 0xBF]

theorem toList_loop (bytes : ByteArray) (i : Nat) (read : List UInt8) (within : i ≤ bytes.size) :
    ByteArray.toList.loop bytes i read = read.reverse ++ bytes.data.toList.drop i := by
  generalize left : bytes.size - i = n
  induction n generalizing i read with
  | zero =>
    have done : i = bytes.size := by omega
    rw [ByteArray.toList.loop, if_neg (by omega), done, show bytes.size = bytes.data.toList.length from rfl,
      List.drop_length, List.append_nil]
  | succ n ih =>
    have more : i < bytes.data.toList.length := by
      change i < bytes.size
      omega
    rw [ByteArray.toList.loop, if_pos (show i < bytes.size from more), ih _ _ (by omega) (by omega),
      List.reverse_cons, List.append_assoc, List.drop_eq_getElem_cons more]
    have here : bytes.get! i = bytes.data.toList[i] := by
      change bytes.data[i]! = _
      rw [getElem!_pos bytes.data i more]
      rfl
    rw [here]
    rfl

theorem toList_eq (bytes : ByteArray) : bytes.toList = bytes.data.toList := by
  rw [ByteArray.toList, toList_loop bytes 0 [] (Nat.zero_le _)]
  rfl

theorem encode_ofList (chars : List Char) :
    encode (String.ofList chars) = chars.flatMap String.utf8EncodeChar := by
  rw [encode, String.toUTF8_eq_toByteArray, String.toByteArray_ofList, toList_eq, List.utf8Encode,
    List.toList_data_toByteArray]

theorem encode_eq (text : String) : encode text = text.toList.flatMap String.utf8EncodeChar := by
  rw [← encode_ofList, String.ofList_toList]

theorem toByteArray_encode (text : String) : (encode text).toByteArray = text.toByteArray := by
  refine ByteArray.ext (Array.toList_inj.mp ?_)
  rw [List.toList_data_toByteArray, encode, toList_eq, String.toUTF8_eq_toByteArray]

theorem encode_inj {text other : String} (same : encode text = encode other) : text = other := by
  rw [← String.toByteArray_inj, ← toByteArray_encode, ← toByteArray_encode, same]

theorem decode?_encode (text : String) : decode? (encode text) = some text := by
  have bytes : (⟨(encode text).toArray⟩ : ByteArray) = text.toByteArray := by
    refine ByteArray.ext (Array.toList_inj.mp ?_)
    rw [encode, toList_eq, String.toUTF8_eq_toByteArray]
  rw [decode?, bytes, String.fromUTF8?, dif_pos text.isValidUTF8]
  exact congrArg some (String.toByteArray_inj.mp rfl)

/-- Characters can be read off the front. -/
theorem encodeChar_append_inj {c d : Char} {xs ys : List UInt8}
    (same : String.utf8EncodeChar c ++ xs = String.utf8EncodeChar d ++ ys) : c = d ∧ xs = ys := by
  have read : ((String.utf8EncodeChar c).toByteArray ++ xs.toByteArray).utf8DecodeChar? 0 =
      ((String.utf8EncodeChar d).toByteArray ++ ys.toByteArray).utf8DecodeChar? 0 := by
    rw [← List.toByteArray_append, ← List.toByteArray_append, same]
  rw [ByteArray.utf8DecodeChar?_utf8EncodeChar_append, ByteArray.utf8DecodeChar?_utf8EncodeChar_append,
    Option.some.injEq] at read
  subst read
  exact ⟨rfl, List.append_cancel_left same⟩

/-- A text whose bytes begin with a character is one with that character in front. -/
theorem tail_of_encode {text : String} {c : Char} {rest : List UInt8}
    (starts : encode text = String.utf8EncodeChar c ++ rest) : ∃ tail, encode tail = rest := by
  rw [encode_eq] at starts
  cases chars : text.toList with
  | nil =>
    rw [chars, List.flatMap_nil] at starts
    exact absurd (List.append_eq_nil_iff.mp starts.symm).1 String.utf8EncodeChar_ne_nil
  | cons d more =>
    rw [chars, List.flatMap_cons] at starts
    exact ⟨String.ofList more, by rw [encode_ofList, (encodeChar_append_inj starts).2]⟩

theorem encode_ne_cons {text : String} {b : UInt8} {rest : List UInt8} (never : ¬ b.IsUTF8FirstByte) :
    encode text ≠ b :: rest := by
  intro starts
  rw [encode_eq] at starts
  cases chars : text.toList with
  | nil => rw [chars] at starts; cases starts
  | cons d more =>
    rw [chars, List.flatMap_cons] at starts
    have first := @UInt8.isUTF8FirstByte_getElem_zero_utf8EncodeChar d
    cases bytes : String.utf8EncodeChar d with
    | nil => exact String.utf8EncodeChar_ne_nil bytes
    | cons b' more' =>
      simp only [bytes, List.getElem_cons_zero] at first
      rw [bytes, List.cons_append] at starts
      rw [(List.cons.inj starts).1] at first
      exact never first

end Library.Utf8
