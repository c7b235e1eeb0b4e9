import Mathlib.Algebra.Order.Ring.Int

/-!
# Frames

A log of frames: the length of the payload as four little-endian bytes, the payload, one
terminator. A scan goes from frame to frame and stops at the first one whose payload is not
all there; it does not look at the terminator. Of a log of whole frames followed by a cut one
it finds every whole frame, and the cut one only when nothing but the terminator is missing. The
other kind of frame is one payload behind the four bytes of its checksum.
-/
namespace Library.Frames

/-- The low 32 bits, least significant byte first. -/
def toLeBytes (n : Nat) : List UInt8 :=
  [.ofNat n, .ofNat (n / 256), .ofNat (n / 65536), .ofNat (n / 16777216)]

def fromLeBytes (bytes : List UInt8) : Nat :=
  bytes.foldr (fun byte high => byte.toNat + 256 * high) 0

def terminator : UInt8 := 10

def frame (payload : List UInt8) : List UInt8 :=
  toLeBytes payload.length ++ payload ++ [terminator]

/-- The frames from `offset` on, each by its offset and its payload. -/
def scanFrom (offset : Nat) (bytes : List UInt8) : List (Nat × List UInt8) :=
  if bytes.length < 4 then []
  else
    let len := fromLeBytes (bytes.take 4)
    let rest := bytes.drop 4
    if rest.length < len then []
    else (offset, rest.take len) :: scanFrom (offset + 4 + len + 1) (rest.drop (len + 1))
termination_by bytes.length
decreasing_by simp only [List.length_drop]; omega

/-- What is left behind the last frame that is there with its terminator. -/
def tail (bytes : List UInt8) : List UInt8 :=
  if bytes.length < 4 then bytes
  else
    let len := fromLeBytes (bytes.take 4)
    let rest := bytes.drop 4
    if rest.length < len + 1 then bytes else tail (rest.drop (len + 1))
termination_by bytes.length
decreasing_by simp only [List.length_drop]; omega

/-- The frames of the payloads, laid out from `offset` on. -/
def located (offset : Nat) : List (List UInt8) → List (Nat × List UInt8)
  | [] => []
  | payload :: rest => (offset, payload) :: located (offset + (frame payload).length) rest

variable {payload : List UInt8}

@[simp] theorem length_toLeBytes (n : Nat) : (toLeBytes n).length = 4 := rfl

@[simp] theorem length_frame (payload : List UInt8) : (frame payload).length = payload.length + 5 := by
  simp only [frame, List.length_append, length_toLeBytes, List.length_singleton]
  omega

theorem fromLeBytes_toLeBytes {n : Nat} (short : n < 2 ^ 32) : fromLeBytes (toLeBytes n) = n := by
  simp only [fromLeBytes, toLeBytes, List.foldr_cons, List.foldr_nil, UInt8.toNat_ofNat']
  omega

/-- What a reader sees of a frame that is there up to its terminator. -/
theorem frame_parts (payload rest : List UInt8) :
    (toLeBytes payload.length ++ payload ++ rest).take 4 = toLeBytes payload.length ∧
      (toLeBytes payload.length ++ payload ++ rest).drop 4 = payload ++ rest := by
  rw [List.append_assoc]
  exact ⟨List.take_left' rfl, List.drop_left' rfl⟩

/-! ### Scanning -/

theorem scanFrom_frame (short : payload.length < 2 ^ 32) (offset : Nat) (rest : List UInt8) :
    scanFrom offset (frame payload ++ rest) =
      (offset, payload) :: scanFrom (offset + (frame payload).length) rest := by
  have shape : frame payload ++ rest = toLeBytes payload.length ++ payload ++ (terminator :: rest) := by
    simp [frame]
  obtain ⟨head, body⟩ := frame_parts payload (terminator :: rest)
  rw [scanFrom, shape, head, body, fromLeBytes_toLeBytes short]
  rw [if_neg (by simp), if_neg (by simp), List.take_left' rfl, length_frame]
  congr 2
  · omega
  · simp

/-- Nothing is found in a frame that is cut before the end of its payload. -/
theorem scanFrom_torn (short : payload.length < 2 ^ 32) {cut : Nat} (torn : cut < 4 + payload.length)
    (offset : Nat) : scanFrom offset ((frame payload).take cut) = [] := by
  rw [scanFrom]
  split
  · rfl
  next enough =>
    -- the length is whole, and says that the payload is not
    have length : ((frame payload).take cut).length = cut := by
      rw [List.length_take, length_frame]
      omega
    have head : ((frame payload).take cut).take 4 = toLeBytes payload.length := by
      rw [List.take_take, Nat.min_eq_left (by omega), frame, List.append_assoc]
      exact List.take_left' rfl
    rw [head, fromLeBytes_toLeBytes short]
    dsimp only
    rw [if_pos]
    rw [List.length_drop, length]
    omega

/-- A frame that lacks only its terminator is found. -/
theorem scanFrom_unterminated (short : payload.length < 2 ^ 32) (offset : Nat) :
    scanFrom offset ((frame payload).take (4 + payload.length)) = [(offset, payload)] := by
  have shape : (frame payload).take (4 + payload.length) = toLeBytes payload.length ++ payload ++ [] := by
    rw [frame, List.append_nil]
    exact List.take_left' (by simp)
  obtain ⟨head, body⟩ := frame_parts payload []
  rw [scanFrom, shape, head, body, fromLeBytes_toLeBytes short]
  rw [if_neg (by simp), if_neg (by simp)]
  rw [scanFrom, if_pos (by simp)]
  simp

theorem scanFrom_frames {payloads : List (List UInt8)} (short : ∀ p ∈ payloads, p.length < 2 ^ 32)
    (offset : Nat) (rest : List UInt8) :
    scanFrom offset (payloads.flatMap frame ++ rest) =
      located offset payloads ++ scanFrom (offset + (payloads.flatMap frame).length) rest := by
  induction payloads generalizing offset with
  | nil => rfl
  | cons p ps ih =>
    obtain ⟨first, later⟩ := List.forall_mem_cons.mp short
    rw [List.flatMap_cons, List.append_assoc, scanFrom_frame first, ih later, List.length_append,
      located, List.cons_append, Nat.add_assoc]

/-! ### The tail -/

theorem tail_frame (short : payload.length < 2 ^ 32) (rest : List UInt8) :
    tail (frame payload ++ rest) = tail rest := by
  have shape : frame payload ++ rest = toLeBytes payload.length ++ payload ++ (terminator :: rest) := by
    simp [frame]
  obtain ⟨head, body⟩ := frame_parts payload (terminator :: rest)
  rw [tail, shape, head, body, fromLeBytes_toLeBytes short]
  rw [if_neg (by simp), if_neg (by simp)]
  congr 1
  simp

theorem tail_frames {payloads : List (List UInt8)} (short : ∀ p ∈ payloads, p.length < 2 ^ 32)
    (rest : List UInt8) : tail (payloads.flatMap frame ++ rest) = tail rest := by
  induction payloads with
  | nil => rfl
  | cons p ps ih =>
    obtain ⟨first, later⟩ := List.forall_mem_cons.mp short
    rw [List.flatMap_cons, List.append_assoc, tail_frame first, ih later]

theorem tail_torn (short : payload.length < 2 ^ 32) {cut : Nat} (torn : cut < (frame payload).length) :
    tail ((frame payload).take cut) = (frame payload).take cut := by
  rw [tail]
  split
  · rfl
  next enough =>
    have length : ((frame payload).take cut).length = cut := by
      rw [List.length_take]
      omega
    have head : ((frame payload).take cut).take 4 = toLeBytes payload.length := by
      rw [List.take_take, Nat.min_eq_left (by omega), frame, List.append_assoc]
      exact List.take_left' rfl
    rw [head, fromLeBytes_toLeBytes short]
    dsimp only
    rw [length_frame] at torn
    rw [if_pos]
    rw [List.length_drop, length]
    omega

/-! ### Where a frame is -/

theorem located_append_singleton (offset : Nat) (payloads : List (List UInt8)) (payload : List UInt8) :
    located offset (payloads ++ [payload]) =
      located offset payloads ++ [(offset + (payloads.flatMap frame).length, payload)] := by
  induction payloads generalizing offset with
  | nil => rfl
  | cons p ps ih =>
    rw [List.cons_append, located, ih, located, List.cons_append, List.flatMap_cons,
      List.length_append, Nat.add_assoc]

def At (bytes : List UInt8) (offset : Nat) (payload : List UInt8) : Prop :=
  toLeBytes payload.length ++ payload <+: bytes.drop offset

theorem At.append {bytes : List UInt8} {offset : Nat} (here : At bytes offset payload)
    (more : List UInt8) : At (bytes ++ more) offset payload := by
  unfold At at here ⊢
  rw [List.drop_append]
  exact here.trans (List.prefix_append _ _)

theorem at_length (bytes : List UInt8) {written : List UInt8}
    (whole : toLeBytes payload.length ++ payload <+: written) :
    At (bytes ++ written) bytes.length payload := by
  unfold At
  rwa [List.drop_left' rfl]

theorem prefix_frame (payload : List UInt8) :
    toLeBytes payload.length ++ payload <+: frame payload :=
  List.prefix_append _ _

/-- A reader that goes to the offset finds the length, and that much payload behind it. -/
theorem At.read {bytes : List UInt8} {offset : Nat} (here : At bytes offset payload)
    (short : payload.length < 2 ^ 32) :
    4 ≤ (bytes.drop offset).length ∧ fromLeBytes ((bytes.drop offset).take 4) = payload.length ∧
      payload.length ≤ ((bytes.drop offset).drop 4).length ∧
      ((bytes.drop offset).drop 4).take payload.length = payload := by
  obtain ⟨rest, split⟩ := here
  obtain ⟨head, body⟩ := frame_parts payload rest
  rw [← split, head, body, fromLeBytes_toLeBytes short]
  refine ⟨by simp, rfl, by simp, List.take_left' rfl⟩

end Library.Frames

namespace Library.ChecksumFrame

variable {bigEndian : Bool} {check : List UInt8 → UInt32} {bytes payload : List UInt8}

/-- The four bytes of a word, the low one first. -/
def leBytes (word : UInt32) : List UInt8 :=
  [UInt8.ofNat (word.toNat % 256), UInt8.ofNat (word.toNat / 256 % 256),
    UInt8.ofNat (word.toNat / 65536 % 256), UInt8.ofNat (word.toNat / 16777216)]

/-- The bytes of a word in the order of the machine. -/
def toNeBytes (bigEndian : Bool) (word : UInt32) : List UInt8 :=
  if bigEndian then (leBytes word).reverse else leBytes word

/-- The word of four bytes in the order of the machine. -/
def fromNeBytes (bigEndian : Bool) (a b c d : UInt8) : UInt32 :=
  if bigEndian then
    UInt32.ofNat (d.toNat + 256 * c.toNat + 65536 * b.toNat + 16777216 * a.toNat)
  else UInt32.ofNat (a.toNat + 256 * b.toNat + 65536 * c.toNat + 16777216 * d.toNat)

theorem leBytes_ofNat (a b c d : UInt8) :
    leBytes (UInt32.ofNat (a.toNat + 256 * b.toNat + 65536 * c.toNat + 16777216 * d.toNat)) =
      [a, b, c, d] := by
  have wa := a.toNat_lt
  have wb := b.toNat_lt
  have wc := c.toNat_lt
  have wd := d.toNat_lt
  have bounded : a.toNat + 256 * b.toNat + 65536 * c.toNat + 16777216 * d.toNat < 2 ^ 32 := by omega
  have word := UInt32.toNat_ofNat_of_lt' bounded
  rw [leBytes, word]
  have first : (a.toNat + 256 * b.toNat + 65536 * c.toNat + 16777216 * d.toNat) % 256 = a.toNat := by
    omega
  have second : (a.toNat + 256 * b.toNat + 65536 * c.toNat + 16777216 * d.toNat) / 256 % 256 = b.toNat := by
    omega
  have third : (a.toNat + 256 * b.toNat + 65536 * c.toNat + 16777216 * d.toNat) / 65536 % 256 =
      c.toNat := by
    omega
  have fourth : (a.toNat + 256 * b.toNat + 65536 * c.toNat + 16777216 * d.toNat) / 16777216 =
      d.toNat := by
    omega
  rw [first, second, third, fourth, UInt8.ofNat_toNat, UInt8.ofNat_toNat, UInt8.ofNat_toNat,
    UInt8.ofNat_toNat]

theorem toNeBytes_fromNeBytes (bigEndian : Bool) (a b c d : UInt8) :
    toNeBytes bigEndian (fromNeBytes bigEndian a b c d) = [a, b, c, d] := by
  cases bigEndian with
  | false => exact leBytes_ofNat a b c d
  | true => exact congrArg List.reverse (leBytes_ofNat d c b a)

theorem ofNat_leBytes (word : UInt32) :
    ∃ a b c d, leBytes word = [a, b, c, d] ∧
      UInt32.ofNat (a.toNat + 256 * b.toNat + 65536 * c.toNat + 16777216 * d.toNat) = word := by
  have bounded := word.toNat_lt
  refine ⟨_, _, _, _, rfl, ?_⟩
  have byte : ∀ n, n < 256 → (UInt8.ofNat n).toNat = n := fun n small =>
    UInt8.toNat_ofNat_of_lt' small
  rw [byte _ (Nat.mod_lt _ (by decide)), byte _ (Nat.mod_lt _ (by decide)),
    byte _ (Nat.mod_lt _ (by decide)), byte _ (by omega)]
  have whole : word.toNat % 256 + 256 * (word.toNat / 256 % 256) + 65536 * (word.toNat / 65536 % 256) +
      16777216 * (word.toNat / 16777216) = word.toNat := by
    omega
  rw [whole, UInt32.ofNat_toNat]

theorem fromNeBytes_toNeBytes (bigEndian : Bool) (word : UInt32) :
    ∃ a b c d, toNeBytes bigEndian word = [a, b, c, d] ∧ fromNeBytes bigEndian a b c d = word := by
  rcases ofNat_leBytes word with ⟨a, b, c, d, bytes, same⟩
  cases bigEndian with
  | false => exact ⟨a, b, c, d, bytes, same⟩
  | true => exact ⟨d, c, b, a, by rw [toNeBytes, if_pos rfl, bytes]; rfl, same⟩

def framed (bigEndian : Bool) (check : List UInt8 → UInt32) (payload : List UInt8) : List UInt8 :=
  toNeBytes bigEndian (check payload) ++ payload

/-- Four bytes and a payload are its frame exactly if they are its checksum. -/
theorem eq_framed_iff (a b c d : UInt8) (payload : List UInt8) :
    a :: b :: c :: d :: payload = framed bigEndian check payload ↔
      fromNeBytes bigEndian a b c d = check payload := by
  constructor
  · intro same
    rcases fromNeBytes_toNeBytes bigEndian (check payload) with ⟨a', b', c', d', bytes, word⟩
    rw [framed, bytes] at same
    simp only [List.cons_append, List.nil_append, List.cons.injEq, and_true] at same
    rw [same.1, same.2.1, same.2.2.1, same.2.2.2]
    exact word
  · intro same
    rw [framed, ← same, toNeBytes_fromNeBytes]
    rfl

theorem framed_split (bigEndian : Bool) (check : List UInt8 → UInt32) (payload : List UInt8) :
    ∃ a b c d, framed bigEndian check payload = a :: b :: c :: d :: payload ∧
      fromNeBytes bigEndian a b c d = check payload := by
  rcases fromNeBytes_toNeBytes bigEndian (check payload) with ⟨a, b, c, d, bytes, word⟩
  exact ⟨a, b, c, d, by rw [framed, bytes]; rfl, word⟩

end Library.ChecksumFrame
