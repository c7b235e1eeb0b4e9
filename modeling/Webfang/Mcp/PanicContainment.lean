import Webfang.Library.JsonBytes
import Webfang.Library.Utf8

/-!
# The id of a request in a contained panic

`capture_request_id` reads the front of a body, and `scan_envelope_id` looks there for the
top-level `id` without parsing the whole. The body is handed on as it came. The input from an
index on is a list, and `serde_json::from_slice` is a parameter.
-/
namespace Webfang.Mcp

open Library JsonText JsonBytes

/-! ### The scanner -/

inductive IdSource where
  | envelope
  | notification
  | nullId
  | batch
  | notARequest
  | scanWindow
  deriving DecidableEq

def skipWs (input : List UInt8) : List UInt8 := input.dropWhile isWs

/-- `scan_string`, behind the opening quote: the inner bytes and what follows the token. -/
def scanString : List UInt8 → Option (List UInt8 × List UInt8)
  | [] => none
  | b :: rest =>
    if b = backslash then
      match rest with
      | [] => none
      | escaped :: rest => (scanString rest).map fun (inner, after) => (b :: escaped :: inner, after)
    else if b = quote then some ([], rest)
    else (scanString rest).map fun (inner, after) => (b :: inner, after)

theorem scanString_quote (rest : List UInt8) : scanString (quote :: rest) = some ([], rest) := by
  cases rest <;> rfl

theorem scanString_escape (escaped : UInt8) (rest : List UInt8) :
    scanString (backslash :: escaped :: rest) =
      (scanString rest).map fun (inner, after) => (backslash :: escaped :: inner, after) := by
  rw [scanString, if_pos rfl]

theorem scanString_plain {b : UInt8} (noEscape : b ≠ backslash) (noQuote : b ≠ quote) (rest : List UInt8) :
    scanString (b :: rest) = (scanString rest).map fun (inner, after) => (b :: inner, after) := by
  cases rest <;> simp [scanString, noEscape, noQuote]

/-- What a token is read into stands in front of what follows, closed by a quotation mark. -/
theorem scanString_split {input inner after : List UInt8} (found : scanString input = some (inner, after)) :
    input = inner ++ quote :: after ∧ Inner inner := by
  induction input using scanString.induct generalizing inner after with
  | case1 => cases found
  | case2 => simp [scanString] at found
  | case3 escaped rest ih =>
    rw [scanString_escape, Option.map_eq_some_iff] at found
    obtain ⟨⟨inner', after'⟩, found, same⟩ := found
    obtain ⟨rfl, rfl⟩ := Prod.mk.inj same
    obtain ⟨rfl, body⟩ := ih found
    exact ⟨rfl, .escape body⟩
  | case4 rest =>
    rw [scanString_quote] at found
    cases found
    exact ⟨rfl, .nil⟩
  | case5 b rest noEscape noQuote ih =>
    rw [scanString_plain noEscape noQuote, Option.map_eq_some_iff] at found
    obtain ⟨⟨inner', after'⟩, found, same⟩ := found
    obtain ⟨rfl, rfl⟩ := Prod.mk.inj same
    obtain ⟨rfl, body⟩ := ih found
    exact ⟨rfl, .plain noQuote noEscape body⟩

/-- A complete token is read up to its closing quotation mark. -/
theorem scanString_inner {inner : List UInt8} (body : Inner inner) (after : List UInt8) :
    scanString (inner ++ quote :: after) = some (inner, after) := by
  induction body with
  | nil => exact scanString_quote after
  | plain noQuote noEscape _ ih =>
    rw [List.cons_append, scanString_plain noEscape noQuote, ih, Option.map_some]
  | escape _ ih => rw [List.cons_append, List.cons_append, scanString_escape, ih, Option.map_some]

theorem scanString_length {input inner after : List UInt8} (found : scanString input = some (inner, after)) :
    after.length < input.length := by
  obtain ⟨rfl, _⟩ := scanString_split found
  simp only [List.length_append, List.length_cons]
  omega

def readBefore (front : List UInt8) : List UInt8 × List UInt8 → List UInt8 × List UInt8
  | (value, after) => (front ++ value, after)

/-- `skip_value`: the bytes of the value and what follows it. -/
def skipValue (depth : Nat) : List UInt8 → Option (List UInt8 × List UInt8)
  | [] => none
  | b :: rest =>
    if b = quote then
      match _found : scanString rest with
      | none => none
      | some (inner, after) =>
        let token := quote :: (inner ++ [quote])
        if depth = 0 then some (token, after) else (skipValue depth after).map (readBefore token)
    else if b = openBrace ∨ b = openBracket then (skipValue (depth + 1) rest).map (readBefore [b])
    else if b = closeBrace ∨ b = closeBracket then
      if depth = 0 then some ([], b :: rest)
      else if depth - 1 = 0 then some ([b], rest)
      else (skipValue (depth - 1) rest).map (readBefore [b])
    else if b = comma ∧ depth = 0 then some ([], b :: rest)
    else (skipValue depth rest).map (readBefore [b])
  termination_by input => input.length
  decreasing_by
    · have shorter := scanString_length _found
      simp only [List.length_cons]
      omega
    all_goals simp

theorem map_readBefore (front back : List UInt8) (read : Option (List UInt8 × List UInt8)) :
    (read.map (readBefore back)).map (readBefore front) = read.map (readBefore (front ++ back)) := by
  cases read <;> simp [readBefore]

section Bytes

variable {b : UInt8} {depth : Nat} {rest inner after : List UInt8}

theorem skipValue_token (found : scanString rest = some (inner, after)) (depth : Nat) :
    skipValue depth (quote :: rest) =
      if depth = 0 then some (quote :: (inner ++ [quote]), after)
      else (skipValue depth after).map (readBefore (quote :: (inner ++ [quote]))) := by
  rw [skipValue, if_pos rfl]
  split
  next none => rw [found] at none; cases none
  next same =>
    rw [found] at same
    cases same
    rfl

theorem skipValue_torn (torn : scanString rest = none) (depth : Nat) : skipValue depth
    (quote :: rest) = none := by
  rw [skipValue, if_pos rfl]
  split
  next => rfl
  next same => rw [torn] at same; cases same

theorem skipValue_open (opens : b = openBrace ∨ b = openBracket) (depth : Nat) (rest : List UInt8) :
    skipValue depth (b :: rest) = (skipValue (depth + 1) rest).map (readBefore [b]) := by
  have apart : b ≠ quote := by rcases opens with rfl | rfl <;> decide
  rw [skipValue, if_neg apart, if_pos opens]

theorem skipValue_close (closes : b = closeBrace ∨ b = closeBracket) (depth : Nat) (rest : List UInt8) :
    skipValue depth (b :: rest) =
      if depth = 0 then some ([], b :: rest)
      else if depth - 1 = 0 then some ([b], rest)
      else (skipValue (depth - 1) rest).map (readBefore [b]) := by
  have apart : b ≠ quote ∧ ¬ (b = openBrace ∨ b = openBracket) := by rcases closes with rfl | rfl <;> decide
  rw [skipValue, if_neg apart.1, if_neg apart.2, if_pos closes]

theorem isOther_iff :
    isOther b = true ↔
      b ≠ quote ∧ ¬ (b = openBrace ∨ b = openBracket) ∧ ¬ (b = closeBrace ∨ b = closeBracket) := by
  simp only [isOther, Bool.and_eq_true, bne_iff_ne, not_or]
  constructor
  · rintro ⟨⟨⟨⟨noQuote, noBrace⟩, noBracket⟩, noClose⟩, noEnd⟩
    exact ⟨noQuote, ⟨noBrace, noBracket⟩, noClose, noEnd⟩
  · rintro ⟨noQuote, ⟨noBrace, noBracket⟩, noClose, noEnd⟩
    exact ⟨⟨⟨⟨noQuote, noBrace⟩, noBracket⟩, noClose⟩, noEnd⟩

theorem skipValue_other (other : isOther b = true) (within : ¬ (b = comma ∧ depth = 0)) (rest : List UInt8) :
    skipValue depth (b :: rest) = (skipValue depth rest).map (readBefore [b]) := by
  obtain ⟨noQuote, noOpen, noClose⟩ := isOther_iff.mp other
  rw [skipValue, if_neg noQuote, if_neg noOpen, if_neg noClose, if_neg within]

theorem skipValue_comma (rest : List UInt8) : skipValue 0 (comma :: rest) = some ([], comma :: rest) := by
  rw [skipValue, if_neg (by decide), if_neg (by decide), if_neg (by decide), if_pos ⟨rfl, rfl⟩]

end Bytes

/-- Inside a container, balanced bytes are read over. -/
theorem skipValue_balanced {inner : List UInt8} (body : Balanced inner) (depth : Nat) (rest : List UInt8) :
    skipValue (depth + 1) (inner ++ rest) = (skipValue (depth + 1) rest).map (readBefore inner) := by
  induction body generalizing depth rest with
  | nil =>
    rw [List.nil_append]
    cases skipValue (depth + 1) rest <;> rfl
  | @other b inner other _ ih =>
    rw [List.cons_append, skipValue_other other (by simp), ih, map_readBefore]
    rfl
  | @string token inner body _ ih =>
    rw [List.cons_append, List.append_assoc, List.cons_append, skipValue_token (scanString_inner body _),
      if_neg (Nat.succ_ne_zero depth), ih, map_readBefore]
    simp
  | @group left right group inner opens closes _ _ ihGroup ihRest =>
    rw [List.cons_append, List.append_assoc, List.cons_append, skipValue_open opens, ihGroup,
      skipValue_close closes, if_neg (Nat.succ_ne_zero _), if_neg (by omega), Nat.add_sub_cancel, ihRest,
      map_readBefore, map_readBefore, map_readBefore]
    simp

/-- A scalar is read up to the separator behind it. -/
theorem skipValue_scalar {bytes : List UInt8} (plain : ∀ b ∈ bytes, isOther b = true ∧ b ≠ comma)
    {separator : UInt8}
    (separates : separator = comma ∨ separator = closeBrace) (rest : List UInt8) :
    skipValue 0 (bytes ++ separator :: rest) = some (bytes, separator :: rest) := by
  induction bytes with
  | nil =>
    rcases separates with rfl | rfl
    · exact skipValue_comma rest
    · rw [List.nil_append, skipValue_close (.inl rfl), if_pos rfl]
  | cons b more ih =>
    obtain ⟨other, noComma⟩ := plain b List.mem_cons_self
    rw [List.cons_append, skipValue_other other (fun both => noComma both.1),
      ih fun c member => plain c (List.mem_cons_of_mem _ member)]
    rfl

/-- A value is read whole, a scalar with the white space behind it. -/
theorem skipValue_core {core blank : List UInt8} (value : Core core) (spaces : ∀ b ∈ blank, isWs b = true)
    {separator : UInt8} (separates : separator = comma ∨ separator = closeBrace) (rest : List UInt8) :
    ∃ taken left, blank = taken ++ left ∧
      skipValue 0 (core ++ (blank ++ separator :: rest)) =
        some (core ++ taken, left ++ separator :: rest) := by
  cases value with
  | scalar plain =>
    refine ⟨blank, [], by simp, ?_⟩
    rw [← List.append_assoc]
    apply skipValue_scalar _ separates
    intro b member
    rcases List.mem_append.mp member with inside | behind
    · exact ⟨(plain b inside).1, (plain b inside).2.1⟩
    · refine ⟨isOther_of_isWs (spaces b behind), ?_⟩
      rintro rfl
      exact absurd (spaces comma behind) (by decide)
  | @string inner body =>
    refine ⟨[], blank, rfl, ?_⟩
    rw [List.cons_append, List.append_assoc, List.singleton_append, skipValue_token (scanString_inner body _),
      if_pos rfl, List.append_nil]
  | @group left right inner opens closes body =>
    refine ⟨[], blank, rfl, ?_⟩
    rw [List.cons_append, List.append_assoc, List.singleton_append, skipValue_open opens,
      skipValue_balanced body, skipValue_close closes, if_neg (by decide), if_pos rfl]
    simp [readBefore]

/-- A token that was read is read the same from a longer input. -/
theorem scanString_append {input inner after : List UInt8} (found : scanString input = some (inner, after))
    (more : List UInt8) : scanString (input ++ more) = some (inner, after ++ more) := by
  obtain ⟨rfl, body⟩ := scanString_split found
  rw [List.append_assoc, List.cons_append, scanString_inner body]

/-- What was read is the front of the input, and is read the same from a longer one. -/
structure ReadFrom (read : List UInt8 → Option (List UInt8 × List UInt8)) (input value after : List UInt8) :
    Prop where
  split : input = value ++ after
  longer (more : List UInt8) : read (input ++ more) = some (value, after ++ more)

theorem ReadFrom.behind {depth deeper : Nat} (front : List UInt8) {rest value after : List UInt8}
    (ih : ∀ {value after : List UInt8}, skipValue deeper rest = some (value, after) →
      ReadFrom (skipValue deeper) rest value after)
    (step : ∀ more, skipValue depth (front ++ (rest ++ more)) =
      (skipValue deeper (rest ++ more)).map (readBefore front))
    (found : skipValue depth (front ++ rest) = some (value, after)) :
    ReadFrom (skipValue depth) (front ++ rest) value after := by
  have first := step []
  rw [List.append_nil, found] at first
  obtain ⟨⟨back, left⟩, read, same⟩ := Option.map_eq_some_iff.mp first.symm
  obtain ⟨rfl, rfl⟩ := Prod.mk.inj same
  obtain ⟨rfl, longer⟩ := ih read
  refine ⟨by rw [List.append_assoc], fun more => ?_⟩
  rw [List.append_assoc, step, longer]
  rfl

theorem skipValue_read {depth : Nat} {input value after : List UInt8}
    (found : skipValue depth input = some (value, after)) : ReadFrom (skipValue depth) input value after := by
  -- the cases are the branches of the loop; only a closed value and a separator end it
  induction depth, input using skipValue.induct generalizing value after with
  | case1 => simp [skipValue] at found
  | case2 depth rest torn =>
    rw [skipValue_torn torn] at found
    cases found
  | case3 rest inner left read =>
    rw [skipValue_token read, if_pos rfl] at found
    cases found
    obtain ⟨rfl, body⟩ := scanString_split read
    refine ⟨by simp, fun more => ?_⟩
    rw [List.cons_append, skipValue_token (scanString_append read more), if_pos rfl]
  | case4 depth rest inner left read deeper ih =>
    obtain ⟨rfl, body⟩ := scanString_split read
    rw [show quote :: (inner ++ quote :: left) = (quote :: (inner ++ [quote])) ++ left by simp] at found ⊢
    refine ReadFrom.behind _ ih (fun more => ?_) found
    rw [List.cons_append, List.append_assoc, List.singleton_append,
      skipValue_token (scanString_inner body _), if_neg deeper]
  | case5 depth b rest _ opens ih =>
    exact ReadFrom.behind [b] ih (fun more => skipValue_open opens depth _) found
  | case6 b rest _ _ closes =>
    rw [skipValue_close closes, if_pos rfl] at found
    cases found
    refine ⟨rfl, fun more => ?_⟩
    rw [List.cons_append, skipValue_close closes, if_pos rfl]
  | case7 depth b rest _ _ closes deeper last =>
    rw [skipValue_close closes, if_neg deeper, if_pos last] at found
    cases found
    refine ⟨rfl, fun more => ?_⟩
    rw [List.cons_append, skipValue_close closes, if_neg deeper, if_pos last]
  | case8 depth b rest _ _ closes deeper within ih =>
    refine ReadFrom.behind [b] ih (fun more => ?_) found
    rw [List.singleton_append, skipValue_close closes, if_neg deeper, if_neg within]
  | case9 depth b rest _ _ _ separates =>
    obtain ⟨rfl, rfl⟩ := separates
    rw [skipValue_comma] at found
    cases found
    exact ⟨rfl, fun more => skipValue_comma _⟩
  | case10 depth b rest noQuote noOpen noClose within ih =>
    have other : isOther b = true := isOther_iff.mpr ⟨noQuote, noOpen, noClose⟩
    exact ReadFrom.behind [b] ih (fun more => skipValue_other other within _) found

/-- `scan_envelope_id` behind the opening quote of a key: the key, the bytes of its value and what
follows. Without them the answer is the scan window. -/
def scanMember (input : List UInt8) : Option (List UInt8 × List UInt8 × List UInt8) :=
  match scanString input with
  | none => none
  | some (key, afterKey) =>
    match skipWs afterKey with
    | [] => none
    | c :: rest => if c = colon then (skipValue 0 (skipWs rest)).map (Prod.mk key) else none

def idKey : List UInt8 := [0x69, 0x64]

variable (parse : List UInt8 → Option Json)

/-- The answer once the member is found. -/
def idOf (value : List UInt8) : Json × IdSource :=
  match parse value with
  | some .null => (.null, .nullId)
  | some id => (id, .envelope)
  | none => (.null, .notARequest)

/-- One turn of the loop of `scan_envelope_id`: an answer, or the input the next one starts at. -/
def scanTurn (input : List UInt8) : (Json × IdSource) ⊕ List UInt8 :=
  match skipWs input with
  | [] => .inl (.null, .scanWindow)
  | b :: rest =>
    if b = closeBrace then .inl (.null, .notification)
    else if b = quote then
      match scanMember rest with
      | none => .inl (.null, .scanWindow)
      | some (key, value, after) =>
        if key = idKey then .inl (idOf parse value)
        else
          match skipWs after with
          | [] => .inl (.null, .scanWindow)
          | c :: more =>
            if c = comma then .inr more
            else if c = closeBrace then .inl (.null, .notification)
            else .inl (.null, .scanWindow)
    else .inl (.null, .scanWindow)

theorem skipWs_length (input : List UInt8) : (skipWs input).length ≤ input.length :=
  (List.dropWhile_suffix _).length_le

theorem skipWs_append {input rest : List UInt8} {b : UInt8} (found : skipWs input = b :: rest)
    (more : List UInt8) :
    skipWs (input ++ more) = b :: (rest ++ more) := by
  rw [skipWs, List.dropWhile_append, show input.dropWhile isWs = b :: rest from found]
  rfl

/-- What a member that was read says: its parts one after the other. -/
theorem scanMember_cases {input key value after : List UInt8}
    (found : scanMember input = some (key, value, after)) :
    ∃ afterKey rest, scanString input = some (key, afterKey) ∧ skipWs afterKey = colon :: rest ∧
      skipValue 0 (skipWs rest) = some (value, after) := by
  unfold scanMember at found
  split at found
  next => cases found
  next key' afterKey read =>
    split at found
    next => cases found
    next c rest behind =>
      split at found
      next isColon =>
        obtain ⟨⟨value', after'⟩, skipped, same⟩ := Option.map_eq_some_iff.mp found
        cases same
        exact ⟨afterKey, rest, read, isColon ▸ behind, skipped⟩
      next => cases found

theorem scanMember_of {input key afterKey rest value after : List UInt8}
    (read : scanString input = some (key, afterKey)) (behind : skipWs afterKey = colon :: rest)
    (skipped : skipValue 0 (skipWs rest) = some (value, after)) :
    scanMember input = some (key, value, after) := by
  simp [scanMember, read, behind, skipped]

theorem scanMember_append {input key value after : List UInt8}
    (found : scanMember input = some (key, value, after))
    (more : List UInt8) : scanMember (input ++ more) = some (key, value, after ++ more) := by
  obtain ⟨afterKey, rest, read, behind, skipped⟩ := scanMember_cases found
  apply scanMember_of (scanString_append read more) (skipWs_append behind more)
  cases start : skipWs rest with
  | nil =>
    rw [start] at skipped
    simp [skipValue] at skipped
  | cons b left =>
    rw [skipWs_append start, ← List.cons_append, ← start]
    exact (skipValue_read skipped).longer more

theorem scanMember_length {input key value after : List UInt8}
    (found : scanMember input = some (key, value, after)) :
    after.length < input.length := by
  obtain ⟨afterKey, rest, read, behind, skipped⟩ := scanMember_cases found
  have first := scanString_length read
  have second := skipWs_length afterKey
  have third := skipWs_length rest
  have fourth := congrArg List.length (skipValue_read skipped).split
  rw [behind, List.length_cons] at second
  rw [List.length_append] at fourth
  omega

/-! ### The loop -/

/-- How a turn ends: at a closed object, at the `id`, at a comma, or without enough input. -/
inductive Turn (input : List UInt8) : (Json × IdSource) ⊕ List UInt8 → Prop
  | empty {rest : List UInt8} (start : skipWs input = closeBrace :: rest) :
    Turn input (.inl (.null, .notification))
  | identified {rest value after : List UInt8} (start : skipWs input = quote :: rest)
    (member : scanMember rest = some (idKey, value, after)) : Turn input (.inl (idOf parse value))
  | closed {rest key value after more : List UInt8} (start : skipWs input = quote :: rest)
    (member : scanMember rest = some (key, value, after)) (other : key ≠ idKey)
    (next : skipWs after = closeBrace :: more) : Turn input (.inl (.null, .notification))
  | again {rest key value after more : List UInt8} (start : skipWs input = quote :: rest)
    (member : scanMember rest = some (key, value, after)) (other : key ≠ idKey)
    (next : skipWs after = comma :: more) : Turn input (.inr more)

theorem scanTurn_cases (input : List UInt8) :
    scanTurn parse input = .inl (.null, .scanWindow) ∨ Turn parse input (scanTurn parse input) := by
  unfold scanTurn
  split
  next => exact .inl rfl
  next b rest start =>
    split
    next isClose => exact .inr (.empty (isClose ▸ start))
    next =>
      split
      next isQuote =>
        rw [isQuote] at start
        split
        next => exact .inl rfl
        next key value after member =>
          split
          next same => exact .inr (.identified start (same ▸ member))
          next other =>
            split
            next => exact .inl rfl
            next c more next' =>
              split
              next isComma => exact .inr (.again start member other (isComma ▸ next'))
              next =>
                split
                next isClose => exact .inr (.closed start member other (isClose ▸ next'))
                next => exact .inl rfl
      next => exact .inl rfl

variable {parse}

theorem Turn.eq {input : List UInt8} {result : (Json × IdSource) ⊕ List UInt8}
    (turn : Turn parse input result) :
    scanTurn parse input = result := by
  have apart : quote ≠ closeBrace ∧ closeBrace ≠ comma := by decide
  cases turn with
  | empty start => simp [scanTurn, start]
  | identified start member => simp [scanTurn, start, member, apart]
  | closed start member other next => simp [scanTurn, start, member, other, next, apart]
  | again start member other next => simp [scanTurn, start, member, other, next, apart]

/-- More input changes nothing but what is still to be read. -/
theorem Turn.append {input : List UInt8} {result : (Json × IdSource) ⊕ List UInt8}
    (turn : Turn parse input result)
    (more : List UInt8) : Turn parse (input ++ more) (result.map id (· ++ more)) := by
  cases turn with
  | empty start => exact .empty (skipWs_append start more)
  | identified start member =>
    exact .identified (skipWs_append start more) (scanMember_append member more)
  | closed start member other next =>
    exact .closed (skipWs_append start more) (scanMember_append member more) other (skipWs_append next more)
  | again start member other next =>
    exact .again (skipWs_append start more) (scanMember_append member more) other (skipWs_append next more)

theorem Turn.shorter {input rest : List UInt8} (turn : Turn parse input (.inr rest)) :
    rest.length < input.length := by
  cases turn with
  | @again _ _ _ after _ start member other next =>
    have first := skipWs_length input
    have second := scanMember_length member
    have third := skipWs_length after
    rw [start, List.length_cons] at first
    rw [next, List.length_cons] at third
    omega

variable (parse) in
theorem scanTurn_length {input rest : List UInt8} (again : scanTurn parse input = .inr rest) :
    rest.length < input.length := by
  rcases scanTurn_cases parse input with window | turn
  · rw [window] at again
    cases again
  · exact Turn.shorter (again ▸ turn)

variable (parse) in
/-- The loop of `scan_envelope_id`. -/
def scanMembers (input : List UInt8) : Json × IdSource :=
  match _again : scanTurn parse input with
  | .inl answer => answer
  | .inr rest => scanMembers rest
  termination_by input.length
  decreasing_by exact scanTurn_length parse _again

variable (parse) in
def scanEnvelopeId (input : List UInt8) : Json × IdSource :=
  match skipWs input with
  | [] => (.null, .notARequest)
  | b :: rest =>
    if b = openBrace then scanMembers parse rest
    else if b = openBracket then (.null, .batch)
    else (.null, .notARequest)

theorem scanMembers_inl {input : List UInt8} {answer : Json × IdSource}
    (ends : scanTurn parse input = .inl answer) :
    scanMembers parse input = answer := by
  rw [scanMembers]
  split
  next same => rw [ends] at same; cases same; rfl
  next same => rw [ends] at same; cases same

theorem scanMembers_inr {input rest : List UInt8} (again : scanTurn parse input = .inr rest) :
    scanMembers parse input = scanMembers parse rest := by
  rw [scanMembers]
  split
  next same => rw [again] at same; cases same
  next same => rw [again] at same; cases same; rfl

/-- On a cut the scan runs into the window or finds what it finds on the whole. -/
theorem scanMembers_append (input more : List UInt8) :
    scanMembers parse input = (.null, .scanWindow) ∨
      scanMembers parse (input ++ more) = scanMembers parse input := by
  induction input using scanMembers.induct parse with
  | case1 input answer ends =>
    rcases scanTurn_cases parse input with window | turn
    · exact .inl (scanMembers_inl window)
    · right
      rw [ends] at turn
      rw [scanMembers_inl ends, scanMembers_inl (turn.append more).eq]
      rfl
  | case2 input rest again ih =>
    rcases scanTurn_cases parse input with window | turn
    · exact .inl (scanMembers_inl window)
    · rw [again] at turn
      rw [scanMembers_inr again, scanMembers_inr (turn.append more).eq]
      exact ih

/-! ### The body -/

def idScanLimit : Nat := 64 * 1024

/-- A request as this layer sees it: its method and the data frames of its body. -/
structure Request (ε : Type) where
  method : String
  body : List (Except ε (List UInt8))

structure RecoveredRequestId where
  id : Json
  source : IdSource

def RecoveredRequestId.unrecoverable (source : IdSource) : RecoveredRequestId := ⟨.null, source⟩

variable {ε : Type}

/-- The loop of `capture_request_id`: the bytes read, the error that ended it, what is unread. -/
def readPrefix (read : List UInt8) :
    List (Except ε (List UInt8)) → List UInt8 × Option ε × List (Except ε (List UInt8))
  | [] => (read, none, [])
  | frame :: rest =>
    if read.length < idScanLimit then
      match frame with
      | .ok chunk => readPrefix (read ++ chunk) rest
      | .error failure => (read, some failure, rest)
    else (read, none, frame :: rest)

def rebuildBody (read : List UInt8) (failure : Option ε) (remainder : List (Except ε (List UInt8))) :
    List (Except ε (List UInt8)) :=
  (failure.map Except.error).toList ++ .ok read :: remainder

variable (parse) in
def captureRequestId (request : Request ε) : Request ε × RecoveredRequestId :=
  if request.method ≠ "POST" then (request, .unrecoverable .notARequest)
  else
    match readPrefix [] request.body with
    | (read, failure, remainder) =>
      match scanEnvelopeId parse read with
      | (id, source) => ({ request with body := rebuildBody read failure remainder }, ⟨id, source⟩)

/-- What the reader of a body gets: its bytes, or the first error. -/
def collect : List (Except ε (List UInt8)) → Except ε (List UInt8)
  | [] => .ok []
  | .error failure :: _ => .error failure
  | .ok chunk :: rest => (collect rest).map (chunk ++ ·)

theorem readPrefix_full {read : List UInt8} (full : ¬ read.length < idScanLimit)
    (body : List (Except ε (List UInt8))) :
    readPrefix read body = (read, none, body) := by
  rcases body with _ | ⟨frame | chunk, rest⟩ <;> simp [readPrefix, full]

theorem collect_rebuilt (read : List UInt8) (body : List (Except ε (List UInt8))) :
    collect (rebuildBody (readPrefix read body).1 (readPrefix read body).2.1 (readPrefix read body).2.2) =
      (collect body).map (read ++ ·) := by
  induction body generalizing read with
  | nil => rfl
  | cons frame rest ih =>
    by_cases room : read.length < idScanLimit
    · cases frame with
      | error failure => simp [readPrefix, room, rebuildBody, collect, Except.map]
      | ok chunk =>
        simp only [readPrefix, if_pos room]
        rw [ih, collect]
        cases collect rest with
        | error failure => rfl
        | ok bytes => exact congrArg Except.ok (List.append_assoc read chunk bytes)
    · rw [readPrefix_full room]
      rfl

/-- The body handed on reads as the one received: the same bytes, or the same error. -/
theorem captureRequestId_body (request : Request ε) :
    collect (captureRequestId parse request).1.body = collect request.body := by
  unfold captureRequestId
  split
  · rfl
  · have same := collect_rebuilt [] request.body
    dsimp only
    rw [same]
    cases collect request.body <;> rfl

end Webfang.Mcp
