import Webfang.Llm.Extraction

/-!
# Remote embeddings

`RemoteEmbeddingAdapter` pins the dimension of its vectors once, from the answer to a probe; later bodies are
checked for the count of their vectors and for empty ones. A batch is posted up to four times, with a delay
that the server may ask for in between.
-/
namespace Webfang.Llm.RemoteEmbedding

open Library

/-! ### Delays -/

def maxAttempts : Nat := 4

def backoffBaseMs : Nat := 1000

def backoffMaxMs : Nat := 10000

def retryAfterMaxMs : Nat := 60000

/-- A `Duration`, in nanoseconds. -/
abbrev Duration := Nat

def ofMillis (ms : Nat) : Duration := ms * 1000000

def asMillis (delay : Duration) : Nat := delay / 1000000

def backoffDelayMs (attempt : Nat) (retryAfter : Option Duration) : Nat :=
  let exponential := min (backoffBaseMs * (2 ^ (attempt - 1) % 2 ^ 64)) backoffMaxMs
  match retryAfter with
  | some delay => if delay ≠ 0 then max exponential (min (asMillis delay) retryAfterMaxMs) else exponential
  | none => exponential

def clampRetryAfter (requested : Duration) : Duration := min requested (ofMillis retryAfterMaxMs)

/-- Instants are nanoseconds since the epoch; the parser of dates is a parameter. -/
def retryAfterDelay (parseFromRfc2822 : String → Option Int) (header : Option String) (now : Int) :
    Option Duration :=
  header.bind fun header =>
    let raw := Text.trim header
    if raw = "" then none
    else
      match Text.parseUsize raw with
      | some secs => some (clampRetryAfter (ofMillis (secs * 1000)))
      | none =>
        (parseFromRfc2822 raw).map fun target =>
          if target ≤ now then 0 else clampRetryAfter (target - now).toNat

theorem backoffDelayMs_le (attempt : Nat) (retryAfter : Option Duration) :
    backoffDelayMs attempt retryAfter ≤ retryAfterMaxMs := by
  have exponential : min (backoffBaseMs * (2 ^ (attempt - 1) % 2 ^ 64)) backoffMaxMs ≤ retryAfterMaxMs :=
    (Nat.min_le_right ..).trans (by decide)
  cases retryAfter with
  | none => exact exponential
  | some delay =>
    rw [backoffDelayMs]
    split
    · exact max_le exponential (Nat.min_le_right ..)
    · exact exponential

/-! ### Bodies -/

section Adapter

variable {F32 : Type}

structure EmbeddingUsage where
  promptTokens : UInt32
  totalTokens : UInt32

structure EmbeddingResponse (F32 : Type) where
  data : List (List F32)
  usage : Option EmbeddingUsage

structure EmbeddingCrates (F32 : Type) where
  fromStr : String → Except String (EmbeddingResponse F32)
  parseFromRfc2822 : String → Option Int

structure ParsedEmbeddingBody (F32 : Type) where
  vectors : List (List F32)
  usage : Option EmbeddingUsage

def parseEmbeddingBody (crates : EmbeddingCrates F32) (body : String) (expectedInputs : Nat) :
    Except SemanticError (ParsedEmbeddingBody F32) :=
  match crates.fromStr body with
  | .error e => .error (.inference ("el endpoint de embeddings devolvió un cuerpo inválido: " ++ e))
  | .ok parsed =>
    if parsed.data = [] then .error (.inference "el endpoint de embeddings devolvió `data` vacío")
    else if parsed.data.length ≠ expectedInputs then
      .error (.inference ("el endpoint de embeddings devolvió " ++ toString parsed.data.length ++
        " vectores para " ++ toString expectedInputs ++ " textos"))
    else if parsed.data.any List.isEmpty then
      .error (.inference "el endpoint de embeddings devolvió un vector vacío")
    else .ok ⟨parsed.data, parsed.usage⟩

theorem parseEmbeddingBody_length {crates : EmbeddingCrates F32} {body : String} {expectedInputs : Nat}
    {parsed : ParsedEmbeddingBody F32}
    (accepted : parseEmbeddingBody crates body expectedInputs = .ok parsed) :
    parsed.vectors.length = expectedInputs := by
  rw [parseEmbeddingBody] at accepted
  split at accepted
  next => cases accepted
  next decoded _ =>
    by_cases none : decoded.data = []
    · rw [if_pos none] at accepted
      cases accepted
    · by_cases other : decoded.data.length ≠ expectedInputs
      · rw [if_neg none, if_pos other] at accepted
        cases accepted
      · rw [if_neg none, if_neg other] at accepted
        split at accepted
        · cases accepted
        · cases accepted
          exact not_not.mp other

/-! ### Answers -/

inductive BodyRead where
  | tooLarge
  | failed (timedOut : Bool) (display : String)
  | text (body : String)
  deriving DecidableEq, Repr

structure Response where
  status : UInt16
  /-- The header `retry-after`, where it is text. -/
  retryAfter : Option String
  /-- The time at which the answer is looked at. -/
  now : Int
  body : BodyRead
  deriving DecidableEq, Repr

inductive Answer where
  | response (response : Response)
  | timeout
  /-- Another error, with its chain of sources. -/
  | failed (chain : String)
  deriving DecidableEq, Repr

def Response.isSuccess (response : Response) : Bool :=
  200 ≤ response.status.toNat && response.status.toNat < 300

/-- A status 429 or 5xx. -/
def Response.isTransient (response : Response) : Bool :=
  response.status.toNat == 429 || (500 ≤ response.status.toNat && response.status.toNat ≤ 599)

theorem Response.isTransient_of_isSuccess {response : Response} (success : response.isSuccess = true) :
    response.isTransient = false := by
  simp only [Response.isSuccess, Bool.and_eq_true, decide_eq_true_eq] at success
  simp only [Response.isTransient, Bool.or_eq_false_iff, Bool.and_eq_false_iff, beq_eq_false_iff_ne,
    decide_eq_false_iff_not]
  omega

structure RemoteEmbeddingAdapter where
  providerId : String
  authSource : String
  apiKey : Option String
  pinnedDim : Option Nat
  dim : Option Nat
  usagePromptTokens : UInt64
  usageTotalTokens : UInt64
  usageRequestCount : UInt64

variable (crates : EmbeddingCrates F32) (adapter : RemoteEmbeddingAdapter)

def embeddingDim : Nat := (adapter.dim.or adapter.pinnedDim).getD 0

def lastStatusError (providerId : String) (status : UInt16) : SemanticError :=
  .inference ("el endpoint de embeddings '" ++ providerId ++ "' devolvió el estado " ++ toString status)

def unauthorizedError (status : UInt16) : SemanticError :=
  match adapter.apiKey with
  | none =>
    .inference ("el endpoint de embeddings '" ++ adapter.providerId ++ "' devolvió " ++ toString status ++
      " a una petición sin credencial (auth source '" ++ adapter.authSource ++
      "'): el servidor rechazó la petición anónima")
  | some _ =>
    .inference ("el endpoint de embeddings '" ++ adapter.providerId ++ "' devolvió " ++ toString status ++
      ": rechazó la credencial configurada (auth source '" ++ adapter.authSource ++ "')")

/-- What a call comes to, and the usage it is to be charged with. -/
structure Settled (F32 : Type) where
  result : Except SemanticError (List (List F32))
  usage : Option EmbeddingUsage

def readAndParse (body : BodyRead) (expectedInputs : Nat) : Settled F32 :=
  match body with
  | .tooLarge =>
    ⟨.error (.inference ("la respuesta del endpoint de embeddings '" ++ adapter.providerId ++
      "' excede 16 MiB")), none⟩
  | .failed _ e =>
    ⟨.error (.inference ("error al leer la respuesta del endpoint de embeddings '" ++ adapter.providerId ++
      "': " ++ e)), none⟩
  | .text body =>
    match parseEmbeddingBody crates body expectedInputs with
    | .error e => ⟨.error e, none⟩
    | .ok parsed => ⟨.ok parsed.vectors, parsed.usage⟩

/-- The counters behind a body that was accepted. -/
def RemoteEmbeddingAdapter.charge (usage : Option EmbeddingUsage) : RemoteEmbeddingAdapter :=
  match usage with
  | none => adapter
  | some usage =>
    { adapter with
      usagePromptTokens := adapter.usagePromptTokens + usage.promptTokens.toUInt64
      usageTotalTokens := adapter.usageTotalTokens + usage.totalTokens.toUInt64
      usageRequestCount := adapter.usageRequestCount + 1 }

/-! ### The loop -/

inductive Reaction (F32 : Type) where
  | done (settled : Settled F32)
  /-- The error of the last attempt, and the delay before another. -/
  | retry (exhausted : SemanticError) (delay : Nat)

/-- The arms of the loop of `post_embeddings`. -/
def react (expectedInputs attempt : Nat) : Answer → Reaction F32
  | .response response =>
    if response.isSuccess then .done (readAndParse crates adapter response.body expectedInputs)
    else if response.isTransient then
      .retry (lastStatusError adapter.providerId response.status)
        (backoffDelayMs attempt (retryAfterDelay crates.parseFromRfc2822 response.retryAfter response.now))
    else if response.status = 401 then .done ⟨.error (unauthorizedError adapter response.status), none⟩
    else .done ⟨.error (lastStatusError adapter.providerId response.status), none⟩
  | .timeout =>
    .retry (.inference ("el endpoint de embeddings '" ++ adapter.providerId ++ "' agotó el tiempo de espera"))
      (backoffDelayMs attempt none)
  | .failed chain =>
    .done ⟨.error (.inference ("error de transporte contra el endpoint de embeddings '" ++
      adapter.providerId ++ "': " ++ chain)), none⟩

/-- A call, with the answer that each attempt is given. -/
structure Call where
  texts : List String
  answer : Nat → Answer

structure Report (F32 : Type) where
  settled : Settled F32
  /-- The answers to the requests that were sent. -/
  answers : List Answer
  /-- The milliseconds slept between them. -/
  sleeps : List Nat

/-- The rounds of the loop, by how many may follow this one. -/
def rounds (call : Call) : Nat → Report F32
  | 0 =>
    let answer := call.answer maxAttempts
    match react crates adapter call.texts.length maxAttempts answer with
    | .done settled => ⟨settled, [answer], []⟩
    | .retry exhausted _ => ⟨⟨.error exhausted, none⟩, [answer], []⟩
  | left + 1 =>
    let attempt := maxAttempts - (left + 1)
    let answer := call.answer attempt
    match react crates adapter call.texts.length attempt answer with
    | .done settled => ⟨settled, [answer], []⟩
    | .retry _ delay =>
      let later := rounds call left
      ⟨later.settled, answer :: later.answers, delay :: later.sleeps⟩

def postEmbeddings (call : Call) : Report F32 := rounds crates adapter call (maxAttempts - 1)

def embedBatch (call : Call) : Report F32 :=
  if call.texts = [] then ⟨⟨.ok [], none⟩, [], []⟩ else postEmbeddings crates adapter call

/-- `probe_dim`, and the adapter behind it. -/
def probeDim (answer : Nat → Answer) : Except SemanticError Nat × RemoteEmbeddingAdapter :=
  let report := postEmbeddings crates adapter ⟨["probe"], answer⟩
  let charged := adapter.charge report.settled.usage
  match report.settled.result with
  | .error e => (.error e, charged)
  | .ok vectors =>
    let actual := (vectors.head?.map List.length).getD 0
    match adapter.pinnedDim with
    | some pinned =>
      if actual ≠ pinned then
        (.error (.inference ("dimensión declarada " ++ toString pinned ++ " != remota " ++ toString actual ++
          " para provider '" ++ adapter.providerId ++ "'")), charged)
      else (.ok actual, { charged with dim := charged.dim.or (some actual) })
    | none => (.ok actual, { charged with dim := charged.dim.or (some actual) })

/-- A call on the adapter as it stood then. -/
structure Exchange (F32 : Type) where
  adapter : RemoteEmbeddingAdapter
  call : Call
  report : Report F32

/-- Calls one after the other. -/
def serve (adapter : RemoteEmbeddingAdapter) : List Call → List (Exchange F32)
  | [] => []
  | call :: calls =>
    let report := embedBatch crates adapter call
    ⟨adapter, call, report⟩ :: serve (adapter.charge report.settled.usage) calls

/-! ### One call -/

/-- The answer asks for another attempt. -/
def Answer.retried : Answer → Bool
  | .response reply => reply.isTransient
  | .timeout => true
  | .failed _ => false

/-- The body of a 2xx answer, where it passes the checks. -/
def Response.accepted (expectedInputs : Nat) (response : Response) : Option (ParsedEmbeddingBody F32) :=
  if response.isSuccess then
    match response.body with
    | .text body => (parseEmbeddingBody crates body expectedInputs).toOption
    | _ => none
  else none

def Answer.accepted (expectedInputs : Nat) : Answer → Option (ParsedEmbeddingBody F32)
  | .response reply => reply.accepted crates expectedInputs
  | _ => none

/-- A 2xx answer whose body does not arrive in time. -/
def Answer.BreaksOff (answer : Answer) : Prop :=
  ∃ response e, answer = .response response ∧ response.isSuccess = true ∧ response.body = .failed true e

/-- A 429, a 5xx or a time-out. -/
def Answer.Transient (answer : Answer) : Prop := answer.retried = true ∨ answer.BreaksOff

/-- All attempts before this one are repeated. -/
structure Call.Reached (call : Call) (attempt : Nat) : Prop where
  one_le : 1 ≤ attempt
  le : attempt ≤ maxAttempts
  retried : ∀ earlier, 1 ≤ earlier → earlier < attempt → (call.answer earlier).retried = true

/-- The attempt at which the rounds from `first` on end, and what they report. -/
structure Ends (call : Call) (first last : Nat) (report : Report F32) : Prop where
  first_le : first ≤ last
  le : last ≤ maxAttempts
  retried : ∀ attempt, first ≤ attempt → attempt < last → (call.answer attempt).retried = true
  finished : (call.answer last).retried = true → last = maxAttempts
  answers : report.answers = (List.range' first (last + 1 - first)).map call.answer
  sleeps : ∀ ms ∈ report.sleeps, ms ≤ retryAfterMaxMs
  result : ∀ vectors, report.settled.result = .ok vectors ↔
    ∃ parsed, (call.answer last).accepted crates call.texts.length = some parsed ∧ parsed.vectors = vectors

variable {crates adapter}

theorem accepted_of_retried {answer : Answer} {n : Nat} (retried : answer.retried = true) :
    answer.accepted crates n = none := by
  cases answer with
  | timeout => rfl
  | failed chain => rfl
  | response response =>
    refine if_neg fun success => ?_
    rw [Answer.retried, Response.isTransient_of_isSuccess success] at retried
    cases retried

variable (crates adapter) in
theorem react_of_retried (n attempt : Nat) {answer : Answer} (retried : answer.retried = true) :
    ∃ exhausted delay, react crates adapter n attempt answer = .retry exhausted delay ∧
      delay ≤ retryAfterMaxMs := by
  cases answer with
  | failed chain => cases retried
  | timeout => exact ⟨_, _, rfl, backoffDelayMs_le ..⟩
  | response response =>
    rw [Answer.retried] at retried
    have other : response.isSuccess ≠ true := fun success => by
      rw [Response.isTransient_of_isSuccess success] at retried
      cases retried
    rw [react, if_neg other, if_pos retried]
    exact ⟨_, _, rfl, backoffDelayMs_le ..⟩

theorem readAndParse_ok_iff {body : BodyRead} {n : Nat} {vectors : List (List F32)} :
    (readAndParse crates adapter body n).result = .ok vectors ↔
      ∃ text parsed, body = .text text ∧ parseEmbeddingBody crates text n = .ok parsed ∧
        parsed.vectors = vectors := by
  cases body with
  | tooLarge => simp [readAndParse]
  | failed timedOut e => simp [readAndParse]
  | text text =>
    rw [readAndParse]
    cases found : parseEmbeddingBody crates text n with
    | error e => simp [found]
    | ok parsed => simp [found]

variable (crates adapter) in
theorem react_of_not_retried (n attempt : Nat) {answer : Answer} (last : answer.retried = false) :
    ∃ settled, react crates adapter n attempt answer = .done settled ∧ ∀ vectors,
      settled.result = .ok vectors ↔
      ∃ parsed, answer.accepted crates n = some parsed ∧ parsed.vectors = vectors := by
  cases answer with
  | timeout => cases last
  | failed chain => exact ⟨_, rfl, by simp [Answer.accepted]⟩
  | response response =>
    by_cases success : response.isSuccess = true
    · rw [react, if_pos success]
      refine ⟨_, rfl, fun vectors => ?_⟩
      rw [readAndParse_ok_iff, Answer.accepted, Response.accepted, if_pos success]
      cases response.body with
      | text text => cases found : parseEmbeddingBody crates text n <;> simp [found, Except.toOption]
      | tooLarge => simp
      | failed timedOut e => simp
    · rw [Answer.retried] at last
      rw [react, if_neg success, if_neg (by simp [last]), Answer.accepted, Response.accepted, if_neg success]
      split
      · exact ⟨_, rfl, by simp⟩
      · exact ⟨_, rfl, by simp⟩

variable (crates adapter) in
/-- The rounds end at the first answer that is not to be repeated, or at the fourth. -/
theorem rounds_ends (call : Call) {left : Nat} (bounded : left < maxAttempts) :
    ∃ last, Ends crates call (maxAttempts - left) last (rounds crates adapter call left) := by
  -- on the rounds that are left; none is left on the fourth attempt
  induction left with
  | zero =>
    have early : ∀ attempt, maxAttempts - 0 ≤ attempt → attempt < maxAttempts →
        (call.answer attempt).retried = true := fun attempt low high => absurd low (by omega)
    rw [rounds]
    cases again : (call.answer maxAttempts).retried with
    | true =>
      obtain ⟨exhausted, delay, reaction, -⟩ :=
        react_of_retried crates adapter call.texts.length maxAttempts again
      simp only [reaction]
      exact ⟨maxAttempts, le_rfl, le_rfl, early, fun _ => rfl, rfl, by simp,
        by simp [accepted_of_retried again]⟩
    | false =>
      obtain ⟨settled, reaction, result⟩ :=
        react_of_not_retried crates adapter call.texts.length maxAttempts again
      simp only [reaction]
      exact ⟨maxAttempts, le_rfl, le_rfl, early, fun _ => rfl, rfl, by simp, result⟩
  | succ left ih =>
    rw [rounds]
    have next : maxAttempts - (left + 1) + 1 = maxAttempts - left := by omega
    cases again : (call.answer (maxAttempts - (left + 1))).retried with
    | true =>
      obtain ⟨exhausted, delay, reaction, short⟩ :=
        react_of_retried crates adapter call.texts.length (maxAttempts - (left + 1)) again
      -- this answer and its sleep come in front of those of the later rounds
      obtain ⟨last, later⟩ := ih (by omega)
      have after := later.first_le
      simp only [reaction]
      refine ⟨last, by omega, later.le, fun attempt low high => ?_, later.finished, ?_, ?_, later.result⟩
      · rcases Nat.eq_or_lt_of_le low with rfl | low
        · exact again
        · exact later.retried attempt (by omega) high
      · have more : last + 1 - (maxAttempts - (left + 1)) = last + 1 - (maxAttempts - left) + 1 := by omega
        rw [later.answers, more, List.range'_succ, List.map_cons, next]
      · exact List.forall_mem_cons.mpr ⟨short, later.sleeps⟩
    | false =>
      obtain ⟨settled, reaction, result⟩ :=
        react_of_not_retried crates adapter call.texts.length (maxAttempts - (left + 1)) again
      simp only [reaction]
      refine ⟨maxAttempts - (left + 1), le_rfl, Nat.sub_le ..,
        fun attempt low high => absurd low (by omega), ?_, ?_, by simp, result⟩
      · intro repeated
        rw [again] at repeated
        cases repeated
      · rw [Nat.add_sub_cancel_left]
        rfl

/-! ### Runs of calls -/

section Runs

variable (crates)

/-- What is promised of a call: one vector for each text, in the order of the body and of the pinned dimension;
four requests at most, with short delays; and no failure on a 429, a 5xx or a time-out before the fourth. -/
structure Exchange.Meets (exchange : Exchange F32) : Prop where
  count : ∀ vectors, exchange.report.settled.result = .ok vectors →
    vectors.length = exchange.call.texts.length
  ordered : ∀ vectors, exchange.report.settled.result = .ok vectors → exchange.call.texts ≠ [] →
    ∃ answer parsed, exchange.report.answers.getLast? = some answer ∧
      answer.accepted crates exchange.call.texts.length = some parsed ∧ parsed.vectors = vectors
  dimension : ∀ vectors, exchange.report.settled.result = .ok vectors →
    ∀ vector ∈ vectors, vector.length = embeddingDim exchange.adapter
  requests : exchange.report.answers.length ≤ 4
  sleeps : ∀ ms ∈ exchange.report.sleeps, ms ≤ 60000
  exhausted : ∀ e answer, exchange.report.settled.result = .error e →
    exchange.report.answers.getLast? = some answer →
    answer.Transient → exchange.report.answers.length = 4

/-- Each body that the call may be decided by has vectors of this dimension only, and arrives in time before the
fourth attempt. -/
def Call.Uniform (dim : Nat) (call : Call) : Prop :=
  call.texts ≠ [] → ∀ attempt, call.Reached attempt →
    ((call.answer attempt).BreaksOff → attempt = maxAttempts) ∧
    ∀ parsed, (call.answer attempt).accepted crates call.texts.length = some parsed →
      ∀ vector ∈ parsed.vectors, vector.length = dim

end Runs

theorem retried_of_breaksOff {answer : Answer} (off : answer.BreaksOff) : answer.retried = false := by
  obtain ⟨response, e, rfl, success, -⟩ := off
  exact Response.isTransient_of_isSuccess success

theorem accepted_of_breaksOff {answer : Answer} {n : Nat} (off : answer.BreaksOff) :
    answer.accepted crates n = none := by
  obtain ⟨response, e, rfl, success, body⟩ := off
  rw [Answer.accepted, Response.accepted, if_pos success, body]

theorem accepted_length {answer : Answer} {n : Nat} {parsed : ParsedEmbeddingBody F32}
    (accepted : answer.accepted crates n = some parsed) : parsed.vectors.length = n := by
  cases answer with
  | timeout => cases accepted
  | failed chain => cases accepted
  | response response =>
    rw [Answer.accepted, Response.accepted] at accepted
    split at accepted
    · split at accepted
      · next text _ =>
        cases found : parseEmbeddingBody crates text n with
        | error e =>
          rw [found] at accepted
          cases accepted
        | ok body =>
          rw [found] at accepted
          cases accepted
          exact parseEmbeddingBody_length found
      · cases accepted
    · cases accepted

section Ended

variable {call : Call} {last : Nat} {report : Report F32} (ends : Ends crates call 1 last report)
include ends

theorem Ends.length_answers : report.answers.length = last := by
  rw [ends.answers, List.length_map, List.length_range', Nat.add_sub_cancel]

theorem Ends.getLast?_answers : report.answers.getLast? = some (call.answer last) := by
  have one := ends.first_le
  rw [ends.answers, Nat.add_sub_cancel, List.getLast?_map, List.getLast?_range', if_neg (by omega)]
  rw [Option.map_some, Nat.add_sub_cancel_left]

theorem Ends.reached : call.Reached last := ⟨ends.first_le, ends.le, ends.retried⟩

/-- What is reached before the end is repeated. -/
theorem Ends.retried_of_reached {attempt : Nat} (reached : call.Reached attempt) :
    attempt = last ∨ (call.answer attempt).retried = true := by
  rcases Nat.lt_trichotomy attempt last with before | same | behind
  · exact .inr (ends.retried attempt reached.one_le before)
  · exact .inl same
  · have final := ends.finished (reached.retried last ends.first_le behind)
    have low := reached.le
    omega

end Ended

theorem embeddingDim_charge (usage : Option EmbeddingUsage) :
    embeddingDim (adapter.charge usage) = embeddingDim adapter := by
  cases usage <;> rfl

theorem meets_iff (call : Call) :
    Exchange.Meets crates ⟨adapter, call, embedBatch crates adapter call⟩ ↔
      call.Uniform crates (embeddingDim adapter) := by
  by_cases none : call.texts = []
  · rw [embedBatch, if_pos none]
    refine iff_of_true ⟨?_, ?_, ?_, ?_, ?_, ?_⟩ fun some => absurd none some
    · rintro _ ⟨⟩
      exact (List.length_eq_zero_iff.mpr none).symm
    · exact fun _ _ some => absurd none some
    · rintro _ ⟨⟩
      simp
    all_goals simp
  · rw [embedBatch, if_neg none]
    have one : maxAttempts - 1 < maxAttempts := by decide
    obtain ⟨last, ends⟩ := rounds_ends crates adapter call one
    change Ends crates call 1 last (postEmbeddings crates adapter call) at ends
    constructor
    · intro meets _ attempt reached
      rcases ends.retried_of_reached reached with rfl | retried
      -- only the last answer may break off or have vectors; those before it are repeated
      · constructor
        · intro off
          have failed : ∃ e, (postEmbeddings crates adapter call).settled.result = .error e := by
            cases result : (postEmbeddings crates adapter call).settled.result with
            | error e => exact ⟨e, rfl⟩
            | ok vectors =>
              obtain ⟨parsed, accepted, -⟩ := (ends.result vectors).mp result
              rw [accepted_of_breaksOff off] at accepted
              cases accepted
          obtain ⟨e, failed⟩ := failed
          have four := meets.exhausted e _ failed ends.getLast?_answers (.inr off)
          rwa [ends.length_answers] at four
        · intro parsed accepted
          exact meets.dimension parsed.vectors ((ends.result _).mpr ⟨parsed, accepted, rfl⟩)
      · refine ⟨fun off => ?_, fun parsed accepted => ?_⟩
        · rw [retried_of_breaksOff off] at retried
          cases retried
        · rw [accepted_of_retried retried] at accepted
          cases accepted
    -- the condition is asked of the last answer alone
    · intro uniform
      have deciding := uniform none last ends.reached
      refine ⟨?_, ?_, ?_, ?_, ends.sleeps, ?_⟩
      · intro vectors result
        obtain ⟨parsed, accepted, rfl⟩ := (ends.result vectors).mp result
        exact accepted_length accepted
      · intro vectors result _
        obtain ⟨parsed, accepted, same⟩ := (ends.result vectors).mp result
        exact ⟨_, parsed, ends.getLast?_answers, accepted, same⟩
      · intro vectors result
        obtain ⟨parsed, accepted, rfl⟩ := (ends.result vectors).mp result
        exact deciding.2 parsed accepted
      · exact (ends.length_answers).trans_le ends.le
      · intro e answer _ final transient
        rw [ends.length_answers]
        obtain rfl : call.answer last = answer := Option.some.inj (ends.getLast?_answers.symm.trans final)
        rcases transient with retried | off
        · exact ends.finished retried
        · exact deciding.1 off

theorem serve_meets_iff {dim : Nat} (pinned : embeddingDim adapter = dim) (calls : List Call) :
    (∀ exchange ∈ serve crates adapter calls, exchange.Meets crates) ↔
      ∀ call ∈ calls, call.Uniform crates dim := by
  induction calls generalizing adapter with
  | nil => simp [serve]
  | cons call calls ih =>
    rw [serve, List.forall_mem_cons, List.forall_mem_cons, meets_iff,
      ih ((embeddingDim_charge _).trans pinned), pinned]

theorem embeddingDim_probeDim {startup : Nat → Answer} {dim : Nat} (cold : adapter.dim = none)
    (probed : (probeDim crates adapter startup).1 = .ok dim) :
    embeddingDim (probeDim crates adapter startup).2 = dim := by
  have still : ∀ usage, (adapter.charge usage).dim = none := fun usage => by cases usage <;> exact cold
  rw [probeDim] at probed ⊢
  cases result : (postEmbeddings crates adapter ⟨["probe"], startup⟩).settled.result with
  | error e =>
    simp only [result] at probed
    cases probed
  | ok vectors =>
    cases pin : adapter.pinnedDim with
    | none =>
      simp only [result, pin] at probed ⊢
      cases probed
      simp [embeddingDim, still]
    | some pinned =>
      by_cases other : (vectors.head?.map List.length).getD 0 ≠ pinned
      · simp only [result, pin, if_pos other] at probed
        cases probed
      · simp only [result, pin, if_neg other] at probed ⊢
        cases probed
        simp [embeddingDim, still]

/-- Behind a probe all calls meet what is promised exactly when each body that decides one has vectors of the
probed dimension only, and none that arrives before the fourth attempt breaks off. -/
theorem probed_meets_iff {startup : Nat → Answer} {dim : Nat} (cold : adapter.dim = none)
    (probed : (probeDim crates adapter startup).1 = .ok dim) (calls : List Call) :
    (∀ exchange ∈ serve crates (probeDim crates adapter startup).2 calls, exchange.Meets crates) ↔
      ∀ call ∈ calls, call.Uniform crates dim :=
  serve_meets_iff (embeddingDim_probeDim cold probed) calls

end Adapter

/-! An adapter whose probe was answered with three dimensions. -/

namespace ThreeDimensions

def three : String := "\x7b\"data\":[\x7b\"embedding\":[1,2,3]\x7d]\x7d"

def two : String := "\x7b\"data\":[\x7b\"embedding\":[1,2]\x7d],\"usage\":\x7b\"prompt_tokens\":4\x7d\x7d"

/-- The bodies that are sent here. No header is a date. -/
def crates : EmbeddingCrates Int where
  fromStr text :=
    if text = three then .ok ⟨[[1, 2, 3]], none⟩
    else if text = two then .ok ⟨[[1, 2]], some ⟨4, 0⟩⟩
    else .error "expected value at line 1 column 1"
  parseFromRfc2822 _ := none

def answered (text : String) : Answer := .response ⟨200, none, 0, .text text⟩

def busy : Answer := .response ⟨429, some "120", 0, .text ""⟩

/-- A body that stops arriving. -/
def stalled : Answer := .response ⟨200, none, 0, .failed true "Request Error: operation timed out"⟩

def adapter : RemoteEmbeddingAdapter := ⟨"local", "none", none, none, none, 0, 0, 0⟩

def startup : Nat → Answer := fun _ => answered three

def served : RemoteEmbeddingAdapter := (probeDim crates adapter startup).2

/-- A vector of two dimensions is returned, and a body that stalls is the end of the first attempt. -/
theorem shorter_vector_returned : (probeDim crates adapter startup).1 = .ok 3 ∧
      ((embedBatch crates served ⟨["a"], fun _ => answered two⟩).settled.result = .ok [[1, 2]] ∧
        embeddingDim served = 3) ∧
      ((embedBatch crates served ⟨["a"], fun _ => stalled⟩).answers = [stalled] ∧
        (embedBatch crates served ⟨["a"], fun _ => stalled⟩).settled.result =
          .error (.inference
            "error al leer la respuesta del endpoint de embeddings 'local': Request Error: operation timed out")) := by
  refine ⟨rfl, ⟨rfl, rfl⟩, ?_⟩
  decide

/-- The second attempt is answered, behind a header that asks for two minutes. -/
def busyOnce : Call := ⟨["a"], fun attempt => if attempt = 1 then busy else answered three⟩

theorem busyOnce_uniform : busyOnce.Uniform crates 3 := by
  intro _ attempt _
  by_cases first : attempt = 1
  · have reply : busyOnce.answer attempt = busy := if_pos first
    rw [reply]
    refine ⟨?_, fun parsed accepted => ?_⟩
    · rintro ⟨response, e, same, success, -⟩
      cases same
      cases success
    · cases accepted
  · have reply : busyOnce.answer attempt = answered three := if_neg first
    rw [reply]
    refine ⟨?_, fun parsed accepted => ?_⟩
    · rintro ⟨response, e, same, -, off⟩
      cases same
      cases off
    · cases accepted
      simp

theorem busyOnce_meets :
    adapter.dim = none ∧ (probeDim crates adapter startup).1 = .ok 3 ∧
      ∀ exchange ∈ serve crates (probeDim crates adapter startup).2 [busyOnce], exchange.Meets crates :=
  ⟨rfl, rfl, (probed_meets_iff rfl rfl [busyOnce]).mpr (by simpa using busyOnce_uniform)⟩

end ThreeDimensions

end Webfang.Llm.RemoteEmbedding
