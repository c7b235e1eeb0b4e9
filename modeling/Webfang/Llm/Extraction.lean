import Webfang.Crawler.RobotsCache
import Webfang.Domain.ScrapedContent
import Webfang.Llm.SchemaMeaning

/-!
# LLM extraction

`LlmExtractionService::extract` of `application/llm_extraction.rs`: the gates, the fetch, one
completion for each sub-chunk, the merged records and their validation. The records of a result
conform to the schema exactly where the elements of their arrays do.
-/
namespace Webfang.Llm

open Library Domain Network Crawler

/-! ### The ports -/

inductive HttpError where
  | forbidden
  | rateLimited (retryAfter : UInt64)
  | clientError (code : UInt16)
  | serverError (code : UInt16)
  | timeout
  | connection (msg : String)
  | request (msg : String)
  | wafChallenge (provider : String)
  | domainBanned (domain : String)
  | bodyTooLarge (limit : UInt64)
  deriving DecidableEq, Repr

inductive SemanticError where
  | tokenize (msg : String)
  | inference (msg : String)
  | chunkTooLarge (chunkId : String) (chars max : Nat)
  deriving DecidableEq, Repr

inductive NetworkError where
  | forbidden (rejection : ForbiddenLiteral)
  | timedOut (msg : String)
  | connectionReset (msg : String)
  | other (msg : String)
  deriving DecidableEq, Repr

inductive ScraperError where
  | http (status : UInt16) (url : String)
  | network (source : NetworkError)
  | extraction (msg : String)
  | config (msg : String)
  | wafBlocked (url provider : String)
  | validation (msg : String)
  | semantic (source : SemanticError)
  | internal (msg : String)
  | rateLimited (retryAfter : UInt64)
  deriving DecidableEq, Repr

/-- A parsed URL, by the parts of it that are read. -/
structure Url where
  text : String
  scheme : String
  hostStr : Option String
  deriving DecidableEq, Repr

structure HttpResponse where
  status : UInt16
  body : String

structure ChatMessage where
  role : String
  content : String
  deriving DecidableEq, Repr

structure LlmRequest where
  messages : List ChatMessage
  model : String
  maxTokens : Nat
  deriving DecidableEq, Repr

structure LlmResponse where
  content : String
  inputTokens : UInt32
  outputTokens : UInt32
  deriving DecidableEq, Repr

/-- `serde_json` on texts; a failed parse gives its message. -/
structure SerdeJson where
  fromStr : String → Except String Json
  render : Json → String

/-- The language model answers by the number of calls it has answered before. -/
structure LlmExtractionService where
  http : String → Except HttpError HttpResponse
  cleaner : (url html : String) → Except SemanticError (List DocumentChunk)
  chunker : String → Except SemanticError (List String)
  robots : Option ((url domain : String) → RobotsDecision)
  llmPort : Option (Nat → LlmRequest → Except ScraperError LlmResponse)

structure LlmConfig where
  baseUrl : Url
  maxTokens : Nat

structure LlmExtraction where
  url : String
  model : String
  records : List Json
  chunks : Nat
  inputTokens : UInt32
  outputTokens : UInt32

/-! ### The gates -/

/-- `scraper_error_from_http`, through the crawl error it passes. -/
def scraperErrorFromHttp (url : String) : HttpError → ScraperError
  | .clientError code | .serverError code => .http code url
  | .forbidden => .http 403 url
  | .rateLimited retryAfter => .rateLimited retryAfter
  | .timeout => .network (.timedOut "request timeout")
  | .connection msg => .network (.connectionReset msg)
  | .request msg => .internal msg
  | .wafChallenge provider => .wafBlocked url provider
  | .domainBanned domain => .internal ("session pool: domain banned: " ++ domain)
  | .bodyTooLarge limit =>
    .internal ("response body exceeded the limit of " ++ toString limit ++ " bytes")

def ssrfGate (url : Url) : Except ScraperError Unit :=
  if url.scheme ≠ "http" ∧ url.scheme ≠ "https" then
    .error (.config ("esquema '" ++ url.scheme ++ "' no permitido para el LLM (solo http/https)"))
  else
    match url.hostStr with
    | none => .error (.config "el URL del LLM no tiene host")
    | some host =>
      if isForbiddenLiteralHost host then
        .error (.config ("URL del LLM bloqueada por SSRF: el host '" ++ host ++
          "' pertenece a una red interna (#703)"))
      else .ok ()

def enforceRobotsPolicy (url : Url) (robots : Option (String → String → RobotsDecision))
    (ignoreRobots : Bool) : Except ScraperError Unit :=
  if ignoreRobots then .ok ()
  else
    match robots with
    | none => .ok ()
    | some isAllowed =>
      match isAllowed url.text (url.hostStr.getD "unknown") with
      | .allowed => .ok ()
      | .rulesDenied => .error (.wafBlocked url.text "robots.txt")
      | .policyRefused forbidden => .error (.network (.forbidden forbidden))

def charsPerToken : Nat := 8

def saturatingMul (a b : Nat) : Nat := min (a * b) (2 ^ 64 - 1)

namespace LlmExtractionService

variable (service : LlmExtractionService)

def fetchPage (url : Url) : Except ScraperError String := do
  let response ← (service.http url.text).mapError (scraperErrorFromHttp url.text)
  if response.status < 200 ∨ 300 ≤ response.status then .error (.http response.status url.text)
  else .ok response.body

/-! ### Sub-chunks -/

def subChunksOf (charBudget index : Nat) (chunk : DocumentChunk) :
    Except ScraperError (List String) := do
  let subChunks ← (service.chunker chunk.content).mapError .semantic
  if subChunks.any fun subChunk => subChunk.utf8ByteSize > charBudget then
    .error (.validation ("el fragmento " ++ toString index ++ " supera el presupuesto (" ++
      toString charBudget ++ " caracteres)"))
  else .ok subChunks

def buildSubChunks (chunks : List DocumentChunk) (charBudget : Nat) :
    Except ScraperError (List String) := do
  let subChunks ← chunks.zipIdx.mapM fun (chunk, index) =>
    service.subChunksOf charBudget index chunk
  return subChunks.flatten

/-- What `extract` asks the language model about. -/
def pageSubChunks (url : Url) (maxTokens : Nat) : Except ScraperError (List String) := do
  let html ← service.fetchPage url
  let chunks ← (service.cleaner url.text html).mapError .semantic
  service.buildSubChunks chunks (saturatingMul maxTokens charsPerToken)

end LlmExtractionService

/-! ### Completions -/

def saturatingAdd (a b : UInt32) : UInt32 := UInt32.ofNat (min (a.toNat + b.toNat) (2 ^ 32 - 1))

namespace SerdeJson

variable (serde : SerdeJson)

def buildRequest (subChunk : String) (schema : Json) (model : String) (maxTokens : Nat) :
    LlmRequest where
  messages := [
    { role := "system",
      content := "You are a data extraction engine. Extract every record that validates " ++
        "this JSON schema: " ++ serde.render schema ++ ". Respond ONLY with JSON — an object, " ++
        "or an array of objects conforming to the schema." },
    { role := "user", content := subChunk }]
  model := model
  maxTokens := maxTokens

/-- The records so far, the renderings already seen and the tokens billed. -/
structure Merged where
  records : List Json := []
  seen : List String := []
  inputTokens : UInt32 := 0
  outputTokens : UInt32 := 0

/-- First-seen dedupe by rendering. -/
def insertRecord (merged : Merged) (record : Json) : Merged :=
  if serde.render record ∈ merged.seen then merged
  else { merged with
    records := merged.records ++ [record]
    seen := serde.render record :: merged.seen }

def mergeRecords (merged : Merged) (response : LlmResponse) : Except ScraperError Merged := do
  let parsed ← (serde.fromStr response.content).mapError fun e =>
    .extraction ("la respuesta del LLM no es JSON válido: " ++ e)
  match parsed with
  | .arr items => .ok (items.foldl serde.insertRecord merged)
  | .obj fields => .ok (serde.insertRecord merged (.obj fields))
  | other =>
    .error (.extraction ("la respuesta del LLM no es un objeto ni un array JSON: " ++
      serde.render other))

/-- One turn of the completion loop. -/
def complete (sendCompletion : Nat → LlmRequest → Except ScraperError LlmResponse)
    (schema : Json) (model : String) (maxTokens : Nat) (merged : Merged) (subChunk : String × Nat) :
    Except ScraperError Merged := do
  let response ← sendCompletion subChunk.2
    (serde.buildRequest subChunk.1 schema model maxTokens)
  serde.mergeRecords
    { merged with
      inputTokens := saturatingAdd merged.inputTokens response.inputTokens
      outputTokens := saturatingAdd merged.outputTokens response.outputTokens } response

def validateRecords (records : List Json) (schema : Json) : Except ScraperError Unit :=
  records.forM fun record =>
    (validateRecord record schema).mapError fun e =>
      .validation ("la salida del LLM no cumple el esquema: " ++ e.display)

def extract (service : LlmExtractionService) (url : Url) (schema : Json) (model : String)
    (config : LlmConfig) : Except ScraperError LlmExtraction := do
  let sendCompletion ← match service.llmPort with
    | some llm => pure llm
    | none => .error (.config "no hay proveedor LLM configurado")
  (validateSchema schema).mapError fun e => .validation ("esquema inválido: " ++ e.display)
  ssrfGate config.baseUrl
  enforceRobotsPolicy url service.robots false
  let html ← service.fetchPage url
  let chunks ← (service.cleaner url.text html).mapError .semantic
  let charBudget := saturatingMul config.maxTokens charsPerToken
  let subChunks ← service.buildSubChunks chunks charBudget
  let merged ← subChunks.zipIdx.foldlM
    (serde.complete sendCompletion schema model config.maxTokens) {}
  validateRecords merged.records schema
  return {
    url := url.text
    model := model
    records := merged.records
    chunks := subChunks.length
    inputTokens := merged.inputTokens
    outputTokens := merged.outputTokens }

variable {serde : SerdeJson} {service : LlmExtractionService} {url : Url} {schema : Json}
variable {model : String} {config : LlmConfig} {extraction : LlmExtraction}

/-! ### What a result went through -/

/-- A result came through the schema gate, the completion loop and the validation. -/
theorem extract_eq_ok (found : serde.extract service url schema model config = .ok extraction) :
    validateSchema schema = .ok () ∧
      ∃ sendCompletion subChunks merged,
        service.llmPort = some sendCompletion ∧
        service.pageSubChunks url config.maxTokens = .ok subChunks ∧
        List.foldlM (serde.complete sendCompletion schema model config.maxTokens) {}
          (List.zipIdx subChunks) = .ok merged ∧
        validateRecords merged.records schema = .ok () ∧
        extraction.records = merged.records ∧ extraction.chunks = subChunks.length := by
  unfold extract at found
  cases port : service.llmPort with
  | none => simp [port, bind, Except.bind] at found
  | some sendCompletion =>
    simp only [port, pure_bind] at found
    obtain ⟨gate, found⟩ := Checks.then_eq_ok.mp found
    obtain ⟨-, found⟩ := Checks.then_eq_ok.mp found
    obtain ⟨-, found⟩ := Checks.then_eq_ok.mp found
    obtain ⟨html, fetched, found⟩ := Checks.bind_eq_ok.mp found
    obtain ⟨chunks, cleaned, found⟩ := Checks.bind_eq_ok.mp found
    obtain ⟨subChunks, built, found⟩ := Checks.bind_eq_ok.mp found
    obtain ⟨merged, loop, found⟩ := Checks.bind_eq_ok.mp found
    obtain ⟨valid, found⟩ := Checks.then_eq_ok.mp found
    cases found
    have asked : service.pageSubChunks url config.maxTokens = .ok subChunks :=
      Checks.bind_eq_ok.mpr ⟨html, fetched, Checks.bind_eq_ok.mpr ⟨chunks, cleaned, built⟩⟩
    exact ⟨Checks.mapError_eq_ok.mp gate, sendCompletion, subChunks, merged, rfl, asked, loop,
      valid, rfl, rfl⟩

theorem validateRecords_eq_ok {records : List Json} :
    validateRecords records schema = .ok () ↔
      ∀ record ∈ records, validateRecord record schema = .ok () := by
  unfold validateRecords
  rw [Checks.forM_eq_ok]
  simp only [Checks.mapError_eq_ok]

/-- Every record of a result passed `validate_record`. -/
theorem extract_validated (found : serde.extract service url schema model config = .ok extraction)
    {record : Json} (member : record ∈ extraction.records) :
    validateRecord record schema = .ok () := by
  obtain ⟨-, _, _, merged, -, -, -, valid, records, -⟩ := extract_eq_ok found
  exact validateRecords_eq_ok.mp valid record (records ▸ member)

/-! ### The answers behind the records -/

variable (serde) in
/-- The records of an answer; one of another kind ends the run. -/
def recordsOf (response : LlmResponse) : List Json :=
  match serde.fromStr response.content with
  | .ok (.arr items) => items
  | .ok (.obj fields) => [.obj fields]
  | _ => []

variable (serde) in
def answers (llm : Nat → LlmRequest → Except ScraperError LlmResponse) (schema : Json)
    (model : String) (maxTokens : Nat) (subChunks : List (String × Nat)) : List Json :=
  subChunks.flatMap fun subChunk =>
    ((llm subChunk.2 (serde.buildRequest subChunk.1 schema model maxTokens)).toOption.map
      serde.recordsOf).getD []

/-- The tokens play no part in the merge. -/
theorem batch_tokens (batch : List Json) (merged : Merged) (input output : UInt32) :
    batch.foldl serde.insertRecord
        { merged with inputTokens := input, outputTokens := output } =
      { batch.foldl serde.insertRecord merged with
        inputTokens := input, outputTokens := output } := by
  induction batch generalizing merged with
  | nil => rfl
  | cons record batch ih =>
    rw [List.foldl_cons, List.foldl_cons, ← ih]
    congr 1
    unfold insertRecord
    split <;> rfl

theorem mergeRecords_batch {merged next : Merged} {response : LlmResponse}
    (taken : serde.mergeRecords merged response = .ok next) :
    next = (serde.recordsOf response).foldl serde.insertRecord merged := by
  obtain ⟨parsed, read, taken⟩ := Checks.bind_eq_ok.mp taken
  rw [recordsOf, Checks.mapError_eq_ok.mp read]
  split at taken <;> cases taken <;> rfl

/-- The loop merges the answers to its sub-chunks, one after the other. -/
theorem loop_answers {llm : Nat → LlmRequest → Except ScraperError LlmResponse} {maxTokens : Nat}
    {subChunks : List (String × Nat)} {merged last : Merged}
    (loop : subChunks.foldlM (serde.complete llm schema model maxTokens) merged = .ok last) :
    last.records =
      ((serde.answers llm schema model maxTokens subChunks).foldl serde.insertRecord merged).records := by
  induction subChunks generalizing merged with
  | nil =>
    cases loop
    rfl
  | cons subChunk subChunks ih =>
    rw [List.foldlM_cons, Checks.bind_eq_ok] at loop
    obtain ⟨next, turn, loop⟩ := loop
    obtain ⟨response, answered, taken⟩ := Checks.bind_eq_ok.mp turn
    -- the tokens are counted before the merge, which leaves them alone
    have merge := mergeRecords_batch taken
    rw [batch_tokens] at merge
    have front : serde.answers llm schema model maxTokens (subChunk :: subChunks) =
        serde.recordsOf response ++ serde.answers llm schema model maxTokens subChunks := by
      rw [answers, List.flatMap_cons, answered]
      rfl
    rw [ih loop, merge, batch_tokens, front, List.foldl_append]

variable (serde) in
/-- No record in front of this one is rendered like it. -/
def FirstOfText (records : List Json) (record : Json) : Prop :=
  records.find? (fun other => serde.render other = serde.render record) = some record

/-- A merge adds the first record of each text that was not seen. -/
theorem mem_batch (record : Json) (batch : List Json) (merged : Merged) :
    record ∈ (batch.foldl serde.insertRecord merged).records ↔
      record ∈ merged.records ∨ serde.render record ∉ merged.seen ∧ serde.FirstOfText batch record := by
  induction batch generalizing merged with
  | nil => simp [FirstOfText]
  | cons first batch ih =>
    rw [List.foldl_cons, ih, FirstOfText, FirstOfText, List.find?_cons]
    -- a record that is rendered like the first one stands or falls with it
    by_cases same : serde.render first = serde.render record
    · by_cases seen : serde.render record ∈ merged.seen
      · simp [insertRecord, same, seen]
      · simp [insertRecord, same, seen, eq_comm]
    · have other : record ≠ first := fun equal => same (equal ▸ rfl)
      by_cases seen : serde.render first ∈ merged.seen
      · simp [insertRecord, seen, same]
      · simp [insertRecord, seen, same, other, Ne.symm same]

theorem mem_records_iff (found : serde.extract service url schema model config = .ok extraction)
    {llm : Nat → LlmRequest → Except ScraperError LlmResponse} {subChunks : List String}
    (port : service.llmPort = some llm)
    (asked : service.pageSubChunks url config.maxTokens = .ok subChunks) {record : Json} :
    record ∈ extraction.records ↔ serde.FirstOfText
      (serde.answers llm schema model config.maxTokens subChunks.zipIdx) record := by
  obtain ⟨-, _, _, merged, held, built, loop, -, records, -⟩ := extract_eq_ok found
  cases port.symm.trans held
  cases asked.symm.trans built
  rw [records, loop_answers loop, mem_batch]
  simp

/-! ### The merge keeps renderings apart -/

/-- Every kept record has been seen, and no two render alike. -/
structure Merged.Distinct (serde : SerdeJson) (merged : Merged) : Prop where
  nodup : (merged.records.map serde.render).Nodup
  seen : ∀ record ∈ merged.records, serde.render record ∈ merged.seen

theorem insertRecord_distinct {merged : Merged} (distinct : merged.Distinct serde)
    (record : Json) : (serde.insertRecord merged record).Distinct serde := by
  unfold insertRecord
  split
  next => exact distinct
  next fresh =>
    constructor
    · simp only [List.map_append, List.map_cons, List.map_nil]
      refine List.nodup_append.mpr ⟨distinct.nodup, by simp, ?_⟩
      rintro _ old _ new rfl
      obtain ⟨kept, member, rendered⟩ := List.mem_map.mp old
      rw [List.mem_singleton.mp new] at rendered
      exact fresh (rendered ▸ distinct.seen kept member)
    · intro kept member
      rcases List.mem_append.mp member with old | new
      · exact List.mem_cons_of_mem _ (distinct.seen kept old)
      · rw [List.mem_singleton.mp new]
        exact List.mem_cons_self

theorem batch_distinct (batch : List Json) {merged : Merged} (distinct : merged.Distinct serde) :
    (batch.foldl serde.insertRecord merged).Distinct serde := by
  induction batch generalizing merged with
  | nil => exact distinct
  | cons record batch ih => exact ih (insertRecord_distinct distinct record)

/-- No two records of a result render alike. -/
theorem extract_distinct (found : serde.extract service url schema model config = .ok extraction) :
    (extraction.records.map serde.render).Nodup := by
  obtain ⟨-, _, _, merged, -, -, loop, -, records, -⟩ := extract_eq_ok found
  have start : Merged.Distinct serde {} := ⟨by simp, by simp⟩
  rw [records, loop_answers loop]
  exact (batch_distinct _ start).nodup

end SerdeJson

/-! ### Conformity of the records -/

/-- A validated record conforms to its schema exactly where its array elements do. So do the records
of every result: those of the answers, without the ones that an earlier one is rendered like. -/
theorem validated_records_conform {schema : Json} (accepted : validateSchema schema = .ok ()) :
    (∀ record, (validateRecord record schema = .ok () ↔ Conforms schema record) ↔
      (ConformsOutside schema record → ItemsConform schema record)) ∧
    (∀ (serde : SerdeJson) (service : LlmExtractionService) (url : Url) (model : String)
        (config : LlmConfig) (extraction : LlmExtraction),
      serde.extract service url schema model config = .ok extraction →
        ((∀ record ∈ extraction.records, Conforms schema record) ↔
          ∀ record ∈ extraction.records, ItemsConform schema record) ∧
        ∀ llm subChunks, service.llmPort = some llm →
          service.pageSubChunks url config.maxTokens = .ok subChunks →
          ((∀ record ∈ extraction.records, Conforms schema record) ↔
            ∀ record, serde.FirstOfText
              (serde.answers llm schema model config.maxTokens subChunks.zipIdx) record →
                ItemsConform schema record)) := by
  refine ⟨fun record => ?_, ?_⟩
  · rw [validateRecord_ok_iff accepted, conforms_iff]
    tauto
  · intro serde service url model config extraction found
    have outside : ∀ record ∈ extraction.records, ConformsOutside schema record :=
      fun record member =>
        (validateRecord_ok_iff accepted).mp (SerdeJson.extract_validated found member)
    have exactly : (∀ record ∈ extraction.records, Conforms schema record) ↔
        ∀ record ∈ extraction.records, ItemsConform schema record := by
      simp only [conforms_iff]
      exact ⟨fun conform record member => (conform record member).2,
        fun items record member => ⟨outside record member, items record member⟩⟩
    refine ⟨exactly, fun llm subChunks port asked => ?_⟩
    rw [exactly]
    exact forall_congr' fun record =>
      imp_congr (SerdeJson.mem_records_iff found port asked) Iff.rfl

/-! ### A record whose author has no name -/

namespace Authors

def authored : Json := .obj [("type", .str "object"), ("properties", .obj [
  ("authors", .obj [("type", .str "array"), ("items", .obj [
    ("type", .str "object"), ("required", .arr [.str "name"])])])])]

def named : Json := .obj [("authors", .arr [.obj [("name", .str "Ada")]])]

def nameless : Json := .obj [("authors", .arr [.obj []])]

def two : Json := .arr [named, .obj [("authors", .arr [.obj [("name", .str "Alan")]])]]

mutual

/-- The compact form of a document without escapes and doubles. -/
def compact : Json → String
  | .null | .float _ => "null"
  | .bool b => toString b
  | .int n => toString n
  | .str s => "\"" ++ s ++ "\""
  | .arr items => "[" ++ ",".intercalate (compactItems items) ++ "]"
  | .obj fields => "\x7b" ++ ",".intercalate (compactFields fields) ++ "\x7d"

def compactItems : List Json → List String
  | [] => []
  | item :: items => compact item :: compactItems items

def compactFields : List (String × Json) → List String
  | [] => []
  | (key, value) :: fields => ("\"" ++ key ++ "\":" ++ compact value) :: compactFields fields

end

def serde : SerdeJson where
  fromStr text :=
    match [named, nameless, two].find? fun value => compact value == text with
    | some value => .ok value
    | none => .error "expected value at line 1 column 1"
  render := compact

def chunk (content : String) : DocumentChunk where
  id := "3f2c1f9e-0000-4000-8000-000000000001"
  url := "https://example.com/book"
  title := "Book"
  content := content
  metadata := []
  timestampRfc3339 := "2026-01-01T00:00:00Z"
  timestamp := "2026-01-01T00:00:00Z"
  correlationId := none

/-- A page of one chunk and a model that answers with one record. -/
def service (answer : Json) : LlmExtractionService where
  http _ := .ok ⟨200, "<p>A book</p>"⟩
  cleaner _ _ := .ok [chunk "A book"]
  chunker text := .ok [text]
  robots := none
  llmPort := some fun _ _ => .ok ⟨compact answer, 40, 10⟩

def page : Url := ⟨"https://example.com/book", "https", some "example.com"⟩

def config : LlmConfig := ⟨⟨"https://llm.example.com/v1", "https", some "llm.example.com"⟩, 1024⟩

theorem authored_accepted : validateSchema authored = .ok () := by decide +kernel

/-- The author without a name lacks what the schema of the elements requires. -/
theorem nameless_fails : ¬ Conforms authored nameless := by
  intro conforms
  cases (conforms_iff.mp conforms).2 with
  | mk members _ =>
    have author := members (.obj [("type", .str "array"), ("items", .obj [
        ("type", .str "object"), ("required", .arr [.str "name"])])]) (.arr [.obj []])
      ⟨_, "authors", rfl, List.mem_singleton_self _, rfl⟩
    cases author with
    | mk _ elements =>
      cases elements _ (.obj []) ⟨[.obj []], rfl, rfl, List.mem_singleton_self _⟩ with
      | mk _ required _ _ _ =>
        have missing := required [] rfl "name" (by decide)
        cases missing

end Authors

open Authors in
theorem validated_records_conform_authored :
    validateSchema authored = .ok () ∧
      ConformsOutside authored nameless ∧ ¬ ItemsConform authored nameless := by
  have exactly := (validated_records_conform authored_accepted).1 nameless
  have passes : validateRecord nameless authored = .ok () := by decide +kernel
  have differs : ¬ (validateRecord nameless authored = .ok () ↔ Conforms authored nameless) :=
    fun agrees => nameless_fails (agrees.mp passes)
  exact ⟨authored_accepted, Classical.not_imp.mp (mt exactly.mpr differs)⟩

open Authors in
/-- Such a record passes, and `extract` hands it out. -/
theorem nameless_author_passes :
    validateSchema authored = .ok () ∧
      validateRecord nameless authored = .ok () ∧ ¬ Conforms authored nameless ∧
      ∃ extraction, serde.extract (service nameless) page authored "gpt" config = .ok extraction ∧
        nameless ∈ extraction.records := by
  have passes : validateRecord nameless authored = .ok () := by decide +kernel
  refine ⟨authored_accepted, passes, nameless_fails, ?_⟩
  refine ⟨⟨"https://example.com/book", "gpt", [nameless], 1, 40, 10⟩, ?_, List.mem_singleton_self _⟩
  refine Checks.then_eq_ok.mpr ⟨Checks.mapError_eq_ok.mpr authored_accepted, ?_⟩
  refine Checks.then_eq_ok.mpr ⟨by decide, ?_⟩
  refine Checks.then_eq_ok.mpr ⟨rfl, Checks.bind_eq_ok.mpr ⟨_, rfl, ?_⟩⟩
  refine Checks.bind_eq_ok.mpr ⟨[chunk "A book"], rfl, Checks.bind_eq_ok.mpr ⟨["A book"], rfl, ?_⟩⟩
  refine Checks.bind_eq_ok.mpr ⟨⟨[nameless], [compact nameless], 40, 10⟩, ?_, ?_⟩
  · rfl
  · refine Checks.then_eq_ok.mpr ⟨SerdeJson.validateRecords_eq_ok.mpr ?_, rfl⟩
    simpa using passes

open Authors in
/-- Both sub-chunks are answered with the same two records. -/
theorem repeated_answer_distinct :
    let halves := { service two with chunker := fun text => .ok [text, text] }
    ∃ extraction, serde.extract halves page authored "gpt" config = .ok extraction ∧
      extraction.chunks = 2 ∧ extraction.records.length = 2 ∧ (extraction.records.map serde.render).Nodup := by
  intro halves
  have counts : (serde.extract halves page authored "gpt" config).toOption.map (fun extraction =>
      (extraction.chunks, extraction.records.length)) = some (2, 2) := by decide +kernel
  generalize found : serde.extract _ _ _ _ _ = result at counts ⊢
  cases result with
  | error => cases counts
  | ok extraction =>
    obtain ⟨chunks, records⟩ := Prod.mk.inj (Option.some.inj counts)
    exact ⟨extraction, rfl, chunks, records, SerdeJson.extract_distinct found⟩

end Webfang.Llm
