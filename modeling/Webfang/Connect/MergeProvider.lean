import Webfang.Library.KeyTable
import Webfang.Network.NetworkPolicy
import Webfang.Library.Checks
import Webfang.Library.Dedup

/-!
# Provider records and their merge

A provider of `domain/providers.rs`, the record that is written for it, and what the run reads
back: the reading of a whole configuration is that of each of its fields. `merge_provider` of
`cli/commands/connect.rs`: what a probed record changes in a record that already stands in the
configuration.
-/
namespace Webfang.Connect

open Library Toml

inductive ProviderKind where
  | openAiCompatible
  deriving DecidableEq, Repr

inductive Capability where
  | embedding
  | completion
  deriving DecidableEq, Repr

inductive AuthSource where
  | keyring (service account : String)
  | encryptedFile (path : String)
  | env (var : String)
  | none
  deriving DecidableEq, Repr

structure ProviderConfig where
  id : String
  displayName : String
  kind : ProviderKind
  /-- The text of the parsed URL. -/
  baseUrl : String
  auth : AuthSource
  capabilities : List Capability
  model : Option String
  embeddingDim : Option Nat
  allowLoopback : Bool
  networkPolicy : Network.NetworkPolicy

/-! ### Serialisation -/

def ProviderKind.name : ProviderKind → String
  | .openAiCompatible => "open_ai_compatible"

def Capability.name : Capability → String
  | .embedding => "embedding"
  | .completion => "completion"

theorem Capability.name_inj {a b : Capability} : a.name = b.name ↔ a = b := by
  cases a <;> cases b <;> decide

def AuthSource.toToml : AuthSource → Toml
  | .keyring service account =>
    .table ⟨[("source", .string "keyring"), ("service", .string service),
      ("account", .string account)]⟩
  | .encryptedFile path => .table ⟨[("source", .string "encrypted_file"), ("path", .string path)]⟩
  | .env var => .table ⟨[("source", .string "env"), ("var", .string var)]⟩
  | .none => .table ⟨[("source", .string "none")]⟩

def policyMode : Network.NetworkPolicyMode → String
  | .restricted => "restricted"
  | .allowlist => "allowlist"

def policyToToml (policy : Network.NetworkPolicy) : Toml :=
  .table ⟨[("mode", .string (policyMode policy.mode)),
    ("allow_cidrs", .array (policy.allowCidrs.map fun block => .string block.display)),
    ("allow_hosts", .array (policy.allowHosts.map .string))]⟩

namespace ProviderConfig

def capabilityItems (provider : ProviderConfig) : List Toml :=
  provider.capabilities.map fun capability => .string capability.name

/-- The fields in the order of the struct: the first six are required. -/
def fields : List String :=
  ["id", "display_name", "kind", "base_url", "auth", "capabilities", "model", "embedding_dim",
    "allow_loopback", "network_policy"]

def fieldToToml (provider : ProviderConfig) (key : String) : Option Toml :=
  match key with
  | "id" => some (.string provider.id)
  | "display_name" => some (.string provider.displayName)
  | "kind" => some (.string provider.kind.name)
  | "base_url" => some (.string provider.baseUrl)
  | "auth" => some provider.auth.toToml
  | "capabilities" => some (.array provider.capabilityItems)
  | "model" => provider.model.map .string
  | "embedding_dim" => provider.embeddingDim.map fun dim => .integer dim
  | "allow_loopback" => some (.boolean provider.allowLoopback)
  | "network_policy" => some (policyToToml provider.networkPolicy)
  | _ => none

/-- `toml_edit::ser::to_document`: `None` is skipped, and a number has to fit a signed one. -/
def toDocument (provider : ProviderConfig) : Except String Table :=
  if provider.embeddingDim.any (2 ^ 63 ≤ ·) then .error "out-of-range value for u64 type"
  else .ok (.collect fields provider.fieldToToml)

theorem get_toDocument {provider : ProviderConfig} {entry : Table}
    (serialised : provider.toDocument = .ok entry) (key : String) :
    entry.get key = provider.fieldToToml key := by
  unfold toDocument at serialised
  by_cases fits : provider.embeddingDim.any (2 ^ 63 ≤ ·) = true
  · rw [if_pos fits] at serialised
    cases serialised
  · rw [if_neg fits] at serialised
    cases serialised
    rw [KeyTable.get_collect]
    by_cases field : key ∈ fields
    · rw [if_pos field]
    · rw [if_neg field]
      simp only [fields, List.mem_cons, List.not_mem_nil, or_false, not_or] at field
      unfold fieldToToml
      split <;> simp_all

end ProviderConfig

/-! ### Reading -/

/-- What the readers of single types accept. -/
structure Readers where
  url : String → Bool
  authSource : Toml → Bool
  networkPolicy : Toml → Bool
  modelProfiles : Toml → Bool

variable (readers : Readers)

def Capability.reads (value : Toml) : Bool :=
  value.unitVariant = some "embedding" ∨ value.unitVariant = some "completion"

namespace ProviderConfig

def required : List String := fields.take 6

def fieldLoads (key : String) (value : Toml) : Bool :=
  match key with
  | "id" | "display_name" | "model" => value.isString
  | "kind" => value.unitVariant = some "open_ai_compatible"
  | "base_url" => value.asStr.any readers.url
  | "auth" => readers.authSource value
  | "capabilities" => value.isVecOf Capability.reads
  | "embedding_dim" => value.isUnsigned 64
  | "allow_loopback" => value.isBoolean
  | "network_policy" => readers.networkPolicy value
  | _ => true

def fieldRequired (key : String) : Bool := required.contains key

/-- What stands under a field, or nothing, can be read. -/
def optionLoads (key : String) : Option Toml → Bool
  | some value => fieldLoads readers key value
  | none => !fieldRequired key

def tableLoads (record : Table) : Bool := fields.all fun key => optionLoads readers key (record.get key)

/-- A struct can also be written as the list of its fields; there `model` has no default. -/
def loads : Toml → Bool
  | .table record => tableLoads readers record
  | .array items => 7 ≤ items.length && (fields.zip items).all fun (key, item) => fieldLoads readers key item
  | _ => false

end ProviderConfig

namespace ConfigDefaults

def fields : List String :=
  ["format", "export_format", "concurrency", "selector", "max_pages", "delay_ms", "log_level",
    "use_sitemap", "obsidian_wiki_links", "obsidian_tags", "obsidian_relative_assets", "vault_path",
    "ignore_waf", "rate_limit_burst", "providers", "model_profiles"]

def fieldLoads (key : String) (value : Toml) : Bool :=
  match key with
  | "format" | "export_format" | "concurrency" | "selector" | "log_level" | "obsidian_tags"
  | "vault_path" => value.isString
  | "max_pages" | "delay_ms" => value.isUnsigned 64
  | "rate_limit_burst" => value.isUnsigned 32
  | "use_sitemap" | "obsidian_wiki_links" | "obsidian_relative_assets" | "ignore_waf" =>
    value.isBoolean
  | "providers" => value.isVecOf (ProviderConfig.loads readers)
  | "model_profiles" => readers.modelProfiles value
  | _ => true

/-- Every field has a default, and a key that is no field is ignored. -/
def loads (document : Table) : Bool :=
  fields.all fun key => (document.get key).all (fieldLoads readers key)

end ConfigDefaults

end Webfang.Connect

namespace Webfang.Connect

open Library Toml

inductive ErrorKind where
  | invalidData
  | alreadyExists
  | other
  | system (code : Nat)
  deriving DecidableEq, Repr

structure IoError where
  kind : ErrorKind
  message : String
  deriving DecidableEq, Repr

def probeOwned : List String := ["display_name", "base_url", "model", "kind"]

def operatorOwned : List String := ["auth", "embedding_dim", "allow_loopback", "network_policy"]

def refreshKey (incoming existing : Table) (key : String) : Table :=
  match incoming.get key with
  | none => existing
  | some value => existing.insert key value

def fillKey (incoming existing : Table) (key : String) : Table :=
  if existing.contains key then existing
  else
    match incoming.get key with
    | none => existing
    | some value => existing.insert key value

def carriesOperatorFields (existing : Table) : Bool := operatorOwned.any fun key => existing.contains key

/-- Text against text: an absent or unreadable URL is no evidence. -/
def sameEndpoint (existing incoming : Table) : Bool :=
  match (existing.get "base_url").bind asStr, (incoming.get "base_url").bind asStr with
  | some existingUrl, some incomingUrl => existingUrl = incomingUrl
  | _, _ => false

def unreadable : String := "(sin base_url legible)"

def crossEndpointError (existing incoming : Table) : IoError :=
  let text := fun (record : Table) key => ((record.get key).bind asStr).getD unreadable
  { kind := .invalidData
    message := "el provider '" ++ text incoming "id" ++ "' ya está registrado contra '" ++
      text existing "base_url" ++ "' y el endpoint conectado es '" ++ text incoming "base_url" ++
      "': no se arrastran credenciales ni políticas de red entre hosts distintos (no se toca el " ++
      "archivo). Usá un `--id` distinto, o editá o borrá a mano el registro existente" }

/-- A value that is no array stays as it is. -/
def mergeCapabilities (existing : Table) (incoming : Toml) : Table :=
  match incoming.asArray with
  | none => existing
  | some new =>
    match existing.get "capabilities" with
    | none => existing.insert "capabilities" (.array (new.foldl (AppendNew.step asStr) []))
    | some value =>
      match value.asArray with
      | none => existing
      | some old => existing.insert "capabilities" (.array (new.foldl (AppendNew.step asStr) old))

def mergeProvider (existing incoming : Table) : Except IoError Table :=
  if carriesOperatorFields existing && !sameEndpoint existing incoming then
    .error (crossEndpointError existing incoming)
  else
    let refreshed := probeOwned.foldl (refreshKey incoming) existing
    let filled := operatorOwned.foldl (fillKey incoming) refreshed
    match incoming.get "capabilities" with
    | none => .ok filled
    | some value => .ok (mergeCapabilities filled value)

/-! ### What a merge leaves under each key -/

def mergedCapabilities (existing : Option Toml) (incoming : Toml) : Option Toml :=
  match incoming.asArray with
  | none => existing
  | some new =>
    match existing with
    | none => some (.array (new.foldl (AppendNew.step asStr) []))
    | some (.array old) => some (.array (new.foldl (AppendNew.step asStr) old))
    | some other => some other

theorem get_refreshKey (incoming existing : Table) (key other : String) :
    (refreshKey incoming existing key).get other =
      if other = key then (incoming.get key).or (existing.get key) else existing.get other := by
  unfold refreshKey
  cases found : incoming.get key with
  | none =>
    by_cases same : other = key
    · rw [same, if_pos rfl, Option.none_or]
    · rw [if_neg same]
  | some value => rw [KeyTable.get_insert, Option.some_or]

theorem get_fillKey (incoming existing : Table) (key other : String) :
    (fillKey incoming existing key).get other =
      if other = key then (existing.get key).or (incoming.get key) else existing.get other := by
  unfold fillKey KeyTable.contains
  by_cases same : other = key
  · subst same
    rw [if_pos rfl]
    cases held : existing.get other with
    | some old => simp [held]
    | none => cases found : incoming.get other <;> simp [held]
  · rw [if_neg same]
    cases held : existing.get key with
    | some old => simp
    | none =>
      cases found : incoming.get key with
      | none => simp
      | some value => simpa using KeyTable.get_insert_of_ne same

theorem get_mergeCapabilities (existing : Table) (incoming : Toml) (key : String) :
    (mergeCapabilities existing incoming).get key =
      if key = "capabilities" then mergedCapabilities (existing.get "capabilities") incoming
      else existing.get key := by
  unfold mergeCapabilities mergedCapabilities
  cases incoming.asArray with
  | none => by_cases same : key = "capabilities" <;> simp [same]
  | some new =>
    cases held : existing.get "capabilities" with
    | none => exact KeyTable.get_insert _ _ _ _
    | some value =>
      cases value with
      | array old => exact KeyTable.get_insert _ _ _ _
      | _ => by_cases same : key = "capabilities" <;> simp [same, held, asArray]

def mergedValue (existing incoming : Table) (key : String) : Option Toml :=
  if key ∈ probeOwned then (incoming.get key).or (existing.get key)
  else if key ∈ operatorOwned then (existing.get key).or (incoming.get key)
  else if key = "capabilities" then
    (incoming.get key).elim (existing.get key) (mergedCapabilities (existing.get key))
  else existing.get key

theorem operatorOwned_apart : ∀ key ∈ operatorOwned, key ∉ probeOwned := by decide

theorem get_merged (existing incoming : Table) (key : String) :
    (operatorOwned.foldl (fillKey incoming) (probeOwned.foldl (refreshKey incoming) existing)).get key =
      if key ∈ probeOwned then (incoming.get key).or (existing.get key)
      else if key ∈ operatorOwned then (existing.get key).or (incoming.get key)
      else existing.get key := by
  rw [KeyTable.get_foldl (fun key held => held.or (incoming.get key)) (get_fillKey incoming) (by decide),
    KeyTable.get_foldl (fun key held => (incoming.get key).or held) (get_refreshKey incoming) (by decide)]
  by_cases probe : key ∈ probeOwned
  · have apart : key ∉ operatorOwned := fun operator => operatorOwned_apart key operator probe
    rw [if_neg apart, if_pos probe, if_pos probe]
  · rw [if_neg probe, if_neg probe]

theorem mergeProvider_ok {existing incoming result : Table}
    (merged : mergeProvider existing incoming = .ok result) :
    (carriesOperatorFields existing = true → sameEndpoint existing incoming = true) ∧
      ∀ key, result.get key = mergedValue existing incoming key := by
  unfold mergeProvider at merged
  by_cases foreign : (carriesOperatorFields existing && !sameEndpoint existing incoming) = true
  · rw [if_pos foreign] at merged
    cases merged
  · rw [if_neg foreign] at merged
    constructor
    · intro carries
      simpa [carries] using foreign
    · intro key
      have apart : "capabilities" ∉ probeOwned ∧ "capabilities" ∉ operatorOwned := by decide
      cases found : incoming.get "capabilities" with
      | none =>
        rw [found] at merged
        cases merged
        rw [get_merged, mergedValue]
        by_cases same : key = "capabilities"
        · subst same
          simp [apart, found]
        · simp [same]
      | some value =>
        rw [found] at merged
        cases merged
        rw [get_mergeCapabilities, mergedValue]
        by_cases same : key = "capabilities"
        · subst same
          rw [get_merged]
          simp [apart, found]
        · rw [if_neg same, get_merged, if_neg same]

theorem mergeProvider_of_sameEndpoint {existing incoming : Table}
    (same : sameEndpoint existing incoming = true) :
    ∃ result, mergeProvider existing incoming = .ok result := by
  unfold mergeProvider
  rw [if_neg (by simp [same])]
  cases incoming.get "capabilities" with
  | none => exact ⟨_, rfl⟩
  | some value => exact ⟨_, rfl⟩

end Webfang.Connect
