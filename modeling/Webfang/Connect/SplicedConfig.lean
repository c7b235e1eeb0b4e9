import Webfang.Connect.SettledRecord

/-!
# The configuration after a write

What `write_provider` leaves of a configuration: every value outside the one record it writes, and
in that record the values of each owner. A second write of the same provider changes nothing.
-/
namespace Webfang.Connect

open Library Toml ProviderConfig

/-- A record as the values of its keys. -/
abbrev Record := String → Option Toml

def itemRecord : Toml → Record
  | .table record => record.get
  | _ => fun _ => none

def recordsOf (document : Table) : List Record := (providerItems document).map itemRecord

/-- The same values, with the keys of the document and of its records in any order. -/
structure SameValues (document other : Table) : Prop where
  settings : ∀ key, key ≠ "providers" → other.get key = document.get key
  records : ∃ tables others, document.get "providers" = some (.arrayOfTables tables) ∧
    other.get "providers" = some (.arrayOfTables others) ∧
    others.map KeyTable.get = tables.map KeyTable.get

/-- What the editor renders of a splice, it parses to the same values. -/
def TomlEdit.ReadsBack (edit : TomlEdit) (provider : ProviderConfig) : Prop :=
  ∀ text old new, edit.parse text = .ok old → upsertProvider old provider = .ok new →
    ∃ reread, edit.parse (edit.render new) = .ok reread ∧ SameValues new reread

/-- A provider that passed the probe: it names a model, and its own record can be loaded. -/
structure Probed (readers : Readers) (provider : ProviderConfig) : Prop where
  model : provider.model.isSome
  loads : ∀ entry, provider.toDocument = .ok entry → tableLoads readers entry = true

structure Touched (provider : ProviderConfig) (found : Option Record) (merged : Record) : Prop where
  id : merged "id" = some (.string provider.id)
  displayName : merged "display_name" = some (.string provider.displayName)
  kind : merged "kind" = some (.string provider.kind.name)
  baseUrl : merged "base_url" = some (.string provider.baseUrl)
  model : ∃ model, provider.model = some model ∧ merged "model" = some (.string model)
  operator : ∀ record, found = some record → ∀ key ∈ operatorOwned, ∀ value,
    record key = some value → merged key = some value
  capabilities : ∀ record, found = some record →
    (∃ old, record "capabilities" = some (.array old) ∧
      merged "capabilities" = some (.array (old ++ newCapabilities provider old))) ∨
    ∃ tables, record "capabilities" = some (.arrayOfTables tables) ∧
      merged "capabilities" = some (.arrayOfTables tables)
  others : ∀ record, found = some record → ∀ key, key ∉ fields → merged key = record key
  appended : found = none → ∀ key, merged key = provider.fieldToToml key

/-- What a write changes in a document. -/
structure Spliced (provider : ProviderConfig) (old new : Table) : Prop where
  settings : ∀ key, key ≠ "providers" → new.get key = old.get key
  records : ∃ before found merged after, recordsOf old = before ++ found.toList ++ after ∧
    recordsOf new = before ++ merged :: after ∧
    (∀ record ∈ before, record "id" ≠ some (.string provider.id)) ∧
    (∀ record, found = some record → record "id" = some (.string provider.id)) ∧
    (found = none → after = []) ∧ Touched provider found merged
  /-- An operator's value stands beside the URL that it was written for. -/
  endpoints : ∀ (place : Nat) (record : Record), (recordsOf new)[place]? = some record →
    ∀ key ∈ operatorOwned, ∀ value, record key = some value →
      (∃ was : Record, (recordsOf old)[place]? = some was ∧ was key = some value ∧
        was "base_url" = record "base_url") ∨
      provider.fieldToToml key = some value ∧ record "base_url" = some (.string provider.baseUrl)

/-! ### The touched record -/

variable {edit : TomlEdit} {readers : Readers} {path : String} {provider : ProviderConfig}
  {entry : Table}

theorem touched_entry (probed : Probed readers provider) (serialised : provider.toDocument = .ok entry) :
    Touched provider none entry.get where
  id := get_toDocument serialised "id"
  displayName := get_toDocument serialised "display_name"
  kind := get_toDocument serialised "kind"
  baseUrl := get_toDocument serialised "base_url"
  model := by
    obtain ⟨model, named⟩ := Option.isSome_iff_exists.mp probed.model
    refine ⟨model, named, ?_⟩
    rw [get_toDocument serialised, fieldToToml, named]
    rfl
  operator := nofun
  capabilities := nofun
  others := nofun
  appended _ := get_toDocument serialised

theorem touched_merged (probed : Probed readers provider) (serialised : provider.toDocument = .ok entry)
    {found merged : Table} (loads : tableLoads readers found = true)
    (here : hasId provider.id found = true) (merge : mergeProvider found entry = .ok merged) :
    Touched provider (some found.get) merged.get := by
  have own := touched_entry probed serialised
  have read := (mergeProvider_ok merge).2
  -- what the entry has of a probed key replaces what stood there
  have refreshed : ∀ key ∈ probeOwned, ∀ value, entry.get key = some value → merged.get key = some value := by
    intro key probe value listed
    rw [read, mergedValue, if_pos probe, listed, Option.some_or]
  have kept : ∀ key, key ∉ probeOwned → key ∉ operatorOwned → key ≠ "capabilities" →
      merged.get key = found.get key := by
    intro key probe operator apart
    rw [read, mergedValue, if_neg probe, if_neg operator, if_neg apart]
  refine {
    id := (kept "id" (by decide) (by decide) (by decide)).trans (hasId_iff.mp here)
    displayName := refreshed _ (by decide) _ own.displayName
    kind := refreshed _ (by decide) _ own.kind
    baseUrl := refreshed _ (by decide) _ own.baseUrl
    model := ?_, operator := ?_, capabilities := ?_, others := ?_, appended := fun none => absurd none (Option.some_ne_none _) }
  · obtain ⟨model, named, listed⟩ := own.model
    exact ⟨model, named, refreshed _ (by decide) _ listed⟩
  · rintro record ⟨⟩ key operator value held
    rw [read, mergedValue, if_neg (operatorOwned_apart key operator), if_pos operator, held, Option.some_or]
  · rintro record ⟨⟩
    have listed : entry.get "capabilities" = some (.array provider.capabilityItems) := own.appended rfl _
    have field : merged.get "capabilities" =
        mergedCapabilities (found.get "capabilities") (.array provider.capabilityItems) := by
      rw [read, mergedValue, if_neg (by decide), if_neg (by decide), if_pos rfl, listed]
      rfl
    have loaded := List.all_eq_true.mp loads "capabilities" (by decide)
    cases held : found.get "capabilities" with
    | none =>
      rw [held] at loaded
      cases loaded
    | some value =>
      rw [held] at loaded field
      cases value with
      | array old =>
        refine .inl ⟨old, rfl, field.trans ?_⟩
        exact congrArg (fun items => some (Toml.array items)) (foldl_capabilities old)
      | arrayOfTables tables => exact .inr ⟨tables, rfl, field⟩
      | _ => cases loaded
  · rintro record ⟨⟩ key outside
    simp only [fields, List.mem_cons, List.not_mem_nil, or_false, not_or] at outside
    apply kept
    · simp [probeOwned, outside]
    · simp [operatorOwned, outside]
    · exact outside.2.2.2.2.2.1

/-- In place or at the end, an operator's value keeps its URL: a merge that would change it is
refused. -/
theorem endpoints_of_upserted {records result : List Table} (serialised : provider.toDocument = .ok entry)
    (upserted : Upserted provider.id entry records result) :
    ∀ (place : Nat) (record : Table), result[place]? = some record →
      ∀ key ∈ operatorOwned, ∀ value, record.get key = some value →
        (∃ was, records[place]? = some was ∧ was.get key = some value ∧
          was.get "base_url" = record.get "base_url") ∨
        entry.get key = some value ∧ record.get "base_url" = entry.get "base_url" := by
  intro place record there key operator value held
  cases upserted with
  | appended fresh =>
    by_cases old : place < records.length
    · rw [List.getElem?_append_left old] at there
      exact .inl ⟨record, there, held, rfl⟩
    · rw [List.getElem?_append_right (by omega)] at there
      have last : entry = record := (List.mem_singleton.mp (List.mem_of_getElem? there)).symm
      subst last
      exact .inr ⟨held, rfl⟩
  | @merged before after found merged fresh here merge =>
    obtain ⟨bound, read⟩ := mergeProvider_ok merge
    by_cases same : place = before.length
    · subst same
      have taken : merged = record := by simpa using there
      subst taken
      have listed : entry.get "base_url" = some (.string provider.baseUrl) :=
        get_toDocument serialised "base_url"
      have url : merged.get "base_url" = entry.get "base_url" := by
        rw [read, mergedValue, if_pos (by decide), listed, Option.some_or]
      rw [read, mergedValue, if_neg (operatorOwned_apart key operator), if_pos operator] at held
      cases kept : found.get key with
      | none =>
        rw [kept, Option.none_or] at held
        exact .inr ⟨held, url⟩
      | some old =>
        rw [kept, Option.some_or] at held
        cases held
        have carries : carriesOperatorFields found = true :=
          List.any_eq_true.mpr ⟨key, operator, by simp [KeyTable.contains, kept]⟩
        have endpoint := (sameEndpoint_of_get listed).mp (bound carries)
        refine .inl ⟨found, by simp, kept, ?_⟩
        rw [endpoint, url, listed]
    · -- every other record stands where it stood
      have elsewhere : (before ++ found :: after)[place]? = some record := by
        rw [← there]
        by_cases front : place < before.length
        · rw [List.getElem?_append_left front, List.getElem?_append_left front]
        · have back : place - before.length = (place - before.length - 1) + 1 := by omega
          rw [List.getElem?_append_right (by omega), List.getElem?_append_right (by omega), back,
            List.getElem?_cons_succ, List.getElem?_cons_succ]
      exact .inl ⟨record, elsewhere, held, rfl⟩

/-! ### The document -/

theorem recordsOf_of_items {document : Table} {records : List Table}
    (items : providerItems document = records.map .table) :
    recordsOf document = records.map KeyTable.get := by
  rw [recordsOf, items, List.map_map]
  rfl

theorem items_of_tables {document : Table} {records : List Table}
    (spelled : document.get "providers" = some (.arrayOfTables records)) :
    providerItems document = records.map .table := by
  rw [providerItems, spelled]
  rfl

/-- A splice, read back, changes what it should. -/
theorem spliced_of_upsert {old new reread : Table} (probed : Probed readers provider)
    (loads : ConfigDefaults.loads readers old = true) (upsert : upsertProvider old provider = .ok new)
    (same : SameValues new reread) : Spliced provider old reread := by
  obtain ⟨entry, records, result, serialised, items, upserted, spelled, others⟩ := upsertProvider_ok upsert
  obtain ⟨tables, rows, spelled', reread_spelled, reordered⟩ := same.records
  cases spelled.symm.trans spelled'
  have before := recordsOf_of_items items
  have after : recordsOf reread = result.map KeyTable.get :=
    (recordsOf_of_items (items_of_tables reread_spelled)).trans reordered
  refine ⟨?_, ?_, ?_⟩
  · intro key apart
    rw [same.settings key apart, others key apart]
  · rw [before, after]
    cases upserted with
    | appended fresh =>
      refine ⟨records.map KeyTable.get, none, entry.get, [], by simp, by simp, ?_, ?_, fun _ => rfl,
        touched_entry probed serialised⟩
      · intro record member equal
        obtain ⟨source, inside, rfl⟩ := List.mem_map.mp member
        exact absurd (hasId_iff.mpr equal) (by simp [fresh source inside])
      · rintro record ⟨⟩
    | @merged front back found merged fresh here merge =>
      refine ⟨front.map KeyTable.get, some found.get, merged.get, back.map KeyTable.get, by simp,
        by simp, ?_, ?_, ?_, touched_merged probed serialised ?_ here merge⟩
      · intro record member equal
        obtain ⟨source, inside, rfl⟩ := List.mem_map.mp member
        exact absurd (hasId_iff.mpr equal) (by simp [fresh source inside])
      · rintro record ⟨⟩
        exact hasId_iff.mp here
      · rintro ⟨⟩
      · exact tables_load loads items found (by simp)
  · intro place record there key operator value held
    rw [after, List.getElem?_map, Option.map_eq_some_iff] at there
    obtain ⟨source, inside, rfl⟩ := there
    rw [before, List.getElem?_map]
    rcases endpoints_of_upserted serialised upserted place source inside key operator value held with
      ⟨was, earlier, kept, url⟩ | ⟨own, url⟩
    · exact .inl ⟨was.get, by rw [earlier]; rfl, kept, url⟩
    · rw [get_toDocument serialised] at own url
      exact .inr ⟨own, url⟩

/-- A splice that is read back can be loaded. -/
theorem loads_of_upsert {old new reread : Table} (probed : Probed readers provider)
    (loads : ConfigDefaults.loads readers old = true) (upsert : upsertProvider old provider = .ok new)
    (same : SameValues new reread) : ConfigDefaults.loads readers reread = true := by
  obtain ⟨entry, records, result, serialised, items, upserted, spelled, others⟩ := upsertProvider_ok upsert
  obtain ⟨tables, rows, spelled', reread_spelled, reordered⟩ := same.records
  cases spelled.symm.trans spelled'
  have own := probed.loads entry serialised
  have listed : entry.get "capabilities" = some (.array provider.capabilityItems) :=
    get_toDocument serialised "capabilities"
  have earlier := tables_load loads items
  have written : ∀ record ∈ result, tableLoads readers record = true := by
    cases upserted with
    | appended fresh =>
      intro record member
      rcases List.mem_append.mp member with held | last
      · exact earlier record held
      · rw [List.mem_singleton.mp last]
        exact own
    | @merged front back found merged fresh here merge =>
      intro record member
      rcases List.mem_append.mp member with held | rest
      · exact earlier record (List.mem_append_left _ held)
      · rcases List.mem_cons.mp rest with rfl | held
        · exact tableLoads_merged (earlier found (by simp)) own listed merge
        · exact earlier record (List.mem_append_right _ (List.mem_cons_of_mem _ held))
  apply loads_iff.mpr
  intro key field value held
  by_cases apart : key = "providers"
  · subst apart
    cases reread_spelled.symm.trans held
    apply List.all_eq_true.mpr
    intro item member
    obtain ⟨row, inside, rfl⟩ := List.mem_map.mp member
    have read : row.get ∈ result.map KeyTable.get := reordered ▸ List.mem_map_of_mem inside
    obtain ⟨source, there, equal⟩ := List.mem_map.mp read
    change tableLoads readers row = true
    rw [tableLoads_congr equal.symm]
    exact written source there
  · rw [same.settings key apart, others key apart] at held
    exact loads_iff.mp loads key field value held

/-- The splice of a document that was spliced before is taken, and changes no value. -/
theorem upsertProvider_again {old new reread : Table} (upsert : upsertProvider old provider = .ok new)
    (same : SameValues new reread) :
    ∃ newer, upsertProvider reread provider = .ok newer ∧ SameValues reread newer := by
  obtain ⟨entry, records, result, serialised, items, upserted, spelled, others⟩ := upsertProvider_ok upsert
  obtain ⟨tables, rows, spelled', reread_spelled, reordered⟩ := same.records
  cases spelled.symm.trans spelled'
  obtain ⟨again, turn, unchanged⟩ := upsertRecord_again serialised upserted reordered
  refine ⟨reread.insert "providers" (.arrayOfTables again), ?_, ?_, rows, again, reread_spelled,
    KeyTable.get_insert_self _ _ _, unchanged⟩
  · rw [upsertProvider, serialised, ensureProvidersArray_of_tables reread_spelled]
    change (upsertRecord provider.id entry rows >>= fun records =>
      Except.ok (reread.insert "providers" (.arrayOfTables records))) = _
    rw [turn]
    rfl
  · intro key apart
    exact KeyTable.get_insert_of_ne apart

theorem SameValues.trans {a b c : Table} (first : SameValues a b) (second : SameValues b c) :
    SameValues a c := by
  obtain ⟨tables, others, spelled, spelled', same⟩ := first.records
  obtain ⟨others', rows, again, last, same'⟩ := second.records
  cases spelled'.symm.trans again
  exact ⟨fun key apart => (second.settings key apart).trans (first.settings key apart),
    tables, rows, spelled, last, same'.trans same⟩

/-! ### The file -/

/-- A second write of the provider succeeds and changes no value. -/
def WritesAgain (edit : TomlEdit) (readers : Readers) (path : String) (provider : ProviderConfig)
    (written : String) (new : Table) : Prop :=
  ∀ again : Calls, again.Working → ∃ rewritten newer,
    writeProvider edit readers again path provider (some (Utf8.encode written)) =
      (.ok (), some (Utf8.encode rewritten)) ∧
    edit.parse rewritten = .ok newer ∧ SameValues new newer

/-- An existing file is left byte for byte, or spliced. -/
def KeptOrSpliced (edit : TomlEdit) (readers : Readers) (calls : Calls) (path : String)
    (provider : ProviderConfig) (bytes : List UInt8) : Prop :=
  (∃ e, writeProvider edit readers calls path provider (some bytes) = (.error e, some bytes)) ∨
  ∃ text written old new, Utf8.decode? bytes = some text ∧ edit.parse text = .ok old ∧
    writeProvider edit readers calls path provider (some bytes) =
      (.ok (), some (Utf8.encode written)) ∧
    edit.parse written = .ok new ∧ Spliced provider old new ∧
    WritesAgain edit readers path provider written new

theorem writeProvider_spliced (back : edit.ReadsBack provider) (probed : Probed readers provider)
    (calls : Calls) (path : String) (bytes : List UInt8) :
    KeptOrSpliced edit readers calls path provider bytes := by
  rcases run : writeProvider edit readers calls path provider (some bytes) with ⟨outcome, after⟩
  cases outcome with
  | error e =>
    have kept := writeProvider_error run
    exact .inl ⟨e, by rw [run, kept]⟩
  | ok _ =>
    obtain ⟨text, old, new, decoded, parsed, loads, upsert, written⟩ := writeProvider_ok run
    obtain ⟨reread, readable, same⟩ := back text old new parsed upsert
    refine .inr ⟨text, edit.render new, old, reread, decoded, parsed, by rw [run, written], readable,
      spliced_of_upsert probed loads upsert same, ?_⟩
    intro again working
    obtain ⟨newer, turn, unchanged⟩ := upsertProvider_again upsert same
    obtain ⟨last, readable', same'⟩ := back _ reread newer readable turn
    exact ⟨edit.render newer, last,
      writeProvider_of_working working (Utf8.decode?_encode _) readable
        (loads_of_upsert probed loads upsert same) turn,
      readable', unchanged.trans same'⟩

/-! ### The provider that is registered -/

def displayWord : List Char → String
  | [] => ""
  | first :: rest => String.ofList (first.toUpper :: rest)

def displayForId (id : String) : String :=
  " ".intercalate (((id.toList.splitOn '-').filter fun word => word ≠ []).map displayWord)

/-- What `run` builds and probes. -/
def connectProvider (id baseUrl model : String) : ProviderConfig where
  id := id
  displayName := displayForId id
  kind := .openAiCompatible
  baseUrl := baseUrl
  auth := .none
  capabilities := [.embedding]
  model := some model
  embeddingDim := none
  allowLoopback := false
  networkPolicy := {}

/-- The record of a registered provider can be loaded, where the readers take what is written. -/
theorem probed_connectProvider {id baseUrl model : String} (url : readers.url baseUrl = true)
    (auth : readers.authSource AuthSource.none.toToml = true)
    (policy : readers.networkPolicy (policyToToml {}) = true) :
    Probed readers (connectProvider id baseUrl model) where
  model := rfl
  loads entry serialised := by
    have kind : Toml.unitVariant (.string ProviderKind.openAiCompatible.name) =
      some "open_ai_compatible" := rfl
    have capability : isVecOf Capability.reads (.array [.string Capability.embedding.name]) = true := rfl
    simp only [tableLoads, fields, get_toDocument serialised, fieldToToml, connectProvider,
      capabilityItems, List.map_cons, List.map_nil, Option.map_some, List.all_cons,
      List.all_nil, optionLoads, fieldLoads, url, auth, policy, kind, capability, asStr,
      Option.any_some, isString, isBoolean, Option.isSome_some]
    rfl

/-! ### A configuration with one provider -/

namespace OneProvider

def registered : ProviderConfig := connectProvider "a" "https://a.test/v1" "m"

def accepted : Readers where
  url text := text == "https://a.test/v1"
  authSource value :=
    ((value.asTable.bind fun entries => entries.get "source").bind asStr).any
      ["keyring", "encrypted_file", "env", "none"].contains
  networkPolicy value := value.asTable.isSome
  modelProfiles value := value.asTable.isSome

def answered : Calls where
  createParent := .ok ()
  lookup := .ok ()
  read := .ok ()
  reread := .ok ()
  resolve := .ok ()
  writeTemp _ := .ok ()
  rename := .ok ()

theorem answered_working : answered.Working := ⟨rfl, rfl, rfl, rfl, rfl, rfl, rfl⟩

theorem registered_probed : Probed accepted registered := probed_connectProvider rfl rfl rfl

/-- The two texts that the editor sees here. -/
def editor (before after : String) (old new : Table) : TomlEdit where
  parse text :=
    if text = before then .ok old
    else if text = after then .ok new
    else .error "TOML parse error"
  render _ := after
  mismatch _ := "invalid type"

theorem parse_before (before after : String) (old new : Table) :
    (editor before after old new).parse before = .ok old := if_pos rfl

theorem parse_after {before after : String} (apart : after ≠ before) (old new : Table) :
    (editor before after old new).parse after = .ok new := (if_neg apart).trans (if_pos rfl)

def document (record : List (String × Toml)) : Table :=
  ⟨[("format", .string "json"), ("providers", .arrayOfTables [⟨record⟩])]⟩

def foundRecord (capabilities : Toml) : List (String × Toml) :=
  [("id", .string "a"), ("display_name", .string "Mine"), ("kind", .string "open_ai_compatible"),
    ("base_url", .string "https://a.test/v1"), ("auth", (AuthSource.env "KEY").toToml),
    ("capabilities", capabilities)]

def mergedRecord (capabilities : Toml) : List (String × Toml) :=
  [("id", .string "a"), ("display_name", .string "A"), ("kind", .string "open_ai_compatible"),
    ("base_url", .string "https://a.test/v1"), ("auth", (AuthSource.env "KEY").toToml),
    ("capabilities", capabilities), ("model", .string "m"), ("allow_loopback", .boolean false),
    ("network_policy", policyToToml {})]

def recordText (displayName : String) : String :=
  "format = \"json\"\n\n[[providers]]\nid = \"a\"\ndisplay_name = \"" ++ displayName ++
    "\"\nkind = \"open_ai_compatible\"\nbase_url = \"https://a.test/v1\"\n" ++
    "auth = \x7b source = \"env\", var = \"KEY\" \x7d\n"

def filledText : String :=
  "model = \"m\"\nallow_loopback = false\n" ++
    "network_policy = \x7b mode = \"restricted\", allow_cidrs = [], allow_hosts = [] \x7d\n"

/-! A record that lists its capabilities in an array. -/

def listedText : String := recordText "Mine" ++ "capabilities = [\"completion\"]\n"

def extendedText : String :=
  recordText "A" ++ "capabilities = [\"completion\", \"embedding\"]\n" ++ filledText

def listedDocument : Table := document (foundRecord (.array [.string "completion"]))

def extendedDocument : Table :=
  document (mergedRecord (.array [.string "completion", .string "embedding"]))

def listedEditor : TomlEdit := editor listedText extendedText listedDocument extendedDocument

theorem listed_spliced : upsertProvider listedDocument registered = .ok extendedDocument := rfl

theorem extended_spliced : upsertProvider extendedDocument registered = .ok extendedDocument := rfl

theorem listed_readsBack : listedEditor.ReadsBack registered := by
  have same : SameValues extendedDocument extendedDocument :=
    ⟨fun _ _ => rfl, _, _, rfl, rfl, rfl⟩
  have readable : listedEditor.parse extendedText = .ok extendedDocument :=
    parse_after (by decide) _ _
  intro text old new parsed upsert
  refine ⟨extendedDocument, readable, ?_⟩
  simp only [listedEditor, editor] at parsed
  split at parsed
  next =>
    cases parsed
    cases listed_spliced.symm.trans upsert
    exact same
  next =>
    split at parsed
    next =>
      cases parsed
      cases extended_spliced.symm.trans upsert
      exact same
    next => cases parsed

theorem listed_written : KeptOrSpliced listedEditor accepted answered "config.toml" registered
    (Utf8.encode listedText) :=
  writeProvider_spliced listed_readsBack registered_probed answered "config.toml" (Utf8.encode listedText)

/-! A record that lists them in an array of tables. -/

def tables : Toml := .arrayOfTables [⟨[("completion", .table ⟨[]⟩)]⟩]

def tabledText : String :=
  recordText "Mine" ++ "\n[[providers.capabilities]]\ncompletion = \x7b\x7d\n"

def writtenText : String :=
  recordText "A" ++ filledText ++ "\n[[providers.capabilities]]\ncompletion = \x7b\x7d\n"

def tabledDocument : Table := document (foundRecord tables)

def writtenDocument : Table := document (mergedRecord tables)

def tabledEditor : TomlEdit := editor tabledText writtenText tabledDocument writtenDocument

/-- The new list is the old one with what it lacks of the capabilities of the provider. -/
def CapabilitiesExtended (provider : ProviderConfig) (record merged : Record) : Prop :=
  ∃ old, (record "capabilities").bind elements = some old ∧
    (merged "capabilities").bind elements = some (old ++ newCapabilities provider old)

theorem capabilities_not_extended :
    writeProvider tabledEditor accepted answered "config.toml" registered (some (Utf8.encode tabledText)) =
      (.ok (), some (Utf8.encode writtenText)) ∧
    tabledEditor.parse tabledText = .ok tabledDocument ∧
    tabledEditor.parse writtenText = .ok writtenDocument ∧
    ∃ record merged : Record, recordsOf tabledDocument = [record] ∧ recordsOf writtenDocument = [merged] ∧
      record "id" = some (.string registered.id) ∧ ¬ CapabilitiesExtended registered record merged := by
  have taken : upsertProvider tabledDocument registered = .ok writtenDocument := rfl
  have parsed : tabledEditor.parse tabledText = .ok tabledDocument := parse_before _ _ _ _
  have reread : tabledEditor.parse writtenText = .ok writtenDocument :=
    parse_after (by decide) _ _
  refine ⟨writeProvider_of_working answered_working (Utf8.decode?_encode _) parsed rfl taken, parsed, reread,
    _, _, rfl, rfl, rfl, ?_⟩
  rintro ⟨old, listed, extended⟩
  cases listed
  cases extended

end OneProvider

end Webfang.Connect
