import Webfang.Connect.WriteProvider

/-!
# Settled records

A record that took an entry loads like the record and the entry did, and takes the same entry
again without a change.
-/
namespace Webfang.Connect

open Library Toml ProviderConfig

/-! ### The loaded configuration -/

variable {readers : Readers}

theorem optionLoads_or {key : String} {a b : Option Toml} (first : optionLoads readers key a = true)
    (second : optionLoads readers key b = true) : optionLoads readers key (a.or b) = true := by
  cases a with
  | none => exact second
  | some value => exact first

theorem tableLoads_congr {record other : Table} (same : other.get = record.get) :
    tableLoads readers other = tableLoads readers record := by
  rw [tableLoads, tableLoads, same]

theorem capabilities_load {old new : List Toml}
    (first : optionLoads readers "capabilities" (some (.array old)) = true)
    (second : optionLoads readers "capabilities" (some (.array new)) = true) :
    optionLoads readers "capabilities" (some (.array (new.foldl (AppendNew.step asStr) old))) = true := by
  have first : ∀ item ∈ old, Capability.reads item = true := List.all_eq_true.mp first
  have second : ∀ item ∈ new, Capability.reads item = true := List.all_eq_true.mp second
  apply List.all_eq_true.mpr
  intro item member
  rcases AppendNew.mem_foldl_step member with held | added
  · exact first item held
  · exact second item added

theorem tableLoads_merged {existing incoming merged : Table} {new : List Toml}
    (found : tableLoads readers existing = true) (entry : tableLoads readers incoming = true)
    (listed : incoming.get "capabilities" = some (.array new))
    (merge : mergeProvider existing incoming = .ok merged) : tableLoads readers merged = true := by
  apply List.all_eq_true.mpr
  intro key field
  have old := List.all_eq_true.mp found key field
  have probed := List.all_eq_true.mp entry key field
  rw [(mergeProvider_ok merge).2, mergedValue]
  by_cases probe : key ∈ probeOwned
  · rw [if_pos probe]
    exact optionLoads_or probed old
  · rw [if_neg probe]
    by_cases operator : key ∈ operatorOwned
    · rw [if_pos operator]
      exact optionLoads_or old probed
    · rw [if_neg operator]
      by_cases same : key = "capabilities"
      · subst same
        rw [if_pos rfl, listed]
        rw [listed] at probed
        change optionLoads readers "capabilities"
          (mergedCapabilities (existing.get "capabilities") (.array new)) = true
        cases held : existing.get "capabilities" with
        | none =>
          -- the field is required
          rw [held] at old
          cases old
        | some value =>
          rw [held] at old
          cases value with
          | array caps => exact capabilities_load old probed
          | _ => exact old
      · rw [if_neg same]
        exact old

theorem loads_iff {document : Table} :
    ConfigDefaults.loads readers document = true ↔ ∀ key ∈ ConfigDefaults.fields, ∀ value,
      document.get key = some value → ConfigDefaults.fieldLoads readers key value = true := by
  unfold ConfigDefaults.loads
  rw [List.all_eq_true]
  apply forall_congr'
  intro key
  apply imp_congr_right
  intro _
  cases document.get key <;> simp

theorem tables_load {document : Table} {records : List Table}
    (loads : ConfigDefaults.loads readers document = true)
    (items : providerItems document = records.map .table) :
    ∀ record ∈ records, tableLoads readers record = true := by
  intro record member
  cases held : document.get "providers" with
  | none =>
    rw [providerItems, held] at items
    rw [List.map_eq_nil_iff.mp items.symm] at member
    cases member
  | some value =>
    have read : value.isVecOf (ProviderConfig.loads readers) = true :=
      loads_iff.mp loads "providers" (by decide) value held
    rw [providerItems, held, Option.bind_some] at items
    cases spelled : value.elements with
    | none =>
      rw [isVecOf, spelled] at read
      cases read
    | some elements =>
      rw [isVecOf, spelled] at read
      rw [spelled, Option.getD_some] at items
      exact List.all_eq_true.mp read (.table record) (items ▸ List.mem_map_of_mem member)

/-! ### A record that is settled -/

/-- A merge of the entry into this record would change nothing. -/
structure SettledRecord (entry record : Table) : Prop where
  endpoint : sameEndpoint record entry = true
  values : ∀ key, mergedValue record entry key = record.get key

theorem SettledRecord.congr {entry record other : Table} (settled : SettledRecord entry record)
    (same : other.get = record.get) : SettledRecord entry other where
  endpoint := by
    rw [sameEndpoint, same]
    exact settled.endpoint
  values key := by
    rw [mergedValue, same]
    exact settled.values key

variable {provider : ProviderConfig} {entry : Table}

theorem hasId_iff {id : String} {record : Table} :
    hasId id record = true ↔ record.get "id" = some (.string id) := by
  unfold hasId
  rw [decide_eq_true_iff, Option.bind_eq_some_iff]
  constructor
  · rintro ⟨value, held, text⟩
    rw [held, asStr_eq_some.mp text]
  · intro held
    exact ⟨_, held, rfl⟩

theorem sameEndpoint_of_get {record : Table} {url : String}
    (listed : entry.get "base_url" = some (.string url)) :
    sameEndpoint record entry = true ↔ record.get "base_url" = some (.string url) := by
  unfold sameEndpoint
  rw [listed]
  cases held : record.get "base_url" with
  | none => simp
  | some value => cases value <;> simp [asStr]

theorem asStr_name_inj (b c : Capability)
    (same : asStr (.string b.name) = asStr (.string c.name)) : b = c :=
  Capability.name_inj.mp (Option.some.inj same)

def newCapabilities (provider : ProviderConfig) (old : List Toml) : List Toml :=
  (provider.capabilities.filter fun capability =>
    !old.any fun item => item.asStr = some capability.name).eraseDups.map fun capability =>
      .string capability.name

theorem foldl_capabilities (old : List Toml) :
    provider.capabilityItems.foldl (AppendNew.step asStr) old = old ++ newCapabilities provider old :=
  AppendNew.foldl_step asStr_name_inj old provider.capabilities

theorem foldl_capabilities_again (old : List Toml) :
    let items := provider.capabilityItems.foldl (AppendNew.step asStr) old
    provider.capabilityItems.foldl (AppendNew.step asStr) items = items :=
  AppendNew.foldl_step_of_held asStr_name_inj
    (AppendNew.held_of_foldl_step asStr_name_inj old provider.capabilities)

theorem foldl_capabilities_self :
    provider.capabilityItems.foldl (AppendNew.step asStr) provider.capabilityItems =
      provider.capabilityItems := by
  apply AppendNew.foldl_step_of_held asStr_name_inj
  intro capability member
  exact ⟨_, List.mem_map_of_mem member, rfl⟩

theorem mergedCapabilities_again (held : Option Toml) :
    mergedCapabilities (mergedCapabilities held (.array provider.capabilityItems))
        (.array provider.capabilityItems) =
      mergedCapabilities held (.array provider.capabilityItems) := by
  -- what the first merge appended is there for the second
  cases held with
  | none => exact congrArg (fun items => some (Toml.array items)) (foldl_capabilities_again [])
  | some value =>
    cases value with
    | array old => exact congrArg (fun items => some (Toml.array items)) (foldl_capabilities_again old)
    | _ => rfl

/-- A merged record takes the same entry again without a change. -/
theorem settled_merged {found merged : Table} (serialised : provider.toDocument = .ok entry)
    (merge : mergeProvider found entry = .ok merged) : SettledRecord entry merged where
  endpoint := by
    have listed : entry.get "base_url" = some (.string provider.baseUrl) :=
      get_toDocument serialised "base_url"
    rw [sameEndpoint_of_get listed, (mergeProvider_ok merge).2, mergedValue,
      if_pos (by decide), listed, Option.some_or]
  values key := by
    have listed : entry.get "capabilities" = some (.array provider.capabilityItems) :=
      get_toDocument serialised "capabilities"
    have read := (mergeProvider_ok merge).2
    rw [mergedValue]
    by_cases probe : key ∈ probeOwned
    · rw [if_pos probe, read, mergedValue, if_pos probe]
      cases entry.get key <;> rfl
    · rw [if_neg probe]
      by_cases operator : key ∈ operatorOwned
      · rw [if_pos operator, read, mergedValue, if_neg probe, if_pos operator]
        cases found.get key <;> cases entry.get key <;> rfl
      · rw [if_neg operator]
        by_cases same : key = "capabilities"
        · subst same
          rw [if_pos rfl, listed, read, mergedValue, if_neg probe, if_neg operator, if_pos rfl, listed]
          exact mergedCapabilities_again _
        · rw [if_neg same]

theorem settled_entry (serialised : provider.toDocument = .ok entry) : SettledRecord entry entry where
  endpoint := by
    have listed : entry.get "base_url" = some (.string provider.baseUrl) :=
      get_toDocument serialised "base_url"
    exact (sameEndpoint_of_get listed).mpr listed
  values key := by
    have listed : entry.get "capabilities" = some (.array provider.capabilityItems) :=
      get_toDocument serialised "capabilities"
    rw [mergedValue, Option.or_self]
    by_cases same : key = "capabilities"
    · subst same
      rw [if_neg (by decide), if_neg (by decide), if_pos rfl, listed]
      exact congrArg (fun items => some (Toml.array items)) foldl_capabilities_self
    · rw [if_neg same]
      simp

/-- The record that took the entry is the first of its id, and settled. -/
theorem Upserted.place {records result : List Table} (serialised : provider.toDocument = .ok entry)
    (upserted : Upserted provider.id entry records result) :
    ∃ before record after, result = before ++ record :: after ∧
      (∀ other ∈ before, hasId provider.id other = false) ∧ hasId provider.id record = true ∧
      SettledRecord entry record := by
  cases upserted with
  | appended fresh =>
    exact ⟨records, entry, [], rfl, fresh, hasId_iff.mpr (get_toDocument serialised "id"),
      settled_entry serialised⟩
  | @merged before after found merged fresh here merge =>
    have kept : merged.get "id" = found.get "id" := (mergeProvider_ok merge).2 "id"
    refine ⟨before, merged, after, rfl, fresh, ?_, settled_merged serialised merge⟩
    rw [hasId_iff, kept]
    exact hasId_iff.mp here

theorem hasId_congr {id : String} {record other : Table} (same : other.get = record.get) :
    hasId id other = hasId id record := by
  rw [hasId, hasId, same]

/-- Records that read as those of a splice take the entry again, and read as before. -/
theorem upsertRecord_again {records result others : List Table}
    (serialised : provider.toDocument = .ok entry)
    (upserted : Upserted provider.id entry records result)
    (same : others.map KeyTable.get = result.map KeyTable.get) :
    ∃ again, upsertRecord provider.id entry others = .ok again ∧
      again.map KeyTable.get = others.map KeyTable.get := by
  obtain ⟨before, record, after, rfl, fresh, here, settled⟩ := upserted.place serialised
  rw [List.map_append, List.map_cons] at same
  obtain ⟨front, back, rfl, front_same, back_same⟩ := List.map_eq_append_iff.mp same
  obtain ⟨other, rest, rfl, other_same, -⟩ := List.map_eq_cons_iff.mp back_same
  have settled := settled.congr other_same
  obtain ⟨merged, merge⟩ := mergeProvider_of_sameEndpoint settled.endpoint
  have passed : ∀ earlier ∈ front, hasId provider.id earlier = false := by
    intro earlier member
    have read : earlier.get ∈ before.map KeyTable.get := front_same ▸ List.mem_map_of_mem member
    obtain ⟨source, inside, equal⟩ := List.mem_map.mp read
    rw [hasId_congr equal.symm]
    exact fresh source inside
  have taken : hasId provider.id other = true := by rw [hasId_congr other_same, here]
  refine ⟨_, upsertRecord_of_first passed taken merge, ?_⟩
  have unchanged : merged.get = other.get := by
    funext key
    rw [(mergeProvider_ok merge).2, settled.values]
  simp only [List.map_append, List.map_cons, unchanged]

end Webfang.Connect
