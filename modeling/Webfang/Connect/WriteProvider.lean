import Webfang.Library.Utf8
import Webfang.Connect.MergeProvider

/-!
# Writing a provider

`write_provider` of `cli/commands/connect.rs`: read the configuration, splice the record of the
probed provider in, and rename the new text over the file. The state is the content of the file;
nobody else writes it meanwhile.
-/
namespace Webfang.Connect

open Library Toml Checks

structure TomlEdit where
  parse : String → Except String Table
  render : Table → String
  /-- The complaint about a document that is well formed and cannot be loaded. -/
  mismatch : String → String

/-- What the operating system answers to the calls of one run. -/
structure Calls where
  createParent : Except IoError Unit
  /-- Whether the path can be looked up at all. -/
  lookup : Except IoError Unit
  read : Except IoError Unit
  reread : Except IoError Unit
  /-- Whether the link that the path may be resolves. -/
  resolve : Except IoError Unit
  /-- The attempts to write the temporary file, each under a name of its own. -/
  writeTemp : Nat → Except IoError Unit
  rename : Except IoError Unit

structure Calls.Working (calls : Calls) : Prop where
  createParent : calls.createParent = .ok ()
  lookup : calls.lookup = .ok ()
  read : calls.read = .ok ()
  reread : calls.reread = .ok ()
  resolve : calls.resolve = .ok ()
  writeTemp : calls.writeTemp 0 = .ok ()
  rename : calls.rename = .ok ()

abbrev File := Option (List UInt8)

/-! ### The splice -/

def providersShapeError : IoError :=
  { kind := .invalidData
    message := "'providers' existe en la configuración pero no es un array de tablas " ++
      "([[providers]]) ni un array de tablas en línea; no se toca el archivo para no corromperlo" }

def convertInlineProviders (document : Table) : Except IoError Table :=
  match document.get "providers" with
  | none => .error providersShapeError
  | some item =>
    match item.intoArrayOfTables with
    | some tables => .ok (document.insert "providers" (.arrayOfTables tables))
    | none =>
      match item with
      | .array [] => .ok (document.insert "providers" (.arrayOfTables []))
      | _ => .error providersShapeError

/-- The document with its `providers` as an array of tables: a missing key is an empty one. -/
def spellProviders (document : Table) : Except IoError Table :=
  let document :=
    if document.contains "providers" then document
    else document.insert "providers" (.arrayOfTables [])
  match (document.get "providers").bind asArrayOfTables with
  | some _ => .ok document
  | none => convertInlineProviders document

def ensureProvidersArray (document : Table) : Except IoError (Table × List Table) := do
  let document ← spellProviders document
  match (document.get "providers").bind asArrayOfTables with
  | some tables => .ok (document, tables)
  | none => .error providersShapeError

def hasId (id : String) (record : Table) : Bool := (record.get "id").bind asStr = some id

/-- The first record of the id is merged; where there is none, the entry goes last. -/
def upsertRecord (id : String) (entry : Table) : List Table → Except IoError (List Table)
  | [] => .ok [entry]
  | record :: rest =>
    if hasId id record then do
      let merged ← mergeProvider record entry
      .ok (merged :: rest)
    else do
      let rest ← upsertRecord id entry rest
      .ok (record :: rest)

def upsertProvider (document : Table) (provider : ProviderConfig) : Except IoError Table := do
  let entry ← provider.toDocument.mapError fun e =>
    ⟨.other, "no se pudo serializar el provider '" ++ provider.id ++ "': " ++ e⟩
  let (document, records) ← ensureProvidersArray document
  let records ← upsertRecord provider.id entry records
  .ok (document.insert "providers" (.arrayOfTables records))

/-! ### What a splice changes -/

/-- The elements of `providers`, in either of its spellings. -/
def providerItems (document : Table) : List Toml :=
  ((document.get "providers").bind elements).getD []

theorem convertInlineProviders_ok {document converted : Table}
    (done : convertInlineProviders document = .ok converted) :
    ∃ records, converted = document.insert "providers" (.arrayOfTables records) ∧
      providerItems document = records.map .table := by
  unfold convertInlineProviders at done
  unfold providerItems
  cases held : document.get "providers" with
  | none =>
    rw [held] at done
    cases done
  | some item =>
    rw [held] at done
    cases conversion : item.intoArrayOfTables with
    | some records =>
      simp only [conversion, Except.ok.injEq] at done
      refine ⟨records, done.symm, ?_⟩
      simp [elements_of_intoArrayOfTables conversion]
    | none =>
      simp only [conversion] at done
      split at done
      next _ _ =>
        cases done
        exact ⟨[], rfl, rfl⟩
      next => cases done

/-- Only `providers` may change its spelling, and it keeps its elements. -/
theorem ensureProvidersArray_ok {document ensured : Table} {records : List Table}
    (done : ensureProvidersArray document = .ok (ensured, records)) :
    (∀ key, key ≠ "providers" → ensured.get key = document.get key) ∧
      providerItems document = records.map .table := by
  unfold ensureProvidersArray at done
  obtain ⟨converted, conversion, final⟩ := bind_eq_ok.mp done
  have read : converted = ensured ∧ converted.get "providers" = some (.arrayOfTables records) := by
    cases held : (converted.get "providers").bind asArrayOfTables with
    | none =>
      rw [held] at final
      cases final
    | some tables =>
      rw [held] at final
      cases final
      obtain ⟨item, under, spelled⟩ := Option.bind_eq_some_iff.mp held
      exact ⟨rfl, by rw [under, asArrayOfTables_eq_some.mp spelled]⟩
  obtain ⟨rfl, spelled⟩ := read
  by_cases present : document.contains "providers" = true
  · rw [spellProviders, if_pos present] at conversion
    cases held : (document.get "providers").bind asArrayOfTables with
    | some tables =>
      rw [held] at conversion
      cases conversion
      refine ⟨fun _ _ => rfl, ?_⟩
      simp [providerItems, spelled, elements]
    | none =>
      rw [held] at conversion
      obtain ⟨tables, rfl, items⟩ := convertInlineProviders_ok conversion
      rw [KeyTable.get_insert_self] at spelled
      cases spelled
      exact ⟨fun _ apart => KeyTable.get_insert_of_ne apart, items⟩
  · -- there is no such key: an empty array of tables takes its place
    rw [spellProviders, if_neg present, KeyTable.get_insert_self] at conversion
    cases conversion
    rw [KeyTable.get_insert_self] at spelled
    cases spelled
    refine ⟨fun _ apart => KeyTable.get_insert_of_ne apart, ?_⟩
    have absent : document.get "providers" = none := by simpa [KeyTable.contains] using present
    simp [providerItems, absent]

theorem ensureProvidersArray_of_tables {document : Table} {records : List Table}
    (spelled : document.get "providers" = some (.arrayOfTables records)) :
    ensureProvidersArray document = .ok (document, records) := by
  have present : document.contains "providers" = true := by simp [KeyTable.contains, spelled]
  have same : spellProviders document = .ok document := by
    rw [spellProviders, if_pos present, spelled]
    rfl
  rw [ensureProvidersArray, same]
  change (match (document.get "providers").bind asArrayOfTables with
    | some tables => Except.ok (document, tables)
    | none => .error providersShapeError) = _
  rw [spelled]
  rfl

/-- The record that takes the entry: the first of its id, or a new last one. -/
inductive Upserted (id : String) (entry : Table) : List Table → List Table → Prop
  | appended {records : List Table} (fresh : ∀ record ∈ records, hasId id record = false) :
    Upserted id entry records (records ++ [entry])
  | merged {before after : List Table} {found merged : Table}
    (fresh : ∀ record ∈ before, hasId id record = false) (here : hasId id found = true)
    (merge : mergeProvider found entry = .ok merged) :
    Upserted id entry (before ++ found :: after) (before ++ merged :: after)

theorem upsertRecord_ok {id : String} {entry : Table} {records result : List Table}
    (done : upsertRecord id entry records = .ok result) : Upserted id entry records result := by
  induction records generalizing result with
  | nil =>
    cases done
    exact @Upserted.appended id entry [] nofun
  | cons record rest ih =>
    unfold upsertRecord at done
    by_cases here : hasId id record = true
    · rw [if_pos here] at done
      obtain ⟨merged, merge, final⟩ := bind_eq_ok.mp done
      cases final
      exact @Upserted.merged id entry [] rest record merged nofun here merge
    · rw [if_neg here] at done
      obtain ⟨later, turn, final⟩ := bind_eq_ok.mp done
      cases final
      have passed : hasId id record = false := by simpa using here
      -- the records passed over are those before the one that is touched
      cases ih turn with
      | appended fresh =>
        exact @Upserted.appended id entry (record :: rest) (List.forall_mem_cons.mpr ⟨passed, fresh⟩)
      | @merged before after found merged fresh here merge =>
        have earlier : ∀ other ∈ record :: before, hasId id other = false :=
          List.forall_mem_cons.mpr ⟨passed, fresh⟩
        exact @Upserted.merged id entry (record :: before) after found merged earlier here merge

theorem upsertRecord_of_first {id : String} {entry found merged : Table} {before after : List Table}
    (fresh : ∀ record ∈ before, hasId id record = false) (here : hasId id found = true)
    (merge : mergeProvider found entry = .ok merged) :
    upsertRecord id entry (before ++ found :: after) = .ok (before ++ merged :: after) := by
  induction before with
  | nil =>
    rw [List.nil_append, upsertRecord, if_pos here, merge]
    rfl
  | cons record rest ih =>
    obtain ⟨passed, fresh⟩ := List.forall_mem_cons.mp fresh
    rw [List.cons_append, upsertRecord, if_neg (by simp [passed]), ih fresh]
    rfl

theorem upsertProvider_ok {document spliced : Table} {provider : ProviderConfig}
    (done : upsertProvider document provider = .ok spliced) :
    ∃ entry records result, provider.toDocument = .ok entry ∧
      providerItems document = records.map .table ∧ Upserted provider.id entry records result ∧
      spliced.get "providers" = some (.arrayOfTables result) ∧
      ∀ key, key ≠ "providers" → spliced.get key = document.get key := by
  obtain ⟨entry, serialised, rest⟩ := bind_eq_ok.mp done
  obtain ⟨⟨ensured, records⟩, ensure, rest⟩ := bind_eq_ok.mp rest
  obtain ⟨result, upsert, final⟩ := bind_eq_ok.mp rest
  obtain ⟨others, items⟩ := ensureProvidersArray_ok ensure
  cases final
  refine ⟨entry, records, result, mapError_eq_ok.mp serialised, items, upsertRecord_ok upsert,
    KeyTable.get_insert_self _ _ _, ?_⟩
  intro key apart
  rw [KeyTable.get_insert_of_ne apart, others key apart]

/-! ### The file -/

variable (edit : TomlEdit) (readers : Readers) (calls : Calls) (path : String)

/-- `toml::from_str::<ConfigDefaults>` -/
def fromStr (text : String) : Except String Unit := do
  let document ← edit.parse text
  if ConfigDefaults.loads readers document then .ok () else .error (edit.mismatch text)

def fileExists (file : File) : Bool := file.isSome && calls.lookup.isOk

/-- `read_to_string`, where the call itself comes to `answer`. -/
def readToString (answer : Except IoError Unit) (file : File) : Except IoError String := do
  calls.lookup
  match file with
  | none => .error ⟨.system 2, "No such file or directory (os error 2)"⟩
  | some bytes =>
    answer
    match Utf8.decode? bytes with
    | some text => .ok text
    | none => .error ⟨.invalidData, "stream did not contain valid UTF-8"⟩

def gateError (e : String) : IoError :=
  { kind := .invalidData
    message := "la configuración en '" ++ path ++ "' no coincide con el documento completo que el " ++
      "run carga (no se toca el archivo para no corromperlo): " ++ e }

def parseError (e : String) : IoError :=
  { kind := .invalidData
    message := "la configuración existente en '" ++ path ++ "' no es TOML válido: " ++ e }

/-- The document to splice into, with the text it was read from. -/
def loadDocument (file : File) : Except IoError (Table × Option String) :=
  if fileExists calls file then do
    let existing ← readToString calls calls.read file
    (fromStr edit readers existing).mapError (gateError path)
    let document ← (edit.parse existing).mapError (parseError path)
    .ok (document, some existing)
  else .ok (KeyTable.empty, none)

def configDriftError : IoError :=
  { kind := .invalidData
    message := "la configuración '" ++ path ++ "' cambió en disco mientras connect la escribía: " ++
      "no se toca el archivo para no perder el registro del otro connect; " ++
      "ejecutá connect de nuevo" }

def ensureConfigUnchanged (file : File) (original : Option String) : Except IoError Unit :=
  match original, readToString calls calls.reread file with
  | some original, .ok current => if original = current then .ok () else .error (configDriftError path)
  | none, .error _ => .ok ()
  | _, _ => .error (configDriftError path)

/-- A name that is taken is left alone, and the next one is tried. -/
def createTemp (writeTemp : Nat → Except IoError Unit) : (attemptsLeft candidate : Nat) → Except IoError Nat
  | attemptsLeft + 2, candidate =>
    match writeTemp candidate with
    | .ok _ => .ok candidate
    | .error e =>
      if e.kind = .alreadyExists then createTemp writeTemp (attemptsLeft + 1) (candidate + 1)
      else .error e
  | _, candidate => (writeTemp candidate).map fun _ => candidate

def tempCreateAttempts : Nat := 3

/-- Everything before the rename leaves the file alone. A path that cannot be looked up is a link
that does not resolve, or a name in a directory that takes no temporary file. -/
def writeAtomically (contents : String) (file : File) : Except IoError Unit × File :=
  let renamed : Except IoError Unit := do
    calls.lookup
    calls.resolve
    let _ ← createTemp calls.writeTemp tempCreateAttempts 0
    calls.rename
  match renamed with
  | .ok _ => (.ok (), some (Utf8.encode contents))
  | .error e => (.error e, file)

def commitSplice (document : Table) (original : Option String) (file : File) : Except IoError Unit × File :=
  match ensureConfigUnchanged calls path file original with
  | .error e => (.error e, file)
  | .ok _ => writeAtomically calls (edit.render document) file

/-- What `write_provider` does before it commits. -/
def spliceFile (provider : ProviderConfig) (file : File) : Except IoError (Table × Option String) := do
  calls.createParent
  let (document, original) ← loadDocument edit readers calls path file
  let document ← upsertProvider document provider
  .ok (document, original)

def writeProvider (provider : ProviderConfig) (file : File) : Except IoError Unit × File :=
  match spliceFile edit readers calls path provider file with
  | .error e => (.error e, file)
  | .ok (document, original) => commitSplice edit calls path document original file

/-! ### What a write does to the file -/

variable {edit readers calls path} {provider : ProviderConfig}

theorem fromStr_ok {text : String} {document : Table} (parsed : edit.parse text = .ok document) :
    fromStr edit readers text = .ok () ↔ ConfigDefaults.loads readers document = true := by
  rw [fromStr, parsed]
  exact guard_eq_ok

theorem readToString_ok {answer : Except IoError Unit} {bytes : List UInt8} {text : String} :
    readToString calls answer (some bytes) = .ok text ↔
      calls.lookup = .ok () ∧ answer = .ok () ∧ Utf8.decode? bytes = some text := by
  unfold readToString
  rw [then_eq_ok]
  apply and_congr_right
  intro _
  rw [then_eq_ok]
  apply and_congr_right
  intro _
  cases Utf8.decode? bytes <;> simp

theorem writeAtomically_error {contents : String} {file after : File} {e : IoError}
    (failed : writeAtomically calls contents file = (.error e, after)) : after = file := by
  unfold writeAtomically at failed
  dsimp only at failed
  split at failed
  next => cases failed
  next =>
    cases failed
    rfl

theorem writeAtomically_ok {contents : String} {file after : File}
    (done : writeAtomically calls contents file = (.ok (), after)) :
    calls.lookup = .ok () ∧ after = some (Utf8.encode contents) := by
  unfold writeAtomically at done
  dsimp only at done
  split at done
  next renamed =>
    cases done
    exact ⟨(then_eq_ok.mp renamed).1, rfl⟩
  next => cases done

theorem writeAtomically_of_working (working : calls.Working) (contents : String) (file : File) :
    writeAtomically calls contents file = (.ok (), some (Utf8.encode contents)) := by
  have created : createTemp calls.writeTemp tempCreateAttempts 0 = .ok 0 := by
    rw [tempCreateAttempts, createTemp, working.writeTemp]
  rw [writeAtomically, working.lookup, working.resolve, created, working.rename]
  rfl

theorem writeProvider_error {file after : File} {e : IoError}
    (failed : writeProvider edit readers calls path provider file = (.error e, after)) :
    after = file := by
  unfold writeProvider at failed
  split at failed
  next =>
    cases failed
    rfl
  next =>
    unfold commitSplice at failed
    split at failed
    next =>
      cases failed
      rfl
    next => exact writeAtomically_error failed

/-- A write that succeeds on an existing file has read and gated it, and written the splice. -/
theorem writeProvider_ok {bytes : List UInt8} {after : File}
    (done : writeProvider edit readers calls path provider (some bytes) = (.ok (), after)) :
    ∃ text old new, Utf8.decode? bytes = some text ∧ edit.parse text = .ok old ∧
      ConfigDefaults.loads readers old = true ∧ upsertProvider old provider = .ok new ∧
      after = some (Utf8.encode (edit.render new)) := by
  unfold writeProvider at done
  split at done
  next => cases done
  next document original spliced =>
    unfold commitSplice at done
    split at done
    next => cases done
    next =>
      obtain ⟨lookup, written⟩ := writeAtomically_ok done
      obtain ⟨⟨old, read⟩, load, rest⟩ := bind_eq_ok.mp (then_eq_ok.mp spliced).2
      obtain ⟨new, upsert, final⟩ := bind_eq_ok.mp rest
      cases final
      have exist : fileExists calls (some bytes) = true := by
        rw [fileExists, lookup]
        rfl
      rw [loadDocument, if_pos exist] at load
      obtain ⟨text, reading, rest⟩ := bind_eq_ok.mp load
      obtain ⟨gate, rest⟩ := then_eq_ok.mp rest
      obtain ⟨parsed, parse, final⟩ := bind_eq_ok.mp rest
      cases final
      have parse := mapError_eq_ok.mp parse
      exact ⟨text, old, document, (readToString_ok.mp reading).2.2, parse,
        (fromStr_ok parse).mp (mapError_eq_ok.mp gate), upsert, written⟩

/-- Where every call works, a file that can be loaded takes every splice that is not refused. -/
theorem writeProvider_of_working (working : calls.Working) {bytes : List UInt8} {text : String}
    {old new : Table} (decoded : Utf8.decode? bytes = some text) (parsed : edit.parse text = .ok old)
    (loads : ConfigDefaults.loads readers old = true) (upsert : upsertProvider old provider = .ok new) :
    writeProvider edit readers calls path provider (some bytes) =
      (.ok (), some (Utf8.encode (edit.render new))) := by
  have exist : fileExists calls (some bytes) = true := by
    rw [fileExists, working.lookup]
    rfl
  have read := readToString_ok.mpr ⟨working.lookup, working.read, decoded⟩
  have reread := readToString_ok.mpr ⟨working.lookup, working.reread, decoded⟩
  have load : loadDocument edit readers calls path (some bytes) = .ok (old, some text) := by
    rw [loadDocument, if_pos exist, read]
    change (Except.mapError (gateError path) (fromStr edit readers text) >>= fun _ =>
      Except.mapError (parseError path) (edit.parse text) >>= fun document =>
        Except.ok (document, some text)) = _
    rw [(fromStr_ok parsed).mpr loads, parsed]
    rfl
  have unchanged : ensureConfigUnchanged calls path (some bytes) (some text) = .ok () := by
    simp only [ensureConfigUnchanged, reread, if_true]
  have spliced : spliceFile edit readers calls path provider (some bytes) = .ok (new, some text) := by
    rw [spliceFile, working.createParent, load]
    change (upsertProvider old provider >>= fun document => Except.ok (document, some text)) = _
    rw [upsert]
    rfl
  rw [writeProvider, spliced]
  change commitSplice edit calls path new (some text) (some bytes) = _
  rw [commitSplice, unchanged]
  exact writeAtomically_of_working working _ _

end Webfang.Connect
