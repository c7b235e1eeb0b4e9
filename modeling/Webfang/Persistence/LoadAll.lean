import Mathlib.Data.List.Perm.Basic
import Webfang.Library.Checks
import Webfang.Library.KeyedList
import Webfang.Persistence.LogRecovery

/-!
# Loading the whole log

`CrawlResultRepositoryImpl::load_all` reads the frames of the log one after the other; the
`load_all` of the trait asks for the URLs and looks each one up. The first gives every frame,
the second the last frame of every URL in the index.
-/
namespace Webfang.Persistence

open Library Frames LogState

section Logs

variable {Record : Type} (codec : RecordCodec Record)

/-! ### The two ways -/

/-- A payload, as `ScrapedContent`. -/
def decode (payload : List UInt8) : Except String Record :=
  (codec.fromSlice payload).mapError fun e => "deserialización fallida: " ++ e

/-- `CrawlResultRepositoryImpl::load_all`. A file that does not exist is an empty one. -/
def loadAll (bytes : List UInt8) : Except String (List Record) :=
  if bytes.length < 4 then .ok []
  else
    let len := fromLeBytes (bytes.take 4)
    let rest := bytes.drop 4
    if rest.length < len then .ok []
    else
      match decode codec (rest.take len) with
      | .error e => .error e
      | .ok content =>
        match loadAll (rest.drop (len + 1)) with
        | .error e => .error e
        | .ok results => .ok (content :: results)
termination_by bytes.length
decreasing_by simp only [List.length_drop]; omega

def transpose {ε α : Type} : Except ε (Option α) → Option (Except ε α)
  | .ok none => none
  | .ok (some a) => some (.ok a)
  | .error e => some (.error e)

/-- The `load_all` of the trait: the URLs that are listed, each looked up. -/
def defaultLoadAll (log : List UInt8) (index : OffsetIndex) (urls : List String) : Except String (List Record) :=
  (urls.filterMap fun url => transpose (findByUrl codec log index url)).mapM id

/-- `get_all_urls`: the keys of the index, in any order. -/
structure Lists (index : OffsetIndex) (urls : List String) : Prop where
  nodup : urls.Nodup
  mem : ∀ url, url ∈ urls ↔ (index url).isSome = true

/-! ### The log -/

/-- What a frame of the log holds: a record that was saved, or something foreign. -/
inductive LogEntry (Record : Type) where
  | saved (record : Record)
  | foreign (payload : List UInt8)

def LogEntry.payload : LogEntry Record → List UInt8
  | .saved record => codec.toVec record
  | .foreign payload => payload

def logOf (entries : List (LogEntry Record)) : List UInt8 := (entries.map (LogEntry.payload codec)).flatMap frame

def latestPayload (payloads : List (List UInt8)) (url : String) : Option (List UInt8) :=
  payloads.foldl (fun held payload => if codec.urlField payload = some url then some payload else held) none

variable {codec}

theorem latestPayload_append (payloads : List (List UInt8)) (payload : List UInt8) (url : String) :
    latestPayload codec (payloads ++ [payload]) url =
      if codec.urlField payload = some url then some payload else latestPayload codec payloads url := by
  unfold latestPayload
  rw [List.foldl_append]
  rfl

theorem latestPayload_mem {payloads : List (List UInt8)} {url : String} {payload : List UInt8}
    (here : latestPayload codec payloads url = some payload) :
    payload ∈ payloads ∧ codec.urlField payload = some url := by
  induction payloads using List.reverseRecOn with
  | nil => cases here
  | append_singleton payloads last ih =>
    rw [latestPayload_append] at here
    split at here
    next same =>
      cases here
      exact ⟨List.mem_concat_self, same⟩
    next => exact ⟨List.mem_append_left _ (ih here).1, (ih here).2⟩

theorem latestPayload_isSome {payloads : List (List UInt8)} {url : String} :
    (latestPayload codec payloads url).isSome = true ↔ url ∈ payloads.filterMap codec.urlField := by
  induction payloads using List.reverseRecOn with
  | nil => exact iff_of_false nofun nofun
  | append_singleton payloads last ih =>
    rw [latestPayload_append, List.filterMap_append, List.mem_append, ← ih]
    by_cases same : codec.urlField last = some url
    · simp [same]
    · simp [same]

theorem indexFrame_same {url : String} {payload : List UInt8} (keyed : codec.urlField payload = some url)
    (index : OffsetIndex) (offset : Nat) : indexFrame codec index (offset, payload) url = some offset := by
  simp [indexFrame, keyed, OffsetIndex.insert]

theorem indexFrame_other {url : String} {payload : List UInt8} (other : codec.urlField payload ≠ some url)
    (index : OffsetIndex) (offset : Nat) : indexFrame codec index (offset, payload) url = index url := by
  unfold indexFrame
  cases keyed : codec.urlField payload with
  | none => rfl
  | some key =>
    have apart : url ≠ key := by
      rintro rfl
      exact other keyed
    simp [OffsetIndex.insert, apart]

theorem index_of_latest (payloads : List (List UInt8)) (url : String) :
    match latestPayload codec payloads url with
    | none => ((located 0 payloads).foldl (indexFrame codec) fun _ => none) url = none
    | some payload => ∃ offset, ((located 0 payloads).foldl (indexFrame codec) fun _ => none) url = some offset ∧
        At (payloads.flatMap frame) offset payload := by
  induction payloads using List.reverseRecOn with
  | nil => rfl
  | append_singleton payloads last ih =>
    have log : (payloads ++ [last]).flatMap frame = payloads.flatMap frame ++ frame last := by simp
    rw [latestPayload_append, located_append_singleton, List.foldl_append, List.foldl_cons, List.foldl_nil,
      log, Nat.zero_add]
    by_cases keyed : codec.urlField last = some url
    · -- the new frame takes the URL over
      rw [if_pos keyed]
      exact ⟨_, indexFrame_same keyed _ _, at_length _ (prefix_frame last)⟩
    · rw [if_neg keyed]
      simp only [indexFrame_other keyed]
      split at ih
      next => exact ih
      next payload here =>
        obtain ⟨offset, known, there⟩ := ih
        exact ⟨offset, known, there.append _⟩

/-- `load_all` reads what a scan finds, frame by frame. -/
theorem loadAll_eq (offset : Nat) (bytes : List UInt8) :
    loadAll codec bytes = ((scanFrom offset bytes).map Prod.snd).mapM (decode codec) := by
  induction bytes using loadAll.induct codec generalizing offset with
  | case1 bytes cut =>
    rw [loadAll, scanFrom, if_pos cut, if_pos cut]
    rfl
  | case2 bytes enough len rest torn =>
    rw [loadAll, scanFrom, if_neg enough, if_neg enough, if_pos torn, if_pos torn]
    rfl
  | case3 bytes enough len rest whole e failed =>
    rw [loadAll, scanFrom, if_neg enough, if_neg enough, if_neg whole, if_neg whole]
    simp only [len, rest] at failed
    simp only [List.map_cons, List.mapM_cons, failed]
    rfl
  | case4 bytes enough len rest whole content here e failed ih =>
    rw [loadAll, scanFrom, if_neg enough, if_neg enough, if_neg whole, if_neg whole]
    simp only [len, rest] at here failed ih
    simp only [List.map_cons, List.mapM_cons, here, failed, ← ih]
    rfl
  | case5 bytes enough len rest whole content here results there ih =>
    rw [loadAll, scanFrom, if_neg enough, if_neg enough, if_neg whole, if_neg whole]
    simp only [len, rest] at here there ih
    simp only [List.map_cons, List.mapM_cons, here, there, ← ih]
    rfl

theorem located_snd (offset : Nat) (payloads : List (List UInt8)) :
    (located offset payloads).map Prod.snd = payloads := by
  induction payloads generalizing offset with
  | nil => rfl
  | cons payload rest ih => rw [located, List.map_cons, ih]

section Framed

variable {payloads : List (List UInt8)} (short : ∀ payload ∈ payloads, payload.length < 2 ^ 32)
include short

theorem scanFrom_payloads : scanFrom 0 (payloads.flatMap frame) = located 0 payloads := by
  have whole := scanFrom_frames short 0 []
  rw [List.append_nil] at whole
  rw [whole, scanFrom, if_pos (by simp), List.append_nil]

/-- A look-up on a reopened log finds the last payload of the URL. -/
theorem findByUrl_latest (url : String) :
    transpose (findByUrl codec (payloads.flatMap frame) (recoverIndex codec (payloads.flatMap frame)) url) =
      (latestPayload codec payloads url).map (decode codec) := by
  have leads := @index_of_latest _ codec payloads url
  unfold findByUrl recoverIndex
  rw [recoverFrom_eq, scanFrom_payloads short]
  cases here : latestPayload codec payloads url with
  | none =>
    rw [here] at leads
    rw [leads]
    rfl
  | some payload =>
    rw [here] at leads
    obtain ⟨offset, known, there⟩ := leads
    obtain ⟨enough, length, whole, read⟩ := there.read (short payload (latestPayload_mem here).1)
    rw [known]
    dsimp only
    rw [if_neg (by omega), length, if_neg (by omega), read, Option.map_some, decode]
    cases codec.fromSlice payload <;> rfl

theorem index_isSome (url : String) :
    (recoverIndex codec (payloads.flatMap frame) url).isSome = true ↔ url ∈ payloads.filterMap codec.urlField := by
  have leads := @index_of_latest _ codec payloads url
  rw [← latestPayload_isSome]
  unfold recoverIndex
  rw [recoverFrom_eq, scanFrom_payloads short]
  cases here : latestPayload codec payloads url with
  | none =>
    rw [here] at leads
    rw [show _ = none from leads]
    rfl
  | some payload =>
    rw [here] at leads
    obtain ⟨offset, known, -⟩ := leads
    rw [known]
    simp

theorem loadAll_payloads : loadAll codec (payloads.flatMap frame) = payloads.mapM (decode codec) := by
  rw [loadAll_eq 0, scanFrom_payloads short, located_snd]

end Framed

/-! ### Where they agree -/

/-- Both give a collection, the same up to order, and it is the last content of every URL that
is listed, once each. -/
def Agree (codec : RecordCodec Record) (payloads : List (List UInt8)) (urls : List String)
    (fast slow : Except String (List Record)) : Prop :=
  ∃ all each, fast = .ok all ∧ slow = .ok each ∧ all.Perm each ∧
    each.map .ok = urls.filterMap fun url => (latestPayload codec payloads url).map (decode codec)

/-- Every payload is a record with a URL, and no two have the same one. -/
structure EachOnce (codec : RecordCodec Record) (payloads : List (List UInt8)) : Prop where
  reads : ∀ payload ∈ payloads, ∃ record, codec.fromSlice payload = .ok record
  keyed : ∀ payload ∈ payloads, (codec.urlField payload).isSome = true
  once : (payloads.filterMap codec.urlField).Nodup

theorem decode_eq_ok {payload : List UInt8} {record : Record} :
    decode codec payload = .ok record ↔ codec.fromSlice payload = .ok record := Checks.mapError_eq_ok

theorem defaultLoadAll_eq_ok {payloads : List (List UInt8)} (short : ∀ payload ∈ payloads, payload.length < 2 ^ 32)
    {urls : List String} {each : List Record} :
    defaultLoadAll codec (payloads.flatMap frame) (recoverIndex codec (payloads.flatMap frame)) urls = .ok each ↔
      each.map .ok = urls.filterMap fun url => (latestPayload codec payloads url).map (decode codec) := by
  unfold defaultLoadAll
  simp only [findByUrl_latest short]
  rw [Checks.mapM_eq_ok, List.map_id, eq_comm]

/-- Under distinct URLs the last payload of a URL is its only one. -/
theorem EachOnce.latest {payloads : List (List UInt8)} (each : EachOnce codec payloads) {payload : List UInt8}
    (member : payload ∈ payloads) {url : String} (keyed : codec.urlField payload = some url) :
    latestPayload codec payloads url = some payload := by
  have listed : url ∈ payloads.filterMap codec.urlField := List.mem_filterMap.mpr ⟨payload, member, keyed⟩
  obtain ⟨last, here⟩ := Option.isSome_iff_exists.mp (latestPayload_isSome.mpr listed)
  obtain ⟨there, same⟩ := latestPayload_mem here
  rw [here, KeyedList.eq_of_nodup_filterMap each.once there member same keyed]

section Agreement

variable {payloads : List (List UInt8)} (short : ∀ payload ∈ payloads, payload.length < 2 ^ 32)
  {urls : List String} (lists : Lists (recoverIndex codec (payloads.flatMap frame)) urls)
include short lists

theorem mem_urls {url : String} : url ∈ urls ↔ url ∈ payloads.filterMap codec.urlField :=
  (lists.mem url).trans (index_isSome short url)

theorem EachOnce.agree (each : EachOnce codec payloads) :
    Agree codec payloads urls (loadAll codec (payloads.flatMap frame))
      (defaultLoadAll codec (payloads.flatMap frame) (recoverIndex codec (payloads.flatMap frame)) urls) := by
  -- the URLs that are listed are those of the frames
  have listed : urls.Perm (payloads.filterMap codec.urlField) :=
    (List.perm_ext_iff_of_nodup lists.nodup each.once).mpr fun url => mem_urls short lists
  have frames : (payloads.filterMap codec.urlField).filterMap
      (fun url => (latestPayload codec payloads url).map (decode codec)) = payloads.map (decode codec) := by
    rw [List.filterMap_filterMap, ← List.filterMap_eq_map]
    apply List.filterMap_congr
    intro payload member
    obtain ⟨url, keyed⟩ := Option.isSome_iff_exists.mp (each.keyed payload member)
    simp [keyed, each.latest member keyed]
  have contents := listed.filterMap fun url => (latestPayload codec payloads url).map (decode codec)
  rw [frames] at contents
  have decoded : ∀ payload ∈ payloads, ∃ record, decode codec payload = .ok record := by
    intro payload member
    obtain ⟨record, read⟩ := each.reads payload member
    exact ⟨record, decode_eq_ok.mpr read⟩
  obtain ⟨all, loaded⟩ := Checks.exists_map_ok.mpr decoded
  obtain ⟨found, looked⟩ : ∃ found : List Record,
      (urls.filterMap fun url => (latestPayload codec payloads url).map (decode codec)) = found.map .ok := by
    rw [← List.map_id (urls.filterMap _)]
    refine Checks.exists_map_ok.mpr fun result member => ?_
    obtain ⟨payload, here, rfl⟩ := List.mem_map.mp (contents.mem_iff.mp member)
    exact decoded payload here
  refine ⟨all, found, ?_, (defaultLoadAll_eq_ok short).mpr looked.symm, ?_, looked.symm⟩
  · rw [loadAll_payloads short, Checks.mapM_eq_ok, loaded]
  · have same : (found.map (Except.ok (ε := String))).Perm (all.map .ok) := by
      rw [← looked, ← loaded]
      exact contents
    exact ((List.map_perm_map_iff fun _ _ => Except.ok.inj).mp same).symm

theorem eachOnce_of_agree (agree : Agree codec payloads urls (loadAll codec (payloads.flatMap frame))
    (defaultLoadAll codec (payloads.flatMap frame) (recoverIndex codec (payloads.flatMap frame)) urls)) :
    EachOnce codec payloads := by
  obtain ⟨all, each, fast, slow, perm, contents⟩ := agree
  rw [loadAll_payloads short, Checks.mapM_eq_ok] at fast
  -- as many frames as URLs that are listed
  have frames : all.length = payloads.length := by simpa using congrArg List.length fast.symm
  have found : each.length = urls.length := by
    have lengths := congrArg List.length contents
    rw [List.length_map, List.length_filterMap_eq_countP] at lengths
    rw [lengths, List.countP_eq_length]
    intro url member
    simpa using latestPayload_isSome.mpr ((mem_urls short lists).mp member)
  have subset : urls ⊆ payloads.filterMap codec.urlField := fun url => (mem_urls short lists).mp
  have fewer := List.length_filterMap_le codec.urlField payloads
  have long : (payloads.filterMap codec.urlField).length ≤ urls.length := by
    rw [← found, ← perm.length_eq, frames]
    exact fewer
  have keys := (List.subperm_of_subset lists.nodup subset).perm_of_length_le long
  refine ⟨fun payload member => ?_, ?_, keys.nodup_iff.mp lists.nodup⟩
  · obtain ⟨record, here⟩ := Checks.exists_map_ok.mp ⟨all, fast⟩ payload member
    exact ⟨record, decode_eq_ok.mp here⟩
  · have full : (payloads.filterMap codec.urlField).length = payloads.length := by
      rw [← keys.length_eq, ← found, ← perm.length_eq, frames]
    rw [List.length_filterMap_eq_countP] at full
    exact List.countP_eq_length.mp full

end Agreement

/-- What was not saved is a record with a URL, and no two frames have the same URL. -/
structure SavedOnce (codec : RecordCodec Record) (entries : List (LogEntry Record)) : Prop where
  foreign : ∀ payload, .foreign payload ∈ entries →
    (∃ record, codec.fromSlice payload = .ok record) ∧ (codec.urlField payload).isSome = true
  once : ((entries.map (LogEntry.payload codec)).filterMap codec.urlField).Nodup

/-- What was saved reads back, and has its URL. -/
theorem savedOnce_iff {entries : List (LogEntry Record)} :
    SavedOnce codec entries ↔ EachOnce codec (entries.map (LogEntry.payload codec)) := by
  constructor
  · rintro ⟨foreign, once⟩
    refine ⟨fun payload member => ?_, fun payload member => ?_, once⟩
    · obtain ⟨entry, here, rfl⟩ := List.mem_map.mp member
      cases entry with
      | saved record => exact ⟨record, codec.fromSlice_toVec record⟩
      | foreign payload => exact (foreign payload here).1
    · obtain ⟨entry, here, rfl⟩ := List.mem_map.mp member
      cases entry with
      | saved record => simp [LogEntry.payload, codec.urlField_toVec]
      | foreign payload => exact (foreign payload here).2
  · rintro ⟨reads, keyed, once⟩
    refine ⟨fun payload member => ?_, once⟩
    have here : payload ∈ entries.map (LogEntry.payload codec) := List.mem_map.mpr ⟨.foreign payload, member, rfl⟩
    exact ⟨reads payload here, keyed payload here⟩

/-- **Loading everything**: on a log of whole frames, reopened, the scan gives what the look-up
of every URL gives exactly when every frame is a record with a URL of its own. -/
theorem loadAll_agrees_iff (codec : RecordCodec Record) (entries : List (LogEntry Record)) (urls : List String)
    (short : ∀ entry ∈ entries, (entry.payload codec).length < 2 ^ 32)
    (lists : Lists (recoverIndex codec (logOf codec entries)) urls) :
    Agree codec (entries.map (LogEntry.payload codec)) urls (loadAll codec (logOf codec entries))
      (defaultLoadAll codec (logOf codec entries) (recoverIndex codec (logOf codec entries)) urls) ↔
    SavedOnce codec entries := by
  have fits : ∀ payload ∈ entries.map (LogEntry.payload codec), payload.length < 2 ^ 32 := by
    intro payload member
    obtain ⟨entry, here, rfl⟩ := List.mem_map.mp member
    exact short entry here
  rw [savedOnce_iff]
  constructor
  · exact eachOnce_of_agree fits lists
  · exact fun each => each.agree fits lists

end Logs

/-! One page saved twice, and two pages saved once. -/

namespace SavedTwice

open TornTail

def twice : List (LogEntry Page) := [.saved .first, .saved .first]

theorem lists_twice : Lists (recoverIndex codec (logOf codec twice)) [Page.first.url] := by
  have keys : (twice.map (LogEntry.payload codec)).filterMap codec.urlField = [Page.first.url, Page.first.url] := by
    decide
  refine ⟨by simp, fun url => ?_⟩
  unfold logOf
  rw [index_isSome (by decide), keys]
  simp

/-- The scan gives the page twice, the look-up once. -/
theorem same_page_twice :
    Lists (recoverIndex codec (logOf codec twice)) [Page.first.url] ∧
    loadAll codec (logOf codec twice) = .ok [.first, .first] ∧
    defaultLoadAll codec (logOf codec twice) (recoverIndex codec (logOf codec twice)) [Page.first.url] =
      .ok [.first] ∧
    ¬ Agree codec (twice.map (LogEntry.payload codec)) [Page.first.url] (loadAll codec (logOf codec twice))
      (defaultLoadAll codec (logOf codec twice) (recoverIndex codec (logOf codec twice)) [Page.first.url]) := by
  have fast : loadAll codec (logOf codec twice) = .ok [.first, .first] := by decide +kernel
  have slow : defaultLoadAll codec (logOf codec twice) (recoverIndex codec (logOf codec twice))
      [Page.first.url] = .ok [.first] := by decide +kernel
  refine ⟨lists_twice, fast, slow, ?_⟩
  rintro ⟨all, each, loaded, found, perm, -⟩
  rw [fast] at loaded
  rw [slow] at found
  cases loaded
  cases found
  exact absurd perm.length_eq (by decide)

def apart : List (LogEntry Page) := [.saved .first, .saved .second]

theorem two_pages_agree :
    Agree codec (apart.map (LogEntry.payload codec)) [Page.second.url, Page.first.url]
      (loadAll codec (logOf codec apart))
      (defaultLoadAll codec (logOf codec apart) (recoverIndex codec (logOf codec apart))
        [Page.second.url, Page.first.url]) := by
  have keys : (apart.map (LogEntry.payload codec)).filterMap codec.urlField = [Page.first.url, Page.second.url] := by
    decide
  have lists : Lists (recoverIndex codec (logOf codec apart)) [Page.second.url, Page.first.url] := by
    refine ⟨by decide, fun url => ?_⟩
    unfold logOf
    rw [index_isSome (by decide), keys]
    simp [or_comm]
  refine (loadAll_agrees_iff codec apart _ (by decide) lists).mpr ⟨?_, ?_⟩
  · intro payload member
    simp [apart] at member
  · rw [keys]
    decide

end SavedTwice

end Webfang.Persistence
