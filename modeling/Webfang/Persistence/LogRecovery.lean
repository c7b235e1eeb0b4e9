import Webfang.Persistence.CrawlResultLog
import Mathlib.Data.List.Induction

/-!
# What recovery finds

While every frame is put at the end of a log without a torn tail, each session finds the last
whole version of every URL. A frame behind a torn tail is read from the wrong place by the
next session.
-/
namespace Webfang.Persistence

open Library Frames

namespace LogState

variable {Record : Type} {codec : RecordCodec Record} {s s' : LogState Record} {e : LogEvent Record}

/-! ### The recovery loop -/

def indexFrame (codec : RecordCodec Record) (index : OffsetIndex) (found : Nat × List UInt8) :
    OffsetIndex :=
  match codec.urlField found.2 with
  | some url => index.insert url found.1
  | none => index

theorem recoverFrom_eq (offset : Nat) (bytes : List UInt8) (index : OffsetIndex) :
    recoverFrom codec offset bytes index = (scanFrom offset bytes).foldl (indexFrame codec) index := by
  induction offset, bytes, index using recoverFrom.induct codec with
  | case1 offset bytes index short =>
    rw [recoverFrom, scanFrom, if_pos short, if_pos short]
    rfl
  | case2 offset bytes index enough len rest short =>
    rw [recoverFrom, scanFrom, if_neg enough, if_neg enough, if_pos short, if_pos short]
    rfl
  | case3 offset bytes index enough len rest whole next ih =>
    rw [recoverFrom, scanFrom, if_neg enough, if_neg enough, if_neg whole, if_neg whole]
    exact ih

theorem latest_append (written : List Record) (record : Record) (url : String) :
    latest codec (written ++ [record]) url =
      if codec.url record = url then some record else latest codec written url := by
  unfold latest
  rw [List.foldl_append]
  rfl

theorem latest_mem {written : List Record} {url : String} {record : Record}
    (here : latest codec written url = some record) : record ∈ written ∧ codec.url record = url := by
  induction written using List.reverseRecOn with
  | nil => cases here
  | append_singleton written last ih =>
    rw [latest_append] at here
    split at here
    next same =>
      cases here
      exact ⟨List.mem_append_right _ (List.mem_singleton_self _), same⟩
    next => exact ⟨List.mem_append_left _ (ih here).1, (ih here).2⟩

/-- The index leads from each URL to its last version. -/
def Leads (codec : RecordCodec Record) (log : List UInt8) (written : List Record)
    (index : OffsetIndex) : Prop :=
  ∀ url record, latest codec written url = some record →
    ∃ offset, index url = some offset ∧ At log offset (codec.toVec record)

theorem Leads.append {log : List UInt8} {written : List Record} {index : OffsetIndex}
    (leads : Leads codec log written index) (more : List UInt8) :
    Leads codec (log ++ more) written index := by
  intro url record here
  obtain ⟨offset, known, there⟩ := leads url record here
  exact ⟨offset, known, there.append more⟩

/-- One more version of its URL, indexed at the end of the log. -/
theorem Leads.insert {log : List UInt8} {written : List Record} {index : OffsetIndex}
    (leads : Leads codec log written index) (record : Record) :
    Leads codec (log ++ frameOf codec record) (written ++ [record])
      (index.insert (codec.url record) log.length) := by
  intro url found here
  rw [latest_append] at here
  split at here
  next same =>
    cases here
    refine ⟨log.length, ?_, at_length log (prefix_frame _)⟩
    simp [OffsetIndex.insert, same]
  next other =>
    obtain ⟨offset, known, there⟩ := leads.append (frameOf codec record) url found here
    refine ⟨offset, ?_, there⟩
    simpa [OffsetIndex.insert, Ne.symm other] using known

/-- Recovery of whole frames indexes the last version of every URL. -/
theorem leads_located (written : List Record) :
    Leads codec (written.map codec.toVec |>.flatMap frame) written
      ((located 0 (written.map codec.toVec)).foldl (indexFrame codec) fun _ => none) := by
  induction written using List.reverseRecOn with
  | nil => exact fun _ _ here => nomatch here
  | append_singleton written record ih =>
    have more := ih.insert record
    simp only [List.map_append, List.map_cons, List.map_nil, List.flatMap_append,
      located_append_singleton, List.foldl_append, List.foldl_cons, List.foldl_nil, indexFrame,
      codec.urlField_toVec, Nat.zero_add, List.flatMap_cons, List.flatMap_nil, List.append_nil]
    exact more

theorem findByUrl_of_leads {log : List UInt8} {written : List Record} {index : OffsetIndex}
    {url : String} {record : Record} (leads : Leads codec log written index)
    (short : ∀ record ∈ written, (codec.toVec record).length < 2 ^ 32)
    (here : latest codec written url = some record) :
    findByUrl codec log index url = .ok (some record) := by
  obtain ⟨offset, known, there⟩ := leads url record here
  obtain ⟨enough, length, whole, payload⟩ := there.read (short record (latest_mem here).1)
  unfold findByUrl
  rw [known]
  dsimp only
  rw [if_neg (by omega), length, if_neg (by omega), payload, codec.fromSlice_toVec]

/-! ### The condition -/

/-- The frame goes to the end of a log without a torn tail, and its length fits its prefix. -/
structure Appendable (codec : RecordCodec Record) (s : LogState Record) (record : Record) : Prop where
  tail : tail s.log = []
  short : (codec.toVec record).length < 2 ^ 32

/-- No frame is put behind a torn tail, and none that stops just before its terminator is a new
version of a URL. -/
def Intact (codec : RecordCodec Record) (s : LogState Record) : LogEvent Record → Prop
  | .write => ∀ record, s.next = some record → Appendable codec s record
  | .writeFails written _ | .crash written =>
    ∀ record, s.next = some record → written ≠ 0 →
      Appendable codec s record ∧
      (written = 4 + (codec.toVec record).length →
        latest codec s.written (codec.url record) = none ∨
          latest codec s.written (codec.url record) = some record)
  | _ => True

/-! ### The invariant -/

/-- A frame that was cut. Recovery passes over it, or takes it for a version already there. -/
inductive Torn (codec : RecordCodec Record) (written : List Record) : List UInt8 → Prop
  | none : Torn codec written []
  | payload {record : Record} {cut : Nat} (short : (codec.toVec record).length < 2 ^ 32)
      (missing : cut < 4 + (codec.toVec record).length) :
      Torn codec written ((frameOf codec record).take cut)
  | terminator {record : Record} (short : (codec.toVec record).length < 2 ^ 32)
      (known : latest codec written (codec.url record) = .none ∨
        latest codec written (codec.url record) = some record) :
      Torn codec written ((frameOf codec record).take (4 + (codec.toVec record).length))

theorem Torn.tail {written : List Record} {torn : List UInt8} (cut : Torn codec written torn) :
    Frames.tail torn = torn := by
  cases cut with
  | none => rw [Frames.tail, if_pos (by decide)]
  | payload short missing => exact tail_torn short (by rw [length_frame]; omega)
  | terminator short known => exact tail_torn short (by rw [length_frame]; omega)

/-- The log is the frames of the records written, and perhaps a torn one. -/
structure Laid (codec : RecordCodec Record) (s : LogState Record) : Prop where
  short : ∀ record ∈ s.written, (codec.toVec record).length < 2 ^ 32
  log : ∃ torn, Torn codec s.written torn ∧
    s.log = (s.written.map codec.toVec).flatMap frame ++ torn

theorem Laid.payloads (laid : Laid codec s) : ∀ p ∈ s.written.map codec.toVec, p.length < 2 ^ 32 := by
  intro p listed
  obtain ⟨record, member, rfl⟩ := List.mem_map.mp listed
  exact laid.short record member

theorem Laid.whole (laid : Laid codec s) (clean : Frames.tail s.log = []) :
    s.log = (s.written.map codec.toVec).flatMap frame := by
  obtain ⟨torn, cut, split⟩ := laid.log
  rw [split, tail_frames laid.payloads, cut.tail] at clean
  rw [split, clean, List.append_nil]

theorem Laid.write {record : Record} {session : Option (LogSession Record)} (laid : Laid codec s)
    (appendable : Appendable codec s record) :
    Laid codec ⟨s.log ++ frameOf codec record, s.written ++ [record], session⟩ := by
  refine ⟨List.forall_mem_append.mpr ⟨laid.short, by simpa using appendable.short⟩, [], .none, ?_⟩
  simp [laid.whole appendable.tail, frameOf]

/-- A cut frame behind whole ones is the one torn tail. -/
theorem Laid.tear {record : Record} {cut : Nat} {session : Option (LogSession Record)}
    (laid : Laid codec s) (partly : cut < (frameOf codec record).length)
    (intact : cut ≠ 0 → Appendable codec s record ∧
      (cut = 4 + (codec.toVec record).length →
        latest codec s.written (codec.url record) = none ∨
          latest codec s.written (codec.url record) = some record)) :
    Laid codec { s with log := s.log ++ (frameOf codec record).take cut, session } := by
  by_cases nothing : cut = 0
  · subst nothing
    obtain ⟨torn, old, split⟩ := laid.log
    exact ⟨laid.short, torn, old, by simp [split]⟩
  · obtain ⟨appendable, known⟩ := intact nothing
    refine ⟨laid.short, _, ?_, by rw [laid.whole appendable.tail]⟩
    rw [frameOf, length_frame] at partly
    by_cases missing : cut < 4 + (codec.toVec record).length
    · exact .payload appendable.short missing
    · have last : cut = 4 + (codec.toVec record).length := by omega
      subst last
      exact .terminator appendable.short (known rfl)

/-- Recovery leads to the last whole version of every URL, torn tail or not. -/
theorem Laid.leads (laid : Laid codec s) : Leads codec s.log s.written (recoverIndex codec s.log) := by
  obtain ⟨torn, cut, split⟩ := laid.log
  have located : Leads codec (s.written.map codec.toVec |>.flatMap frame) s.written
      ((located 0 (s.written.map codec.toVec)).foldl (indexFrame codec) fun _ => none) :=
    leads_located s.written
  have whole := located.append torn
  rw [← split] at whole
  unfold recoverIndex
  rw [recoverFrom_eq]
  nth_rewrite 2 [split]
  rw [scanFrom_frames laid.payloads, Nat.zero_add, List.foldl_append]
  cases cut with
  | none =>
    rw [scanFrom, if_pos (by decide)]
    exact whole
  | payload short missing =>
    rw [frameOf, scanFrom_torn short missing]
    exact whole
  | @terminator record short known =>
    -- the frame is taken for whole: it is the version that the URL has already, or its first
    rw [frameOf, scanFrom_unterminated short]
    simp only [List.foldl_cons, List.foldl_nil, indexFrame, codec.urlField_toVec]
    intro url found here
    by_cases same : url = codec.url record
    · subst same
      rcases known with unknown | known
      · rw [unknown] at here
        cases here
      · rw [known] at here
        cases here
        refine ⟨((s.written.map codec.toVec).flatMap frame).length, ?_, ?_⟩
        · simp [OffsetIndex.insert]
        rw [split]
        refine at_length _ ?_
        rw [frameOf, frame]
        exact ⟨[], by rw [List.append_nil, List.take_left' (by simp)]⟩
    · obtain ⟨offset, indexed, there⟩ := whole url found here
      exact ⟨offset, by simpa [OffsetIndex.insert, same] using indexed, there⟩

/-- Every session leads to the last versions, and its writer knows where a clean log ends. -/
structure Kept (codec : RecordCodec Record) (s : LogState Record) : Prop where
  laid : Laid codec s
  leads : ∀ session, s.session = some session → Leads codec s.log s.written session.index
  offset : ∀ session offset, s.session = some session → session.offset = some offset →
    Frames.tail s.log = [] → offset = s.log.length

theorem Kept.start : Kept codec (.start : LogState Record) :=
  ⟨⟨nofun, [], .none, rfl⟩, nofun, nofun⟩

theorem Kept.recovers (kept : Kept codec s) : Recovers codec s := fun session open_ _ _ here =>
  findByUrl_of_leads (kept.leads session open_) kept.laid.short here

theorem Steps.preserves (steps : Steps codec s e s') (intact : Intact codec s e) (kept : Kept codec s) :
    Kept codec s' := by
  obtain ⟨laid, leads, offsets⟩ := kept
  cases steps with
  | reopened ended =>
    refine ⟨⟨laid.short, laid.log⟩, ?_, ?_⟩
    · rintro session ⟨⟩
      exact laid.leads
    · rintro session offset ⟨⟩ ⟨⟩
  | @kept _ session session' open_ index offset =>
    refine ⟨⟨laid.short, laid.log⟩, ?_, ?_⟩
    · rintro _ ⟨⟩
      rw [index]
      exact leads session open_
    · rintro _ end_ ⟨⟩ known
      rw [offset] at known
      exact offsets session end_ open_ known
  | @wrote session record open_ next =>
    have appendable := intact record next
    -- the writer's offset is the end of the log
    have ends : session.offset.getD s.log.length = s.log.length := by
      cases known : session.offset with
      | none => rfl
      | some offset => exact offsets session offset open_ known appendable.tail
    refine ⟨laid.write appendable, ?_, ?_⟩
    · rintro _ ⟨⟩
      unfold append
      rw [ends]
      exact (leads session open_).insert record
    · rintro _ offset ⟨⟩ known -
      simp only [append, ends, Option.some.injEq] at known
      rw [← known, Nat.mod_eq_of_lt appendable.short, List.length_append, frameOf, length_frame]
      omega
  | @failed session record written sized open_ next cut =>
    refine ⟨laid.tear cut (intact record next), ?_, ?_⟩
    · rintro _ ⟨⟩
      exact (leads session open_).append _
    · rintro _ offset ⟨⟩ known clean
      by_cases nothing : written = 0
      · subst nothing
        simp only [List.take_zero, List.append_nil, appendFails, Option.some.injEq] at known clean ⊢
        subst known
        split
        · rfl
        · cases opened : session.offset with
          | none => rfl
          | some offset => exact offsets session offset open_ opened clean
      · -- the cut frame is a tail
        obtain ⟨appendable, -⟩ := intact record next nothing
        rw [frameOf] at cut clean
        rw [laid.whole appendable.tail, tail_frames laid.payloads, tail_torn appendable.short cut] at clean
        rcases List.take_eq_nil_iff.mp clean with zero | empty
        · exact absurd zero nothing
        · rw [empty] at cut
          cases cut
  | @crashed record written next cut => exact ⟨laid.tear cut (intact record next), nofun, nofun⟩
  | ended => exact ⟨⟨laid.short, laid.log⟩, nofun, nofun⟩

/-- In every run that puts frames only behind whole ones, whatever its crashes and failed
writes, every session finds the last whole version of every URL. -/
theorem intact_recovers (s : LogState Record) (reached : Reachable (Step codec) (Intact codec) .start s) :
    Recovers codec s :=
  (reached.invariant Kept.start fun _ _ _ kept intact taken =>
    (step_cases taken).preserves intact kept).recovers

end LogState

/-! Two pages. The first session dies in the frame of one, the second session writes the
other. -/

namespace TornTail

open LogState

inductive Page where
  | first
  | second
  deriving DecidableEq, Repr

def Page.url : Page → String
  | .first => "https://a.test/"
  | .second => "https://b.test/"

def ascii (text : String) : List UInt8 := text.toList.map fun c => .ofNat c.toNat

def Page.json : Page → List UInt8
  | .first => ascii ("\x7b\"title\":\"A\",\"content\":\"a\",\"url\":\"https://a.test/\"," ++
      "\"excerpt\":null,\"author\":null,\"date\":null\x7d")
  | .second => ascii ("\x7b\"title\":\"B\",\"content\":\"b\",\"url\":\"https://b.test/\"," ++
      "\"excerpt\":null,\"author\":null,\"date\":null\x7d")

def readPage (bytes : List UInt8) : Option Page := [Page.first, .second].find? fun page => page.json = bytes

def codec : RecordCodec Page where
  url := Page.url
  toVec := Page.json
  fromSlice bytes :=
    match readPage bytes with
    | some page => .ok page
    | none => .error "expected value at line 1 column 1"
  urlField bytes := (readPage bytes).map Page.url
  fromSlice_toVec := by
    rintro (_ | _) <;> decide
  urlField_toVec := by
    rintro (_ | _) <;> decide

/-- The crash leaves the length and two bytes of the first page. -/
def torn : List (LogEvent Page) :=
  [.reopen, .save .first false, .crash 6, .reopen, .save .second false, .write, .shutdown, .reopen]

def runTo (events : List (LogEvent Page)) : Option (LogState Page) := runEvents (step codec) .start events

/-- The second page is whole in the log, and the third session does not find it. -/
theorem torn_tail_hides_page : (runTo torn).map (fun s => (s.written, s.session.map fun session =>
      findByUrl codec s.log session.index Page.second.url)) = some ([.second], some (.ok none)) ∧
    ¬ ∀ s, Reachable (Step codec) (fun _ _ => True) .start s → Recovers codec s := by
  have values : (runTo torn).map (fun s => (s.written, s.session.map fun session =>
      findByUrl codec s.log session.index Page.second.url)) = some ([.second], some (.ok none)) := by
    decide +kernel
  refine ⟨values, fun always => ?_⟩
  obtain ⟨s, ran, same⟩ := Option.map_eq_some_iff.mp values
  obtain ⟨written, found⟩ := Prod.mk.inj same
  obtain ⟨session, open_, missing⟩ := Option.map_eq_some_iff.mp found
  have recovers := always s (Reachable.run .start (fun _ _ _ => trivial) ran)
  have here := recovers session open_ Page.second.url .second (by rw [written]; decide)
  rw [missing] at here
  cases here

/-- The same two pages, each frame at the end of whole ones; then a crash. -/
def apart : List (LogEvent Page) :=
  [.reopen, .save .first false, .write, .shutdown, .reopen, .save .second false, .crash 6, .reopen]

def isIntact (s : LogState Page) (e : LogEvent Page) : Bool :=
  match e, s.next with
  | .write, some page => tail s.log = [] ∧ page.json.length < 2 ^ 32
  | .writeFails written _, some page | .crash written, some page =>
    tail s.log = [] ∧ page.json.length < 2 ^ 32 ∧ written ≠ 4 + page.json.length
  | _, _ => true

theorem intact_of_isIntact (s : LogState Page) (e : LogEvent Page) (checked : isIntact s e = true) :
    Intact codec s e := by
  cases e with
  | write =>
    intro page next
    simp only [isIntact, next, decide_eq_true_eq] at checked
    exact ⟨checked.1, checked.2⟩
  | writeFails written sized =>
    intro page next _
    simp only [isIntact, next, decide_eq_true_eq] at checked
    exact ⟨⟨checked.1, checked.2.1⟩, fun last => absurd last checked.2.2⟩
  | crash written =>
    intro page next _
    simp only [isIntact, next, decide_eq_true_eq] at checked
    exact ⟨⟨checked.1, checked.2.1⟩, fun last => absurd last checked.2.2⟩
  | _ => trivial

theorem first_page_survives : ∃ s, Reachable (Step codec) (Intact codec) .start s ∧
    s.written = [.first] ∧ tail s.log ≠ [] ∧ s.session.isSome ∧ Recovers codec s := by
  have values : (runEvents (fun s e => if isIntact s e then step codec s e else none) .start apart).map
      (fun s => (s.written, tail s.log == [], s.session.isSome)) = some ([.first], false, true) := by
    decide +kernel
  obtain ⟨s, ran, same⟩ := Option.map_eq_some_iff.mp values
  simp only [Prod.mk.injEq] at same
  obtain ⟨written, torn, open_⟩ := same
  have reached : Reachable (Step codec) (Intact codec) .start s :=
    Reachable.run_checked .start intact_of_isIntact ran
  exact ⟨s, reached, written, by simpa using torn, open_, intact_recovers s reached⟩

end TornTail

end Webfang.Persistence
