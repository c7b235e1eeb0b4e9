import Webfang.Library.Transition
import Webfang.Crawler.BoundedSink

/-!
# No captured page is lost or written twice

Every accepted page is in exactly one place: in the channel, in the backlog, with the writer or
in the spool. The writer stops only when every sender is gone and nothing is left in either
half, so at the return of `finish` that place is the spool.
-/
namespace Webfang.Crawler

open Library

/-- The pages the writer has taken and not yet written. -/
def SpoolWriter.inHand : SpoolWriter → List Capture
  | .spooling taken => taken
  | .writing capture taken => capture :: taken.getD []
  | _ => []

/-- Before the writer waits again, it drains the backlog. -/
def SpoolWriter.drains : SpoolWriter → Bool
  | .receiving | .draining => true
  | .writing _ taken => taken.isNone
  | _ => false

namespace BoundedSink

/-- Every capture begun, decided or not. -/
def captures (sink : BoundedSink) : List Capture :=
  sink.sending ++ sink.deferring ++ sink.accepted ++ sink.rejected

/-- Where the accepted pages are. -/
def places (sink : BoundedSink) : List Capture :=
  sink.spool ++ sink.writer.inHand ++ sink.channel ++ sink.backlog.pages

/-- What the writer has seen to be over by the time it stands where it does. -/
def Stopping (sink : BoundedSink) : Prop :=
  match sink.writer with
  | .readChannel => sink.isClosed = true
  | .readBacklog => sink.isClosed = true ∧ sink.channel = []
  | .flushing | .finished =>
    sink.isClosed = true ∧ sink.channel = [] ∧ sink.backlog.pages = []
  | _ => True

def Returning (sink : BoundedSink) : Prop :=
  ∀ written, sink.finish = .returned (.ok written) →
    sink.writer = .finished ∧ written = sink.written

structure Consistent (maxBytes : Nat) (sink : BoundedSink) : Prop where
  conserved : sink.accepted.Perm sink.places
  distinct : (sink.captures.map Capture.id).Nodup
  fresh : ∀ capture ∈ sink.captures, capture.id < sink.issued
  counted : sink.written = sink.spool.length
  limit : sink.backlog.maxBytes = maxBytes
  accounted : sink.backlog.bytes = sink.backlog.heldBytes
  bounded : sink.backlog.bytes ≤ maxBytes
  stopping : sink.Stopping
  returning : sink.Returning

variable {sink sink' : BoundedSink} {maxBytes : Nat}

theorem isClosed_iff : sink.isClosed = true ↔
    sink.tx = false ∧ sink.sending = [] ∧ sink.deferring = [] ∧ sink.notifying = [] ∧
      sink.leaving = [] := by
  simp [isClosed, and_assoc]

/-- While a capture holds a clone, the writer has not seen the end. -/
theorem Stopping.of_open (stopping : sink.Stopping) (isOpen : sink.isClosed = false) :
    sink.writer ≠ .readChannel ∧ sink.writer ≠ .readBacklog ∧ sink.writer ≠ .flushing ∧
      sink.writer ≠ .finished := by
  unfold Stopping at stopping
  cases stands : sink.writer <;> simp_all

/-- `Stopping` says nothing where the writer stands before the reads. -/
theorem Stopping.of_running (running : sink.writer ≠ .readChannel ∧ sink.writer ≠ .readBacklog ∧
    sink.writer ≠ .flushing ∧ sink.writer ≠ .finished) : sink.Stopping := by
  unfold Stopping
  cases stands : sink.writer <;> simp_all

/-! ### The backlog -/

theorem Backlog.admit_spec {backlog : Backlog} {capture : Capture}
    (accounted : backlog.bytes = backlog.heldBytes)
    (fits : backlog.heldBytes + capture.page.size ≤ usizeMax) :
    (backlog.admitPage capture).2 = .queued ∧
        (backlog.admitPage capture).1 =
          { backlog with
            bytes := backlog.bytes + capture.page.size, pages := backlog.pages ++ [capture] } ∧
        backlog.bytes + capture.page.size ≤ backlog.maxBytes ∨
      (∃ first, (backlog.admitPage capture).2 = .saturated first) ∧
        (backlog.admitPage capture).1 = { backlog with saturated := true } := by
  have incoming : saturatingAdd capture.page.url.utf8ByteSize capture.page.html.utf8ByteSize =
      capture.page.size := by
    unfold saturatingAdd CapturedPage.size at *
    omega
  have total : saturatingAdd backlog.bytes capture.page.size =
      backlog.bytes + capture.page.size := by
    unfold saturatingAdd
    omega
  simp only [Backlog.admitPage, incoming, total]
  by_cases exceeds : backlog.bytes + capture.page.size > backlog.maxBytes
  · exact .inr ⟨⟨!backlog.saturated, by simp [exceeds]⟩, by simp [exceeds]⟩
  · exact .inl ⟨by simp [exceeds], by simp [exceeds], by omega⟩

/-! ### One lemma for each event -/

theorem isClosed_eq_false {capture : Capture} (held : capture ∈ sink.sending ∨
    capture ∈ sink.deferring ∨ capture ∈ sink.notifying ∨ capture ∈ sink.leaving) :
    sink.isClosed = false := by
  rw [Bool.eq_false_iff]
  intro closed
  obtain ⟨-, sending, deferring, notifying, leaving⟩ := isClosed_iff.mp closed
  simp [sending, deferring, notifying, leaving] at held

/-- Moving captures between the lists keeps their numbers distinct. -/
theorem Consistent.distinct_of_perm (consistent : sink.Consistent maxBytes)
    (same : sink'.captures.Perm sink.captures) : (sink'.captures.map Capture.id).Nodup :=
  (same.map Capture.id).nodup_iff.mpr consistent.distinct

theorem Consistent.fresh_of_perm (consistent : sink.Consistent maxBytes)
    (same : sink'.captures.Perm sink.captures) (issued : sink'.issued = sink.issued) :
    ∀ capture ∈ sink'.captures, capture.id < sink'.issued := by
  intro capture listed
  rw [issued]
  exact consistent.fresh capture (same.mem_iff.mp listed)

theorem Consistent.capture (consistent : sink.Consistent maxBytes) (page : CapturedPage) :
    (sink.stepCapture page).Consistent maxBytes := by
  have unused : sink.issued ∉ sink.captures.map Capture.id := by
    intro used
    obtain ⟨earlier, listed, same⟩ := List.mem_map.mp used
    have below := consistent.fresh earlier listed
    omega
  have distinct : ((⟨sink.issued, page⟩ :: sink.captures).map Capture.id).Nodup :=
    List.nodup_cons.mpr ⟨unused, consistent.distinct⟩
  have fresh : ∀ capture ∈ (⟨sink.issued, page⟩ :: sink.captures : List Capture),
      capture.id < sink.issued + 1 := by
    intro capture listed
    rcases List.mem_cons.mp listed with rfl | earlier
    · exact Nat.lt_succ_self _
    · have below := consistent.fresh capture earlier
      omega
  -- a capture either begins to send or finds the sender taken
  cases live : sink.tx with
  | true =>
    have running := consistent.stopping.of_open (by simp [isClosed, live])
    have begun : sink.stepCapture page =
        { sink with issued := sink.issued + 1, sending := ⟨sink.issued, page⟩ :: sink.sending } := by
      simp [stepCapture, live]
    rw [begun]
    exact ⟨consistent.conserved, distinct, fresh, consistent.counted, consistent.limit,
      consistent.accounted, consistent.bounded, .of_running running, consistent.returning⟩
  | false =>
    have discarded : sink.stepCapture page =
        { sink with
          issued := sink.issued + 1, rejected := ⟨sink.issued, page⟩ :: sink.rejected } := by
      simp [stepCapture, live]
    have begun : ({ sink with
        issued := sink.issued + 1,
        rejected := ⟨sink.issued, page⟩ :: sink.rejected } : BoundedSink).captures.Perm
        (⟨sink.issued, page⟩ :: sink.captures) := List.perm_middle
    rw [discarded]
    refine ⟨consistent.conserved, ?_, ?_, consistent.counted, consistent.limit,
      consistent.accounted, consistent.bounded, consistent.stopping, consistent.returning⟩
    · exact (begun.map Capture.id).nodup_iff.mpr distinct
    · exact fun capture listed => fresh capture (begun.mem_iff.mp listed)

theorem Consistent.trySend (consistent : sink.Consistent maxBytes) {capture : Capture}
    (listed : capture ∈ sink.sending) : (sink.stepTrySend capture).Consistent maxBytes := by
  have running := consistent.stopping.of_open (isClosed_eq_false (.inl listed))
  have moved := List.perm_cons_erase listed
  unfold stepTrySend
  simp only [running.2.2.2, if_false]
  split
  · -- there is room in the channel, so the page is accepted
    have same : (capture :: sink.accepted).Perm
        (sink.spool ++ sink.writer.inHand ++ (sink.channel ++ [capture]) ++ sink.backlog.pages) := by
      have conserved := consistent.conserved
      rw [List.perm_iff_count] at conserved ⊢
      intro other
      have count := conserved other
      simp only [places, List.count_append, List.count_cons, List.count_nil] at count ⊢
      omega
    have kept : (sink.sending.erase capture ++ sink.deferring ++ (capture :: sink.accepted) ++
        sink.rejected).Perm sink.captures := by
      rw [List.perm_iff_count] at moved ⊢
      intro other
      have count := moved other
      simp only [captures, List.count_append, List.count_cons] at count ⊢
      omega
    exact ⟨same, consistent.distinct_of_perm kept, consistent.fresh_of_perm kept rfl,
      consistent.counted, consistent.limit, consistent.accounted, consistent.bounded,
      .of_running running, consistent.returning⟩
  · -- the channel is full, so the page goes on to the backlog
    have kept : (sink.sending.erase capture ++ (capture :: sink.deferring) ++ sink.accepted ++
        sink.rejected).Perm sink.captures := by
      rw [List.perm_iff_count] at moved ⊢
      intro other
      have count := moved other
      simp only [captures, List.count_append, List.count_cons] at count ⊢
      omega
    exact ⟨consistent.conserved, consistent.distinct_of_perm kept,
      consistent.fresh_of_perm kept rfl, consistent.counted, consistent.limit,
      consistent.accounted, consistent.bounded, .of_running running, consistent.returning⟩

theorem Consistent.admitPage (consistent : sink.Consistent maxBytes) {capture : Capture}
    (listed : capture ∈ sink.deferring)
    (fits : sink.backlog.heldBytes + capture.page.size ≤ usizeMax) :
    (sink.stepAdmit capture).Consistent maxBytes := by
  have running := consistent.stopping.of_open (isClosed_eq_false (.inr (.inl listed)))
  have moved := List.perm_cons_erase listed
  rw [List.perm_iff_count] at moved
  rcases Backlog.admit_spec consistent.accounted fits with
    ⟨queued, pushed, within⟩ | ⟨⟨first, refused⟩, latched⟩
  · have admitted : sink.stepAdmit capture =
        { sink with
          deferring := sink.deferring.erase capture
          backlog := { sink.backlog with
            bytes := sink.backlog.bytes + capture.page.size
            pages := sink.backlog.pages ++ [capture] }
          accepted := capture :: sink.accepted
          notifying := capture :: sink.notifying } := by
      rw [← pushed]
      simp only [stepAdmit]
      split
      next answer => rw [answer]
      next answer => rw [answer] at queued; cases queued
    rw [admitted]
    -- the page is in the backlog, and its bytes are within the bound
    have same : (capture :: sink.accepted).Perm (sink.spool ++ sink.writer.inHand ++ sink.channel ++
        (sink.backlog.pages ++ [capture])) := by
      have conserved := consistent.conserved
      rw [List.perm_iff_count] at conserved ⊢
      intro other
      have count := conserved other
      simp only [places, List.count_append, List.count_cons, List.count_nil] at count ⊢
      omega
    have kept : (sink.sending ++ sink.deferring.erase capture ++ (capture :: sink.accepted) ++
        sink.rejected).Perm sink.captures := by
      rw [List.perm_iff_count]
      intro other
      have count := moved other
      simp only [captures, List.count_append, List.count_cons] at count ⊢
      omega
    refine ⟨same, consistent.distinct_of_perm kept, consistent.fresh_of_perm kept rfl,
      consistent.counted, consistent.limit, ?_, ?_, .of_running running, consistent.returning⟩
    · have accounted := consistent.accounted
      simp only [Backlog.heldBytes, List.map_append, List.sum_append, List.map_cons, List.map_nil,
        List.sum_cons, List.sum_nil] at accounted ⊢
      omega
    · exact consistent.limit ▸ within
  · -- the bytes do not fit, so the page is rejected and the latch is set
    have kept : (sink.sending ++ sink.deferring.erase capture ++ sink.accepted ++
        (capture :: sink.rejected)).Perm sink.captures := by
      rw [List.perm_iff_count]
      intro other
      have count := moved other
      simp only [captures, List.count_append, List.count_cons] at count ⊢
      omega
    have rejected : sink.stepAdmit capture =
        { sink with
          deferring := sink.deferring.erase capture
          backlog := { sink.backlog with saturated := true }
          rejected := capture :: sink.rejected
          leaving := capture :: sink.leaving } := by
      rw [← latched]
      simp only [stepAdmit]
      split
      next answer => rw [answer] at refused; cases refused
      next answer => rw [answer]
    rw [rejected]
    exact ⟨consistent.conserved, consistent.distinct_of_perm kept,
      consistent.fresh_of_perm kept rfl, consistent.counted, consistent.limit,
      consistent.accounted, consistent.bounded, .of_running running, consistent.returning⟩

theorem Consistent.notify (consistent : sink.Consistent maxBytes) {capture : Capture}
    (listed : capture ∈ sink.notifying) : (sink.stepNotify capture).Consistent maxBytes := by
  have running := consistent.stopping.of_open (isClosed_eq_false (.inr (.inr (.inl listed))))
  exact { consistent with stopping := .of_running running }

theorem Consistent.leave (consistent : sink.Consistent maxBytes) {capture : Capture}
    (listed : capture ∈ sink.leaving) :
    ({ sink with leaving := sink.leaving.erase capture } : BoundedSink).Consistent maxBytes := by
  have running := consistent.stopping.of_open (isClosed_eq_false (.inr (.inr (.inr listed))))
  exact { consistent with stopping := .of_running running }

/-- Before the writer finishes, no call of `finish` has returned a count. -/
theorem Consistent.unreturned (consistent : sink.Consistent maxBytes)
    (running : sink.writer ≠ .finished) (written : Nat) :
    sink.finish ≠ .returned (.ok written) :=
  fun returned => running (consistent.returning written returned).1

/-- The writer takes the oldest page of the channel in hand. -/
theorem Consistent.receive (consistent : sink.Consistent maxBytes) {capture : Capture}
    {rest : List Capture} (front : sink.channel = capture :: rest) (idle : sink.writer.inHand = [])
    (running : sink.writer ≠ .finished) :
    ({ sink with channel := rest, writer := .writing capture none } : BoundedSink).Consistent
      maxBytes := by
  have conserved := consistent.conserved
  rw [places, front, idle] at conserved
  refine { consistent with conserved := ?_, stopping := trivial, returning := ?_ }
  · apply conserved.trans
    simp [places, SpoolWriter.inHand]
  · exact fun written returned => absurd returned (consistent.unreturned running written)

theorem Consistent.moveOn (consistent : sink.Consistent maxBytes) (next : SpoolWriter)
    (running : sink.writer ≠ .finished) (same : next.inHand = sink.writer.inHand)
    (stopping : ({ sink with writer := next } : BoundedSink).Stopping) :
    ({ sink with writer := next } : BoundedSink).Consistent maxBytes := by
  refine { consistent with conserved := ?_, stopping := stopping, returning := ?_ }
  · apply consistent.conserved.trans
    simp [places, same]
  · exact fun written returned => absurd returned (consistent.unreturned running written)

theorem Consistent.writer (consistent : sink.Consistent maxBytes)
    (taken : sink.stepWriter = some sink') : sink'.Consistent maxBytes := by
  have stopping := consistent.stopping
  unfold Stopping at stopping
  unfold stepWriter at taken
  cases stands : sink.writer with
  | receiving =>
    rw [stands] at taken
    simp only at taken
    split at taken
    next capture rest front =>
      cases taken
      exact consistent.receive front (by simp [stands, SpoolWriter.inHand]) (by simp [stands])
    next =>
      cases taken
      exact consistent.moveOn .draining (by simp [stands]) (by simp [stands, SpoolWriter.inHand])
        trivial
  | draining =>
    rw [stands] at taken
    cases taken
    have conserved := consistent.conserved
    rw [places, stands] at conserved
    refine { consistent with
      conserved := ?_, accounted := rfl, bounded := Nat.zero_le _, stopping := trivial,
      returning := ?_ }
    · -- the drained pages go from the backlog into the writer's hands
      rw [List.perm_iff_count] at conserved ⊢
      intro other
      have count := conserved other
      simp only [places, SpoolWriter.inHand, List.count_append, List.count_nil] at count ⊢
      omega
    · exact fun written returned => absurd returned (consistent.unreturned (by simp [stands]) written)
  | spooling pages =>
    rw [stands] at taken
    cases pages with
    | nil =>
      cases taken
      exact consistent.moveOn .readClosed (by simp [stands]) (by simp [stands, SpoolWriter.inHand])
        trivial
    | cons capture rest =>
      cases taken
      exact consistent.moveOn (.writing capture (some rest)) (by simp [stands])
        (by simp [stands, SpoolWriter.inHand]) trivial
  | writing capture pages =>
    rw [stands] at taken
    cases taken
    have conserved := consistent.conserved
    rw [places, stands] at conserved
    refine { consistent with
      conserved := ?_, counted := ?_, stopping := ?_, returning := ?_ }
    · apply conserved.trans
      cases pages <;> simp [places, SpoolWriter.inHand]
    · simp [consistent.counted]
    · cases pages <;> trivial
    · exact fun written returned => absurd returned (consistent.unreturned (by simp [stands]) written)
  | readClosed =>
    rw [stands] at taken
    -- what each read found is kept in `Stopping` until the flush
    by_cases closed : sink.isClosed = true
    · rw [if_pos closed] at taken
      cases taken
      exact consistent.moveOn .readChannel (by simp [stands]) (by simp [stands, SpoolWriter.inHand])
        closed
    · rw [if_neg closed] at taken
      cases taken
      exact consistent.moveOn .selecting (by simp [stands]) (by simp [stands, SpoolWriter.inHand])
        trivial
  | readChannel =>
    rw [stands] at taken stopping
    -- every sender was gone before this read, so nothing comes in behind it
    by_cases empty : sink.channel.isEmpty = true
    · rw [if_pos empty] at taken
      cases taken
      exact consistent.moveOn .readBacklog (by simp [stands]) (by simp [stands, SpoolWriter.inHand])
        ⟨stopping, List.isEmpty_iff.mp empty⟩
    · rw [if_neg empty] at taken
      cases taken
      exact consistent.moveOn .selecting (by simp [stands]) (by simp [stands, SpoolWriter.inHand])
        trivial
  | readBacklog =>
    rw [stands] at taken stopping
    by_cases empty : sink.backlog.pages.isEmpty = true
    · rw [if_pos empty] at taken
      cases taken
      exact consistent.moveOn .flushing (by simp [stands]) (by simp [stands, SpoolWriter.inHand])
        ⟨stopping.1, stopping.2, List.isEmpty_iff.mp empty⟩
    · rw [if_neg empty] at taken
      cases taken
      exact consistent.moveOn .selecting (by simp [stands]) (by simp [stands, SpoolWriter.inHand])
        trivial
  | selecting =>
    rw [stands] at taken
    cases taken
  | flushing =>
    rw [stands] at taken stopping
    cases taken
    exact consistent.moveOn .finished (by simp [stands]) (by simp [stands, SpoolWriter.inHand]) stopping
  | finished =>
    rw [stands] at taken
    cases taken

theorem Consistent.selectRecv (consistent : sink.Consistent maxBytes)
    (taken : sink.stepSelectRecv = some sink') : sink'.Consistent maxBytes := by
  unfold stepSelectRecv at taken
  obtain ⟨stands, taken⟩ := Option.ite_none_right_eq_some.mp taken
  split at taken
  next capture rest front =>
    cases taken
    exact consistent.receive front (by simp [stands, SpoolWriter.inHand]) (by simp [stands])
  next =>
    obtain ⟨_, taken⟩ := Option.ite_none_right_eq_some.mp taken
    cases taken
    exact consistent.moveOn .receiving (by simp [stands]) (by simp [stands, SpoolWriter.inHand])
      trivial

theorem Consistent.selectNotified (consistent : sink.Consistent maxBytes)
    (stands : sink.writer = .selecting) :
    ({ sink with permit := false, writer := .receiving } : BoundedSink).Consistent maxBytes := by
  have moved := consistent.moveOn .receiving (by simp [stands])
    (by simp [stands, SpoolWriter.inHand]) trivial
  exact { moved with }

theorem Consistent.takeSender (consistent : sink.Consistent maxBytes) (live : sink.tx = true) :
    ({ sink with tx := false, finish := .senderTaken } : BoundedSink).Consistent maxBytes := by
  have running := consistent.stopping.of_open (by simp [isClosed, live])
  exact { consistent with
    stopping := .of_running running
    returning := fun _ returned => by cases returned }

theorem Consistent.takeHandle (consistent : sink.Consistent maxBytes) : ({ sink with
      handle := false
      finish := if sink.handle then .awaiting else .returned .alreadyFinished } :
        BoundedSink).Consistent maxBytes := by
  refine { consistent with returning := ?_ }
  intro written returned
  simp only at returned
  split at returned <;> cases returned

theorem Consistent.join (consistent : sink.Consistent maxBytes) (stands : sink.writer = .finished) :
    ({ sink with finish := .returned (.ok sink.written) } : BoundedSink).Consistent maxBytes := by
  refine { consistent with returning := ?_ }
  intro written returned
  cases returned
  exact ⟨stands, rfl⟩

/-- Every atomic access keeps the books. -/
theorem Consistent.step (consistent : sink.Consistent maxBytes) {event : SinkEvent}
    (taken : sink.step event = some sink') : sink'.Consistent maxBytes := by
  cases event with
  | capture page =>
    cases taken
    exact consistent.capture page
  | trySend capture =>
    obtain ⟨listed, taken⟩ := Option.ite_none_right_eq_some.mp taken
    cases taken
    exact consistent.trySend listed
  | admitPage capture =>
    obtain ⟨⟨listed, fits⟩, taken⟩ := Option.ite_none_right_eq_some.mp taken
    cases taken
    exact consistent.admitPage listed fits
  | notify capture =>
    obtain ⟨listed, taken⟩ := Option.ite_none_right_eq_some.mp taken
    cases taken
    exact consistent.notify listed
  | leave capture =>
    obtain ⟨listed, taken⟩ := Option.ite_none_right_eq_some.mp taken
    cases taken
    exact consistent.leave listed
  | writer => exact consistent.writer taken
  | selectRecv => exact consistent.selectRecv taken
  | selectNotified =>
    obtain ⟨⟨stands, _⟩, taken⟩ := Option.ite_none_right_eq_some.mp taken
    cases taken
    exact consistent.selectNotified stands
  | takeSender =>
    simp only [BoundedSink.step] at taken
    split at taken
    next live =>
      cases taken
      exact consistent.takeSender live
    next =>
      cases taken
      exact consistent
  | takeHandle =>
    obtain ⟨_, taken⟩ := Option.ite_none_right_eq_some.mp taken
    cases taken
    exact consistent.takeHandle
  | join =>
    obtain ⟨⟨_, stands⟩, taken⟩ := Option.ite_none_right_eq_some.mp taken
    cases taken
    exact consistent.join stands

theorem consistent_new (bufferSize maxBytes : Nat) :
    (new bufferSize maxBytes).Consistent maxBytes where
  conserved := .refl _
  distinct := .nil
  fresh := by simp [captures, new]
  counted := rfl
  limit := rfl
  accounted := rfl
  bounded := Nat.zero_le _
  stopping := trivial
  returning := fun _ returned => by cases returned

theorem consistent_run {bufferSize : Nat} {events : List SinkEvent}
    (ran : runEvents step (new bufferSize maxBytes) events = some sink) :
    sink.Consistent maxBytes := by
  have reached : Reachable (fun sink event sink' => sink.step event = some sink')
      (fun _ _ => True) (new bufferSize maxBytes) sink :=
    Reachable.run .start (fun _ _ _ => trivial) ran
  apply reached.invariant (consistent_new bufferSize maxBytes)
  intro sink event sink' consistent _ taken
  exact consistent.step taken

/-- In any interleaving the backlog's counter is the sum of the sizes it holds and within its
limit; and when `finish` returns a count, the spool has every accepted page once, no rejected
one, and as many pages as that count. -/
theorem finish_conserves (bufferSize maxBacklogBytes : Nat) (events : List SinkEvent)
    (ran : runEvents step (new bufferSize maxBacklogBytes) events = some sink) :
    (sink.backlog.bytes = sink.backlog.heldBytes ∧ sink.backlog.bytes ≤ maxBacklogBytes) ∧
      ∀ written, sink.finish = .returned (.ok written) →
        sink.spool.Perm sink.accepted ∧ (sink.spool.map Capture.id).Nodup ∧
          (∀ capture ∈ sink.rejected, capture.id ∉ sink.spool.map Capture.id) ∧
          written = sink.accepted.length ∧ sink.sending = [] ∧ sink.deferring = [] := by
  have consistent := consistent_run ran
  refine ⟨⟨consistent.accounted, consistent.bounded⟩, ?_⟩
  intro written returned
  obtain ⟨stands, same⟩ := consistent.returning written returned
  have stopping := consistent.stopping
  simp only [Stopping, stands] at stopping
  obtain ⟨closed, channel, pages⟩ := stopping
  obtain ⟨-, sending, deferring, -, -⟩ := isClosed_iff.mp closed
  have conserved := consistent.conserved
  simp only [places, stands, SpoolWriter.inHand, channel, pages, List.append_nil] at conserved
  have distinct := consistent.distinct
  simp only [captures, sending, deferring, List.nil_append, List.map_append] at distinct
  obtain ⟨once, -, apart⟩ := List.nodup_append.mp distinct
  have ids := conserved.map Capture.id
  refine ⟨conserved.symm, ids.nodup_iff.mp once, ?_, ?_, sending, deferring⟩
  · intro capture listed spooled
    have accepted := ids.mem_iff.mpr spooled
    exact apart _ accepted _ (List.mem_map_of_mem listed) rfl
  · rw [same, consistent.counted, conserved.length_eq]

/-! ### No page is stuck -/

/-- A page in the backlog has woken the writer, or a capture is about to. -/
def Awake (sink : BoundedSink) : Prop :=
  sink.backlog.pages ≠ [] → sink.permit = true ∨ sink.notifying ≠ [] ∨ sink.writer.drains = true

theorem Awake.step (awake : sink.Awake) {event : SinkEvent} (taken : sink.step event = some sink') :
    sink'.Awake := by
  unfold Awake at *
  cases event with
  | capture | trySend | admitPage | notify | leave =>
    grind [BoundedSink.step, stepCapture, stepTrySend, stepAdmit, Backlog.admitPage, stepNotify]
  | writer | selectRecv =>
    simp only [BoundedSink.step, stepWriter, stepSelectRecv] at taken
    split at taken <;> grind [SpoolWriter.drains, Backlog.drain]
  | selectNotified | takeSender | takeHandle | join => grind [BoundedSink.step, SpoolWriter.drains]

/-- Where no capture is under way and the writer cannot move, it has written every accepted page;
and it has finished if the sender is gone. -/
theorem quiet_spooled {bufferSize : Nat} {events : List SinkEvent}
    (ran : runEvents step (new bufferSize maxBytes) events = some sink)
    (rests : sink.sending = [] ∧ sink.deferring = [] ∧ sink.notifying = [])
    (quiet : sink.step .writer = none ∧ sink.step .selectRecv = none ∧ sink.step .selectNotified = none) :
    sink.spool.Perm sink.accepted ∧ (sink.isClosed = true → sink.writer = .finished) := by
  have consistent := consistent_run ran
  have awake : sink.Awake :=
    runEvents_preserves (fun _ _ _ awake (_ : True) taken => awake.step taken)
      (fun pages => absurd rfl pages) ran fun _ _ => trivial
  obtain ⟨writer, recv, notified⟩ := quiet
  have conserved := consistent.conserved.symm
  have stopping := consistent.stopping
  unfold places SpoolWriter.inHand at conserved
  cases stands : sink.writer with
  | selecting =>
    -- without a permit or a capture about to leave one, nothing is in the backlog
    have empty : sink.channel = [] ∧ sink.backlog.pages = [] ∧ sink.isClosed = false := by
      grind [BoundedSink.step, stepSelectRecv, Awake, SpoolWriter.drains]
    simpa [stands, empty] using conserved
  | finished =>
    simp only [Stopping, stands] at stopping
    simpa [stands, stopping] using conserved
  | _ => grind [BoundedSink.step, stepWriter]

/-! A channel of one page, which the second capture finds full. -/

namespace TwoCaptures

def first : Capture := ⟨0, "https://example.com/", "<p>front</p>"⟩

def second : Capture := ⟨1, "https://example.com/about", "<p>about</p>"⟩

/-- The second page goes through the backlog, and `finish` is called before the writer ran. -/
def events : List SinkEvent :=
  [.capture first.page, .capture second.page, .trySend first, .trySend second, .admitPage second,
    .takeSender, .takeHandle, .notify second, .leave second, .leave first] ++
    List.replicate 11 .writer ++ [.join]

/-- The same captures without `finish`. The writer drains the channel, and wakes once more for the backlog. -/
def unfinished : List SinkEvent :=
  [.capture first.page, .capture second.page, .trySend first, .trySend second, .admitPage second, .notify second,
    .leave second, .leave first] ++ List.replicate 8 .writer ++ [.selectNotified] ++ List.replicate 4 .writer

end TwoCaptures

open TwoCaptures in
theorem two_captures_spooled :
    ∃ sink, runEvents step (new 0 100) events = some sink ∧ sink.finish = .returned (.ok 2) ∧
      sink.spool.Perm [first, second] := by
  have ran : (runEvents step (new 0 100) events).isSome = true := by decide
  obtain ⟨sink, ran⟩ := Option.isSome_iff_exists.mp ran
  have returned : (runEvents step (new 0 100) events).map BoundedSink.finish =
      some (.returned (.ok 2)) := by decide
  have accepted : (runEvents step (new 0 100) events).map BoundedSink.accepted =
      some [second, first] := by decide
  rw [ran] at returned accepted
  have returned := Option.some.inj returned
  have accepted := Option.some.inj accepted
  have spooled := ((finish_conserves 0 100 events ran).2 2 returned).1
  refine ⟨sink, ran, returned, spooled.trans ?_⟩
  rw [accepted]
  exact List.Perm.swap first second []

open TwoCaptures in
theorem unfinished_spooled : ∃ sink, runEvents step (new 0 100) unfinished = some sink ∧
    sink.accepted.length = 2 ∧ sink.spool.Perm sink.accepted := by
  have ran : runEvents step (new 0 100) unfinished = some _ := rfl
  exact ⟨_, ran, rfl, (quiet_spooled ran ⟨rfl, rfl, rfl⟩ ⟨rfl, rfl, rfl⟩).1⟩

end BoundedSink

end Webfang.Crawler
