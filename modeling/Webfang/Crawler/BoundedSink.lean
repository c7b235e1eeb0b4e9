import Mathlib.Algebra.Order.Ring.Int

/-!
# The bounded content sink

`BoundedFileSink` of `application/crawler/bounded_sink.rs`: captures on any number of threads,
a bounded channel, a byte-bounded backlog behind it, and one writer task. Each event below is
one atomic access to what these share. Nothing is cancelled and no write fails. The counters
behind `captured` and `dropped` are left out.
-/
namespace Webfang.Crawler

def usizeMax : Nat := 2 ^ 64 - 1

def saturatingAdd (a b : Nat) : Nat := min (a + b) usizeMax

structure CapturedPage where
  url : String
  html : String
  deriving DecidableEq, Repr

/-- Two calls may carry equal pages; the number tells them apart. -/
structure Capture where
  id : Nat
  page : CapturedPage
  deriving DecidableEq, Repr

def CapturedPage.size (page : CapturedPage) : Nat := page.url.utf8ByteSize + page.html.utf8ByteSize

/-! ### The backlog -/

structure Backlog where
  pages : List Capture
  bytes : Nat
  saturated : Bool
  maxBytes : Nat
  deriving Repr

inductive Admit where
  | queued
  | saturated (first : Bool)
  deriving DecidableEq, Repr

namespace Backlog

def new (maxBytes : Nat) : Backlog := ⟨[], 0, false, maxBytes⟩

def admitPage (backlog : Backlog) (capture : Capture) : Backlog × Admit :=
  let incoming := saturatingAdd capture.page.url.utf8ByteSize capture.page.html.utf8ByteSize
  if saturatingAdd backlog.bytes incoming > backlog.maxBytes then
    ({ backlog with saturated := true }, .saturated !backlog.saturated)
  else
    ({ backlog with
       bytes := saturatingAdd backlog.bytes incoming
       pages := backlog.pages ++ [capture] }, .queued)

/-- The latch stays as it is. -/
def drain (backlog : Backlog) : Backlog × List Capture :=
  ({ backlog with bytes := 0, pages := [] }, backlog.pages)

def heldBytes (backlog : Backlog) : Nat := (backlog.pages.map fun held => held.page.size).sum

end Backlog

/-! ### The sink -/

inductive SpoolWriter where
  /-- Before `rx.try_recv()`. -/
  | receiving
  /-- Before `backlog.drain()`. -/
  | draining
  /-- In the loop over the pages just drained. -/
  | spooling (taken : List Capture)
  /-- In `write_page`; then back to the channel, or on with the drained pages. -/
  | writing (capture : Capture) (taken : Option (List Capture))
  /-- Before each of the three reads of the exit condition. -/
  | readClosed
  | readChannel
  | readBacklog
  | selecting
  | flushing
  | finished
  deriving DecidableEq, Repr

inductive FinishResult where
  | ok (written : Nat)
  | alreadyFinished
  deriving DecidableEq, Repr

/-- The call of `finish` that took the sender. Every other call returns `AlreadyFinished`
without touching anything. -/
inductive Finish where
  | notCalled
  | senderTaken
  | awaiting
  | returned (result : FinishResult)
  deriving DecidableEq, Repr

structure BoundedSink where
  /-- `tx` still holds the sender. -/
  tx : Bool
  /-- `writer` still holds the join handle. -/
  handle : Bool
  buffer : Nat
  channel : List Capture
  backlog : Backlog
  /-- The permit `Notify` stores. -/
  permit : Bool
  writer : SpoolWriter
  /-- The lines handed to the buffered file; its flush puts all of them on disk. -/
  spool : List Capture
  written : Nat
  finish : Finish
  /-- Captures that hold a clone of the sender: about to `try_send`, about to be deferred,
  about to wake the writer, and about to return. -/
  sending : List Capture
  deferring : List Capture
  notifying : List Capture
  leaving : List Capture
  /-- How many captures began, and what became of each that is decided. -/
  issued : Nat
  accepted : List Capture
  rejected : List Capture
  deriving Repr

inductive SinkEvent where
  /-- A capture takes its clone of the sender. -/
  | capture (page : CapturedPage)
  | trySend (capture : Capture)
  | admitPage (capture : Capture)
  | notify (capture : Capture)
  /-- A capture returns, which drops its clone. -/
  | leave (capture : Capture)
  /-- The writer's next step, outside of the select. -/
  | writer
  /-- The select completes with `rx.recv()`, or with `backlog.notified()`. -/
  | selectRecv
  | selectNotified
  | takeSender
  | takeHandle
  /-- The join handle completes. -/
  | join
  deriving DecidableEq, Repr

namespace BoundedSink

def new (bufferSize maxBacklogBytes : Nat) : BoundedSink where
  tx := true
  handle := true
  buffer := max bufferSize 1
  channel := []
  backlog := .new maxBacklogBytes
  permit := false
  writer := .receiving
  spool := []
  written := 0
  finish := .notCalled
  sending := []
  deferring := []
  notifying := []
  leaving := []
  issued := 0
  accepted := []
  rejected := []

/-- Every sender is gone. -/
def isClosed (sink : BoundedSink) : Bool :=
  !sink.tx && sink.sending.isEmpty && sink.deferring.isEmpty && sink.notifying.isEmpty &&
    sink.leaving.isEmpty

def stepCapture (sink : BoundedSink) (page : CapturedPage) : BoundedSink :=
  let capture : Capture := ⟨sink.issued, page⟩
  let sink := { sink with issued := sink.issued + 1 }
  if sink.tx then { sink with sending := capture :: sink.sending }
  else { sink with rejected := capture :: sink.rejected }

def stepTrySend (sink : BoundedSink) (capture : Capture) : BoundedSink :=
  let sink := { sink with sending := sink.sending.erase capture }
  -- the receiver goes away with the writer task
  if sink.writer = .finished then
    { sink with rejected := capture :: sink.rejected, leaving := capture :: sink.leaving }
  else if sink.channel.length < sink.buffer then
    { sink with
      channel := sink.channel ++ [capture]
      accepted := capture :: sink.accepted
      leaving := capture :: sink.leaving }
  else { sink with deferring := capture :: sink.deferring }

def stepAdmit (sink : BoundedSink) (capture : Capture) : BoundedSink :=
  let sink := { sink with deferring := sink.deferring.erase capture }
  match sink.backlog.admitPage capture with
  | (backlog, .queued) =>
    { sink with
      backlog := backlog
      accepted := capture :: sink.accepted
      notifying := capture :: sink.notifying }
  | (backlog, .saturated _) =>
    { sink with
      backlog := backlog
      rejected := capture :: sink.rejected
      leaving := capture :: sink.leaving }

/-- `notify_one`, after the push is visible. -/
def stepNotify (sink : BoundedSink) (capture : Capture) : BoundedSink :=
  { sink with
    permit := true
    notifying := sink.notifying.erase capture
    leaving := capture :: sink.leaving }

def stepWriter (sink : BoundedSink) : Option BoundedSink :=
  match sink.writer with
  | .receiving =>
    match sink.channel with
    | capture :: rest => some { sink with channel := rest, writer := .writing capture none }
    | [] => some { sink with writer := .draining }
  | .draining =>
    let (backlog, taken) := sink.backlog.drain
    some { sink with backlog := backlog, writer := .spooling taken }
  | .spooling [] => some { sink with writer := .readClosed }
  | .spooling (capture :: rest) => some { sink with writer := .writing capture (some rest) }
  | .writing capture taken =>
    some { sink with
      spool := sink.spool ++ [capture]
      written := sink.written + 1
      writer := match taken with
        | none => .receiving
        | some rest => .spooling rest }
  | .readClosed => some { sink with writer := if sink.isClosed then .readChannel else .selecting }
  | .readChannel =>
    some { sink with writer := if sink.channel.isEmpty then .readBacklog else .selecting }
  | .readBacklog =>
    some { sink with writer := if sink.backlog.pages.isEmpty then .flushing else .selecting }
  | .selecting => none
  | .flushing => some { sink with writer := .finished }
  | .finished => none

/-- `None` comes once every sender is gone and the channel is empty. -/
def stepSelectRecv (sink : BoundedSink) : Option BoundedSink :=
  if sink.writer = .selecting then
    match sink.channel with
    | capture :: rest => some { sink with channel := rest, writer := .writing capture none }
    | [] => if sink.isClosed then some { sink with writer := .receiving } else none
  else none

def step (sink : BoundedSink) : SinkEvent → Option BoundedSink
  | .capture page => some (sink.stepCapture page)
  | .trySend capture => if capture ∈ sink.sending then some (sink.stepTrySend capture) else none
  | .admitPage capture =>
    -- the bodies held and the one offered are in memory together
    if capture ∈ sink.deferring ∧ sink.backlog.heldBytes + capture.page.size ≤ usizeMax then
      some (sink.stepAdmit capture)
    else none
  | .notify capture => if capture ∈ sink.notifying then some (sink.stepNotify capture) else none
  | .leave capture =>
    if capture ∈ sink.leaving then some { sink with leaving := sink.leaving.erase capture }
    else none
  | .writer => sink.stepWriter
  | .selectRecv => sink.stepSelectRecv
  | .selectNotified =>
    if sink.writer = .selecting ∧ sink.permit then
      some { sink with permit := false, writer := .receiving }
    else none
  | .takeSender =>
    if sink.tx then some { sink with tx := false, finish := .senderTaken } else some sink
  | .takeHandle =>
    if sink.finish = .senderTaken then
      some { sink with
        handle := false
        finish := if sink.handle then .awaiting else .returned .alreadyFinished }
    else none
  | .join =>
    if sink.finish = .awaiting ∧ sink.writer = .finished then
      some { sink with finish := .returned (.ok sink.written) }
    else none

end BoundedSink

end Webfang.Crawler
