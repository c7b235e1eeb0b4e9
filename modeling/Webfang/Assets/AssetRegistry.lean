import Webfang.Library.Counting
import Webfang.Library.KeyedList
import Webfang.Library.Transition

/-!
# The asset registry

`adapters/downloader/mod.rs`: the registry of a bounded `Downloader`, one cell for each URL,
with its insertion ledger, its marks of the URLs in flight and the eviction of the oldest
cells. Any number of calls go through their steps in any order with each other; a call may be
dropped while it waits for its cell or downloads into it.
-/
namespace Webfang.Assets

open Library

/-- `usize::MAX`: the capacity of an unbounded downloader. -/
def usizeMax : Nat := 2 ^ 64 - 1

/-! ### The ledger -/

structure InsertionLedger where
  queue : List String
  seen : List String
  deriving DecidableEq, Repr

namespace InsertionLedger

def pushNew (ledger : InsertionLedger) (key : String) : InsertionLedger :=
  if key ∈ ledger.seen then ledger else ⟨ledger.queue ++ [key], ledger.seen ++ [key]⟩

def requeue (ledger : InsertionLedger) (key : String) : InsertionLedger :=
  { ledger with queue := ledger.queue ++ [key] }

def popOldest (ledger : InsertionLedger) : Option (String × InsertionLedger) :=
  match ledger.queue with
  | [] => none
  | key :: rest => some (key, { ledger with queue := rest })

def forget (ledger : InsertionLedger) (key : String) : InsertionLedger :=
  { ledger with seen := ledger.seen.filter (· ≠ key) }

end InsertionLedger

/-! ### Cells and calls -/

/-- A `OnceCell` and the call that holds its permit. `ledgered`: some call with this cell has
made its ledger insert. -/
structure Cell (Asset : Type) where
  asset : Option Asset
  initializer : Option Nat
  ledgered : Bool

/-- Where a call of `download` is. From `inserted` to `downloading` it has a clone of its
cell. -/
inductive Stage (Asset : Type) where
  | called
  | missed
  | inserted (cell : Nat)
  | ledgered (cell : Nat)
  | evicted (cell : Nat)
  /-- In `get_or_try_init`, before it has the value or the permit. -/
  | waiting (cell : Nat)
  | downloading (cell : Nat)
  /-- Out of `get_or_try_init`, with its mark still to be removed. -/
  | leaving (result : Option (Except String Asset))
  | ended (result : Option (Except String Asset))
  deriving DecidableEq

def Stage.cell? {Asset : Type} : Stage Asset → Option Nat
  | .inserted cell | .ledgered cell | .evicted cell | .waiting cell | .downloading cell => some cell
  | _ => none

/-- The call has its `InFlightGuard`. -/
def Stage.isMarked {Asset : Type} : Stage Asset → Bool
  | .waiting _ | .downloading _ | .leaving _ => true
  | _ => false

def Stage.isEnded {Asset : Type} : Stage Asset → Bool
  | .ended _ => true
  | _ => false

structure DownloadCall (Asset : Type) where
  url : String
  stage : Stage Asset
  deriving DecidableEq

/-- The entries of the registry have distinct keys; an `Arc` of a cell is its number. -/
structure Registry (Asset : Type) where
  capacity : Nat
  cells : List (Cell Asset)
  entries : List (String × Nat)
  order : InsertionLedger
  inFlight : List String
  calls : List (DownloadCall Asset)

inductive RegistryEvent (Asset : Type) where
  | call (url : String)
  | lookup (index : Nat)
  | insert (index : Nat)
  | ledger (index : Nat)
  | evict (index : Nat)
  | mark (index : Nat)
  /-- `get_or_try_init` finds the value, or gets the permit. -/
  | poll (index : Nat)
  | finish (index : Nat) (result : Except String Asset)
  | unmark (index : Nat)
  | cancel (index : Nat)

inductive CellState where
  | initialized
  | inFlight
  | abandoned
  | gone
  deriving DecidableEq, Repr

namespace Registry

variable {Asset : Type}

def start (capacity : Nat) : Registry Asset := ⟨capacity, [], [], ⟨[], []⟩, [], []⟩

variable (s : Registry Asset)

def get (url : String) : Option Nat := (s.entries.find? fun entry => entry.1 = url).map Prod.snd

def isInitialized (cell : Nat) : Bool := (s.cells[cell]?.bind Cell.asset).isSome

/-! ### Eviction -/

def cellState (candidate : String) : CellState :=
  match s.get candidate with
  | some cell =>
    if s.isInitialized cell then .initialized
    else if candidate ∈ s.inFlight then .inFlight
    else .abandoned
  | none => .gone

def remove (order : InsertionLedger) (candidate : String) : Registry Asset :=
  { s with
    entries := s.entries.filter fun entry => entry.1 ≠ candidate
    order := order.forget candidate }

/-- The scan of the ledger: `scans` more turns at most, while `excess` entries are to go. -/
def scan : (scans excess : Nat) → (deferred : List String) → Registry Asset → List String × Registry Asset
  | 0, _, deferred, s => (deferred, s)
  | _ + 1, 0, deferred, s => (deferred, s)
  | scans + 1, excess + 1, deferred, s =>
    match s.order.popOldest with
    | none => (deferred, s)
    | some (candidate, order) =>
      match s.cellState candidate with
      | .inFlight => scan scans (excess + 1) (deferred ++ [candidate]) { s with order }
      | .initialized | .abandoned | .gone => scan scans excess deferred (s.remove order candidate)

def evictOverCapacity : Registry Asset :=
  if s.capacity = usizeMax ∨ s.entries.length ≤ s.capacity then s
  else
    let excess := s.entries.length - s.capacity
    let (deferred, s) := scan s.order.queue.length excess [] s
    { s with order := deferred.foldl InsertionLedger.requeue s.order }

/-! ### The steps of a call -/

def moveTo (index : Nat) (call : DownloadCall Asset) (stage : Stage Asset) : Registry Asset :=
  { s with calls := s.calls.set index { call with stage } }

def withCell (cell : Nat) (change : Cell Asset → Cell Asset) : Registry Asset :=
  { s with cells := s.cells.modify cell change }

/-- The fast path: an initialised cell answers at once. -/
def lookup (index : Nat) (call : DownloadCall Asset) : Registry Asset :=
  match (s.get call.url).bind fun cell => s.cells[cell]?.bind Cell.asset with
  | some asset => s.moveTo index call (.ended (some (.ok asset)))
  | none => s.moveTo index call .missed

/-- A new cell under the key. -/
def register (url : String) : Registry Asset :=
  { s with
    cells := s.cells ++ [⟨none, none, false⟩]
    entries := s.entries ++ [(url, s.cells.length)] }

/-- `entry(key).or_insert_with(..)`. -/
def insert (index : Nat) (call : DownloadCall Asset) : Registry Asset :=
  match s.get call.url with
  | some cell => s.moveTo index call (.inserted cell)
  | none => (s.register call.url).moveTo index call (.inserted s.cells.length)

def ledger (index : Nat) (call : DownloadCall Asset) (cell : Nat) : Registry Asset :=
  let s := s.withCell cell fun c => { c with ledgered := true }
  let order := if s.capacity ≠ usizeMax then s.order.pushNew call.url else s.order
  { s with order }.moveTo index call (.ledgered cell)

/-- The mark is one key for all calls of the URL: the second to set it changes nothing, and the
first to drop it removes it. -/
def mark (url : String) : Registry Asset :=
  if url ∈ s.inFlight then s else { s with inFlight := s.inFlight ++ [url] }

def unmark (url : String) : Registry Asset := { s with inFlight := s.inFlight.filter (· ≠ url) }

/-- One event; `none` when the call is not there. -/
def step (s : Registry Asset) : RegistryEvent Asset → Option (Registry Asset)
  | .call url => some { s with calls := s.calls ++ [⟨url, .called⟩] }
  | .lookup index => do
    let call ← s.calls[index]?
    match call.stage with
    | .called => some (s.lookup index call)
    | _ => none
  | .insert index => do
    let call ← s.calls[index]?
    match call.stage with
    | .missed => some (s.insert index call)
    | _ => none
  | .ledger index => do
    let call ← s.calls[index]?
    match call.stage with
    | .inserted cell => some (s.ledger index call cell)
    | _ => none
  | .evict index => do
    let call ← s.calls[index]?
    match call.stage with
    | .ledgered cell => some (s.evictOverCapacity.moveTo index call (.evicted cell))
    | _ => none
  | .mark index => do
    let call ← s.calls[index]?
    match call.stage with
    | .evicted cell => some ((s.mark call.url).moveTo index call (.waiting cell))
    | _ => none
  | .poll index => do
    let call ← s.calls[index]?
    match call.stage with
    | .waiting cell =>
      match s.cells[cell]? with
      | some ⟨some asset, _, _⟩ => some (s.moveTo index call (.leaving (some (.ok asset))))
      | some ⟨none, none, _⟩ =>
        some ((s.withCell cell fun c => { c with initializer := some index }).moveTo index call
          (.downloading cell))
      -- another call has the permit
      | _ => none
    | _ => none
  | .finish index result => do
    let call ← s.calls[index]?
    match call.stage with
    | .downloading cell =>
      -- a failure leaves the cell empty, and its permit to the next waiter
      some ((s.withCell cell fun c =>
        { c with asset := result.toOption.or c.asset, initializer := none }).moveTo index call
          (.leaving (some result)))
    | _ => none
  | .unmark index => do
    let call ← s.calls[index]?
    match call.stage with
    | .leaving result => some ((s.unmark call.url).moveTo index call (.ended result))
    | _ => none
  | .cancel index => do
    let call ← s.calls[index]?
    match call.stage with
    | .called => some (s.moveTo index call (.ended none))
    | .waiting _ => some (s.moveTo index call (.leaving none))
    | .downloading cell =>
      some ((s.withCell cell fun c => { c with initializer := none }).moveTo index call (.leaving none))
    | _ => none

def Step (s : Registry Asset) (e : RegistryEvent Asset) (s' : Registry Asset) : Prop :=
  step s e = some s'

end Registry

end Webfang.Assets
