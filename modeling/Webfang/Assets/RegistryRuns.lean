import Webfang.Assets.Eviction

/-!
# Steps of the asset registry

What one event does, and what holds in every run: a cell belongs to one URL, its permit to one
call, and a key whose cell has passed a ledger insert is in the ledger.
-/
namespace Webfang.Assets

open Library

namespace Registry

variable {Asset : Type} {s s' : Registry Asset} {e : RegistryEvent Asset} {index : Nat}
  {call : DownloadCall Asset}

/-! ### What one event does -/

/-- `moved` are the moves of a call that holds no cell afterwards, and none before that it had
not put into the ledger; its mark, if it has one, stays. -/
inductive Steps (s : Registry Asset) : RegistryEvent Asset → Registry Asset → Prop
  | called (url : String) : Steps s (.call url) { s with calls := s.calls ++ [⟨url, .called⟩] }
  | moved {e : RegistryEvent Asset} {index : Nat} {call : DownloadCall Asset} {stage : Stage Asset}
      (found : s.calls[index]? = some call) (ledgered : ∀ cell, call.stage ≠ .inserted cell)
      (free : stage.cell? = none) (marked : call.stage.isMarked = true → stage.isMarked = true) :
      Steps s e (s.moveTo index call stage)
  | joined {index cell : Nat} {call : DownloadCall Asset} (found : s.calls[index]? = some call)
      (here : call.stage = .missed) (known : s.get call.url = some cell) :
      Steps s (.insert index) (s.moveTo index call (.inserted cell))
  | registered {index : Nat} {call : DownloadCall Asset} (found : s.calls[index]? = some call)
      (here : call.stage = .missed) (unknown : s.get call.url = none) :
      Steps s (.insert index) ((s.register call.url).moveTo index call (.inserted s.cells.length))
  | ledgered {index cell : Nat} {call : DownloadCall Asset} (found : s.calls[index]? = some call)
      (here : call.stage = .inserted cell) : Steps s (.ledger index) (s.ledger index call cell)
  | evicted {index cell : Nat} {call : DownloadCall Asset} (found : s.calls[index]? = some call)
      (here : call.stage = .ledgered cell) :
      Steps s (.evict index) (s.evictOverCapacity.moveTo index call (.evicted cell))
  | marked {index cell : Nat} {call : DownloadCall Asset} (found : s.calls[index]? = some call)
      (here : call.stage = .evicted cell) :
      Steps s (.mark index) ((s.mark call.url).moveTo index call (.waiting cell))
  | began {index cell : Nat} {flag : Bool} {call : DownloadCall Asset}
      (found : s.calls[index]? = some call) (here : call.stage = .waiting cell)
      (empty : s.cells[cell]? = some ⟨none, none, flag⟩) :
      Steps s (.poll index)
        ((s.withCell cell fun c => { c with initializer := some index }).moveTo index call
          (.downloading cell))
  /-- The end of a download: done, failed or dropped. -/
  | finished {e : RegistryEvent Asset} {index cell : Nat} {call : DownloadCall Asset}
      {result : Option (Except String Asset)} (asset : Option Asset)
      (found : s.calls[index]? = some call) (here : call.stage = .downloading cell) :
      Steps s e ((s.withCell cell fun c =>
        { c with asset := asset.or c.asset, initializer := none }).moveTo index call (.leaving result))
  | unmarked {index : Nat} {call : DownloadCall Asset} {result : Option (Except String Asset)}
      (found : s.calls[index]? = some call) (here : call.stage = .leaving result) :
      Steps s (.unmark index) ((s.unmark call.url).moveTo index call (.ended result))

theorem step_cases (taken : Step s e s') : Steps s e s' := by
  unfold Step at taken
  cases e with
  | call url =>
    cases taken
    exact .called url
  | lookup index =>
    obtain ⟨call, found, taken⟩ := Option.bind_eq_some_iff.mp taken
    split at taken
    next here =>
      cases taken
      unfold lookup
      split
      · exact .moved found (by simp [here]) rfl (by simp [here, Stage.isMarked])
      · exact .moved found (by simp [here]) rfl (by simp [here, Stage.isMarked])
    next => cases taken
  | insert index =>
    obtain ⟨call, found, taken⟩ := Option.bind_eq_some_iff.mp taken
    split at taken
    next here =>
      cases taken
      unfold insert
      split
      next cell known => exact .joined found here known
      next unknown => exact .registered found here unknown
    next => cases taken
  | ledger index =>
    obtain ⟨call, found, taken⟩ := Option.bind_eq_some_iff.mp taken
    split at taken
    next cell here =>
      cases taken
      exact .ledgered found here
    next => cases taken
  | evict index =>
    obtain ⟨call, found, taken⟩ := Option.bind_eq_some_iff.mp taken
    split at taken
    next cell here =>
      cases taken
      exact .evicted found here
    next => cases taken
  | mark index =>
    obtain ⟨call, found, taken⟩ := Option.bind_eq_some_iff.mp taken
    split at taken
    next cell here =>
      cases taken
      exact .marked found here
    next => cases taken
  | poll index =>
    obtain ⟨call, found, taken⟩ := Option.bind_eq_some_iff.mp taken
    split at taken
    next cell here =>
      split at taken
      next asset _ _ _ =>
        cases taken
        exact .moved found (by simp [here]) rfl fun _ => rfl
      next flag empty =>
        cases taken
        exact .began found here empty
      next => cases taken
    next => cases taken
  | finish index result =>
    obtain ⟨call, found, taken⟩ := Option.bind_eq_some_iff.mp taken
    split at taken
    next cell here =>
      cases taken
      exact .finished result.toOption found here
    next => cases taken
  | unmark index =>
    obtain ⟨call, found, taken⟩ := Option.bind_eq_some_iff.mp taken
    split at taken
    next result here =>
      cases taken
      exact .unmarked found here
    next => cases taken
  | cancel index =>
    obtain ⟨call, found, taken⟩ := Option.bind_eq_some_iff.mp taken
    split at taken
    next here =>
      cases taken
      exact .moved found (by simp [here]) rfl (by simp [here, Stage.isMarked])
    next cell here =>
      cases taken
      exact .moved found (by simp [here]) rfl fun _ => rfl
    next cell here =>
      cases taken
      exact .finished none found here
    next => cases taken

/-! ### Cells, entries and calls after a move -/

theorem getElem?_moveTo (found : s.calls[index]? = some call) (stage : Stage Asset) (j : Nat) :
    (s.moveTo index call stage).calls[j]? = if index = j then some { call with stage } else s.calls[j]? := by
  change (s.calls.set index { call with stage })[j]? = _
  rw [List.getElem?_set]
  split
  next => rw [if_pos (List.getElem?_eq_some_iff.mp found).1]
  next => rfl

theorem mem_moveTo {stage : Stage Asset} {other : DownloadCall Asset} (found : s.calls[index]? = some call)
    (member : other ∈ s.calls) (apart : other.stage ≠ call.stage) :
    other ∈ (s.moveTo index call stage).calls := by
  obtain ⟨j, here⟩ := List.mem_iff_getElem?.mp member
  have distinct : index ≠ j := by
    rintro rfl
    rw [found] at here
    cases here
    exact apart rfl
  exact List.mem_iff_getElem?.mpr ⟨j, by rw [getElem?_moveTo found, if_neg distinct, here]⟩

theorem getElem?_withCell (cell : Nat) (change : Cell Asset → Cell Asset) (k : Nat) :
    (s.withCell cell change).cells[k]? = if cell = k then s.cells[k]?.map change else s.cells[k]? := by
  change (s.cells.modify cell change)[k]? = _
  rw [List.getElem?_modify]
  split <;> simp

theorem get_register {url : String} (unknown : s.get url = none) (other : String) :
    (s.register url).get other = if url = other then some s.cells.length else s.get other := by
  unfold get register at *
  rw [List.find?_append]
  split
  next same =>
    subst same
    rw [Option.map_eq_none_iff.mp unknown]
    simp
  next apart =>
    have last : ([(url, s.cells.length)] : List (String × Nat)).find? (fun entry => entry.1 = other) = none := by
      simp [apart]
    rw [last, Option.or_none]

def isLedgered (s : Registry Asset) (cell : Nat) : Bool := s.cells[cell]?.any Cell.ledgered

/-! ### The invariants -/

/-- What holds in every run of a bounded downloader. -/
structure Sound (s : Registry Asset) : Prop where
  bounded : s.capacity ≠ usizeMax
  ordered : s.Ordered
  listed : ∀ url cell, s.get url = some cell → cell < s.cells.length
  held : ∀ call ∈ s.calls, ∀ cell, call.stage.cell? = some cell → cell < s.cells.length
  /-- A cell belongs to one URL. -/
  owned : ∀ call ∈ s.calls, ∀ cell url, call.stage.cell? = some cell → s.get url = some cell →
    url = call.url
  single : ∀ url other cell, s.get url = some cell → s.get other = some cell → url = other
  tracked : ∀ url cell, s.get url = some cell → s.isLedgered cell = true → url ∈ s.order.queue
  pending : ∀ url cell, s.get url = some cell → s.isLedgered cell = false →
    ∃ call ∈ s.calls, call.url = url ∧ call.stage = .inserted cell
  /-- The call that downloads into a cell has its permit, and the cell is empty. -/
  permit : ∀ (index : Nat) (call : DownloadCall Asset) (cell : Nat), s.calls[index]? = some call →
    call.stage = .downloading cell → ∃ flag, s.cells[cell]? = some ⟨none, some index, flag⟩

theorem Sound.start {capacity : Nat} (bounded : capacity ≠ usizeMax) :
    (start capacity : Registry Asset).Sound where
  bounded := bounded
  ordered := ⟨List.nodup_nil, List.nodup_nil, fun _ => Iff.rfl⟩
  listed := nofun
  held := nofun
  owned := nofun
  single := nofun
  tracked := nofun
  pending := nofun
  permit := nofun

/-- One call moves to a stage whose cell, if any, belongs to its URL. The registry is as before,
and of the cells at most the permit and the asset of one are not. -/
theorem Sound.moveTo {t : Registry Asset} {stage : Stage Asset} (sound : s.Sound)
    (found : s.calls[index]? = some call)
    (capacity : t.capacity = s.capacity) (entries : t.entries = s.entries) (order : t.order = s.order)
    (calls : t.calls = s.calls) (length : t.cells.length = s.cells.length)
    (flags : ∀ cell, t.isLedgered cell = s.isLedgered cell)
    (ledgered : ∀ cell, call.stage = .inserted cell → s.isLedgered cell = true)
    (owned : ∀ cell, stage.cell? = some cell →
      cell < s.cells.length ∧ ∀ url, s.get url = some cell → url = call.url)
    (others : ∀ (j cell : Nat) (flag : Bool), j ≠ index → s.cells[cell]? = some ⟨none, some j, flag⟩ →
      ∃ flag, t.cells[cell]? = some ⟨none, some j, flag⟩) (own : ∀ cell, stage = .downloading cell →
      ∃ flag, t.cells[cell]? = some ⟨none, some index, flag⟩) :
    (t.moveTo index call stage).Sound := by
  have get (url : String) : (t.moveTo index call stage).get url = s.get url := by
    unfold Registry.get
    rw [show (t.moveTo index call stage).entries = s.entries from entries]
  have foundT : t.calls[index]? = some call := by rw [calls, found]
  refine
    { bounded := ?_, ordered := ?_, listed := ?_, held := ?_, owned := ?_, single := ?_,
      tracked := ?_, pending := ?_, permit := ?_ }
  · rw [show (t.moveTo index call stage).capacity = s.capacity from capacity]
    exact sound.bounded
  · exact sound.ordered.congr entries order
  · intro url cell known
    rw [get] at known
    rw [show (t.moveTo index call stage).cells.length = s.cells.length from length]
    exact sound.listed url cell known
  · rw [show (t.moveTo index call stage).cells.length = s.cells.length from length]
    refine Counting.forall_mem_set ?_ fun cell free => (owned cell free).1
    rw [calls]
    exact sound.held
  · refine Counting.forall_mem_set ?_ fun cell url free known => (owned cell free).2 url (by rwa [get] at known)
    rw [calls]
    intro other member cell url holds known
    rw [get] at known
    exact sound.owned other member cell url holds known
  · intro url other cell known known'
    rw [get] at known known'
    exact sound.single url other cell known known'
  · intro url cell known flagged
    rw [get] at known
    rw [show (t.moveTo index call stage).order = s.order from order]
    exact sound.tracked url cell known ((flags cell).symm.trans flagged)
  · intro url cell known unflagged
    rw [get] at known
    obtain ⟨other, member, same, here⟩ := sound.pending url cell known ((flags cell).symm.trans unflagged)
    refine ⟨other, mem_moveTo foundT (by rwa [calls]) ?_, same, here⟩
    intro alike
    exact Bool.false_ne_true (((flags cell).symm.trans unflagged).symm.trans
      (ledgered cell (alike.symm.trans here)))
  · intro j other cell there here
    rw [getElem?_moveTo foundT] at there
    split at there
    next same =>
      subst same
      cases there
      exact own cell here
    next apart =>
      rw [calls] at there
      obtain ⟨flag, held⟩ := sound.permit j other cell there here
      exact others j cell flag (Ne.symm apart) held

end Registry

end Webfang.Assets
