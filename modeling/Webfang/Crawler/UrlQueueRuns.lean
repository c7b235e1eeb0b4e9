import Mathlib.Data.String.Basic
import Webfang.Crawler.UrlQueue

/-!
# Whole runs of the URL queue

What any sequence of operations returns: each accepted URL once, in the heap order between
pushes, and never a URL whose canonical key was accepted before.
-/
namespace Webfang.Crawler

open Library Domain

namespace UrlQueue

/-! ### The remaining operations -/

def push (crates : UrlCrates) (queue : UrlQueue) (url : DiscoveredUrl) : UrlQueue × Bool :=
  queue.pushPrioritized crates url .link

/-- The queue is emptied but the seen set is kept. -/
def clear (queue : UrlQueue) : UrlQueue := { queue with heap := [] }

/-- The whole of `snapshot_urls_bounded`: what was popped is pushed back. -/
def snapshotBounded (queue : UrlQueue) (n : Nat) : UrlQueue × List String :=
  let (popped, left) := MaxHeap.popMany PrioritizedUrl.le n queue.heap
  ({ queue with heap := popped ++ left }, popped.map fun prioritized => prioritized.url.url)

/-- `a` leaves the queue before `b`: the higher priority, then the smaller URL. -/
def Precedes (queue : UrlQueue) (a b : DiscoveredUrl) : Prop :=
  ∃ first ∈ queue.heap, ∃ second ∈ queue.heap, first.url = a ∧ second.url = b ∧
    (second.priority < first.priority ∨ first.priority = second.priority ∧ a.url < b.url)

end UrlQueue

/-! ### Runs -/

inductive QueueCall where
  | push (url : DiscoveredUrl)
  | pushPrioritized (url : DiscoveredUrl) (source : UrlSource)
  | pop
  | drainAll
  | snapshotUrlsBounded (n : Nat)
  | clear

def QueueCall.isPush : QueueCall → Bool
  | .push _ | .pushPrioritized _ _ => true
  | _ => false

/-- A queue with what has left it: returned by `pop` or `drain_all`, or cleared. -/
structure QueueRun where
  queue : UrlQueue
  returned : List DiscoveredUrl
  cleared : List DiscoveredUrl

namespace QueueRun

variable (crates : UrlCrates)

def start : QueueRun := ⟨.empty, [], []⟩

def step (run : QueueRun) : QueueCall → QueueRun
  | .push url => { run with queue := (run.queue.push crates url).1 }
  | .pushPrioritized url source => { run with queue := (run.queue.pushPrioritized crates url source).1 }
  | .pop =>
    let (queue, url) := run.queue.pop
    { run with queue := queue, returned := run.returned ++ url.toList }
  | .drainAll =>
    let (queue, urls) := run.queue.drainAll
    { run with queue := queue, returned := run.returned ++ urls }
  | .snapshotUrlsBounded n => { run with queue := (run.queue.snapshotBounded n).1 }
  | .clear =>
    { run with
      queue := run.queue.clear
      cleared := run.cleared ++ run.queue.heap.map PrioritizedUrl.url }

def after (calls : List QueueCall) : QueueRun := calls.foldl (step crates) start

end QueueRun

/-! ### The heap order -/

namespace PrioritizedUrl

theorem le_iff {a b : PrioritizedUrl} :
    a.le b = true ↔ a.priority < b.priority ∨ a.priority = b.priority ∧ b.url.url ≤ a.url.url := by
  simp only [PrioritizedUrl.le, Bool.or_eq_true, decide_eq_true_eq, Bool.and_eq_true, beq_iff_eq,
    Bool.not_eq_true', decide_eq_false_iff_not, not_lt]

theorem connected (a b : PrioritizedUrl) : a.le b = true ∨ b.le a = true := by
  rw [le_iff, le_iff]
  rcases Nat.lt_trichotomy a.priority b.priority with lower | same | higher
  · exact .inl (.inl lower)
  · rcases le_total b.url.url a.url.url with before | before
    · exact .inl (.inr ⟨same, before⟩)
    · exact .inr (.inr ⟨same.symm, before⟩)
  · exact .inr (.inl higher)

theorem transitive (a b c : PrioritizedUrl) (first : a.le b = true) (second : b.le c = true) :
    a.le c = true := by
  rw [le_iff] at *
  rcases first with lower | ⟨same, before⟩ <;> rcases second with lower' | ⟨same', before'⟩
  · exact .inl (by omega)
  · exact .inl (by omega)
  · exact .inl (by omega)
  · exact .inr ⟨same.trans same', before'.trans before⟩

/-- Equivalent entries have the same URL. -/
theorem url_eq_of_le {a b : PrioritizedUrl} (first : a.le b = true) (second : b.le a = true) :
    a.url.url = b.url.url := by
  rw [le_iff] at *
  rcases first with lower | ⟨_, before⟩ <;> rcases second with lower' | ⟨_, before'⟩
  · omega
  · omega
  · omega
  · exact le_antisymm before' before

end PrioritizedUrl

/-! ### What one operation does -/

namespace UrlQueue

variable {crates : UrlCrates} {queue : UrlQueue}

theorem pushPrioritized_accepts_iff (url : DiscoveredUrl) (source : UrlSource) :
    (queue.pushPrioritized crates url source).2 = true ↔
      crates.canonicalKey url.url ∉ queue.seen := by
  unfold pushPrioritized
  by_cases known : crates.canonicalKey url.url ∈ queue.seen
  · simp [known]
  · simp [known]

theorem pushPrioritized_cases (crates : UrlCrates) (queue : UrlQueue) (url : DiscoveredUrl)
    (source : UrlSource) :
    crates.canonicalKey url.url ∈ queue.seen ∧
        (queue.pushPrioritized crates url source).1 = queue ∨
      crates.canonicalKey url.url ∉ queue.seen ∧
        (queue.pushPrioritized crates url source).1 =
          { heap := .fromSource url source :: queue.heap
            seen := queue.seen.insert (crates.canonicalKey url.url)
            accepted := queue.accepted ++ [url] } := by
  unfold pushPrioritized
  by_cases known : crates.canonicalKey url.url ∈ queue.seen
  · exact .inl ⟨known, by simp [known]⟩
  · exact .inr ⟨known, by simp [known]⟩

theorem pop_cases :
    queue.heap = [] ∧ queue.pop = (queue, none) ∨
      ∃ top below, MaxHeap.popMax PrioritizedUrl.le queue.heap = some (top, below) ∧
        queue.pop = ({ queue with heap := below }, some top.url) := by
  unfold pop
  cases found : MaxHeap.popMax PrioritizedUrl.le queue.heap with
  | none => exact .inl ⟨MaxHeap.popMax_eq_none_iff.mp found, rfl⟩
  | some popped => exact .inr ⟨popped.1, popped.2, rfl, rfl⟩

theorem snapshotBounded_perm (queue : UrlQueue) (n : Nat) :
    (queue.snapshotBounded n).1.heap.Perm queue.heap :=
  MaxHeap.popMany_perm n queue.heap

def heldKeys (crates : UrlCrates) (queue : UrlQueue) : List String :=
  queue.heap.map fun entry => crates.canonicalKey entry.url.url

theorem entry_unique (distinct : (queue.heldKeys crates).Nodup) {a b : PrioritizedUrl}
    (first : a ∈ queue.heap) (second : b ∈ queue.heap) (same : a.url.url = b.url.url) : a = b :=
  List.inj_on_of_nodup_map distinct first second (congrArg crates.canonicalKey same)

theorem drain_congr (distinct : (queue.heldKeys crates).Nodup) {heap : List PrioritizedUrl}
    (same : queue.heap.Perm heap) :
    MaxHeap.drain PrioritizedUrl.le queue.heap = MaxHeap.drain PrioritizedUrl.le heap := by
  apply MaxHeap.drain_congr PrioritizedUrl.connected PrioritizedUrl.transitive same
  intro a first b second below above
  exact entry_unique distinct first second (PrioritizedUrl.url_eq_of_le below above)

/-- A snapshot shows the first URLs a drain would return, and changes no later answer. -/
theorem snapshotBounded_spec (distinct : (queue.heldKeys crates).Nodup) (n : Nat) :
    let (after, urls) := queue.snapshotBounded n
    urls = (queue.drainAll.2.map DiscoveredUrl.url).take n ∧
      after.heap.Perm queue.heap ∧ after.seen = queue.seen ∧ after.accepted = queue.accepted ∧
      after.drainAll.2 = queue.drainAll.2 := by
  refine ⟨?_, snapshotBounded_perm queue n, rfl, rfl, ?_⟩
  · simp only [drainAll, ← List.map_take, List.map_map]
    rw [← MaxHeap.popMany_eq_take_drain]
    rfl
  · apply congrArg (List.map PrioritizedUrl.url)
    exact (drain_congr distinct (snapshotBounded_perm queue n).symm).symm

end UrlQueue

/-! ### Every run conserves the accepted URLs -/

namespace QueueRun

variable {crates : UrlCrates} {run : QueueRun}

structure Sound (crates : UrlCrates) (run : QueueRun) : Prop where
  seen : ∀ key, key ∈ run.queue.seen ↔
    key ∈ run.queue.accepted.map fun url => crates.canonicalKey url.url
  distinct : (run.queue.accepted.map fun url => crates.canonicalKey url.url).Nodup
  conserved : run.queue.accepted.Perm
    (run.returned ++ run.cleared ++ run.queue.heap.map PrioritizedUrl.url)

theorem Sound.heldKeys_nodup (sound : run.Sound crates) : (run.queue.heldKeys crates).Nodup := by
  have keys := sound.conserved.map fun url : DiscoveredUrl => crates.canonicalKey url.url
  rw [List.map_append, List.map_map] at keys
  exact (List.nodup_append.mp (keys.nodup sound.distinct)).2.1

theorem Sound.pushPrioritized (sound : run.Sound crates) (url : DiscoveredUrl)
    (source : UrlSource) :
    Sound crates { run with queue := (run.queue.pushPrioritized crates url source).1 } := by
  rcases UrlQueue.pushPrioritized_cases crates run.queue url source with
    ⟨_, same⟩ | ⟨fresh, pushed⟩
  · rw [same]
    exact sound
  · rw [pushed]
    constructor
    · intro key
      rw [Std.ExtTreeSet.mem_insert, Std.LawfulEqOrd.compare_eq_iff_eq, sound.seen]
      simp [eq_comm, or_comm]
    · rw [List.map_append]
      apply List.Nodup.append sound.distinct (List.nodup_singleton _)
      rw [sound.seen] at fresh
      simpa using fresh
    · -- the new URL is the last accepted and the first held
      have grown := sound.conserved.append_right [url]
      apply grown.trans
      simp only [List.append_assoc, List.map_cons]
      apply List.Perm.append_left
      apply List.Perm.append_left
      exact List.perm_append_singleton _ _

theorem Sound.step (sound : run.Sound crates) (call : QueueCall) :
    (run.step crates call).Sound crates := by
  cases call with
  | push url => exact sound.pushPrioritized url .link
  | pushPrioritized url source => exact sound.pushPrioritized url source
  | pop =>
    rcases run.queue.pop_cases with ⟨_, none⟩ | ⟨top, below, popped, some⟩
    · simpa [QueueRun.step, none] using sound
    -- the popped URL moves from the heap to what was returned
    · have same := (MaxHeap.popMax_perm popped).map PrioritizedUrl.url
      have moved : run.queue.accepted.Perm
          (run.returned ++ [top.url] ++ run.cleared ++ below.map PrioritizedUrl.url) := by
        apply sound.conserved.trans
        apply (same.symm.append_left (run.returned ++ run.cleared)).trans
        simp only [List.append_assoc, List.map_cons, List.singleton_append]
        apply List.Perm.append_left
        exact List.perm_middle
      simp only [QueueRun.step, some, Option.toList]
      exact ⟨sound.seen, sound.distinct, moved⟩
  | drainAll =>
    -- all of the heap moves to what was returned
    have same : run.queue.drainAll.2.Perm (run.queue.heap.map PrioritizedUrl.url) :=
      (MaxHeap.drain_perm _).map _
    have moved : run.queue.accepted.Perm
        (run.returned ++ run.queue.drainAll.2 ++ run.cleared ++ []) := by
      apply sound.conserved.trans
      apply (same.symm.append_left (run.returned ++ run.cleared)).trans
      simp only [List.append_assoc, List.append_nil]
      apply List.Perm.append_left
      exact List.perm_append_comm
    exact ⟨sound.seen, sound.distinct, moved⟩
  | snapshotUrlsBounded n =>
    -- a snapshot pops and pushes back, so the heap is the same bag
    have same := (run.queue.snapshotBounded_perm n).map PrioritizedUrl.url
    exact ⟨sound.seen, sound.distinct, sound.conserved.trans (same.symm.append_left _)⟩
  | clear =>
    refine ⟨sound.seen, sound.distinct, ?_⟩
    have moved := sound.conserved
    rw [List.append_assoc] at moved
    simpa [QueueRun.step, UrlQueue.clear] using moved

theorem sound_after (crates : UrlCrates) (calls : List QueueCall) :
    (after crates calls).Sound crates := by
  apply List.foldlRecOn (motive := fun run => Sound crates run) calls
  · constructor
    · intro key
      simp [start, UrlQueue.empty]
    · exact .nil
    · exact .nil
  · intro run sound call _
    exact sound.step call

/-- What a push-free stretch has returned so far, as entries of the heap it began with. -/
structure Draining (began now : QueueRun) (entries : List PrioritizedUrl) : Prop where
  returned : now.returned = began.returned ++ entries.map PrioritizedUrl.url
  sorted : entries.Pairwise fun a b => b.le a = true
  above : ∀ a ∈ entries, ∀ b ∈ now.queue.heap, b.le a = true
  taken : (entries ++ now.queue.heap).Subperm began.queue.heap

variable {began : QueueRun} {entries : List PrioritizedUrl}

theorem Draining.pop (draining : Draining began run entries) :
    ∃ entries, Draining began (run.step crates .pop) entries := by
  rcases run.queue.pop_cases with ⟨_, none⟩ | ⟨top, below, popped, some⟩
  · exact ⟨entries, by simpa [QueueRun.step, none] using draining⟩
  · have same := MaxHeap.popMax_perm popped
    have member : ∀ b, b ∈ top :: below ↔ b ∈ run.queue.heap := fun b => same.mem_iff
    refine ⟨entries ++ [top], ?_⟩
    simp only [QueueRun.step, some, Option.toList]
    constructor
    · simp [draining.returned]
    · apply List.pairwise_append.mpr
      refine ⟨draining.sorted, List.pairwise_singleton _ _, ?_⟩
      intro a listed b last
      rw [List.mem_singleton.mp last]
      exact draining.above a listed top ((member top).mp List.mem_cons_self)
    · intro a listed b left
      rcases List.mem_append.mp listed with earlier | last
      · exact draining.above a earlier b ((member b).mp (List.mem_cons_of_mem _ left))
      · rw [List.mem_singleton.mp last]
        exact MaxHeap.le_popMax PrioritizedUrl.connected PrioritizedUrl.transitive popped b left
    · rw [List.append_assoc]
      exact (same.append_left entries).subperm.trans draining.taken

theorem Draining.drainAll (draining : Draining began run entries) :
    ∃ entries, Draining began (run.step crates .drainAll) entries := by
  have same : (MaxHeap.drain PrioritizedUrl.le run.queue.heap).Perm run.queue.heap :=
    MaxHeap.drain_perm _
  refine ⟨entries ++ MaxHeap.drain PrioritizedUrl.le run.queue.heap, ?_⟩
  constructor
  · simp [QueueRun.step, UrlQueue.drainAll, draining.returned]
  · apply List.pairwise_append.mpr
    refine ⟨draining.sorted, ?_, ?_⟩
    · exact MaxHeap.popMany_sorted PrioritizedUrl.connected PrioritizedUrl.transitive _ _
    · intro a listed b drained
      exact draining.above a listed b (MaxHeap.mem_drain.mp drained)
  · intro a _ b left
    cases left
  · simp only [QueueRun.step, UrlQueue.drainAll, List.append_nil]
    exact (same.append_left entries).subperm.trans draining.taken

theorem Draining.step (draining : Draining began run entries) {call : QueueCall}
    (reads : call.isPush = false) : ∃ entries, Draining began (run.step crates call) entries := by
  cases call with
  | push url => cases reads
  | pushPrioritized url source => cases reads
  | pop => exact draining.pop
  | drainAll => exact draining.drainAll
  | snapshotUrlsBounded n =>
    have same := run.queue.snapshotBounded_perm n
    refine ⟨entries, draining.returned, draining.sorted, ?_, ?_⟩
    · intro a listed b held
      exact draining.above a listed b (same.mem_iff.mp held)
    · exact (same.append_left entries).subperm.trans draining.taken
  | clear =>
    refine ⟨entries, draining.returned, draining.sorted, ?_, ?_⟩
    · intro a _ b held
      cases held
    · simp only [QueueRun.step, UrlQueue.clear, List.append_nil]
      exact (List.sublist_append_left entries _).subperm.trans draining.taken

theorem draining_after (crates : UrlCrates) (run : QueueRun) {calls : List QueueCall}
    (reads : ∀ call ∈ calls, call.isPush = false) :
    ∃ entries, Draining run (calls.foldl (step crates) run) entries := by
  apply List.foldlRecOn (motive := fun now => ∃ entries, Draining run now entries) calls
  · exact ⟨[], by simp, .nil, by simp, List.Subperm.refl _⟩
  · rintro now ⟨entries, draining⟩ call listed
    exact draining.step (reads call listed)

/-- Entries of one heap that are sorted leave in the order of the queue. -/
theorem Draining.precedes (distinct : (began.queue.heldKeys crates).Nodup)
    (draining : Draining began run entries) :
    (entries.map PrioritizedUrl.url).Pairwise began.queue.Precedes := by
  have taken : entries.Subperm began.queue.heap :=
    (List.sublist_append_left entries _).subperm.trans draining.taken
  have keys : (entries.map fun entry => crates.canonicalKey entry.url.url).Nodup := by
    obtain ⟨part, same, inside⟩ := taken
    exact (same.map _).nodup_iff.mp (distinct.sublist (inside.map _))
  rw [List.pairwise_map]
  have both := draining.sorted.and (List.pairwise_map.mp keys)
  apply both.imp_of_mem
  intro a b first second ⟨below, apart⟩
  refine ⟨a, taken.subset first, b, taken.subset second, rfl, rfl, ?_⟩
  rcases PrioritizedUrl.le_iff.mp below with lower | ⟨same, before⟩
  · exact .inl lower
  · refine .inr ⟨same.symm, lt_of_le_of_ne before ?_⟩
    intro equal
    exact apart (congrArg crates.canonicalKey equal)

end QueueRun

end Webfang.Crawler
