import Webfang.Assets.AssetRegistry

/-!
# What an eviction pass takes

The victims of a pass are the oldest ledger entries that are not in flight, as many as the
registry has entries over its capacity. They leave the registry and the ledger together, and
nothing else changes.
-/
namespace Webfang.Assets

open Library Sift

namespace Registry

variable {Asset : Type} {s : Registry Asset} {url : String}

def keeps (s : Registry Asset) (candidate : String) : Bool := s.cellState candidate = .inFlight

/-- The entries a pass takes. -/
def victims (s : Registry Asset) : List String :=
  (s.order.queue.filter fun candidate => !s.keeps candidate).take (s.entries.length - s.capacity)

def without (s : Registry Asset) (taken queue : List String) : Registry Asset :=
  { s with
    entries := s.entries.filter fun entry => entry.1 ∉ taken
    order := ⟨queue, s.order.seen.filter (· ∉ taken)⟩ }

/-- The keys of the registry and of the ledger are distinct, and the ledger's set and queue
hold the same keys. -/
structure Ordered (s : Registry Asset) : Prop where
  keys : (s.entries.map Prod.fst).Nodup
  queue : s.order.queue.Nodup
  seen : ∀ url, url ∈ s.order.seen ↔ url ∈ s.order.queue

theorem Ordered.congr {t : Registry Asset} (ordered : s.Ordered) (entries : t.entries = s.entries)
    (order : t.order = s.order) : t.Ordered where
  keys := by rw [entries]; exact ordered.keys
  queue := by rw [order]; exact ordered.queue
  seen := by rw [order]; exact ordered.seen

theorem get_eq_some (keys : (s.entries.map Prod.fst).Nodup) {cell : Nat} :
    s.get url = some cell ↔ (url, cell) ∈ s.entries := by
  unfold get
  constructor
  · intro found
    obtain ⟨⟨key, held⟩, here, rfl⟩ := Option.map_eq_some_iff.mp found
    obtain ⟨member, rfl⟩ := (KeyedList.find?_eq_some_iff keys).mp here
    exact member
  · intro member
    have found : s.entries.find? (fun entry => entry.1 = url) = some (url, cell) :=
      (KeyedList.find?_eq_some_iff keys).mpr ⟨member, rfl⟩
    rw [found]
    rfl

theorem get_eq_none : s.get url = none ↔ url ∉ s.entries.map Prod.fst := by
  unfold get
  rw [Option.map_eq_none_iff]
  exact KeyedList.find?_eq_none_iff

theorem get_without (taken queue : List String) :
    (s.without taken queue).get url = if url ∈ taken then none else s.get url := by
  unfold get without
  split
  next gone =>
    rw [Option.map_eq_none_iff, List.find?_eq_none]
    intro entry member same
    have left : entry.1 ∉ taken := by simpa using (List.mem_filter.mp member).2
    rw [of_decide_eq_true same] at left
    exact left gone
  next kept =>
    congr 1
    rw [List.find?_filter]
    refine congrArg (List.find? · s.entries) (funext fun entry => ?_)
    by_cases same : entry.1 = url
    · simp [same, kept]
    · simp [same]

theorem cellState_congr {t : Registry Asset} (cells : t.cells = s.cells)
    (inFlight : t.inFlight = s.inFlight) (get : t.get url = s.get url) :
    t.cellState url = s.cellState url := by
  unfold cellState isInitialized
  rw [cells, inFlight, get]

theorem remove_eq_without (rest : List String) (candidate : String) :
    s.remove ⟨rest, s.order.seen⟩ candidate = s.without [candidate] rest := by
  simp [remove, without, InsertionLedger.forget]

theorem without_nil (queue : List String) :
    s.without [] queue = { s with order := ⟨queue, s.order.seen⟩ } := by
  simp [without]

theorem without_without (first second queue rest : List String) :
    (s.without first queue).without second rest = s.without (first ++ second) rest := by
  simp only [without, List.filter_filter, List.mem_append, not_or, Bool.decide_and]
  congr 2
  · exact funext fun _ => Bool.and_comm _ _
  · exact List.filter_congr fun _ _ => Bool.and_comm _ _

theorem scan_eq {scans : Nat} (excess : Nat) (deferred : List String)
    (distinct : s.order.queue.Nodup) (enough : s.order.queue.length ≤ scans) :
    scan scans excess deferred s =
      (deferred ++ (sift s.keeps excess s.order.queue).aside,
        s.without (sift s.keeps excess s.order.queue).taken
          (sift s.keeps excess s.order.queue).rest) := by
  induction scans generalizing s excess deferred with
  | zero =>
    have empty : s.order.queue = [] := List.length_eq_zero_iff.mp (Nat.le_zero.mp enough)
    rw [scan, empty, sift_nil, without_nil, List.append_nil, ← empty]
  | succ scans ih =>
    cases excess with
    | zero => rw [scan, sift_zero, without_nil, List.append_nil]
    | succ excess =>
      cases queued : s.order.queue with
      | nil =>
        simp only [scan, InsertionLedger.popOldest, queued, sift_nil, without_nil, List.append_nil]
        rw [← queued]
      | cons candidate rest =>
        rw [queued] at distinct enough
        obtain ⟨fresh, distinct⟩ := List.nodup_cons.mp distinct
        have enough : rest.length ≤ scans := by simpa using enough
        unfold sift
        simp only [scan, InsertionLedger.popOldest, queued]
        cases kept : s.keeps candidate with
        | true =>
          -- in flight: it goes to the back, and the scan goes on for as many
          have here : s.cellState candidate = .inFlight := of_decide_eq_true kept
          simp only [here, if_true]
          have later := ih (s := { s with order := ⟨rest, s.order.seen⟩ }) (excess + 1)
            (deferred ++ [candidate]) distinct enough
          rw [later, List.append_assoc]
          rfl
        | false =>
          have taken : scan scans excess deferred (s.remove ⟨rest, s.order.seen⟩ candidate) =
              (deferred ++ (sift s.keeps excess rest).aside,
                s.without (candidate :: (sift s.keeps excess rest).taken)
                  (sift s.keeps excess rest).rest) := by
            have same : ∀ other ∈ rest, (s.without [candidate] rest).keeps other = s.keeps other := by
              intro other queued
              have apart : other ∉ [candidate] := by
                rintro member
                rw [List.mem_singleton.mp member] at queued
                exact fresh queued
              have state : (s.without [candidate] rest).cellState other = s.cellState other :=
                cellState_congr rfl rfl (by rw [get_without, if_neg apart])
              simp only [keeps, state]
            rw [remove_eq_without, ih excess deferred distinct enough, without_without]
            change (_ ++ (sift _ excess rest).aside, s.without (_ ++ (sift _ excess rest).taken)
              (sift _ excess rest).rest) = _
            rw [sift_congr same]
            rfl
          have here : s.cellState candidate ≠ .inFlight := of_decide_eq_false kept
          simp only [Bool.false_eq_true, if_false]
          cases state : s.cellState candidate with
          | inFlight => exact absurd state here
          | initialized => exact taken
          | abandoned => exact taken
          | gone => exact taken

/-- What a pass leaves in the queue. -/
def spared (s : Registry Asset) : List String :=
  let sifted := sift s.keeps (s.entries.length - s.capacity) s.order.queue
  sifted.rest ++ sifted.aside

theorem foldl_requeue (deferred : List String) (order : InsertionLedger) :
    deferred.foldl InsertionLedger.requeue order = { order with queue := order.queue ++ deferred } := by
  induction deferred generalizing order with
  | nil => simp
  | cons url rest ih =>
    rw [List.foldl_cons, ih]
    simp [InsertionLedger.requeue]

/-- A pass takes its victims out of the registry and out of the ledger. -/
theorem evictOverCapacity_eq (bounded : s.capacity ≠ usizeMax) (distinct : s.order.queue.Nodup) :
    s.evictOverCapacity = s.without s.victims s.spared := by
  unfold evictOverCapacity spared victims
  rw [← sift_taken]
  split
  next within =>
    have none : s.entries.length - s.capacity = 0 := by
      rcases within with unbounded | within
      · exact absurd unbounded bounded
      · omega
    simp [none, without_nil]
  next full =>
    simp only [scan_eq _ _ distinct (Nat.le_refl _), List.nil_append, foldl_requeue]
    rfl

theorem mem_spared (distinct : s.order.queue.Nodup) :
    url ∈ s.spared ↔ url ∈ s.order.queue ∧ url ∉ s.victims := by
  unfold spared victims
  rw [← sift_taken]
  exact mem_left_iff distinct

theorem Ordered.without (ordered : s.Ordered) : (s.without s.victims s.spared).Ordered where
  keys := ordered.keys.sublist (List.filter_sublist.map _)
  queue := nodup_left ordered.queue
  seen url := by
    rw [show url ∈ (s.without s.victims s.spared).order.queue ↔ url ∈ s.spared from Iff.rfl,
      mem_spared ordered.queue]
    simp [Registry.without, ordered.seen]

end Registry

end Webfang.Assets
