import Mathlib.Logic.Function.Iterate
import Webfang.Assets.RegistryInvariant

/-!
# One download of a URL at a time

The one step that may break the link between a call and the cell of its URL is an eviction pass
that takes the empty cell of a call: from the insert of a cell to its mark nothing keeps a pass
from it, the call's own pass included. While no pass does so, two downloads of one URL never run
at once.
-/
namespace Webfang.Assets

open Library

namespace Registry

variable {Asset : Type} {s s' : Registry Asset} {e : RegistryEvent Asset} {index : Nat}
  {call : DownloadCall Asset}

/-! ### A call and the cell of its URL -/

/-- A call whose cell is empty has the cell that the registry has for its URL. -/
def Attached (s : Registry Asset) : Prop :=
  ∀ call ∈ s.calls, ∀ cell, call.stage.cell? = some cell → s.isInitialized cell = false →
    s.get call.url = some cell

/-- Some call holds the cell of the URL, and the cell is empty. -/
def isClaimed (s : Registry Asset) (url : String) : Bool :=
  (s.get url).any fun cell =>
    !s.isInitialized cell && s.calls.any fun call => call.stage.cell? == some cell

/-- No eviction pass takes a cell that is claimed. -/
def Spares (s : Registry Asset) : RegistryEvent Asset → Prop
  | .evict _ => ∀ url ∈ s.victims, s.isClaimed url = false
  | _ => True

instance (s : Registry Asset) (e : RegistryEvent Asset) : Decidable (Spares s e) := by
  unfold Spares
  cases e <;> infer_instance

theorem not_victim {cell : Nat} (spares : ∀ url ∈ s.victims, s.isClaimed url = false)
    (known : s.get call.url = some cell) (empty : s.isInitialized cell = false) (member : call ∈ s.calls)
    (holds : call.stage.cell? = some cell) : call.url ∉ s.victims := by
  intro victim
  have claimed : s.isClaimed call.url = true := by
    unfold isClaimed
    rw [known, Option.any_some, empty]
    exact List.any_eq_true.mpr ⟨call, member, by simp [holds]⟩
  rw [spares _ victim] at claimed
  cases claimed

theorem Attached.moveTo {t : Registry Asset} {stage : Stage Asset} (attached : s.Attached)
    (calls : t.calls = s.calls) (get : ∀ url cell, s.get url = some cell → t.get url = some cell)
    (empty : ∀ call ∈ s.calls, ∀ cell, call.stage.cell? = some cell → t.isInitialized cell = false →
      s.isInitialized cell = false)
    (own : ∀ cell, stage.cell? = some cell → t.isInitialized cell = false → t.get call.url = some cell) :
    (t.moveTo index call stage).Attached := by
  refine Counting.forall_mem_set ?_ own
  rw [calls]
  intro other member cell holds unset
  exact get _ _ (attached other member cell holds (empty other member cell holds unset))

theorem isInitialized_withCell {cell k : Nat} {change : Cell Asset → Cell Asset}
    (keeps : ∀ c, c.asset.isSome = true → (change c).asset.isSome = true)
    (empty : (s.withCell cell change).isInitialized k = false) : s.isInitialized k = false := by
  unfold isInitialized at *
  rw [getElem?_withCell] at empty
  split at empty
  next =>
    cases there : s.cells[k]? with
    | none => rfl
    | some c =>
      rw [there] at empty
      cases set : c.asset.isSome with
      | false => exact set
      | true =>
        have still : (change c).asset.isSome = false := empty
        rw [keeps c set] at still
        cases still
  next => exact empty

theorem Steps.attached (taken : Steps s e s') (sound : s.Sound) (spares : Spares s e)
    (attached : s.Attached) : s'.Attached := by
  -- a call that keeps its cell keeps the link
  have same {t : Registry Asset} {stage : Stage Asset} {call : DownloadCall Asset} {index : Nat}
      (found : s.calls[index]? = some call) (holds : ∀ cell, stage.cell? = some cell → call.stage.cell? = some cell)
      (calls : t.calls = s.calls) (entries : t.entries = s.entries)
      (empty : ∀ cell, t.isInitialized cell = false → s.isInitialized cell = false) :
      (t.moveTo index call stage).Attached := by
    have get (url : String) : t.get url = s.get url := by unfold Registry.get; rw [entries]
    refine attached.moveTo calls (fun url cell known => (get url).trans known) (fun _ _ cell _ => empty cell)
      fun cell kept unset => ?_
    exact (get _).trans (attached call (List.mem_of_getElem? found) cell (holds cell kept) (empty cell unset))
  cases taken with
  | called url =>
    intro other member cell holds unset
    rcases List.mem_append.mp member with old | new
    · exact attached other old cell holds unset
    · rw [List.mem_singleton.mp new] at holds
      cases holds
  | moved found _ free _ =>
    exact same found (fun cell holds => by rw [free] at holds; cases holds) rfl rfl fun _ => id
  | joined found here known =>
    refine attached.moveTo rfl (fun _ _ => id) (fun _ _ _ _ => id) fun cell holds _ => ?_
    cases holds
    exact known
  | @registered index call found here unknown =>
    refine attached.moveTo rfl (fun url cell known => ?_) (fun other member cell holds unset => ?_)
      fun cell holds _ => ?_
    · have apart : call.url ≠ url := by
        rintro rfl
        rw [unknown] at known
        cases known
      rw [get_register unknown, if_neg apart, known]
    · unfold isInitialized at *
      rw [show (s.register call.url).cells = s.cells ++ [⟨none, none, false⟩] from rfl,
        List.getElem?_append_left (sound.held other member cell holds)] at unset
      exact unset
    · cases holds
      rw [get_register unknown, if_pos rfl]
  | ledgered found here =>
    unfold ledger
    exact same found (fun cell holds => by cases holds; rw [here]; rfl) rfl rfl fun _ =>
      isInitialized_withCell fun _ => id
  | @evicted index cell call found here =>
    rw [evictOverCapacity_eq sound.bounded sound.ordered.queue]
    have kept {other : DownloadCall Asset} {cell : Nat} (member : other ∈ s.calls)
        (holds : other.stage.cell? = some cell) (unset : s.isInitialized cell = false) :
        (s.without s.victims s.spared).get other.url = some cell := by
      have known := attached other member cell holds unset
      rw [get_without, if_neg (not_victim spares known unset member holds), known]
    refine Counting.forall_mem_set (fun other member cell => kept member) fun k holds unset => ?_
    cases holds
    have holds : call.stage.cell? = some cell := by rw [here]; rfl
    have known : (s.without s.victims s.spared).get call.url = some cell :=
      kept (List.mem_of_getElem? found) holds unset
    exact known
  | marked found here =>
    rw [mark_eq]
    exact same found (fun cell holds => by cases holds; rw [here]; rfl) rfl rfl fun _ => id
  | began found here empty =>
    exact same found (fun cell holds => by cases holds; rw [here]; rfl) rfl rfl fun _ =>
      isInitialized_withCell fun _ => id
  | finished asset found here =>
    refine same found (fun cell holds => by cases holds) rfl rfl fun _ =>
      isInitialized_withCell fun c set => ?_
    cases asset <;> simp [set]
  | unmarked found here => exact same found (fun cell holds => by cases holds) rfl rfl fun _ => id

/-! ### Back to capacity -/

/-- With no mark left and every key in the ledger, some number of passes brings the registry back
to its capacity. -/
theorem exists_passes (bounded : s.capacity ≠ usizeMax) (ordered : s.Ordered) (quiet : s.inFlight = [])
    (tracked : ∀ url cell, s.get url = some cell → url ∈ s.order.queue) :
    ∃ passes, (evictOverCapacity^[passes] s).entries.length ≤ s.capacity := by
  -- each pass over capacity takes a key out of the queue
  generalize size : s.order.queue.length = n
  induction n using Nat.strongRecOn generalizing s with
  | ind n ih =>
    rcases Nat.lt_or_ge s.capacity s.entries.length with full | within
    · have free (url : String) : s.keeps url = false := by
        unfold keeps cellState
        rw [quiet]
        cases s.get url with
        | none => rfl
        | some cell => cases set : s.isInitialized cell <;> simp [set]
      have queued : 0 < s.order.queue.length := by
        obtain ⟨⟨url, cell⟩, rest, cons⟩ := List.exists_cons_of_length_pos (Nat.zero_lt_of_lt full)
        have member : (url, cell) ∈ s.entries := by rw [cons]; exact List.mem_cons_self
        exact List.length_pos_of_mem (tracked url cell ((get_eq_some ordered.keys).mpr member))
      have victims : 0 < s.victims.length := by
        unfold victims
        have all : s.order.queue.filter (fun candidate => !s.keeps candidate) = s.order.queue :=
          List.filter_eq_self.mpr fun url _ => by rw [free]; rfl
        rw [all, List.length_take]
        omega
      have shorter : s.spared.length < n := by
        have lengths := (Sift.sift_perm s.keeps (s.entries.length - s.capacity) s.order.queue).length_eq
        rw [List.length_append, Sift.sift_taken] at lengths
        have left : s.spared.length + s.victims.length = n := by
          rw [← size, ← lengths, Nat.add_comm]
          rfl
        omega
      have later : ∀ url cell, (s.without s.victims s.spared).get url = some cell → url ∈ s.spared := by
        intro url cell known
        rw [get_without] at known
        split at known
        · cases known
        next kept => exact (mem_spared ordered.queue).mpr ⟨tracked url cell known, kept⟩
      obtain ⟨passes, brought⟩ := ih _ shorter (s := s.without s.victims s.spared) bounded ordered.without quiet later rfl
      refine ⟨passes + 1, ?_⟩
      rw [Function.iterate_succ_apply, evictOverCapacity_eq bounded ordered.queue]
      exact brought
    · exact ⟨0, within⟩

/-! ### Runs that spare the claimed cells -/

/-- No two downloads of one URL, no download outside the registry, each ledgered key in the
ledger once; and when the calls have ended the registry can be brought back to capacity. -/
structure Consistent (s : Registry Asset) : Prop where
  single : ∀ (i j : Nat) (call other : DownloadCall Asset) (cell cell' : Nat), s.calls[i]? = some call →
    s.calls[j]? = some other → call.stage = .downloading cell → other.stage = .downloading cell' →
    call.url = other.url → i = j
  present : ∀ call ∈ s.calls, ∀ cell, call.stage = .downloading cell → s.get call.url = some cell
  once : ∀ url cell, s.get url = some cell → s.isLedgered cell = true → s.order.queue.count url = 1
  restorable : (∀ call ∈ s.calls, call.stage.isEnded = true) →
    ∃ passes, (evictOverCapacity^[passes] s).entries.length ≤ s.capacity

theorem isMarked_of_isEnded {stage : Stage Asset} (ended : stage.isEnded = true) : stage.isMarked = false := by
  cases stage with
  | ended result => rfl
  | _ => cases ended

theorem Sound.present (sound : s.Sound) (attached : s.Attached) {cell : Nat}
    (found : s.calls[index]? = some call) (here : call.stage = .downloading cell) :
    s.get call.url = some cell := by
  obtain ⟨flag, held⟩ := sound.permit index call cell found here
  have empty : s.isInitialized cell = false := by unfold isInitialized; rw [held]; rfl
  exact attached call (List.mem_of_getElem? found) cell (by rw [here]; rfl) empty

theorem Sound.consistent (sound : s.Sound) (marks : s.Marks) (attached : s.Attached) : s.Consistent where
  single i j call other cell cell' found found' here here' same := by
    have present := sound.present attached found here
    have present' := sound.present attached found' here'
    rw [same, present'] at present
    cases present
    -- the cell has one permit
    obtain ⟨_, held⟩ := sound.permit i call _ found here
    obtain ⟨_, held'⟩ := sound.permit j other _ found' here'
    rw [held] at held'
    cases held'
    rfl
  present call member cell here := by
    obtain ⟨index, found⟩ := List.mem_iff_getElem?.mp member
    exact sound.present attached found here
  once url cell known flagged :=
    List.count_eq_one_of_mem sound.ordered.queue (sound.tracked url cell known flagged)
  restorable ended := by
    have quiet : s.inFlight = [] := by
      refine List.eq_nil_iff_forall_not_mem.mpr fun url listed => ?_
      obtain ⟨call, member, _, marked⟩ := marks url listed
      rw [isMarked_of_isEnded (ended call member)] at marked
      cases marked
    refine exists_passes sound.bounded sound.ordered quiet fun url cell known => ?_
    cases flagged : s.isLedgered cell with
    | true => exact sound.tracked url cell known flagged
    | false =>
      obtain ⟨call, member, _, here⟩ := sound.pending url cell known flagged
      have done := ended call member
      rw [here] at done
      cases done

theorem consistent_while_spared (capacity : Nat) (bounded : capacity ≠ usizeMax) (s : Registry Asset)
    (reached : Reachable Step Spares (start capacity) s) : s.Consistent := by
  obtain ⟨sound, marks, attached⟩ : s.Sound ∧ s.Marks ∧ s.Attached := by
    refine reached.invariant (motive := fun s => s.Sound ∧ s.Marks ∧ s.Attached)
      ⟨Sound.start bounded, nofun, nofun⟩ ?_
    rintro s e s' ⟨sound, marks, attached⟩ spares taken
    have steps := step_cases taken
    exact ⟨steps.sound sound, steps.marks sound marks, steps.attached sound spares attached⟩
  exact sound.consistent marks attached

/-! A registry of one cell. The pass of a call takes an older cell that has its asset, or, when
that one is in flight, the call's own. -/

namespace OneCell

/-- A call on its way from `download` into `get_or_try_init`. -/
def arriving (index : Nat) : List (RegistryEvent Unit) :=
  [.lookup index, .insert index, .ledger index, .evict index, .mark index, .poll index]

def inTurn : List (RegistryEvent Unit) :=
  [.call "a"] ++ arriving 0 ++ [.finish 0 (.ok ()), .unmark 0, .call "b"] ++ arriving 1

def atOnce : List (RegistryEvent Unit) :=
  [.call "a"] ++ arriving 0 ++ [.call "b"] ++ arriving 1 ++ [.call "b"] ++ arriving 2

theorem in_turn_consistent : ∃ s : Registry Unit, Reachable Step Spares (start 1) s ∧ s.entries = [("b", 1)] ∧
    s.Consistent := by
  have values : (runEvents (fun s e => if decide (Spares s e) then step s e else none) (start 1) inTurn).map
      Registry.entries = some [("b", 1)] := by decide
  obtain ⟨s, ran, entries⟩ := Option.map_eq_some_iff.mp values
  have reached : Reachable Step Spares (start 1) s :=
    Reachable.run_checked .start (fun _ _ => of_decide_eq_true) ran
  exact ⟨s, reached, entries, consistent_while_spared 1 (by decide) s reached⟩

/-- The pass of the second call takes its own cell; the third call finds none, and downloads the
same URL. -/
theorem at_once_twice : ∃ s : Registry Unit, Reachable Step (fun _ _ => True) (start 1) s ∧
    s.calls = [⟨"a", .downloading 0⟩, ⟨"b", .downloading 1⟩, ⟨"b", .downloading 2⟩] ∧
    ¬s.Consistent := by
  have values : (runEvents step (start 1) atOnce).map (fun s => s.calls) =
      some [⟨"a", .downloading 0⟩, ⟨"b", .downloading 1⟩, ⟨"b", .downloading 2⟩] := by decide
  obtain ⟨s, ran, calls⟩ := Option.map_eq_some_iff.mp values
  refine ⟨s, Reachable.run .start (fun _ _ _ => trivial) ran, calls, fun consistent => ?_⟩
  have same := consistent.single 1 2 ⟨"b", .downloading 1⟩ ⟨"b", .downloading 2⟩ 1 2
    (by rw [calls]; rfl) (by rw [calls]; rfl) rfl rfl rfl
  cases same

end OneCell

end Registry

end Webfang.Assets
