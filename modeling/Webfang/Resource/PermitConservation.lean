import Mathlib.Algebra.Order.BigOperators.Group.List
import Mathlib.Algebra.Order.Group.Nat
import Webfang.Resource.ResourceDownloader

/-!
# No permit is lost or made

In every run of resource downloads over one semaphore, each permit is free, granted, or a unit
of one guard. A download has acquired a permit for every byte it buffers, so the sum of the
sizes in the loop cannot overflow, and the buffers together stay within the semaphore.
-/
namespace Webfang.Resource

open Library

variable {s s' : DownloadState} {e : DownloadEvent} {budget : PermitBudget}

/-- A chunk's length fits the argument of `acquire_many`. -/
def ShortChunks (_ : DownloadState) : DownloadEvent → Prop
  | .receive _ (.chunk bytes) => bytes.length < 2 ^ 32
  | _ => True

/-! ### What one download owns -/

/-- The guard has a unit for each byte in the buffer. -/
structure Streaming.Covered (config : ResourceDownloadConfig) (work : Streaming) : Prop where
  total : work.buffer.length = work.totalBytes.toNat
  units : work.guard.unitsAcquired.toNat = work.totalBytes.toNat
  capped : work.totalBytes.toNat ≤ config.maxSizeBytes.toNat

/-- The size check has let the chunk through, and the semaphore is asked for its length. -/
structure Fits (config : ResourceDownloadConfig) (work : Streaming) (chunk : List UInt8) : Prop where
  short : chunk.length < 2 ^ 32
  capped : work.totalBytes.toNat + chunk.length ≤ config.maxSizeBytes.toNat

def Phase.Covered (config : ResourceDownloadConfig) : Phase → Prop
  | .requesting | .ended _ => True
  | .streaming work => work.Covered config
  | .acquiring work chunk => work.Covered config ∧ Fits config work chunk
  | .granted work chunk permits =>
    work.Covered config ∧ Fits config work chunk ∧ permits = chunk.length
  | .unwinding guard result =>
    ∀ bytes, result = some (.ok bytes) →
      bytes.length ≤ guard.unitsAcquired.toNat ∧ bytes.length ≤ config.maxSizeBytes.toNat

theorem toNat_chunkLen {chunk : List UInt8} (short : chunk.length < 2 ^ 32) :
    (UInt64.ofNat chunk.length).toNat = chunk.length := by
  rw [UInt64.toNat_ofNat']
  exact Nat.mod_eq_of_lt (short.trans (by decide))

theorem Streaming.start_covered (config : ResourceDownloadConfig) : Streaming.start.Covered config :=
  ⟨rfl, rfl, Nat.zero_le _⟩

theorem Phase.Covered.buffered_le {config : ResourceDownloadConfig} {phase : Phase}
    (covered : phase.Covered config) :
    phase.buffered ≤ phase.units ∧ phase.buffered ≤ config.maxSizeBytes.toNat := by
  -- a buffer has the length that the guard of its download counts
  have streaming {work : Streaming} (covered : work.Covered config) :
      work.buffer.length ≤ work.guard.unitsAcquired.toNat ∧
        work.buffer.length ≤ config.maxSizeBytes.toNat :=
    ⟨(covered.total.trans covered.units.symm).le, covered.total.trans_le covered.capped⟩
  cases phase with
  | requesting => exact ⟨le_rfl, Nat.zero_le _⟩
  | streaming work => exact streaming covered
  | acquiring work chunk => exact streaming covered.1
  | granted work chunk permits => exact streaming covered.1
  | unwinding guard result =>
    match result with
    | none => exact ⟨Nat.zero_le _, Nat.zero_le _⟩
    | some (.error _) => exact ⟨Nat.zero_le _, Nat.zero_le _⟩
    | some (.ok bytes) => exact covered bytes rfl
  | ended result => exact ⟨le_rfl, Nat.zero_le _⟩

/-- A download that goes does not give or take permits when it does. -/
theorem opened_phase (config : ResourceDownloadConfig) (hatch : Option String)
    (parsed : Option (Option String)) : (opened config hatch parsed).phase = .requesting ∨
      ∃ result, (opened config hatch parsed).phase = .ended result := by
  unfold opened
  split
  · exact .inr ⟨_, rfl⟩
  · exact .inl rfl

theorem afterAnswer_cases (config : ResourceDownloadConfig) (answer : Answer) :
    afterAnswer config answer = .streaming .start ∨
      ∃ failure, afterAnswer config answer = .ended (some (.error failure)) := by
  cases answer with
  | timeout => exact .inr ⟨_, rfl⟩
  | failed => exact .inr ⟨_, rfl⟩
  | headers contentLength =>
    cases contentLength with
    | none => exact .inl rfl
    | some cl =>
      unfold afterAnswer
      dsimp only
      split
      · exact .inr ⟨_, rfl⟩
      · exact .inl rfl

theorem afterAnswer_covered (config : ResourceDownloadConfig) (answer : Answer) :
    (afterAnswer config answer).Covered config ∧ (afterAnswer config answer).units = 0 ∧
      (afterAnswer config answer).inTransit = 0 := by
  rcases afterAnswer_cases config answer with same | ⟨failure, same⟩
  · rw [same]
    exact ⟨Streaming.start_covered config, rfl, rfl⟩
  · rw [same]
    exact ⟨trivial, rfl, rfl⟩

/-- A turn of the loop gives no permit and takes none. The units bound the sum in the size
check, which so does not overflow. -/
theorem afterReceived_covered {config : ResourceDownloadConfig} {work : Streaming}
    {received : Received} (covered : work.Covered config)
    (bounded : work.guard.unitsAcquired.toNat ≤ maxPermits)
    (short : ∀ bytes, received = .chunk bytes → bytes.length < 2 ^ 32) :
    (afterReceived config work received).Covered config ∧
      (afterReceived config work received).units = work.guard.unitsAcquired.toNat ∧
      (afterReceived config work received).inTransit = 0 := by
  cases received with
  | timeout => exact ⟨nofun, rfl, rfl⟩
  | failed => exact ⟨nofun, rfl, rfl⟩
  | finished =>
    refine ⟨?_, rfl, rfl⟩
    rintro bytes ⟨⟩
    have covered : (Phase.streaming work).Covered config := covered
    exact covered.buffered_le
  | chunk bytes =>
    have short := short bytes rfl
    have units := covered.units
    have length := toNat_chunkLen short
    have sum : (work.totalBytes + .ofNat bytes.length).toNat = work.totalBytes.toNat + bytes.length := by
      rw [UInt64.toNat_add, length]
      refine Nat.mod_eq_of_lt ?_
      unfold maxPermits at bounded
      omega
    unfold afterReceived
    dsimp only
    split
    · exact ⟨nofun, rfl, rfl⟩
    next accepted =>
      have capped : work.totalBytes.toNat + bytes.length ≤ config.maxSizeBytes.toNat := by
        rw [← sum]
        exact UInt64.le_iff_toNat_le.mp (UInt64.not_lt.mp accepted)
      split
      · exact ⟨⟨covered, short, capped⟩, rfl, rfl⟩
      next empty =>
        -- an empty chunk is buffered without a permit
        have none : bytes.length = 0 := by
          rw [UInt64.lt_iff_toNat_lt, length] at empty
          simpa using empty
        have total := covered.total
        refine ⟨⟨?_, ?_, ?_⟩, rfl, rfl⟩
        · simp only [List.length_append]
          omega
        · dsimp only
          omega
        · dsimp only
          omega

/-- The guard takes over exactly what the semaphore granted. -/
theorem afterGrant_covered {config : ResourceDownloadConfig} {work : Streaming} {chunk : List UInt8}
    (covered : work.Covered config) (fits : Fits config work chunk)
    (bounded : work.guard.unitsAcquired.toNat + chunk.length ≤ maxPermits) :
    (afterGrant work chunk).Covered config ∧
      (afterGrant work chunk).guard.unitsAcquired.toNat =
        work.guard.unitsAcquired.toNat + chunk.length := by
  have length := toNat_chunkLen fits.short
  unfold maxPermits at bounded
  have units : (afterGrant work chunk).guard.unitsAcquired.toNat =
      work.guard.unitsAcquired.toNat + chunk.length := by
    unfold afterGrant PermitGuard.updateReservation
    dsimp only
    rw [length, if_pos (by omega), UInt64.toNat_add, length, Nat.mod_eq_of_lt (by omega)]
  have total : (afterGrant work chunk).totalBytes.toNat = work.totalBytes.toNat + chunk.length := by
    have same := covered.units
    unfold afterGrant
    dsimp only
    rw [UInt64.toNat_add, length, Nat.mod_eq_of_lt (by omega)]
  refine ⟨⟨?_, ?_, ?_⟩, units⟩
  · rw [total, ← covered.total]
    exact List.length_append
  · rw [units, total, covered.units]
  · rw [total]
    exact fits.capped

theorem PermitGuard.available_drop (guard : PermitGuard) (semaphore : Semaphore) :
    (guard.drop semaphore).available = semaphore.available + guard.unitsAcquired.toNat := by
  unfold PermitGuard.drop
  split
  · rfl
  next none =>
    have zero : guard.unitsAcquired.toNat = 0 := by
      rw [UInt64.lt_iff_toNat_lt] at none
      simpa using none
    omega

/-! ### All downloads together -/

namespace DownloadState

variable {index : Nat} {call : Call}

theorem held_moveTo (found : s.calls[index]? = some call) (phase : Phase) :
    (s.moveTo index call phase).held + call.phase.units = s.held + phase.units :=
  Counting.sum_map_set_add (fun call : Call => call.phase.units) _ found

theorem inTransit_moveTo (found : s.calls[index]? = some call) (phase : Phase) :
    (s.moveTo index call phase).inTransit + call.phase.inTransit = s.inTransit + phase.inTransit :=
  Counting.sum_map_set_add (fun call : Call => call.phase.inTransit) _ found

theorem units_le_held (found : s.calls[index]? = some call) :
    call.phase.units + call.phase.inTransit ≤ s.held + s.inTransit :=
  Nat.add_le_add
    (List.le_sum_of_mem (List.mem_map_of_mem (f := fun call : Call => call.phase.units)
      (List.mem_of_getElem? found)))
    (List.le_sum_of_mem (List.mem_map_of_mem (f := fun call : Call => call.phase.inTransit)
      (List.mem_of_getElem? found)))

/-- Every permit is in one place, and every download owns the permits of its bytes. -/
structure Balanced (budget : PermitBudget) (s : DownloadState) : Prop where
  permits : s.semaphore.available + s.held + s.inTransit = budget.permits
  covered : ∀ call ∈ s.calls, call.phase.Covered call.config

theorem Balanced.start : Balanced budget (.start budget) := ⟨rfl, nofun⟩

/-- A download moves without a change to the semaphore, and owns as much as before. -/
theorem Balanced.moveTo {phase : Phase} (balanced : Balanced budget s)
    (found : s.calls[index]? = some call)
    (units : phase.units + phase.inTransit = call.phase.units + call.phase.inTransit)
    (covered : phase.Covered call.config) : Balanced budget (s.moveTo index call phase) := by
  have held := held_moveTo found phase
  have inTransit := inTransit_moveTo found phase
  have permits := balanced.permits
  refine ⟨?_, Counting.forall_mem_set balanced.covered covered⟩
  change s.semaphore.available + (s.moveTo index call phase).held +
    (s.moveTo index call phase).inTransit = _
  omega

/-- A download moves, and what it owns less or more the semaphore has more or less. -/
theorem Balanced.exchange {phase : Phase} {semaphore : Semaphore} (balanced : Balanced budget s)
    (found : s.calls[index]? = some call)
    (units : semaphore.available + (phase.units + phase.inTransit) =
      s.semaphore.available + (call.phase.units + call.phase.inTransit))
    (covered : phase.Covered call.config) :
    Balanced budget ({ s with semaphore }.moveTo index call phase) := by
  have held := held_moveTo found phase
  have inTransit := inTransit_moveTo found phase
  have permits := balanced.permits
  refine ⟨?_, Counting.forall_mem_set balanced.covered covered⟩
  change semaphore.available + (s.moveTo index call phase).held +
    (s.moveTo index call phase).inTransit = _
  omega

end DownloadState

open DownloadState

theorem Steps.balanced (steps : Steps s e s') (short : ShortChunks s e)
    (balanced : Balanced budget s) : Balanced budget s' := by
  have within := budget.within
  have permits := balanced.permits
  have coveredAt {index : Nat} {call : Call} (found : s.calls[index]? = some call) :
      call.phase.Covered call.config :=
    balanced.covered call (List.mem_of_getElem? found)
  cases steps with
  | called config hatch parsed =>
    have fresh := opened_phase config hatch parsed
    refine ⟨?_, List.forall_mem_append.mpr ⟨balanced.covered, ?_⟩⟩
    · rcases fresh with here | ⟨result, here⟩ <;>
        simpa [held, inTransit, here, Phase.units, Phase.inTransit] using permits
    · rcases fresh with here | ⟨result, here⟩ <;> simp [here, Phase.Covered]
  | closed => exact ⟨permits, balanced.covered⟩
  | @answered index call answer found here =>
    obtain ⟨covered, units, none⟩ := afterAnswer_covered call.config answer
    refine balanced.moveTo found ?_ covered
    rw [units, none, here]
    rfl
  | @received index call work received found here event =>
    have owned := units_le_held found
    have covered := coveredAt found
    rw [here] at owned covered
    simp only [Phase.units, Phase.inTransit] at owned
    have bounded : work.guard.unitsAcquired.toNat ≤ maxPermits := by omega
    have lengths : ∀ bytes, received = .chunk bytes → bytes.length < 2 ^ 32 := by
      rintro bytes rfl
      subst event
      exact short
    obtain ⟨kept, units, none⟩ := afterReceived_covered covered bounded lengths
    refine balanced.moveTo found ?_ kept
    rw [units, none, here]
    rfl
  | @granted index call work chunk found here free =>
    -- what the semaphore hands out is in transit
    have covered := coveredAt found
    rw [here] at covered
    obtain ⟨covered, fits⟩ := covered
    have length : chunk.length % 2 ^ 32 = chunk.length := Nat.mod_eq_of_lt fits.short
    refine balanced.exchange found ?_ ⟨covered, fits, length⟩
    simp only [here, Phase.units, Phase.inTransit]
    omega
  | @resumed index call work chunk granted found here =>
    have owned := units_le_held found
    have covered := coveredAt found
    rw [here] at owned covered
    obtain ⟨covered, fits, rfl⟩ := covered
    simp only [Phase.units, Phase.inTransit] at owned
    obtain ⟨kept, units⟩ := afterGrant_covered covered fits (by omega)
    refine balanced.moveTo found ?_ kept
    simp only [here, Phase.units, Phase.inTransit]
    omega
  | @abandoned index call found here =>
    refine balanced.moveTo found ?_ trivial
    rw [here]
    rfl
  | @unwound index call work result noBytes found here =>
    refine balanced.moveTo found ?_ fun bytes same => absurd same (noBytes bytes)
    rcases here with here | ⟨chunk, here⟩ <;> rw [here] <;> rfl
  | @returned index call work chunk permits result noBytes found here =>
    -- the permits that were not forgotten go back on their own
    refine balanced.exchange found ?_ fun bytes same => absurd same (noBytes bytes)
    simp only [here, Phase.units, Phase.inTransit, Semaphore.addPermits]
    omega
  | @released index call guard result found here =>
    refine balanced.exchange found ?_ trivial
    simp only [here, Phase.units, Phase.inTransit, PermitGuard.available_drop]
    omega

/-- What holds at every moment: each permit is free, in a live guard or just granted, and the
buffers stay within the semaphore and their own limits. -/
structure Conserves (budget : PermitBudget) (s : DownloadState) : Prop where
  permits : s.semaphore.available + s.held + s.inTransit = budget.permits
  buffered : s.buffered ≤ budget.permits
  capped : ∀ call ∈ s.calls, call.phase.buffered ≤ call.config.maxSizeBytes.toNat
  returned : (∀ call ∈ s.calls, call.phase.hasEnded = true) → s.semaphore.available = budget.permits

theorem units_of_hasEnded {phase : Phase} (ended : phase.hasEnded = true) :
    phase.units = 0 ∧ phase.inTransit = 0 := by
  cases phase with
  | ended result => exact ⟨rfl, rfl⟩
  | _ => cases ended

theorem DownloadState.Balanced.conserves (balanced : Balanced budget s) : Conserves budget s := by
  have permits := balanced.permits
  refine ⟨permits, ?_, fun call member => (balanced.covered call member).buffered_le.2, ?_⟩
  · have covered : s.buffered ≤ s.held :=
      List.sum_le_sum fun call member => (balanced.covered call member).buffered_le.1
    omega
  · intro ended
    have none {measure : Phase → Nat} (zero : ∀ call ∈ s.calls, measure call.phase = 0) :
        (s.calls.map fun call => measure call.phase).sum = 0 :=
      List.sum_eq_zero fun n listed => by
        obtain ⟨call, member, rfl⟩ := List.mem_map.mp listed
        exact zero call member
    have held : s.held = 0 := none fun call member => (units_of_hasEnded (ended call member)).1
    have inTransit : s.inTransit = 0 := none fun call member => (units_of_hasEnded (ended call member)).2
    omega

theorem reachable_balanced (reached : Reachable Step ShortChunks (.start budget) s) :
    Balanced budget s :=
  reached.invariant Balanced.start fun _ _ _ balanced short taken =>
    (step_cases taken).balanced short balanced

/-- Permits are conserved in every run, and all are back when every download has ended. -/
theorem permits_conserved (budget : PermitBudget) (s : DownloadState)
    (reached : Reachable Step ShortChunks (.start budget) s) : Conserves budget s :=
  (reachable_balanced reached).conserves

/-! ### Waiting downloads -/

/-- The permits that a download may come to own. -/
def Call.limit (call : Call) : Nat := if call.phase.hasEnded then 0 else call.config.maxSizeBytes.toNat

def Call.Within (call : Call) : Prop := call.phase.units + call.phase.inTransit ≤ call.limit

attribute [local grind] Phase.units Phase.inTransit Phase.hasEnded Call.Within Call.limit moveTo
attribute [local grind →] List.mem_or_eq_of_mem_set List.mem_of_getElem?
attribute [local grind cases] Streaming.Covered Fits

theorem Steps.within (steps : Steps s e s') (after : Balanced budget s')
    (within : ∀ call ∈ s.calls, call.Within) : ∀ call ∈ s'.calls, call.Within := by
  rintro ⟨config, phase⟩ member
  have covered := after.covered _ member
  cases phase with
  | unwinding guard result =>
    -- it owns what it did before
    cases steps with
    | received received => cases received <;> grind [afterReceived]
    | _ => grind [opened_phase, afterAnswer_cases]
  | _ => grind [Phase.Covered]

/-- While the limits of the downloads not over fit the semaphore together, a download that waits
for permits can be served, whatever the others hold. -/
theorem waiting_served (reached : Reachable Step ShortChunks (.start budget) s)
    (sized : (s.calls.map Call.limit).sum ≤ budget.permits) (isOpen : s.semaphore.closed = false)
    {index : Nat} {call : Call} {work : Streaming} {chunk : List UInt8}
    (found : s.calls[index]? = some call) (waits : call.phase = .acquiring work chunk) :
    ∃ s', Step s (.grant index) s' := by
  have balanced := reachable_balanced reached
  have within : ∀ call ∈ s.calls, call.Within :=
    reached.invariant_of (fun _ => reachable_balanced) (List.forall_mem_nil _) fun _ _ _ balanced within short taken =>
      (step_cases taken).within ((step_cases taken).balanced short balanced) within
  obtain ⟨covered, fits⟩ := waits ▸ balanced.covered call (List.mem_of_getElem? found)
  -- with its permits the download would still be within its limit
  let served : Call := ⟨call.config, .granted work chunk chunk.length⟩
  have all := Counting.sum_map_le (Counting.forall_mem_set (i := index) within
    (show served.Within by grind))
  have limits := Counting.sum_map_set_add Call.limit served found
  have owned := Counting.sum_map_set_add (fun call => call.phase.units + call.phase.inTransit) served found
  have sums := List.sum_map_add (l := s.calls) (f := fun call => call.phase.units)
    (g := fun call => call.phase.inTransit)
  have permits := balanced.permits
  have length : chunk.length % 4294967296 = chunk.length := Nat.mod_eq_of_lt fits.short
  have free : chunk.length ≤ s.semaphore.available := by grind [held, inTransit]
  simp [Step, step, found, waits, Semaphore.acquireMany, isOpen, length, free]

/-! Two downloads over four permits. The second one is granted its three bytes while the first
holds one, and is dropped before it takes them over. -/

namespace FourPermits

def four : PermitBudget := ⟨4, by decide⟩

def crossing : List DownloadEvent :=
  [.call {} none (some (some "a.test")), .call {} none (some (some "b.test")),
    .answer 0 (.headers none), .answer 1 (.headers (some 3)),
    .receive 0 (.chunk [1]), .grant 0, .resume 0,
    .receive 1 (.chunk [2, 3, 4]), .grant 1]

def runTo (events : List DownloadEvent) : Option DownloadState := runEvents step (.start four) events

theorem crossing_conserves : ∃ s, runTo crossing = some s ∧ s.held = 1 ∧ s.inTransit = 3 ∧
    s.semaphore.available = 0 ∧ Conserves four s := by
  have values : (runTo crossing).map (fun s => (s.held, s.inTransit, s.semaphore.available)) =
      some (1, 3, 0) := by decide
  obtain ⟨s, ran, same⟩ := Option.map_eq_some_iff.mp values
  simp only [Prod.mk.injEq] at same
  have reached : Reachable Step ShortChunks (.start four) s :=
    Reachable.run .start (by simp [crossing, ShortChunks]) ran
  exact ⟨s, ran, same.1, same.2.1, same.2.2, permits_conserved four s reached⟩

def limited : List DownloadEvent :=
  [.call ⟨2⟩ none (some (some "a.test")), .call ⟨2⟩ none (some (some "b.test")),
    .answer 0 (.headers none), .answer 1 (.headers none),
    .receive 0 (.chunk [1, 2]), .grant 0, .resume 0, .receive 1 (.chunk [3, 4])]

theorem limited_served : ∃ s s', runTo limited = some s ∧ s.held = 2 ∧ Step s (.grant 1) s' := by
  have ran : runTo limited = some _ := rfl
  have reached : Reachable Step ShortChunks (.start four) _ :=
    .run .start (by simp [limited, ShortChunks]) ran
  obtain ⟨s', served⟩ : ∃ s', Step _ (.grant 1) s' := waiting_served reached (by decide) rfl rfl rfl
  exact ⟨_, s', ran, rfl, served⟩

end FourPermits

end Webfang.Resource
