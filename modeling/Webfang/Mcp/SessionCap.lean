import Webfang.Library.Window
import Webfang.Library.Transition

/-!
# The session admission cap

`SessionCap` keeps the instants of the admissions that hold a slot, oldest first, and
charges a session-creating request when a slot is free. A refused request is told the
seconds until the oldest admission ages out. Instants and durations are nanoseconds.

Over the deque stands the log of everything answered: the deque is the part of the
admissions that is still live, so that the bounds of `SlidingWindow` hold of the log.
-/
namespace Webfang.Mcp

open Library Library.SlidingWindow

/-! ### The cap -/

/-- The nanoseconds of a second. -/
def nanosPerSec : Nat := 1000000000

/-- `SessionCap`. The server makes the window from a `u64` number of seconds. -/
structure SessionCap where
  max : Nat
  max_pos : 0 < max
  window : Nat
  window_fits : window ≤ (2 ^ 64 - 1) * nanosPerSec
  /-- The admission instants that hold a slot, oldest first. -/
  admitted : List Nat

namespace SessionCap

def new (max : Nat) (max_pos : 0 < max) (window : Nat) (window_fits : window ≤ (2 ^ 64 - 1) * nanosPerSec) :
    SessionCap :=
  { max, max_pos, window, window_fits, admitted := [] }

/-- The `while` loop of `try_admit`: expired admissions leave at the front. -/
def prune (window now : Nat) (admitted : List Nat) : List Nat :=
  admitted.dropWhile fun at_ => decide (window ≤ now - at_)

/-- `SessionCap::try_admit`: the slots held, and the cap afterwards. -/
def tryAdmit (cap : SessionCap) (now : Nat) : Except Nat Nat × SessionCap :=
  let admitted := prune cap.window now cap.admitted
  let held := admitted.length
  if cap.max ≤ held then (.error held, { cap with admitted })
  else (.ok (held + 1), { cap with admitted := admitted ++ [now] })

/-- The function `retry_after_secs`: a wait in whole seconds, rounded up and never below 1.
The sum is taken in a `u64`. -/
def wholeSecs (wait : Nat) : Nat :=
  let roundedUp := ((if 0 < wait % nanosPerSec then 1 else 0) + wait / nanosPerSec) % 2 ^ 64
  Nat.max roundedUp 1

def retryAfterSecs (cap : SessionCap) (now : Nat) : Option Nat :=
  cap.admitted.head?.map fun oldest => wholeSecs (cap.window - (now - oldest))

/-- The `Retry-After` of the 429 that `session_cap_middleware` answers. -/
def retryAfter (cap : SessionCap) (now : Nat) : Nat := (retryAfterSecs cap now).getD 1

theorem prune_suffix (window now : Nat) (admitted : List Nat) : prune window now admitted <:+ admitted :=
  List.dropWhile_suffix _

theorem tryAdmit_cases (cap : SessionCap) (now : Nat) :
    (cap.max ≤ (prune cap.window now cap.admitted).length ∧
      tryAdmit cap now = (.error (prune cap.window now cap.admitted).length,
        { cap with admitted := prune cap.window now cap.admitted })) ∨
    ((prune cap.window now cap.admitted).length < cap.max ∧
      tryAdmit cap now = (.ok ((prune cap.window now cap.admitted).length + 1),
        { cap with admitted := prune cap.window now cap.admitted ++ [now] })) := by
  by_cases full : cap.max ≤ (prune cap.window now cap.admitted).length
  · exact .inl ⟨full, by simp [tryAdmit, full]⟩
  · exact .inr ⟨by omega, by simp [tryAdmit, full]⟩

@[simp] theorem tryAdmit_max (cap : SessionCap) (now : Nat) : (tryAdmit cap now).2.max = cap.max := by
  rcases tryAdmit_cases cap now with ⟨_, answered⟩ | ⟨_, answered⟩ <;> simp [answered]

@[simp] theorem tryAdmit_window (cap : SessionCap) (now : Nat) : (tryAdmit cap now).2.window = cap.window := by
  rcases tryAdmit_cases cap now with ⟨_, answered⟩ | ⟨_, answered⟩ <;> simp [answered]

/-- The seconds of a wait, rounded up. -/
def ceilSecs (wait : Nat) : Nat := (if 0 < wait % nanosPerSec then 1 else 0) + wait / nanosPerSec

theorem le_ceilSecs (wait : Nat) : wait ≤ ceilSecs wait * nanosPerSec := by
  have parts := Nat.div_add_mod wait nanosPerSec
  have below := Nat.mod_lt wait (show 0 < nanosPerSec by decide)
  unfold ceilSecs
  split <;> rw [Nat.add_mul, Nat.mul_comm (wait / nanosPerSec)] <;> omega

/-- The seconds told cover the wait: with a remainder the whole seconds are below the `u64`
maximum, so that one more fits. -/
theorem le_wholeSecs {wait : Nat} (fits : wait ≤ (2 ^ 64 - 1) * nanosPerSec) :
    wait ≤ wholeSecs wait * nanosPerSec := by
  have fewer : ceilSecs wait < 2 ^ 64 := by
    unfold ceilSecs nanosPerSec at *
    split <;> omega
  calc wait ≤ ceilSecs wait * nanosPerSec := le_ceilSecs wait
    _ = ceilSecs wait % 2 ^ 64 * nanosPerSec := by rw [Nat.mod_eq_of_lt fewer]
    _ ≤ wholeSecs wait * nanosPerSec := Nat.mul_le_mul_right _ (Nat.le_max_left ..)

/-! ### What has been answered -/

/-- The cap and everything it answered, oldest first. -/
structure Served where
  cap : SessionCap
  log : List (Nat × Except Nat Nat)

/-- One session-creating request at `now`. -/
def step (s : Served) (now : Nat) : Option Served :=
  some { cap := (tryAdmit s.cap now).2, log := s.log ++ [(now, (tryAdmit s.cap now).1)] }

def Later (s : Served) (now : Nat) : Prop := ∀ answered ∈ s.log, answered.1 ≤ now

def Refused (s : Served) (now : Nat) : Prop := ∃ held, (tryAdmit s.cap now).1 = .error held

def admissions (log : List (Nat × Except Nat Nat)) : List Nat :=
  (log.filter fun answered => answered.2.isOk).map Prod.fst

theorem mem_admissions {log : List (Nat × Except Nat Nat)} {t : Nat} (member : t ∈ admissions log) :
    ∃ answered ∈ log, answered.1 = t := by
  obtain ⟨answered, kept, same⟩ := List.mem_map.mp member
  exact ⟨answered, List.mem_of_mem_filter kept, same⟩

/-- The runs of the cap: requests at clock readings that never go back. -/
abbrev Run (start s : Served) : Prop := Reachable (fun s now s' => step s now = some s') Later start s

/-- The server starts with nothing answered. -/
def start (max : Nat) (max_pos : 0 < max) (window : Nat) (window_fits : window ≤ (2 ^ 64 - 1) * nanosPerSec) : Served :=
  { cap := new max max_pos window window_fits, log := [] }

/-- The cap of a run keeps its bounds, its deque holds the admissions that are live, and each
admission found room. -/
structure Tracks (max window : Nat) (s : Served) : Prop where
  max_eq : s.cap.max = max
  window_eq : s.cap.window = window
  spaced : Admissions max window (admissions s.log)
  sorted : s.cap.admitted.Pairwise (· ≤ ·)
  held : ∀ t ∈ s.cap.admitted, t ∈ admissions s.log
  live : ∀ now, Later s now → live window now s.cap.admitted = live window now (admissions s.log)
  bounded : s.cap.admitted.length ≤ max

/-- What `try_admit` leaves after pruning is what is live. -/
theorem Tracks.prune_eq {max window now : Nat} {s : Served} (tracks : Tracks max window s) (later : Later s now) :
    prune s.cap.window now s.cap.admitted = SlidingWindow.live window now (admissions s.log) := by
  rw [← tracks.live now later, tracks.window_eq]
  apply dropWhile_eq_live tracks.sorted
  intro t member
  obtain ⟨answered, logged, rfl⟩ := mem_admissions (tracks.held t member)
  exact later answered logged

theorem Tracks.past {max window now : Nat} {s : Served} (tracks : Tracks max window s) (later : Later s now) :
    ∀ t ∈ prune s.cap.window now s.cap.admitted, t ≤ now := by
  intro t member
  rw [tracks.prune_eq later, mem_live] at member
  obtain ⟨answered, logged, rfl⟩ := mem_admissions member.1
  exact later answered logged

/-- One request keeps the bounds, whichever way it is answered. -/
theorem Tracks.step {max window now : Nat} {s s' : Served} (tracks : Tracks max window s) (later : Later s now)
    (taken : SessionCap.step s now = some s') : Tracks max window s' := by
  have pruned := tracks.prune_eq later
  have kept := (prune_suffix s.cap.window now s.cap.admitted).sublist
  obtain rfl := Option.some.inj taken
  rcases tryAdmit_cases s.cap now with ⟨full, answered⟩ | ⟨room, answered⟩
  · have same : admissions (s.log ++ [(now, (tryAdmit s.cap now).1)]) = admissions s.log := by
      simp [answered, admissions, Except.isOk, Except.toBool]
    constructor
    case max_eq => simpa using tracks.max_eq
    case window_eq => simpa using tracks.window_eq
    case spaced => simpa only [same] using tracks.spaced
    case sorted => simpa [answered] using tracks.sorted.sublist kept
    case held =>
      intro t member
      rw [same]
      exact tracks.held t (kept.subset (by simpa [answered] using member))
    case live =>
      intro t after
      have ordered : now ≤ t := after _ List.mem_concat_self
      have deque : (tryAdmit s.cap now).2.admitted = SlidingWindow.live window now (admissions s.log) := by
        rw [answered, ← pruned]
      rw [same, deque, live_live ordered]
    case bounded => simpa [answered] using Nat.le_trans kept.length_le tracks.bounded
  · have more : admissions (s.log ++ [(now, (tryAdmit s.cap now).1)]) = admissions s.log ++ [now] := by
      simp [answered, admissions, Except.isOk, Except.toBool]
    rw [tracks.max_eq] at room
    constructor
    case max_eq => simpa using tracks.max_eq
    case window_eq => simpa using tracks.window_eq
    case spaced =>
      rw [more]
      refine .next tracks.spaced (fun t member => ?_) (pruned ▸ room)
      obtain ⟨entry, logged, rfl⟩ := mem_admissions member
      exact later entry logged
    case sorted =>
      have joined : (prune s.cap.window now s.cap.admitted ++ [now]).Pairwise (· ≤ ·) := by
        refine List.pairwise_append.mpr ⟨tracks.sorted.sublist kept, List.pairwise_singleton _ _, ?_⟩
        intro t member last only
        rw [List.mem_singleton.mp only]
        exact tracks.past later t member
      simpa [answered] using joined
    case held =>
      intro t member
      rw [more]
      have split : t ∈ prune s.cap.window now s.cap.admitted ∨ t = now := by simpa [answered] using member
      rcases split with old | rfl
      · exact List.mem_append_left _ (tracks.held t (kept.subset old))
      · exact List.mem_concat_self
    case live =>
      intro t after
      have ordered : now ≤ t := after _ List.mem_concat_self
      have deque : (tryAdmit s.cap now).2.admitted = SlidingWindow.live window now (admissions s.log) ++ [now] := by
        rw [answered, ← pruned]
      rw [more, deque, live_append, live_append, live_live ordered]
    case bounded => simpa [answered] using Nat.succ_le_of_lt room

theorem Tracks.start {max window : Nat} (max_pos : 0 < max) (window_fits : window ≤ (2 ^ 64 - 1) * nanosPerSec) :
    Tracks max window (start max max_pos window window_fits) where
  max_eq := rfl
  window_eq := rfl
  spaced := .none
  sorted := .nil
  held := by simp [SessionCap.start, new]
  live := by simp [SessionCap.start, new, admissions]
  bounded := by simp [SessionCap.start, new]

theorem Run.tracks {max window : Nat} {max_pos : 0 < max} {window_fits : window ≤ (2 ^ 64 - 1) * nanosPerSec}
    {s : Served} (reached : Run (SessionCap.start max max_pos window window_fits) s) : Tracks max window s :=
  reached.invariant (.start max_pos window_fits) fun _ _ _ tracks later taken => tracks.step later taken

/-! ### Refusals and waits -/

/-- A refused request finds `max` admissions within the window before it. -/
theorem Tracks.refused {max window now : Nat} {s : Served} (tracks : Tracks max window s) (later : Later s now)
    (refused : Refused s now) : (SlidingWindow.live window now (admissions s.log)).length = max := by
  have few := (prune_suffix s.cap.window now s.cap.admitted).length_le
  obtain ⟨held, answer⟩ := refused
  rcases tryAdmit_cases s.cap now with ⟨full, _⟩ | ⟨_, answered⟩
  · rw [tracks.prune_eq later, tracks.max_eq] at full
    rw [← tracks.prune_eq later] at full ⊢
    exact Nat.le_antisymm (Nat.le_trans few tracks.bounded) full
  · simp [answered] at answer

/-- From `s` on nothing is admitted until `s'`. -/
abbrev Quiet (s s' : Served) : Prop :=
  Reachable (fun s now s' => step s now = some s') (fun s now => Later s now ∧ Refused s now) s s'

/-- Refusals only drop admissions at the front. -/
theorem Quiet.suffix {s s' : Served} (quiet : Quiet s s') :
    s'.cap.admitted <:+ s.cap.admitted ∧ s'.cap.max = s.cap.max ∧ s'.cap.window = s.cap.window := by
  apply quiet.invariant ⟨List.suffix_rfl, rfl, rfl⟩
  intro before now after ⟨rest, max_eq, window_eq⟩ ⟨_, held, answer⟩ taken
  obtain rfl := Option.some.inj taken
  rcases tryAdmit_cases before.cap now with ⟨_, answered⟩ | ⟨_, answered⟩
  · refine ⟨?_, by simpa using max_eq, by simpa using window_eq⟩
    simpa [answered] using (prune_suffix before.cap.window now before.cap.admitted).trans rest
  · simp [answered] at answer

/-- The wait that a client is told outlasts the oldest admission. -/
theorem oldest_expired {cap : SessionCap} {now back oldest : Nat} {rest : List Nat}
    (front : cap.admitted = oldest :: rest) (past : oldest ≤ now)
    (waited : now + retryAfter cap now * nanosPerSec ≤ back) : cap.window ≤ back - oldest := by
  have told : retryAfter cap now = wholeSecs (cap.window - (now - oldest)) := by
    simp [retryAfter, retryAfterSecs, front]
  have covers := le_wholeSecs (Nat.le_trans (Nat.sub_le cap.window (now - oldest)) cap.window_fits)
  rw [told] at waited
  omega

/-- Who waits as told while nothing is admitted finds a slot. -/
theorem Tracks.admitted_back {max window now back : Nat} {s s' : Served} (tracks : Tracks max window s)
    (later : Later s now) (quiet : Quiet s s') (waited : now + retryAfter s.cap now * nanosPerSec ≤ back) :
    ¬ Refused s' back := by
  obtain ⟨suffix, max_eq, window_eq⟩ := quiet.suffix
  rintro ⟨held, answer⟩
  rcases tryAdmit_cases s'.cap back with ⟨full, _⟩ | ⟨_, answered⟩
  next =>
    have pruned := (prune_suffix s'.cap.window back s'.cap.admitted).length_le
    have positive := s'.cap.max_pos
    cases front : s.cap.admitted with
    | nil =>
      rw [front, List.suffix_nil] at suffix
      simp [prune, suffix] at full
      omega
    | cons oldest rest =>
      have bounded := tracks.bounded
      rw [front, List.length_cons] at bounded
      rw [max_eq, tracks.max_eq] at full
      rw [front, List.suffix_cons_iff] at suffix
      rcases suffix with whole | behind
      · -- the oldest admission is still in the deque, and leaves it now
        obtain ⟨entry, logged, rfl⟩ := mem_admissions (tracks.held oldest (by simp [front]))
        have expired := oldest_expired front (later entry logged) waited
        have shorter := (prune_suffix s.cap.window back rest).length_le
        rw [prune, whole, window_eq, List.dropWhile_cons_of_pos (by simpa using expired), ← prune] at full
        omega
      · have shorter := behind.length_le
        omega
  next => simp [answered] at answer

/-- **The session cap**: in every run, no half-open stretch of time as long as the window
holds more than `max` admissions, the deque holds at most `max` instants, a request is
refused only when `max` admissions lie within the window before it, and a client that waits
the `Retry-After` it was told while nothing is admitted is admitted. -/
theorem cap_law {max window : Nat} {max_pos : 0 < max} {window_fits : window ≤ (2 ^ 64 - 1) * nanosPerSec}
    {s : Served} (reached : Run (start max max_pos window window_fits) s) :
    (∀ t, ((admissions s.log).filter fun a => t ≤ a && a < t + window).length ≤ max) ∧
    (∀ t, ((admissions s.log).filter fun a => t < a && a ≤ t + window).length ≤ max) ∧
    s.cap.admitted.length ≤ max ∧
    ∀ now, Later s now →
      (Refused s now → ((admissions s.log).filter fun a => now < a + window).length = max) ∧
      ∀ s' back, Quiet s s' → now + retryAfter s.cap now * nanosPerSec ≤ back → ¬ Refused s' back := by
  have tracks := Run.tracks reached
  refine ⟨fun t => ?_, fun t => ?_, tracks.bounded, fun now later => ⟨?_, ?_⟩⟩
  · apply tracks.spaced.count_le
    intro a b first second
    simp only [Bool.and_eq_true, decide_eq_true_eq] at first second
    omega
  · apply tracks.spaced.count_le
    intro a b first second
    simp only [Bool.and_eq_true, decide_eq_true_eq] at first second
    omega
  · exact tracks.refused later
  · exact fun s' back quiet waited => tracks.admitted_back later quiet waited

/-! ### One slot of two seconds -/

namespace OneSlot

/-- Nothing answered yet. -/
def opened : Served := start 1 (by decide) (2 * nanosPerSec) (by decide)

/-- A client admitted at 0. -/
def taken : Served := { cap := (tryAdmit opened.cap 0).2, log := [(0, .ok 1)] }

/-- Another one refused half a second later, and told to wait two seconds. -/
def shed : Served :=
  { cap := (tryAdmit taken.cap (nanosPerSec / 2)).2, log := [(0, .ok 1), (nanosPerSec / 2, .error 1)] }

theorem run_shed : Run opened shed :=
  have admitted : Run opened taken := .step .start (by intro entry member; simp [opened, start] at member) rfl
  .step admitted (by intro entry member; simp [taken] at member; simp [member]) rfl

/-- It comes back after the two seconds it was told, and is admitted. -/
theorem shed_law : retryAfter shed.cap (nanosPerSec / 2) = 2 ∧
    ¬ Refused shed (nanosPerSec / 2 + 2 * nanosPerSec) := by
  have told : retryAfter shed.cap (nanosPerSec / 2) = 2 := by decide
  have later : Later shed (nanosPerSec / 2) := by
    intro entry member
    simp only [shed, List.mem_cons, List.not_mem_nil, or_false] at member
    rcases member with rfl | rfl <;> simp
  obtain ⟨_, back⟩ := (cap_law run_shed).2.2.2 (nanosPerSec / 2) later
  exact ⟨told, back shed _ .start (Nat.le_of_eq (by rw [told]))⟩

end OneSlot

end SessionCap

end Webfang.Mcp
