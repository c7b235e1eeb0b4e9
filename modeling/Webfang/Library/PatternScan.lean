import Mathlib.Algebra.Order.Ring.Int
import Mathlib.Data.Nat.Find

/-!
# Scanning a text for several patterns

The matches of a non-overlapping scan that reports a match as soon as it ends: from where the
last match ended on, the one that ends first. `Read` says which occurrences these are without
running the scan, and an occurrence is lost to the scan if and only if a match ends inside it.
-/
namespace Library.PatternScan

variable {α ι : Type}

structure Match (ι : Type) where
  pattern : ι
  start : Nat
  stop : Nat
  deriving DecidableEq, Repr

section Scan

variable [DecidableEq α] (patterns : List ι) (spell : ι → List α)

/-- The first listed pattern that ends where the reversed text `seen` begins. -/
def ending (seen : List α) : Option ι :=
  patterns.find? fun pattern => (spell pattern).reverse.isPrefixOf seen

/-- `seen` is the text since the last match, reversed. -/
def scanFrom (seen : List α) (offset : Nat) : List α → List (Match ι)
  | [] => []
  | b :: rest =>
    match ending patterns spell (b :: seen) with
    | some pattern =>
      ⟨pattern, offset + 1 - (spell pattern).length, offset + 1⟩ :: scanFrom [] (offset + 1) rest
    | none => scanFrom (b :: seen) (offset + 1) rest

def findIter (text : List α) : List (Match ι) := scanFrom patterns spell [] 0 text

end Scan

/-! ### Which occurrences are matches -/

section Reading

variable (patterns : List ι) (spell : ι → List α) (text : List α)

structure Occurs (m : Match ι) : Prop where
  listed : m.pattern ∈ patterns
  spelled : ∃ before after, text = before ++ spell m.pattern ++ after ∧ m.start = before.length
  sized : m.stop = m.start + (spell m.pattern).length

/-- Of the occurrences from `position` on, one that ends first. -/
structure First (position : Nat) (m : Match ι) : Prop where
  occurs : Occurs patterns spell text m
  after : position ≤ m.start
  earliest : ∀ other, Occurs patterns spell text other → position ≤ other.start →
    m.stop ≤ other.stop

def Next (position next : Nat) : Prop := ∃ m, First patterns spell text position m ∧ m.stop = next

/-- The positions where the search for a match begins. -/
def Restart (position : Nat) : Prop := Relation.ReflTransGen (Next patterns spell text) 0 position

def Read (m : Match ι) : Prop :=
  ∃ position, Restart patterns spell text position ∧ First patterns spell text position m

def Uncut (m : Match ι) : Prop :=
  ∀ other, Read patterns spell text other → ¬ (m.start < other.stop ∧ other.stop < m.stop)

end Reading

variable {patterns : List ι} {spell : ι → List α} {text : List α}

theorem Occurs.stop_le {m : Match ι} (occurs : Occurs patterns spell text m) :
    m.stop ≤ text.length := by
  obtain ⟨before, after, rfl, begins⟩ := occurs.spelled
  have ends := occurs.sized
  simp only [List.length_append]
  omega

theorem Occurs.start_lt (nonempty : ∀ pattern ∈ patterns, spell pattern ≠ []) {m : Match ι}
    (occurs : Occurs patterns spell text m) : m.start < m.stop := by
  have size := List.length_pos_iff.mpr (nonempty m.pattern occurs.listed)
  have ends := occurs.sized
  omega

theorem Occurs.suffix {m other : Match ι} (occurs : Occurs patterns spell text m)
    (occurs' : Occurs patterns spell text other) (together : m.stop = other.stop) :
    spell m.pattern <:+ spell other.pattern ∨ spell other.pattern <:+ spell m.pattern := by
  obtain ⟨before, after, split, begins⟩ := occurs.spelled
  obtain ⟨before', after', split', begins'⟩ := occurs'.spelled
  have ends := occurs.sized
  have ends' := occurs'.sized
  have read : before ++ spell m.pattern = before' ++ spell other.pattern := by
    have sizes : (before ++ spell m.pattern).length = (before' ++ spell other.pattern).length := by
      simp only [List.length_append]
      omega
    exact (List.append_inj (split.symm.trans split') sizes).1
  apply List.suffix_or_suffix_of_suffix (List.suffix_append before _)
  rw [read]
  exact List.suffix_append before' _

theorem First.stop_eq {position : Nat} {m other : Match ι}
    (first : First patterns spell text position m) (first' : First patterns spell text position other) :
    m.stop = other.stop :=
  Nat.le_antisymm (first.earliest other first'.occurs first'.after)
    (first'.earliest m first.occurs first.after)

theorem next_unique : Relator.RightUnique (Next patterns spell text) := by
  rintro position next next' ⟨m, first, rfl⟩ ⟨other, first', rfl⟩
  exact first.stop_eq first'

theorem Next.le {position next : Nat} (step : Next patterns spell text position next) :
    position ≤ next := by
  obtain ⟨m, first, rfl⟩ := step
  have after := first.after
  have ends := first.occurs.sized
  omega

theorem restart_le {position later : Nat}
    (reached : Relation.ReflTransGen (Next patterns spell text) position later) :
    position ≤ later := by
  induction reached with
  | refl => exact Nat.le_refl _
  | tail _ step ih => exact Nat.le_trans ih step.le

theorem exists_first {position : Nat} {m : Match ι} (occurs : Occurs patterns spell text m)
    (after : position ≤ m.start) : ∃ other, First patterns spell text position other := by
  classical
  have some_end : ∃ stop, ∃ other, Occurs patterns spell text other ∧ position ≤ other.start ∧
      other.stop = stop := ⟨m.stop, m, occurs, after, rfl⟩
  obtain ⟨other, occurs', after', ends⟩ := Nat.find_spec some_end
  refine ⟨other, occurs', after', fun third occurs'' after'' => ?_⟩
  rw [ends]
  exact Nat.find_min' some_end ⟨third, occurs'', after'', rfl⟩

/-- Some match ends inside every occurrence, if only at its end. -/
theorem exists_read (nonempty : ∀ pattern ∈ patterns, spell pattern ≠ []) {m : Match ι}
    (occurs : Occurs patterns spell text m) {position : Nat}
    (restart : Restart patterns spell text position) (before : position ≤ m.start) :
    ∃ other, Read patterns spell text other ∧ m.start < other.stop ∧ other.stop ≤ m.stop := by
  obtain ⟨first, isFirst⟩ := exists_first occurs before
  have bounded := isFirst.earliest m occurs before
  by_cases inside : m.start < first.stop
  · exact ⟨first, ⟨position, restart, isFirst⟩, inside, bounded⟩
  · -- the match lies before `m`, so the search goes on from its end
    have progress := isFirst.occurs.start_lt nonempty
    have after := isFirst.after
    exact exists_read nonempty occurs (restart.tail ⟨first, isFirst, rfl⟩) (Nat.not_lt.mp inside)
termination_by m.start - position

theorem Uncut.read (nonempty : ∀ pattern ∈ patterns, spell pattern ≠ []) {m : Match ι}
    (occurs : Occurs patterns spell text m) (uncut : Uncut patterns spell text m) :
    ∃ other, Read patterns spell text other ∧ other.stop = m.stop := by
  obtain ⟨other, read, inside, bounded⟩ :=
    exists_read nonempty occurs .refl (Nat.zero_le m.start)
  have ends := uncut other read
  exact ⟨other, read, by omega⟩

theorem Read.uncut {m : Match ι} (read : Read patterns spell text m) :
    Uncut patterns spell text m := by
  obtain ⟨position, restart, first⟩ := read
  rintro other ⟨position', restart', first'⟩ ⟨above, below⟩
  have after := first.after
  -- the two searches are of one chain, and the one of `other` ended after `position`
  obtain onward | onward := restart.total_of_right_unique next_unique
      (restart'.tail ⟨other, first', rfl⟩)
  · obtain same | ⟨next, step, onward⟩ := onward.cases_head
    · omega
    · have passed := restart_le onward
      have ends := next_unique step ⟨m, first, rfl⟩
      omega
  · have passed := restart_le onward
    omega

/-! ### The scan reports the matches -/

section Correct

variable [DecidableEq α]

/-- The text is read up to `offset`, and no occurrence since `position` has ended yet. -/
structure Scanning (patterns : List ι) (spell : ι → List α) (text : List α) (position : Nat)
    (seen : List α) (offset : Nat) (rest : List α) : Prop where
  split : ∃ before, text = before ++ seen.reverse ++ rest ∧ before.length = position
  offset_eq : offset = position + seen.length
  pending : ∀ m, Occurs patterns spell text m → position ≤ m.start → offset < m.stop

variable {position offset : Nat} {seen rest : List α} {b : α}

omit [DecidableEq α] in
theorem Scanning.begin (nonempty : ∀ pattern ∈ patterns, spell pattern ≠ []) (before : List α)
    (split : text = before ++ rest) :
    Scanning patterns spell text before.length [] before.length rest where
  split := ⟨before, by simpa using split, rfl⟩
  offset_eq := rfl
  pending m occurs after := Nat.lt_of_le_of_lt after (occurs.start_lt nonempty)

theorem Scanning.occurs_iff (scanning : Scanning patterns spell text position seen offset (b :: rest))
    {pattern : ι} (listed : pattern ∈ patterns) :
    (spell pattern).reverse.isPrefixOf (b :: seen) = true ↔
      ∃ m, m.pattern = pattern ∧ Occurs patterns spell text m ∧ position ≤ m.start ∧
        m.stop = offset + 1 := by
  obtain ⟨before, split, begins⟩ := scanning.split
  have size := scanning.offset_eq
  have whole : text = before ++ (b :: seen).reverse ++ rest := by simp [split]
  rw [List.isPrefixOf_iff_prefix, ← List.reverse_suffix, List.reverse_reverse]
  constructor
  · rintro ⟨front, spelled⟩
    have sizes := congrArg List.length spelled
    simp only [List.length_append, List.length_reverse, List.length_cons] at sizes
    refine ⟨⟨pattern, position + front.length, offset + 1⟩, rfl, ⟨listed, ?_, ?_⟩,
      Nat.le_add_right _ _, rfl⟩
    · exact ⟨before ++ front, rest, by rw [whole, ← spelled]; simp, by simp [begins]⟩
    · simp only
      omega
  · rintro ⟨m, rfl, occurs, after, ends⟩
    -- both splits of the text end here, and the occurrence lies within what was seen
    obtain ⟨front, back, spelled, start⟩ := occurs.spelled
    have sized := occurs.sized
    have sizes : (before ++ (b :: seen).reverse).length = (front ++ spell m.pattern).length := by
      simp only [List.length_append, List.length_reverse, List.length_cons]
      omega
    have same := (List.append_inj (whole.symm.trans spelled) sizes).1
    have inText : spell m.pattern <:+ before ++ (b :: seen).reverse := by
      rw [same]
      exact List.suffix_append front _
    apply List.suffix_of_suffix_length_le inText (List.suffix_append before _)
    simp only [List.length_reverse, List.length_cons]
    omega

theorem Scanning.skip (scanning : Scanning patterns spell text position seen offset (b :: rest))
    (none_ends : ending patterns spell (b :: seen) = none) :
    Scanning patterns spell text position (b :: seen) (offset + 1) rest where
  split := by
    obtain ⟨before, split, begins⟩ := scanning.split
    exact ⟨before, by simp [split], begins⟩
  offset_eq := by
    have size := scanning.offset_eq
    simp only [List.length_cons]
    omega
  pending m occurs after := by
    have later := scanning.pending m occurs after
    apply Nat.lt_of_le_of_ne later
    intro ends
    have absent := List.find?_eq_none.mp none_ends m.pattern occurs.listed
    exact absent ((scanning.occurs_iff occurs.listed).mpr ⟨m, rfl, occurs, after, ends.symm⟩)

/-- The reported match is one that ends first. -/
theorem Scanning.report (scanning : Scanning patterns spell text position seen offset (b :: rest))
    {pattern : ι} (found : ending patterns spell (b :: seen) = some pattern) :
    First patterns spell text position ⟨pattern, offset + 1 - (spell pattern).length, offset + 1⟩ := by
  unfold ending at found
  have listed := List.mem_of_find?_eq_some found
  have seen_spelled := List.find?_some found
  obtain ⟨m, same, occurs, after, ends⟩ := (scanning.occurs_iff listed).mp seen_spelled
  have sized := occurs.sized
  have reported : m = ⟨pattern, offset + 1 - (spell pattern).length, offset + 1⟩ := by
    obtain ⟨mPattern, start, stop⟩ := m
    subst same ends
    simp only [Match.mk.injEq, true_and, and_true]
    simp only at sized
    omega
  rw [← reported]
  refine ⟨occurs, after, fun other occurs' after' => ?_⟩
  rw [ends]
  exact scanning.pending other occurs' after'

omit [DecidableEq α] in
theorem Scanning.restart (nonempty : ∀ pattern ∈ patterns, spell pattern ≠ [])
    (scanning : Scanning patterns spell text position seen offset (b :: rest)) :
    Scanning patterns spell text (offset + 1) [] (offset + 1) rest := by
  obtain ⟨before, split, begins⟩ := scanning.split
  have size := scanning.offset_eq
  have read : (before ++ (b :: seen).reverse).length = offset + 1 := by
    simp only [List.length_append, List.length_reverse, List.length_cons]
    omega
  rw [← read]
  exact Scanning.begin nonempty _ (by simp [split])

theorem scanFrom_sound (nonempty : ∀ pattern ∈ patterns, spell pattern ≠ [])
    (scanning : Scanning patterns spell text position seen offset rest)
    (restart : Restart patterns spell text position) {m : Match ι}
    (reported : m ∈ scanFrom patterns spell seen offset rest) : Read patterns spell text m := by
  induction rest generalizing position seen offset with
  | nil => simp [scanFrom] at reported
  | cons b rest ih =>
    simp only [scanFrom] at reported
    split at reported
    next pattern found =>
      have first := scanning.report found
      obtain rfl | later := List.mem_cons.mp reported
      · exact ⟨position, restart, first⟩
      · exact ih (scanning.restart nonempty) (restart.tail ⟨_, first, rfl⟩) later
    next none_ends => exact ih (scanning.skip none_ends) restart reported

/-- Every match from here on is reported, or one that ends together with it. -/
theorem scanFrom_complete (nonempty : ∀ pattern ∈ patterns, spell pattern ≠ [])
    (scanning : Scanning patterns spell text position seen offset rest) {later : Nat}
    (reached : Relation.ReflTransGen (Next patterns spell text) position later) {m : Match ι}
    (first : First patterns spell text later m) :
    ∃ other ∈ scanFrom patterns spell seen offset rest, other.stop = m.stop := by
  induction rest generalizing position seen offset with
  | nil =>
    -- nothing is left to read, and what was read holds no occurrence
    obtain ⟨before, split, begins⟩ := scanning.split
    have size := scanning.offset_eq
    have finished : text.length = offset := by simp [split, begins, size]
    have pending := scanning.pending m first.occurs
      (Nat.le_trans (restart_le reached) first.after)
    have bounded := first.occurs.stop_le
    omega
  | cons b rest ih =>
    simp only [scanFrom]
    split
    next pattern found =>
      have reported := scanning.report found
      obtain rfl | ⟨next, step, onward⟩ := reached.cases_head
      · exact ⟨_, List.mem_cons_self, reported.stop_eq first⟩
      · have same : next = offset + 1 := next_unique step ⟨_, reported, rfl⟩
        subst same
        obtain ⟨other, listed, ends⟩ := ih (scanning.restart nonempty) onward
        exact ⟨other, List.mem_cons_of_mem _ listed, ends⟩
    next none_ends => exact ih (scanning.skip none_ends) reached

theorem read_of_mem (nonempty : ∀ pattern ∈ patterns, spell pattern ≠ []) {m : Match ι}
    (reported : m ∈ findIter patterns spell text) : Read patterns spell text m :=
  scanFrom_sound nonempty (.begin nonempty [] rfl) .refl reported

theorem exists_mem_of_read (nonempty : ∀ pattern ∈ patterns, spell pattern ≠ []) {m : Match ι}
    (read : Read patterns spell text m) :
    ∃ other ∈ findIter patterns spell text, other.stop = m.stop := by
  obtain ⟨position, reached, first⟩ := read
  exact scanFrom_complete nonempty (.begin nonempty [] rfl) reached first

end Correct

end Library.PatternScan
