import Mathlib.Tactic.IntervalCases
import Webfang.Mcp.Provenance

/-!
# Neutralization

The contract of `neutralize_body`, clause by clause. Escape sequences and control characters go,
whatever the body. The sentinel goes as well unless the body shows a run of dashes that the
replacement leaves three dashes short of a multiple of four: its last dash then joins them.
-/
namespace Webfang.Mcp

open Library

/-- What a body shows: its escape sequences and control characters are left out. -/
inductive Shows : List Char → List Char → Prop
  | done : Shows [] []
  | kept {c : Char} {rest shown : List Char} (plain : isControl c = false ∨ c = '\n' ∨ c = '\t')
    (tail : Shows rest shown) : Shows (c :: rest) (c :: shown)
  | control {c : Char} {rest shown : List Char} (control : isControl c = true) (notEsc : c ≠ esc)
    (notNewline : c ≠ '\n') (notTab : c ≠ '\t') (tail : Shows rest shown) : Shows (c :: rest) shown
  | csi {params : List Char} {final : Char} {rest shown : List Char}
    (inside : ∀ p ∈ params, isFinal p = false) (ends : isFinal final = true)
    (tail : Shows rest shown) : Shows (esc :: '[' :: (params ++ final :: rest)) shown
  | openCsi {params : List Char} (inside : ∀ p ∈ params, isFinal p = false) :
    Shows (esc :: '[' :: params) []
  | short {c : Char} {rest shown : List Char} (notBracket : c ≠ '[') (tail : Shows rest shown) :
    Shows (esc :: c :: rest) shown
  | loneEsc : Shows [esc] []

variable {body shown : List Char}

/-! ### The loop computes what a body shows -/

theorem strip_csi {params rest : List Char} (inside : ∀ p ∈ params, isFinal p = false) :
    strip .csi (params ++ rest) = strip .csi rest := by
  induction params with
  | nil => rfl
  | cons p params ih =>
    obtain ⟨here, later⟩ := List.forall_mem_cons.mp inside
    simp [strip, here, ih later]

theorem strip_of_shows (shows_ : Shows body shown) : strip .text body = shown := by
  induction shows_ with
  | done => rfl
  | @kept c rest shown plain _ ih =>
    have notEsc : c ≠ esc := by
      rintro rfl
      simp [esc, isControl] at plain
    rcases plain with plain | rfl | rfl
    · simp only [strip, notEsc, plain, ih, if_false, Bool.false_eq_true]
      split <;> rfl
    all_goals simp [strip, notEsc, ih]
  | control control notEsc notNewline notTab _ ih =>
    simp [strip, control, notEsc, notNewline, notTab, ih]
  | @csi params final rest shown inside ends _ ih =>
    have past : strip .csi (params ++ final :: rest) = strip .text rest := by
      rw [strip_csi inside]
      simp [strip, ends]
    simp [strip, past, ih]
  | @openCsi params inside =>
    have past : strip .csi (params ++ []) = [] := strip_csi inside
    rw [List.append_nil] at past
    simp [strip, past]
  | short notBracket _ ih => simp [strip, notBracket, ih]
  | loneEsc => simp [strip]

/-- In each mode the loop shows the rest of what it has begun to read. -/
theorem shows_strip (mode : Mode) (chars : List Char) :
    match mode with
    | .text => Shows chars (strip .text chars)
    | .escape => Shows (esc :: chars) (strip .escape chars)
    | .csi => ∀ params, (∀ p ∈ params, isFinal p = false) →
        Shows (esc :: '[' :: (params ++ chars)) (strip .csi chars) := by
  induction chars generalizing mode with
  | nil =>
    -- at the end an open sequence is dropped
    cases mode with
    | text => exact .done
    | escape => exact .loneEsc
    | csi =>
      intro params inside
      rw [List.append_nil]
      exact .openCsi inside
  | cons c chars ih =>
    cases mode with
    | text =>
      simp only [strip]
      split
      next isEsc => exact isEsc ▸ ih .escape
      next notEsc =>
        split
        next blank => exact .kept (.inr (by simpa using blank)) (ih .text)
        next notBlank =>
          split
          next control =>
            simp only [Bool.or_eq_true, decide_eq_true_eq, not_or] at notBlank
            exact .control control notEsc notBlank.1 notBlank.2 (ih .text)
          next plain => exact .kept (.inl (by simpa using plain)) (ih .text)
    | escape =>
      simp only [strip]
      split
      next bracket => exact bracket ▸ ih .csi [] nofun
      next notBracket => exact .short notBracket (ih .text)
    | csi =>
      intro params inside
      simp only [strip]
      split
      next ends => exact .csi inside ends (ih .text)
      next goesOn =>
        -- a parameter of the sequence that is being read
        have longer := ih .csi (params ++ [c]) (by
          intro p member
          rcases List.mem_append.mp member with old | new
          · exact inside p old
          · rw [List.mem_singleton.mp new]
            simpa using goesOn)
        rwa [List.append_assoc] at longer

/-! ### Control characters -/

theorem Shows.clean (shows_ : Shows body shown) {c : Char} (member : c ∈ shown)
    (control : isControl c = true) : c = '\n' ∨ c = '\t' := by
  induction shows_ with
  | kept plain _ ih =>
    rcases List.mem_cons.mp member with rfl | later
    · exact plain.resolve_left (by simp [control])
    · exact ih later
  | control _ _ _ _ _ ih | csi _ _ _ ih | short _ _ ih => exact ih member
  | done | openCsi _ | loneEsc => cases member

theorem shows_self (clean : ∀ c ∈ body, isControl c = true → c = '\n' ∨ c = '\t') :
    Shows body body := by
  induction body with
  | nil => exact .done
  | cons c rest ih =>
    obtain ⟨here, later⟩ := List.forall_mem_cons.mp clean
    refine .kept ?_ (ih later)
    cases control : isControl c with
    | false => exact .inl rfl
    | true => exact .inr (here control)

theorem neutralizeText_clean {c : Char} (member : c ∈ neutralizeText body)
    (control : isControl c = true) : c = '\n' ∨ c = '\t' := by
  rcases Replacement.mem_replace member with kept | escaped
  · exact (shows_strip .text body).clean kept control
  · have plain : sentinelEscape.any isControl = false := by decide
    exact absurd control (List.any_eq_false.mp plain c escaped)

/-! ### Dashes -/

/-- The runs of dashes between the other characters, empty ones included. -/
def dashRuns (text : List Char) : List (List Char) := text.splitOnP (· ≠ '-')

/-- No run of dashes has seven, eleven, fifteen, ... of them. -/
def RunsFit (text : List Char) : Prop :=
  ∀ run ∈ dashRuns text, ¬ (7 ≤ run.length ∧ run.length % 4 = 3)

theorem runsFit_replicate (n : Nat) :
    RunsFit (List.replicate n '-') ↔ ¬ (7 ≤ n ∧ n % 4 = 3) := by
  have whole : dashRuns (List.replicate n '-') = [List.replicate n '-'] :=
    List.splitOnP_eq_singleton fun c member => by simp [List.eq_of_mem_replicate member]
  simp [RunsFit, whole]

theorem runsFit_more (n : Nat) {d : Char} (other : d ≠ '-') (rest : List Char) :
    RunsFit (List.replicate n '-' ++ d :: rest) ↔ ¬ (7 ≤ n ∧ n % 4 = 3) ∧ RunsFit rest := by
  have split : dashRuns (List.replicate n '-' ++ d :: rest) =
      List.replicate n '-' :: dashRuns rest :=
    List.splitOnP_append_cons_of_forall_mem
      (fun c member => by simp [List.eq_of_mem_replicate member]) d (by simp [other]) rest
  simp [RunsFit, split]

def escapeDashes (text : List Char) : List Char :=
  Replacement.replace sentinel sentinelEscape text

/-- What becomes of a run of `n` dashes. -/
def escapedRun (n : Nat) : List Char :=
  (List.replicate (n / 4) sentinelEscape).flatten ++ List.replicate (n % 4) '-'

theorem four_le_of_opens {n : Nat} {rest : List Char} (ends : rest.head? ≠ some '-')
    (opens : sentinel <+: List.replicate n '-' ++ rest) : 4 ≤ n := by
  by_contra few
  have dash : sentinel[n]? = some '-' := by
    have small : n < 4 := by omega
    interval_cases n <;> rfl
  obtain ⟨after, whole⟩ := opens
  have at_n : (sentinel ++ after)[n]? = rest.head? := by
    rw [whole, List.getElem?_append_right (by simp)]
    simp [List.head?_eq_getElem?]
  rw [List.getElem?_append_left (by simpa [sentinel] using few), dash] at at_n
  exact ends at_n.symm

theorem escapeDashes_run (n : Nat) {rest : List Char} (ends : rest.head? ≠ some '-') :
    escapeDashes (List.replicate n '-' ++ rest) = escapedRun n ++ escapeDashes rest := by
  induction n using Nat.strong_induction_on with
  | _ n ih =>
    by_cases four : 4 ≤ n
    · -- the first four dashes are an occurrence
      obtain ⟨more, rfl⟩ := Nat.exists_eq_add_of_le four
      have run : List.replicate (4 + more) '-' = sentinel ++ List.replicate more '-' := by
        rw [List.replicate_add]
        rfl
      have escaped : escapedRun (4 + more) = sentinelEscape ++ escapedRun more := by
        have quotient : (4 + more) / 4 = more / 4 + 1 := by omega
        have remainder : (4 + more) % 4 = more % 4 := by omega
        simp [escapedRun, quotient, remainder, List.replicate_succ]
      rw [run, escaped, List.append_assoc, List.append_assoc, ← ih more (by omega)]
      exact Replacement.replace_occurrence (by decide) _
    · -- fewer than four dashes are none, and stay
      have few : escapedRun n = List.replicate n '-' := by
        simp [escapedRun, Nat.div_eq_of_lt (by omega : n < 4), Nat.mod_eq_of_lt (by omega : n < 4)]
      rw [few]
      cases n with
      | zero => rfl
      | succ n =>
        have fewer : escapedRun n = List.replicate n '-' := by
          simp [escapedRun, Nat.div_eq_of_lt (by omega : n < 4),
            Nat.mod_eq_of_lt (by omega : n < 4)]
        have later := ih n (Nat.lt_succ_self n)
        rw [fewer] at later
        rw [List.replicate_succ, List.cons_append, List.cons_append, ← later]
        exact Replacement.replace_cons fun opens => four (four_le_of_opens ends opens)

theorem escapeDashes_replicate (n : Nat) :
    escapeDashes (List.replicate n '-') = escapedRun n := by
  have run : escapeDashes (List.replicate n '-' ++ []) = escapedRun n ++ [] :=
    escapeDashes_run n nofun
  rwa [List.append_nil, List.append_nil] at run

/-- Spaces keep the dashes of an escaped block apart, all but its last. -/
theorem flatten_block (blocks : Nat) (rest : List Char) :
    (List.replicate (blocks + 1) sentinelEscape).flatten ++ rest =
      ['-'] ++ ' ' :: (['-'] ++ ' ' :: (['-'] ++ ' ' ::
        '-' :: ((List.replicate blocks sentinelEscape).flatten ++ rest))) := by
  rw [List.replicate_succ, List.flatten_cons, List.append_assoc]
  rfl

/-- Behind a dash, an escaped run holds the sentinel when three dashes are left over. -/
theorem sentinel_after_dash (blocks : Nat) {rest : Nat} (few : rest < 4) :
    sentinel <:+: '-' :: ((List.replicate blocks sentinelEscape).flatten ++
        List.replicate rest '-') ↔ rest = 3 := by
  have foreign : ' ' ∉ sentinel := by decide
  induction blocks with
  | zero => interval_cases rest <;> decide
  | succ blocks ih =>
    -- the dash in front joins the first of the block
    have block : '-' :: ((List.replicate (blocks + 1) sentinelEscape).flatten ++
        List.replicate rest '-') = ['-', '-'] ++ ' ' :: (['-'] ++ ' ' :: (['-'] ++ ' ' ::
          '-' :: ((List.replicate blocks sentinelEscape).flatten ++ List.replicate rest '-'))) :=
      congrArg _ (flatten_block blocks _)
    have two : ¬ sentinel <:+: ['-', '-'] := by decide
    have one : ¬ sentinel <:+: ['-'] := by decide
    rw [block, Replacement.infix_append_cons_iff foreign, Replacement.infix_append_cons_iff foreign,
      Replacement.infix_append_cons_iff foreign]
    simp only [two, one, false_or, ih]

theorem sentinel_escapedRun_iff (n : Nat) : sentinel <:+: escapedRun n ↔ 7 ≤ n ∧ n % 4 = 3 := by
  have foreign : ' ' ∉ sentinel := by decide
  have few : n % 4 < 4 := Nat.mod_lt n (by decide)
  unfold escapedRun
  cases quotient : n / 4 with
  | zero =>
    have small : n < 4 := by omega
    have absent : ¬ sentinel <:+: List.replicate n '-' := by
      interval_cases n <;> decide
    simp only [List.replicate_zero, List.flatten_nil, List.nil_append, Nat.mod_eq_of_lt small, absent,
      false_iff]
    omega
  | succ blocks =>
    have one : ¬ sentinel <:+: ['-'] := by decide
    rw [flatten_block]
    simp only [Replacement.infix_append_cons_iff foreign, one, false_or,
      sentinel_after_dash blocks few]
    omega

/-- The replacement removes the sentinel exactly from the texts whose runs fit. -/
theorem sentinel_escapeDashes_iff (text : List Char) :
    ¬ sentinel <:+: escapeDashes text ↔ RunsFit text := by
  induction text using Replacement.runs_induction '-' with
  | last n =>
    rw [escapeDashes_replicate, runsFit_replicate, ← sentinel_escapedRun_iff]
  | more n d rest other ih =>
    have foreign : d ∉ sentinel := by
      intro member
      exact other (List.eq_of_mem_replicate (show d ∈ List.replicate 4 '-' from member))
    rw [escapeDashes_run n (by simpa using other), runsFit_more n other,
      ← sentinel_escapedRun_iff, ← ih]
    have next : escapeDashes (d :: rest) = d :: escapeDashes rest :=
      Replacement.replace_cons fun opens => other (List.cons_prefix_cons.mp opens).1.symm
    rw [next, Replacement.infix_append_cons_iff foreign, not_or]

/-- `neutralize_text`, for every body: clean of controls whatever the body, free of the sentinel
and stable exactly where the runs of dashes it shows fit. -/
theorem sentinel_neutralizeText_iff (body : List Char) :
    ¬ sentinel <:+: neutralizeText body ↔ RunsFit (strip .text body) :=
  sentinel_escapeDashes_iff _

theorem neutralizeText_stable_iff (body : List Char) :
    neutralizeText (neutralizeText body) = neutralizeText body ↔
      ¬ sentinel <:+: neutralizeText body := by
  have shown : strip .text (neutralizeText body) = neutralizeText body :=
    strip_of_shows (shows_self fun _ member => neutralizeText_clean member)
  have again : neutralizeText (neutralizeText body) = escapeDashes (neutralizeText body) :=
    congrArg escapeDashes shown
  rw [again]
  exact Replacement.replace_eq_self_iff (by decide) (by decide)

end Webfang.Mcp
