import Webfang.Domain.PruneSweeps

/-!
# A run over pieces

The rounds of `prune_dom` over the pieces of a document. The two patterns for hidden elements take what they
find in the first round; whatever goes after that are wrappers around blank text.
-/
namespace Webfang.Domain.DomPruner

open Library Backtrack Sweep

def looksHidden (property value : String) : Piece → Bool := opensWith (hiddenFront property value)

def closesListed : Piece → Bool := closesWith listedTag

/-- From a tag that looks hidden to the next closing tag of a listed kind. -/
def cut (property value : String) (row : List Piece) : List Piece :=
  sweep (looksHidden property value) (behind closesListed) row

def opensWrapper (tag : String) : Piece → Bool := opensWith [literal tag]

def closesWrapper (tag : String) : Piece → Bool := closesWith (literal tag)

/-- From a tag to its closing tag, with only blank text between. -/
def unwrap (tag : String) (row : List Piece) : List Piece :=
  sweep (opensWrapper tag) (behindBlank (closesWrapper tag)) row

def sweepPass (pass : List Piece → List Piece) (state : List Piece × Bool) : List Piece × Bool :=
  let result := pass state.1
  (result, state.2 || render state.1 != render result)

def unwrapPasses (tags : List String) (state : List Piece × Bool) : List Piece × Bool :=
  tags.foldl (fun state tag => sweepPass (unwrap tag) state) state

/-- One round, with whether it has made a difference. -/
def roundOf (row : List Piece) : List Piece × Bool :=
  unwrapPasses pruneTags
    (sweepPass (cut "visibility" "hidden") (sweepPass (cut "display" "none") (row, false)))

def survivorsLoop : Nat → List Piece → List Piece
  | 0, row => row
  | rounds + 1, row => if (roundOf row).2 then survivorsLoop rounds (roundOf row).1 else (roundOf row).1

def survivors (document : List Html) : List Piece := survivorsLoop maxIter (pieces document)

section Run

variable {pattern : Pattern} {pass : List Piece → List Piece} {row : List Piece} {state : List Piece × Bool}

/-- A `replace_all` that does over the markup what a pass does over the pieces. -/
def Mirrors (pattern : Pattern) (pass : List Piece → List Piece) : Prop :=
  ∀ row, SoundRow row → removeAll pattern (render row) = render (pass row) ∧ (pass row).Sublist row

theorem mirrors_cut {property value : String}
    (avoids : (seqs (hiddenFront property value)).avoids '>' = true) :
    Mirrors (hiddenPattern property value) (cut property value) := by
  intro row sound
  refine ⟨removeAll_render avoids rfl ?_ behind_suffix sound, sweep_sublist behind_suffix row⟩
  intro row sound
  rw [head?_lazily fun _ => rfl]
  exact search_close (by decide) sound

theorem mirrors_unwrap {tag : String} (member : tag ∈ pruneTags) :
    Mirrors (emptyWrapper tag) (unwrap tag) := by
  have parts : ∀ tag ∈ pruneTags, (literal tag).avoids '>' = true ∧
      (seqs [literal tag]).avoids '>' = true ∧ (seqs [literal tag]).refuses '/' = true := by decide
  obtain ⟨whole, avoids, refuses⟩ := parts tag member
  intro row sound
  refine ⟨removeAll_render avoids refuses ?_ behindBlank_suffix sound, sweep_sublist behindBlank_suffix row⟩
  intro row sound
  exact rests_behindBlank whole sound

/-- The markup of the pieces, with whether a round has changed it. -/
def rendered (state : List Piece × Bool) : List Char × Bool := (render state.1, state.2)

theorem Mirrors.replacePass (mirrors : Mirrors pattern pass) (sound : SoundRow state.1) :
    replacePass pattern (rendered state) = rendered (sweepPass pass state) ∧
      SoundRow (sweepPass pass state).1 := by
  obtain ⟨same, sub⟩ := mirrors state.1 sound
  refine ⟨?_, sound.sublist sub⟩
  rw [DomPruner.replacePass, rendered, same]
  rfl

theorem foldl_replacePass {tags : List String} (known : ∀ tag ∈ tags, tag ∈ pruneTags)
    (sound : SoundRow state.1) :
    (tags.map emptyWrapper).foldl (fun state pattern => replacePass pattern state) (rendered state) =
      rendered (unwrapPasses tags state) ∧ SoundRow (unwrapPasses tags state).1 := by
  induction tags generalizing state with
  | nil => exact ⟨rfl, sound⟩
  | cons tag tags ih =>
    obtain ⟨first, later⟩ := List.forall_mem_cons.mp known
    obtain ⟨same, sound'⟩ := (mirrors_unwrap first).replacePass sound
    rw [List.map_cons, List.foldl_cons, same]
    exact ih later sound'

/-- A round of `remove_invisible` over the markup is one over the pieces. -/
theorem round_render (sound : SoundRow row) :
    emptyWrapperPatterns.foldl (fun state pattern => replacePass pattern state)
      (replacePass visibilityHidden (replacePass displayNone (render row, false))) = rendered (roundOf row) ∧
    SoundRow (roundOf row).1 := by
  have display := @mirrors_cut "display" "none" (by decide)
  have visibility := @mirrors_cut "visibility" "hidden" (by decide)
  obtain ⟨first, sound₁⟩ := @Mirrors.replacePass _ _ (row, false) display sound
  obtain ⟨second, sound₂⟩ := visibility.replacePass sound₁
  have entered : replacePass visibilityHidden (replacePass displayNone (render row, false)) =
      rendered (sweepPass (cut "visibility" "hidden") (sweepPass (cut "display" "none") (row, false))) := by
    rw [← second, ← first]
    rfl
  rw [entered]
  exact foldl_replacePass (fun _ member => member) sound₂

/-- The rounds over the markup are those over the pieces. -/
theorem removeInvisibleLoop_render (rounds : Nat) (sound : SoundRow row) :
    removeInvisibleLoop rounds (render row) = render (survivorsLoop rounds row) := by
  induction rounds generalizing row with
  | zero => rfl
  | succ rounds ih =>
    obtain ⟨same, sound'⟩ := round_render sound
    rw [removeInvisibleLoop, survivorsLoop]
    simp only [same, rendered, ih sound']
    split <;> rfl

/-! ### What a run takes -/

/-- A tag and its closing tag around blank text. -/
def Wrapper (stretch : List Piece) : Prop :=
  ∃ tag ∈ pruneTags, ∃ opener middle closer, stretch = opener :: (middle ++ [closer]) ∧
    opensWrapper tag opener = true ∧ closesWrapper tag closer = true ∧ ∀ piece ∈ middle, isBlank piece = true

theorem unwrap_shrinks {tag : String} (member : tag ∈ pruneTags) (row : List Piece) :
    Shrinks Wrapper row (unwrap tag row) := by
  refine sweep_shrinks ?_ row
  intro opener row rest start found
  obtain ⟨middle, closer, rfl, ended, blank⟩ := behindBlank_eq_some found
  exact ⟨middle ++ [closer], by simp, tag, member, opener, middle, closer, rfl, start, ended, blank⟩

theorem unwrapPasses_shrinks {tags : List String} (known : ∀ tag ∈ tags, tag ∈ pruneTags)
    (state : List Piece × Bool) : Shrinks Wrapper state.1 (unwrapPasses tags state).1 := by
  induction tags generalizing state with
  | nil => exact .refl _
  | cons tag tags ih =>
    obtain ⟨first, later⟩ := List.forall_mem_cons.mp known
    exact (unwrap_shrinks first state.1).trans (ih later (sweepPass (unwrap tag) state))

/-- What the first round leaves for the wrapper patterns. -/
def uncut (row : List Piece) : List Piece := cut "visibility" "hidden" (cut "display" "none" row)

theorem roundOf_shrinks (row : List Piece) : Shrinks Wrapper (uncut row) (roundOf row).1 :=
  unwrapPasses_shrinks (fun _ member => member)
    (sweepPass (cut "visibility" "hidden") (sweepPass (cut "display" "none") (row, false)))

/-- Neither of the two patterns finds anything. -/
def Uncuttable (row : List Piece) : Prop :=
  Quiet (looksHidden "display" "none") closesListed row ∧
    Quiet (looksHidden "visibility" "hidden") closesListed row

theorem Uncuttable.uncut_eq (uncuttable : Uncuttable row) : uncut row = row := by
  rw [uncut, cut, cut, uncuttable.1.sweep_eq, uncuttable.2.sweep_eq]

theorem Uncuttable.sublist {rest : List Piece} (uncuttable : Uncuttable row) (sub : rest.Sublist row) :
    Uncuttable rest := ⟨uncuttable.1.sublist sub, uncuttable.2.sublist sub⟩

/-- After one round the two patterns are of no more use. -/
theorem uncuttable_uncut (row : List Piece) : Uncuttable (uncut row) :=
  ⟨(quiet_sweep row).sublist (sweep_sublist behind_suffix _), quiet_sweep _⟩

theorem Uncuttable.survivorsLoop_shrinks (uncuttable : Uncuttable row) (rounds : Nat) :
    Shrinks Wrapper row (survivorsLoop rounds row) := by
  induction rounds generalizing row with
  | zero => exact .refl row
  | succ rounds ih =>
    have first := roundOf_shrinks row
    rw [uncuttable.uncut_eq] at first
    rw [survivorsLoop]
    split
    · exact first.trans (ih (uncuttable.sublist first.sublist))
    · exact first

/-- The first round takes what the two patterns find, and all else that goes are wrappers. -/
theorem survivors_shrinks (document : List Html) :
    Shrinks Wrapper (uncut (pieces document)) (survivors document) := by
  have first := roundOf_shrinks (pieces document)
  rw [survivors, maxIter, survivorsLoop]
  split
  · exact first.trans (((uncuttable_uncut _).sublist first.sublist).survivorsLoop_shrinks 4)
  · exact first

theorem survivors_sublist (document : List Html) : (survivors document).Sublist (pieces document) :=
  (survivors_shrinks document).sublist.trans
    ((sweep_sublist behind_suffix _).trans (sweep_sublist behind_suffix _))

theorem pruneDom_writeAll (document : List Html) :
    pruneDom (writeAll document) = render (survivors document) := by
  have all : pruneDom (writeAll document) = removeInvisible (writeAll document) := by
    rw [pruneDom]
    split
    next empty =>
      have nothing : survivorsLoop maxIter [] = [] := by
        have quiet : Uncuttable [] := ⟨List.Pairwise.nil, List.Pairwise.nil⟩
        exact List.sublist_nil.mp (quiet.survivorsLoop_shrinks maxIter).sublist
      have same := @removeInvisibleLoop_render [] maxIter (by simp [SoundRow])
      rw [nothing] at same
      rw [empty]
      exact same.symm
    next => rfl
  rw [all, ← render_pieces document]
  exact removeInvisibleLoop_render maxIter (sound_pieces document)

end Run

end Webfang.Domain.DomPruner
