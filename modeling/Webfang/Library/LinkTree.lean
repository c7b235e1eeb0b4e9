import Webfang.Library.UnixPath

/-!
# File trees with links

A tree of directories, files and symbolic links by what stands at each place, and the walk of the
operating system along a list of names: a link is replaced by the names of its target. A walk that
creates goes on where nothing stands yet: it makes the directories its own path names, but of a link
only the last name, as creating through a dangling link does.
-/
namespace Library.LinkTree

open UnixPath

inductive Entry where
  | dir
  | file
  | link (target : List Char)
  deriving DecidableEq, Repr

/-- What stands at a place, if anything does. -/
abbrev Tree := Location → Option Entry

/-- The place a walk ends at, and how many links it could still follow. -/
abbrev Reached := Location × Nat

/-- Where a link is followed from: its own directory, or the root. -/
def startOf (place : Location) (target : List Char) : Location :=
  if isAbsolute target then [] else place

variable (tree : Tree)

/-- The first `linked` of the names come from links. -/
def walkWith (create : Bool) (left : Nat) (follow : Location → Nat → List Name → Option Reached) :
    Location → Nat → List Name → Option Reached
  | place, _, [] => some (place, left)
  | place, linked, name :: rest =>
    if tree place ≠ some .dir then none
    else if name = [] ∨ name = curDir then walkWith create left follow place (linked - 1) rest
    else if name = parentDir then walkWith create left follow place.dropLast (linked - 1) rest
    else
      match tree (place ++ [name]) with
      | some (.link target) =>
        let names := target.splitOn sep
        follow (startOf place target) (names.length + (linked - 1)) (names ++ rest)
      | some _ => walkWith create left follow (place ++ [name]) (linked - 1) rest
      | none =>
        if create ∧ (linked = 0 ∨ rest = []) then some (rest.foldl enter (place ++ [name]), left)
        else none

def walk (create : Bool) : (left : Nat) → Location → Nat → List Name → Option Reached
  | 0 => walkWith tree create 0 fun _ _ _ => none
  | left + 1 => walkWith tree create (left + 1) (walk create left)

def follow (create : Bool) : (left : Nat) → Location → Nat → List Name → Option Reached
  | 0 => fun _ _ _ => none
  | left + 1 => walk tree create left

variable {tree} {create : Bool} {left : Nat} {place : Location} {linked : Nat}

theorem walk_nil : walk tree create left place linked [] = some (place, left) := by
  cases left <;> rfl

theorem walk_cons (name : Name) (rest : List Name) :
    walk tree create left place linked (name :: rest) =
      if tree place ≠ some .dir then none
      else if name = [] ∨ name = curDir then walk tree create left place (linked - 1) rest
      else if name = parentDir then walk tree create left place.dropLast (linked - 1) rest
      else
        match tree (place ++ [name]) with
        | some (.link target) =>
          follow tree create left (startOf place target) ((target.splitOn sep).length + (linked - 1))
            (target.splitOn sep ++ rest)
        | some _ => walk tree create left (place ++ [name]) (linked - 1) rest
        | none =>
          if create ∧ (linked = 0 ∨ rest = []) then some (rest.foldl enter (place ++ [name]), left)
          else none := by
  cases left <;> rfl

/-- One step of a walk: what it does with the next name. -/
inductive Step (tree : Tree) (place : Location) (name : Name) : Prop where
  | blocked (isNoDir : tree place ≠ some .dir)
  | stay (isDir : tree place = some .dir) (idle : name = [] ∨ name = curDir)
  | up (isDir : tree place = some .dir) (idle : ¬ (name = [] ∨ name = curDir)) (parent : name = parentDir)
  | absent (isDir : tree place = some .dir) (plain : Plain name) (nothing : tree (place ++ [name]) = none)
  | link (isDir : tree place = some .dir) (plain : Plain name) (target : List Char)
      (found : tree (place ++ [name]) = some (.link target))
  | down (isDir : tree place = some .dir) (plain : Plain name) (entry : Entry)
      (found : tree (place ++ [name]) = some entry) (real : ∀ target, entry ≠ .link target)

theorem step_cases (tree : Tree) (place : Location) (name : Name) : Step tree place name := by
  by_cases isDir : tree place = some .dir
  · by_cases idle : name = [] ∨ name = curDir
    · exact .stay isDir idle
    · by_cases parent : name = parentDir
      · exact .up isDir idle parent
      · have plain : Plain name := ⟨fun empty => idle (.inl empty), fun cur => idle (.inr cur), parent⟩
        rcases entry : tree (place ++ [name]) with _ | _ | _ | target
        · exact .absent isDir plain entry
        · exact .down isDir plain .dir entry nofun
        · exact .down isDir plain .file entry nofun
        · exact .link isDir plain target entry
  · exact .blocked isDir

theorem walk_blocked {name : Name} {rest : List Name} (isNoDir : tree place ≠ some .dir) :
    walk tree create left place linked (name :: rest) = none := by
  rw [walk_cons, if_pos isNoDir]

theorem walk_stay {name : Name} {rest : List Name} (isDir : tree place = some .dir)
    (idle : name = [] ∨ name = curDir) :
    walk tree create left place linked (name :: rest) =
      walk tree create left place (linked - 1) rest := by
  rw [walk_cons, if_neg (not_not_intro isDir), if_pos idle]

theorem walk_up {rest : List Name} (isDir : tree place = some .dir) :
    walk tree create left place linked (parentDir :: rest) =
      walk tree create left place.dropLast (linked - 1) rest := by
  rw [walk_cons, if_neg (not_not_intro isDir), if_neg (by decide), if_pos rfl]

section Plain

variable {name : Name} {rest : List Name} (isDir : tree place = some .dir) (plain : Plain name)

include isDir plain in
theorem walk_plain :
    walk tree create left place linked (name :: rest) =
      match tree (place ++ [name]) with
      | some (.link target) =>
        follow tree create left (startOf place target) ((target.splitOn sep).length + (linked - 1))
          (target.splitOn sep ++ rest)
      | some _ => walk tree create left (place ++ [name]) (linked - 1) rest
      | none =>
        if create ∧ (linked = 0 ∨ rest = []) then some (rest.foldl enter (place ++ [name]), left)
        else none := by
  rw [walk_cons, if_neg (not_not_intro isDir), if_neg (not_or.mpr ⟨plain.nonempty, plain.not_cur⟩),
    if_neg plain.not_parent]

include isDir plain in
theorem walk_link {target : List Char} (found : tree (place ++ [name]) = some (.link target)) :
    walk tree create left place linked (name :: rest) =
      follow tree create left (startOf place target) ((target.splitOn sep).length + (linked - 1))
        (target.splitOn sep ++ rest) := by
  rw [walk_plain isDir plain, found]

include isDir plain in
theorem walk_absent (nothing : tree (place ++ [name]) = none) :
    walk tree create left place linked (name :: rest) =
      if create ∧ (linked = 0 ∨ rest = []) then some (rest.foldl enter (place ++ [name]), left)
      else none := by
  rw [walk_plain isDir plain, nothing]

include isDir plain in
theorem walk_down {entry : Entry} (found : tree (place ++ [name]) = some entry)
    (real : ∀ target, entry ≠ .link target) :
    walk tree create left place linked (name :: rest) =
      walk tree create left (place ++ [name]) (linked - 1) rest := by
  rw [walk_plain isDir plain, found]
  cases entry with
  | dir => rfl
  | file => rfl
  | link target => exact absurd rfl (real target)

end Plain

/-! ### Walks over existing names -/

/-- Behind names that exist a walk goes on from where they lead. -/
theorem walk_append {names more : List Name} {reached : Location} {remaining : Nat}
    (exists_walk : walk tree false left place linked names = some (reached, remaining)) :
    walk tree create left place linked (names ++ more) =
      walk tree create remaining reached (linked - names.length) more := by
  induction left using Nat.strong_induction_on generalizing place linked names with
  | _ left outer =>
    induction names generalizing place linked with
    | nil =>
      rw [walk_nil] at exists_walk
      cases exists_walk
      rfl
    | cons name rest ih =>
      have shorter : linked - (rest.length + 1) = linked - 1 - rest.length := by omega
      rw [List.cons_append, List.length_cons, shorter]
      rcases step_cases tree place name with isNoDir | ⟨isDir, idle⟩ | ⟨isDir, -, rfl⟩ |
        ⟨isDir, plain, nothing⟩ | ⟨isDir, plain, target, found⟩ | ⟨isDir, plain, entry, found, real⟩
      · rw [walk_blocked isNoDir] at exists_walk
        cases exists_walk
      · rw [walk_stay isDir idle] at exists_walk ⊢
        exact ih exists_walk
      · rw [walk_up isDir] at exists_walk ⊢
        exact ih exists_walk
      · rw [walk_absent isDir plain nothing, if_neg (by simp)] at exists_walk
        cases exists_walk
      · rw [walk_link isDir plain found] at exists_walk ⊢
        cases left with
        | zero => cases exists_walk
        | succ left =>
          have followed := outer left (Nat.lt_succ_self left) exists_walk
          rw [List.append_assoc] at followed
          refine followed.trans (congrArg (walk tree create remaining reached · more) ?_)
          rw [List.length_append]
          omega
      · rw [walk_down isDir plain found real] at exists_walk ⊢
        exact ih exists_walk

theorem walk_of_exists {names : List Name} {reached : Location} {remaining : Nat}
    (exists_walk : walk tree false left place linked names = some (reached, remaining)) :
    walk tree create left place linked names = some (reached, remaining) := by
  have whole : walk tree create left place linked (names ++ []) =
      walk tree create remaining reached (linked - names.length) [] := walk_append exists_walk
  rwa [List.append_nil, walk_nil] at whole

theorem walk_through_dangling {names more : List Name}
    (dangling : walk tree false left place linked names = none) (from_link : names.length ≤ linked)
    (behind : more ≠ []) : walk tree create left place linked (names ++ more) = none := by
  induction left using Nat.strong_induction_on generalizing place linked names with
  | _ left outer =>
    induction names generalizing place linked with
    | nil =>
      rw [walk_nil] at dangling
      cases dangling
    | cons name rest ih =>
      rw [List.length_cons] at from_link
      have later : rest.length ≤ linked - 1 := by omega
      rw [List.cons_append]
      rcases step_cases tree place name with isNoDir | ⟨isDir, idle⟩ | ⟨isDir, -, rfl⟩ |
        ⟨isDir, plain, nothing⟩ | ⟨isDir, plain, target, found⟩ | ⟨isDir, plain, entry, found, real⟩
      · exact walk_blocked isNoDir
      · rw [walk_stay isDir idle] at dangling ⊢
        exact ih dangling later
      · rw [walk_up isDir] at dangling ⊢
        exact ih dangling later
      · -- the name is one of a link, and it is not the last
        rw [walk_absent isDir plain nothing, if_neg]
        rintro ⟨-, unlinked | last⟩
        · omega
        · exact behind (List.append_eq_nil_iff.mp last).2
      · rw [walk_link isDir plain found] at dangling ⊢
        cases left with
        | zero => rfl
        | succ left =>
          rw [← List.append_assoc]
          refine outer left (Nat.lt_succ_self left) dangling ?_
          rw [List.length_append]
          omega
      · rw [walk_down isDir plain found real] at dangling ⊢
        exact ih dangling later

end Library.LinkTree
