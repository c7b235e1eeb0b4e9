import Mathlib.Data.List.Infix

/-!
# Unix paths

A path as a text and the place it leads to: the names between its slashes are entered one after
the other, from the root when the path is absolute. Links are not followed.
-/
namespace Library.UnixPath

abbrev Name := List Char

/-- A place in the tree, by the names from the root on. -/
abbrev Location := List Name

abbrev sep : Char := '/'

def curDir : Name := ['.']

def parentDir : Name := ['.', '.']

def enter (place : Location) (name : Name) : Location :=
  if name = [] ∨ name = curDir then place
  else if name = parentDir then place.dropLast
  else place ++ [name]

def isAbsolute (path : List Char) : Bool := path.head? = some sep

/-- `base.join(path)`, resolved. -/
def resolve (base : Location) (path : List Char) : Location :=
  (path.splitOn sep).foldl enter (if isAbsolute path then [] else base)

/-- A name that leads one level down. -/
structure Plain (name : Name) : Prop where
  nonempty : name ≠ []
  not_cur : name ≠ curDir
  not_parent : name ≠ parentDir

theorem Plain.enter {name : Name} (plain : Plain name) (place : Location) :
    enter place name = place ++ [name] := by
  rw [UnixPath.enter, if_neg (not_or.mpr ⟨plain.nonempty, plain.not_cur⟩), if_neg plain.not_parent]

theorem foldl_enter_plain {names : List Name} (plain : ∀ name ∈ names, Plain name) (place : Location) :
    names.foldl enter place = place ++ names := by
  induction names generalizing place with
  | nil => simp
  | cons name names ih =>
    have first := plain name List.mem_cons_self
    have later := ih fun other member => plain other (.tail _ member)
    rw [List.foldl_cons, first.enter, later, List.append_assoc, List.singleton_append]

/-- Without names that lead upwards a walk stays below its start. -/
theorem prefix_foldl_enter {names : List Name} (below : ∀ name ∈ names, name ≠ parentDir) (place : Location) :
    place <+: names.foldl enter place := by
  induction names generalizing place with
  | nil => exact List.prefix_rfl
  | cons name names ih =>
    refine List.IsPrefix.trans ?_ (ih (fun other member => below other (.tail _ member)) _)
    rw [enter]
    split
    next => exact List.prefix_rfl
    next =>
      rw [if_neg (below name List.mem_cons_self)]
      exact List.prefix_append place [name]

theorem splitOn_sep_cons (rest : List Char) : (sep :: rest).splitOn sep = [] :: rest.splitOn sep :=
  List.splitOn_append_cons_self [] rest

theorem nil_mem_splitOn_of_absolute {path : List Char} (absolute : isAbsolute path = true) :
    [] ∈ path.splitOn sep := by
  cases path with
  | nil => cases absolute
  | cons c rest =>
    have slash : c = sep := Option.some.inj (of_decide_eq_true absolute)
    rw [slash, splitOn_sep_cons]
    exact List.mem_cons_self

/-! ### Paths from names -/

/-- The names with a slash behind each. -/
def folders (names : List Name) : List Char := names.flatMap (· ++ [sep])

@[simp] theorem folders_nil : folders [] = [] := rfl

@[simp] theorem folders_cons (name : Name) (names : List Name) :
    folders (name :: names) = name ++ sep :: folders names := by
  simp [folders]

/-- The text between the slashes is read back. -/
theorem splitOn_folders {names : List Name} {file : Name} (flat : ∀ name ∈ names, sep ∉ name)
    (last : sep ∉ file) : (folders names ++ file).splitOn sep = names ++ [file] := by
  induction names with
  | nil => exact List.splitOn_eq_singleton last
  | cons name names ih =>
    rw [folders_cons, List.append_assoc, List.cons_append,
      List.splitOn_append_cons_self_of_not_mem (flat name List.mem_cons_self),
      ih fun other member => flat other (.tail _ member)]
    rfl

theorem folders_intercalate {names : List Name} (some_name : names ≠ []) :
    [sep].intercalate names ++ [sep] = folders names := by
  induction names with
  | nil => exact absurd rfl some_name
  | cons name names ih =>
    by_cases last : names = []
    · rw [last, List.intercalate_singleton, folders_cons, folders_nil]
    · rw [List.intercalate_cons_of_ne_nil last, folders_cons, List.append_assoc, List.append_assoc, ih last]
      rfl

/-- Where two texts begin with a name and a slash, the names are the same. -/
theorem prefix_name_iff {name other : Name} {path rest : List Char} (flat : sep ∉ name)
    (flat' : sep ∉ other) :
    name ++ sep :: path <+: other ++ sep :: rest ↔ name = other ∧ path <+: rest := by
  induction name generalizing other with
  | nil =>
    cases other with
    | nil => simp
    | cons d other =>
      have differs : sep ≠ d := fun same => flat' (same ▸ List.mem_cons_self)
      simp [differs]
  | cons c name ih =>
    have differs : c ≠ sep := fun same => flat (same ▸ List.mem_cons_self)
    cases other with
    | nil => simp [differs]
    | cons d other =>
      have later := ih (fun member => flat (.tail _ member)) fun member => flat' (.tail _ member)
      simp only [List.cons_append, List.cons_prefix_cons, later, List.cons.injEq]
      exact and_assoc.symm

end Library.UnixPath
