import Webfang.Library.LinkTree
import Webfang.Mcp.SafeFilename

/-!
# The path gate

`mcp_server/path_gate.rs` on a Unix host: what `confine` accepts as the destination of a write, and
where an accepted path leads. A path is the list of its components.
-/
namespace Webfang.Mcp

open Library UnixPath LinkTree

/-- What the gate asks the operating system. -/
structure Host where
  tree : Tree
  /-- The working directory, resolved. -/
  cwd : Location
  /-- How many links a resolution may follow. -/
  linkLimit : Nat

namespace PathGate

abbrev Path := List Component

/-- The name as the operating system reads it. -/
def osName : Component → Option Name
  | .rootDir => none
  | .curDir => some UnixPath.curDir
  | .parentDir => some UnixPath.parentDir
  | .normal name => some name

def names (path : Path) : List Name := path.filterMap osName

def hasRoot (path : Path) : Bool := path.head? = some .rootDir

/-- `PathBuf::pop`: the root stays. -/
def pop (path : Path) : Path := if path.getLast? = some .rootDir then path else path.dropLast

def normalizeComponent (out : Path) : Component → Path
  | .curDir => out
  | .parentDir => pop out
  | other => out ++ [other]

def normalizeLexical (path : Path) : Path := path.foldl normalizeComponent []

end PathGate

open PathGate

namespace Host

variable (host : Host)

def startOf (path : Path) : Location := if hasRoot path then [] else host.cwd

/-- `std::fs::canonicalize`: everything has to exist. -/
def canonicalize (path : Path) : Option Location :=
  if path = [] then none
  else (walk host.tree false host.linkLimit (host.startOf path) 0 (names path)).map Prod.fst

def absolute (place : Location) : Path := .rootDir :: place.map .normal

/-- The walk up: `cursor` is reversed. -/
def resolveAbove : (cursor : Path) → (tail : Path) → Option Path
  | .normal name :: parent, tail =>
    match host.canonicalize parent.reverse with
    | some resolved => some (absolute resolved ++ .normal name :: tail)
    | none => resolveAbove parent (.normal name :: tail)
  | _, _ => none

def resolveFully (path : Path) : Path :=
  let lexical := normalizeLexical path
  match host.canonicalize lexical with
  | some resolved => absolute resolved
  | none => (host.resolveAbove lexical.reverse []).getD lexical

end Host

/-- Of a component as text. -/
def Component.asOsStr : Component → List Char
  | .rootDir => [sep]
  | .curDir => UnixPath.curDir
  | .parentDir => UnixPath.parentDir
  | .normal name => name

def componentsStartWith (path root : Path) (caseInsensitive : Bool) : Bool :=
  match root, path with
  | [], _ => true
  | _ :: _, [] => false
  | rootComp :: root, pathComp :: path =>
    let equal :=
      if caseInsensitive then
        pathComp.asOsStr.map Char.toLower == rootComp.asOsStr.map Char.toLower
      else pathComp.asOsStr == rootComp.asOsStr
    if !equal then false else componentsStartWith path root caseInsensitive

/-- Neither Windows nor macOS. -/
def fsCaseInsensitive : Bool := false

def Host.resolvedWithinRoots (host : Host) (path : Path) (roots : List String) : Bool :=
  if roots.isEmpty then false
  else
    let resolved := host.resolveFully path
    roots.any fun root =>
      componentsStartWith resolved (host.resolveFully (components root.toList)) fsCaseInsensitive

inductive PathShape where
  | relative
  | absolute
  | rootedNotAbsolute
  deriving DecidableEq, Repr

/-- A path with a root is absolute on Unix. -/
def classify (raw : List Char) : PathShape :=
  if isAbsolute raw then .absolute
  else if raw.head? = some '\\' || hasWindowsDrivePrefix raw then .rootedNotAbsolute
  else .relative

/-- `roots` as the server was configured. -/
def Host.confine (host : Host) (field raw : String) (roots : List String) : Except InvalidParams Unit :=
  let reject (message reason : String) : Except InvalidParams Unit := .error ⟨message, field, reason⟩
  if raw = "" then reject "must not be empty" reasonEmpty
  else if maxPathLen < Text.utf8Len raw.toList then
    reject s!"exceeds maximum length of {maxPathLen} bytes" reasonTooLong
  else
    let shape := classify raw.toList
    if shape = .rootedNotAbsolute then
      reject "must be absolute or relative; rooted non-absolute forms ('\\foo', 'C:foo') are not allowed"
        reasonPathNotAllowed
    else
      let path := components raw.toList
      if path.contains .parentDir then
        reject "must not contain '..' traversal components" reasonPathNotAllowed
      else if shape = .relative then .ok ()
      else if roots.isEmpty then
        reject (s!"absolute {field} requires server-configured export roots (none configured); " ++
          "set --export-roots or use a relative path") reasonPathNotAllowed
      else if host.resolvedWithinRoots path roots then .ok ()
      else reject s!"{field} '{raw}' is outside allowed export roots" reasonPathNotAllowed

end Webfang.Mcp

/-! ### Where an accepted path leads

The gate resolves what exists of a path and appends the rest as it stands. That is where a write goes,
unless the path names a link that leads nowhere yet: a write creates what the link points to. -/

namespace Webfang.Mcp

open Library UnixPath LinkTree PathGate

/-! ### Components -/

/-- A name between slashes that leads one level down. -/
structure FlatName (name : Name) : Prop where
  plain : Plain name
  flat : sep ∉ name

def rootOf (raw : List Char) : Path := if isAbsolute raw then [.rootDir] else []

/-- A leading dot, which only a relative path has. -/
def dotOf (raw : List Char) : Path :=
  if (raw.splitOnP (· = '/')).head? = some ['.'] then [.curDir] else []

theorem components_eq (raw : List Char) :
    ∃ rest, components raw = rootOf raw ++ dotOf raw ++ rest ∧
      ∀ comp ∈ rest, comp = .parentDir ∨ ∃ name, comp = .normal name ∧ FlatName name := by
  have root : (if raw.head? = some '/' then [Component.rootDir] else []) = rootOf raw := by
    simp [rootOf, isAbsolute]
  refine ⟨_, by rw [components, root, dotOf], fun comp member => ?_⟩
  obtain ⟨part, split_part, read⟩ := List.mem_filterMap.mp member
  split at read
  next => cases read
  next plain =>
    obtain ⟨nonempty, not_cur⟩ := not_or.mp plain
    split at read
    next => exact .inl (Option.some.inj read).symm
    next not_parent =>
      refine .inr ⟨part, (Option.some.inj read).symm, ⟨nonempty, not_cur, not_parent⟩, ?_⟩
      intro slash
      exact absurd (Text.not_delimiter_of_mem_splitOnP split_part sep slash) (by decide)

theorem dotOf_absolute {raw : List Char} (absolute : isAbsolute raw = true) : dotOf raw = [] := by
  cases raw with
  | nil => cases absolute
  | cons c rest =>
    obtain rfl : c = sep := Option.some.inj (of_decide_eq_true absolute)
    rw [dotOf, List.splitOnP_cons_eq_if_modifyHead]
    simp

theorem pop_append (raw : List Char) (ns : List Name) :
    pop (rootOf raw ++ ns.map .normal) = rootOf raw ++ ns.dropLast.map .normal := by
  cases ns using List.reverseRecOn with
  | nil => by_cases absolute : isAbsolute raw <;> simp [rootOf, pop, absolute]
  | append_singleton ns name => simp [pop]

/-- A normalized path has its root and names. -/
theorem normalizeLexical_components (raw : List Char) :
    ∃ ns : List Name, normalizeLexical (components raw) = rootOf raw ++ ns.map .normal ∧
      ∀ name ∈ ns, FlatName name := by
  obtain ⟨rest, split, known⟩ := components_eq raw
  have started : normalizeLexical (components raw) =
      rest.foldl normalizeComponent (rootOf raw ++ ([] : List Name).map .normal) := by
    rw [split, normalizeLexical, List.foldl_append, List.foldl_append]
    congr 1
    by_cases absolute : isAbsolute raw <;> by_cases dot : (raw.splitOnP (· = '/')).head? = some ['.'] <;>
      simp [rootOf, dotOf, absolute, dot, normalizeComponent]
  rw [started]
  have good : ∀ name ∈ ([] : List Name), FlatName name := nofun
  generalize ([] : List Name) = ns at good ⊢
  clear split started
  induction rest generalizing ns with
  | nil => exact ⟨ns, rfl, good⟩
  | cons comp rest ih =>
    have later := fun other member => known other (.tail _ member)
    rw [List.foldl_cons]
    rcases known comp List.mem_cons_self with rfl | ⟨name, rfl, flat⟩
    · rw [normalizeComponent, pop_append]
      exact ih later _ fun name member => good name (List.mem_of_mem_dropLast member)
    · have longer : normalizeComponent (rootOf raw ++ ns.map Component.normal) (.normal name) =
          rootOf raw ++ (ns ++ [name]).map .normal := by simp [normalizeComponent]
      rw [longer]
      refine ih later _ fun other member => ?_
      rcases List.mem_append.mp member with old | new
      · exact good other old
      · exact List.mem_singleton.mp new ▸ flat

theorem foldl_normal (out : Path) (ns : List Name) :
    (ns.map Component.normal).foldl normalizeComponent out = out ++ ns.map .normal := by
  induction ns generalizing out with
  | nil => simp
  | cons name rest ih =>
    rw [List.map_cons, List.foldl_cons, ih]
    simp [normalizeComponent]

theorem normalizeLexical_absolute (ns : List Name) :
    normalizeLexical (Host.absolute ns) = Host.absolute ns := by
  rw [normalizeLexical, Host.absolute, List.foldl_cons, foldl_normal]
  rfl

/-- What the gate takes from an absolute path. -/
theorem components_absolute {raw : List Char} (absolute : isAbsolute raw = true)
    (straight : .parentDir ∉ components raw) :
    ∃ ns : List Name, components raw = Host.absolute ns ∧ ∀ name ∈ ns, FlatName name := by
  obtain ⟨rest, split, known⟩ := components_eq raw
  rw [dotOf_absolute absolute, List.append_nil, rootOf, if_pos absolute] at split
  have normal : ∀ comp ∈ rest, ∃ name, comp = .normal name ∧ FlatName name := by
    intro comp member
    rcases known comp member with rfl | normal
    · exact absurd (split ▸ List.mem_append_right _ member) straight
    · exact normal
  clear known straight
  rw [split]
  clear split
  induction rest with
  | nil => exact ⟨[], rfl, nofun⟩
  | cons comp rest ih =>
    obtain ⟨name, rfl, flat⟩ := normal comp List.mem_cons_self
    obtain ⟨ns, same, good⟩ := ih fun other member => normal other (.tail _ member)
    have tail : rest = ns.map .normal := (List.cons.inj same).2
    exact ⟨name :: ns, by rw [tail]; rfl, List.forall_mem_cons.mpr ⟨flat, good⟩⟩

namespace Host

variable (host : Host)

/-! ### Where a write goes -/

/-- Where a later create or write of the path ends, with all links followed. -/
def reach (path : Path) : Option Location :=
  (walk host.tree true host.linkLimit (host.startOf path) 0 (names path)).map Prod.fst

/-- A resolved path as a place; what stayed relative is taken from the working directory. -/
def placeOf (path : Path) : Location := if hasRoot path then names path else host.cwd ++ names path

def Inside (roots : List String) (place : Location) : Prop :=
  ∃ root ∈ roots, host.placeOf (host.resolveFully (components root.toList)) <+: place

/-- A write of the path stays inside the resolved roots. -/
def Contained (roots : List String) (path : Path) : Prop :=
  ∀ place, host.reach path = some place → host.Inside roots place

/-- A link that cannot be followed: the directory it is in, its target, and the links left there. -/
structure DanglingLink where
  left : Nat
  dir : Location
  target : List Char
  deriving DecidableEq

def danglingLink (path : Path) : Option DanglingLink :=
  match path.getLast?, host.canonicalize path with
  | some (.normal name), none =>
    let parent := path.dropLast
    match walk host.tree false host.linkLimit (host.startOf parent) 0 (names parent) with
    | some (dir, left) =>
      match host.tree dir, host.tree (dir ++ [name]) with
      | some .dir, some (.link target) => some ⟨left, dir, target⟩
      | _, _ => none
    | none => none
  | _, _ => none

/-- Where creating through the link ends. -/
def throughLink (link : DanglingLink) : Option Location :=
  (follow host.tree true link.left (LinkTree.startOf link.dir link.target)
    (link.target.splitOn sep).length (link.target.splitOn sep)).map Prod.fst

/-! ### Absolute paths -/

theorem names_absolute (ns : List Name) : names (absolute ns) = ns := by
  rw [names, absolute, List.filterMap_cons_none rfl, List.filterMap_map]
  exact List.filterMap_some

theorem startOf_absolute (ns : List Name) : host.startOf (absolute ns) = [] := rfl

theorem canonicalize_absolute (ns : List Name) :
    host.canonicalize (absolute ns) =
      (walk host.tree false host.linkLimit [] 0 ns).map Prod.fst := by
  rw [canonicalize, if_neg (by simp [absolute]), names_absolute, startOf_absolute]

theorem reach_absolute (ns : List Name) :
    host.reach (absolute ns) = (walk host.tree true host.linkLimit [] 0 ns).map Prod.fst := by
  rw [reach, names_absolute, startOf_absolute]

theorem absolute_append (ns more : List Name) :
    absolute (ns ++ more) = absolute ns ++ more.map .normal := by
  rw [absolute, absolute, List.map_append]
  rfl

variable {host} {ns tail : List Name}

/-- Names that exist, then one that a link hides or that is missing. -/
inductive Beyond (host : Host) (dir : Location) (left : Nat) (name : Name) (tail : List Name) : Prop where
  | missing (created : walk host.tree true left dir 0 (name :: tail) = some (dir ++ name :: tail, left))
  | closed (nowhere : walk host.tree true left dir 0 (name :: tail) = none)
  | link (target : List Char) (isDir : host.tree dir = some .dir)
      (found : host.tree (dir ++ [name]) = some (.link target)) (last : tail = [])

theorem beyond {dir : Location} {left : Nat} {name : Name} (plain : ∀ other ∈ name :: tail, Plain other)
    (unresolved : walk host.tree false left dir 0 [name] = none) : Beyond host dir left name tail := by
  have first := plain name List.mem_cons_self
  rcases step_cases host.tree dir name with isNoDir | ⟨-, idle⟩ | ⟨-, -, rfl⟩ |
    ⟨isDir, -, nothing⟩ | ⟨isDir, -, target, found⟩ | ⟨isDir, -, entry, found, real⟩
  · exact .closed (walk_blocked isNoDir)
  · exact absurd idle (not_or.mpr ⟨first.nonempty, first.not_cur⟩)
  · exact absurd rfl first.not_parent
  · refine .missing ?_
    rw [walk_absent isDir first nothing, if_pos ⟨rfl, .inl rfl⟩,
      foldl_enter_plain fun other member => plain other (.tail _ member), List.append_assoc]
    rfl
  · by_cases last : tail = []
    · exact .link target isDir found last
    · refine .closed ?_
      rw [walk_link isDir first found] at unresolved ⊢
      rw [List.append_nil] at unresolved
      cases left with
      | zero => rfl
      | succ left => exact walk_through_dangling unresolved (by omega) last
  · rw [walk_down isDir first found real, walk_nil] at unresolved
    cases unresolved

theorem danglingLink_append (parent : List Name) (name : Name) :
    host.danglingLink (absolute (parent ++ [name])) =
      match walk host.tree false host.linkLimit [] 0 (parent ++ [name]),
          walk host.tree false host.linkLimit [] 0 parent with
      | none, some (dir, left) =>
        match host.tree dir, host.tree (dir ++ [name]) with
        | some .dir, some (.link target) => some ⟨left, dir, target⟩
        | _, _ => none
      | _, _ => none := by
  have last : (absolute (parent ++ [name])).getLast? = some (.normal name) := by
    rw [absolute_append, List.map_singleton, List.getLast?_append]
    rfl
  have front : (absolute (parent ++ [name])).dropLast = absolute parent := by
    rw [absolute_append, List.map_singleton, List.dropLast_concat]
  rw [danglingLink, last, canonicalize_absolute, front]
  dsimp only
  rw [startOf_absolute, names_absolute]
  cases walk host.tree false host.linkLimit [] 0 (parent ++ [name]) with
  | some result => rfl
  | none => cases walk host.tree false host.linkLimit [] 0 parent <;> rfl

/-- Above what cannot be resolved the gate finds where a write goes, unless a link is in between. -/
theorem resolveAbove_absolute {pre : List Name} {place : Location} {remaining : Nat}
    (plain : ∀ name ∈ pre ++ tail, Plain name)
    (unresolved : walk host.tree false host.linkLimit [] 0 pre = none)
    (reached : walk host.tree true host.linkLimit [] 0 (pre ++ tail) = some (place, remaining))
    (unlinked : tail = [] → host.danglingLink (absolute pre) = none) :
    host.resolveAbove (absolute pre).reverse (tail.map .normal) = some (absolute place) := by
  induction pre using List.reverseRecOn generalizing tail with
  | nil =>
    rw [walk_nil] at unresolved
    cases unresolved
  | append_singleton parent name ih =>
    rw [List.append_assoc, List.singleton_append] at plain reached
    rw [absolute_append, List.map_singleton, List.reverse_append, List.reverse_singleton,
      List.singleton_append, resolveAbove, List.reverse_reverse, canonicalize_absolute]
    cases parent_walk : walk host.tree false host.linkLimit [] 0 parent with
    | none => exact ih plain parent_walk reached nofun
    | some result =>
      obtain ⟨dir, left⟩ := result
      have here : walk host.tree false host.linkLimit [] 0 (parent ++ [name]) =
          walk host.tree false left dir (0 - parent.length) [name] := walk_append parent_walk
      have whole : walk host.tree true host.linkLimit [] 0 (parent ++ name :: tail) =
          walk host.tree true left dir (0 - parent.length) (name :: tail) := walk_append parent_walk
      rw [unresolved, Nat.zero_sub] at here
      rw [reached, Nat.zero_sub] at whole
      dsimp only [Option.map_some]
      rcases beyond (fun other member => plain other (List.mem_append_right _ member)) here.symm with
        created | nowhere | ⟨target, isDir, found, last⟩
      · rw [created] at whole
        cases whole
        rw [absolute_append, List.map_cons]
      · rw [nowhere] at whole
        cases whole
      · have dangling := unlinked last
        rw [danglingLink_append, unresolved, parent_walk] at dangling
        dsimp only at dangling
        rw [isDir, found] at dangling
        cases dangling

/-- A write goes where the gate resolved the path to, unless the path names a dangling link. -/
theorem resolveFully_of_reach {place : Location} (plain : ∀ name ∈ ns, Plain name)
    (unlinked : host.danglingLink (absolute ns) = none) (reached : host.reach (absolute ns) = some place) :
    host.resolveFully (absolute ns) = absolute place := by
  rw [reach_absolute, Option.map_eq_some_iff] at reached
  obtain ⟨⟨_, remaining⟩, reached, rfl⟩ := reached
  rw [resolveFully, normalizeLexical_absolute, canonicalize_absolute]
  cases whole : walk host.tree false host.linkLimit [] 0 ns with
  | none =>
    rw [← List.append_nil ns] at reached plain
    have above : host.resolveAbove (absolute ns).reverse (([] : List Name).map .normal) =
        some (absolute _) := resolveAbove_absolute plain whole reached fun _ => unlinked
    rw [List.map_nil] at above
    dsimp only [Option.map_none]
    rw [above]
    rfl
  | some result =>
    obtain ⟨resolved, left⟩ := result
    rw [walk_of_exists whole] at reached
    cases reached
    rfl

theorem reach_of_link {link : DanglingLink} (dangling : host.danglingLink (absolute ns) = some link)
    (plain : ∀ name ∈ ns, Plain name) : host.reach (absolute ns) = host.throughLink link := by
  cases ns using List.reverseRecOn with
  | nil => cases dangling
  | append_singleton parent name =>
    rw [danglingLink_append] at dangling
    split at dangling
    next dir left unresolved parent_walk =>
      split at dangling
      next target isDir found =>
        cases dangling
        have last : Plain name := plain name (List.mem_append_right _ (List.mem_singleton_self _))
        rw [reach_absolute, walk_append parent_walk, Nat.zero_sub, walk_link isDir last found,
          List.append_nil]
        rfl
      next => cases dangling
    next => cases dangling

/-! ### The roots -/

theorem componentsStartWith_normal {place root : Location}
    (starts : componentsStartWith (place.map .normal) (root.map .normal) false = true) : root <+: place := by
  induction root generalizing place with
  | nil => exact List.nil_prefix
  | cons name root ih =>
    cases place with
    | nil => cases starts
    | cons other place =>
      rw [List.map_cons, List.map_cons, componentsStartWith] at starts
      by_cases same : other = name
      · subst same
        refine (List.cons_prefix_cons).mpr ⟨rfl, ih ?_⟩
        simpa [Component.asOsStr] using starts
      · simp [Component.asOsStr, same] at starts

/-- An absolute path starts with an absolute root by its names, and with a relative one only where
that is empty. -/
theorem componentsStartWith_absolute {place root : Location}
    (starts : componentsStartWith (absolute place) (absolute root) false = true) : root <+: place := by
  rw [absolute, absolute, componentsStartWith] at starts
  exact componentsStartWith_normal (by simpa using starts)

theorem not_startsWith_relative {place : Location} {root : List Name}
    (flat : ∀ name ∈ root, FlatName name) (nonempty : root ≠ []) :
    componentsStartWith (absolute place) (root.map .normal) false = false := by
  cases root with
  | nil => exact absurd rfl nonempty
  | cons name root =>
    have other : [sep] ≠ name := fun same =>
      (flat name List.mem_cons_self).flat (same ▸ List.mem_singleton_self sep)
    simp [absolute, componentsStartWith, Component.asOsStr, other]

theorem resolveAbove_some {cursor path : Path} {above : List Name}
    (found : host.resolveAbove cursor (above.map .normal) = some path) : ∃ place, path = absolute place := by
  induction cursor generalizing above with
  | nil => cases found
  | cons comp parent ih =>
    cases comp with
    | normal name =>
      rw [resolveAbove] at found
      split at found
      next resolved _ =>
        refine ⟨resolved ++ name :: above, ?_⟩
        rw [absolute_append, ← Option.some.inj found]
        rfl
      next => exact @ih (name :: above) found
    | rootDir => cases found
    | curDir => cases found
    | parentDir => cases found

/-- The root directory is there, so an absolute path is resolved from some point on. -/
theorem resolveAbove_ne_none (ns : List Name) (above : Path)
    (unresolved : host.canonicalize (absolute ns) = none) :
    host.resolveAbove (absolute ns).reverse above ≠ none := by
  induction ns using List.reverseRecOn generalizing above with
  | nil =>
    rw [canonicalize_absolute, walk_nil] at unresolved
    cases unresolved
  | append_singleton parent name ih =>
    rw [absolute_append, List.map_singleton, List.reverse_append, List.reverse_singleton,
      List.singleton_append, resolveAbove, List.reverse_reverse]
    cases resolved : host.canonicalize (absolute parent) with
    | none => exact ih _ resolved
    | some place => nofun

/-- A resolved root is absolute, or it stayed as it was written, relative. -/
theorem resolveFully_components (host : Host) (raw : List Char) :
    (∃ place, host.resolveFully (components raw) = absolute place) ∨
      ∃ ns : List Name, host.resolveFully (components raw) = ns.map .normal ∧
        normalizeLexical (components raw) = ns.map .normal ∧ ∀ name ∈ ns, FlatName name := by
  obtain ⟨ns, lexical, flat⟩ := normalizeLexical_components raw
  rw [resolveFully]
  cases resolved : host.canonicalize (normalizeLexical (components raw)) with
  | some place => exact .inl ⟨place, rfl⟩
  | none =>
    cases above : host.resolveAbove (normalizeLexical (components raw)).reverse [] with
    | some path => exact .inl (@resolveAbove_some host _ path [] above)
    | none =>
      by_cases rooted : isAbsolute raw = true
      · rw [rootOf, if_pos rooted] at lexical
        rw [lexical] at resolved above
        exact absurd above (resolveAbove_ne_none ns [] resolved)
      · rw [rootOf, if_neg rooted, List.nil_append] at lexical
        exact .inr ⟨ns, lexical, lexical, flat⟩

theorem inside_of_accepted {roots : List String} {place : Location}
    (resolved : host.resolveFully (absolute ns) = absolute place)
    (accepted : host.resolvedWithinRoots (absolute ns) roots = true)
    (nonempty : ∀ root ∈ roots, normalizeLexical (components root.toList) ≠ []) : host.Inside roots place := by
  rw [resolvedWithinRoots] at accepted
  split at accepted
  next => cases accepted
  next =>
    obtain ⟨root, member, starts⟩ := List.any_eq_true.mp accepted
    rw [resolved, fsCaseInsensitive] at starts
    refine ⟨root, member, ?_⟩
    rcases resolveFully_components host root.toList with ⟨rootPlace, same⟩ | ⟨rootNames, same, lexical, flat⟩
    · rw [same] at starts ⊢
      have place : host.placeOf (absolute rootPlace) = rootPlace := names_absolute rootPlace
      rw [place]
      exact componentsStartWith_absolute starts
    · have some_name : rootNames ≠ [] := fun empty => nonempty root member (by rw [lexical, empty]; rfl)
      rw [same, not_startsWith_relative flat some_name] at starts
      cases starts

/-! ### Accepted paths -/

variable (host) in
/-- A write of the path is confined: it goes through a link into a root or nowhere, or it goes where
the gate looked, with roots that say something. -/
structure Confined (roots : List String) (path : Path) : Prop where
  linked : ∀ link, host.danglingLink path = some link →
    ∀ place, host.throughLink link = some place → host.Inside roots place
  unlinked : host.danglingLink path = none → (host.reach path).isSome = true →
    (∀ root ∈ roots, normalizeLexical (components root.toList) ≠ []) ∨
      host.Inside roots (names (host.resolveFully path))

theorem accepted_absolute {field raw : String} {roots : List String}
    (accepted : host.confine field raw roots = .ok ()) (rooted : isAbsolute raw.toList = true) :
    .parentDir ∉ components raw.toList ∧ host.resolvedWithinRoots (components raw.toList) roots = true := by
  have shape : classify raw.toList = .absolute := by rw [classify, if_pos rooted]
  rw [confine] at accepted
  dsimp only at accepted
  rw [shape] at accepted
  split at accepted
  next => cases accepted
  next =>
    split at accepted
    next => cases accepted
    next =>
      rw [if_neg (by decide)] at accepted
      split at accepted
      next => cases accepted
      next straight =>
        rw [if_neg (by decide)] at accepted
        split at accepted
        next => cases accepted
        next =>
          split at accepted
          next within => exact ⟨by simpa using straight, within⟩
          next => cases accepted

/-- A write of an accepted absolute path stays inside the resolved roots exactly where it is
confined. -/
theorem contained_iff {field raw : String} {roots : List String}
    (accepted : host.confine field raw roots = .ok ()) (rooted : isAbsolute raw.toList = true) :
    host.Contained roots (components raw.toList) ↔ host.Confined roots (components raw.toList) := by
  obtain ⟨straight, within⟩ := accepted_absolute accepted rooted
  obtain ⟨ns, path, flat⟩ := components_absolute rooted straight
  have plain := fun name member => (flat name member).plain
  rw [path] at within ⊢
  constructor
  · intro contained
    refine ⟨fun link dangling place through => ?_, fun unlinked reached => ?_⟩
    · exact contained place ((reach_of_link dangling plain).trans through)
    · obtain ⟨place, reached⟩ := Option.isSome_iff_exists.mp reached
      rw [resolveFully_of_reach plain unlinked reached, names_absolute]
      exact .inr (contained place reached)
  · intro confined place reached
    cases dangling : host.danglingLink (absolute ns) with
    | some link =>
      exact confined.linked link dangling place ((reach_of_link dangling plain).symm.trans reached)
    | none =>
      have resolved := resolveFully_of_reach plain dangling reached
      rcases confined.unlinked dangling (by rw [reached]; rfl) with nonempty | inside
      · exact inside_of_accepted resolved within nonempty
      · rwa [resolved, names_absolute] at inside

end Host

/-! A host with a link out of the export root whose target is missing. -/

namespace DanglingExport

def place (path : String) : Location := (components path.toList).filterMap osName

/-- `/srv/out/new` points to `/etc/job`, which does not exist. -/
def tree : Tree := fun at_place =>
  if at_place ∈ [place "/", place "/srv", place "/srv/out", place "/etc"] then some .dir
  else if at_place = place "/srv/out/new" then some (.link "/etc/job".toList)
  else none

def host : Host := ⟨tree, place "/srv/out", 40⟩

def path (raw : String) : Path := components raw.toList

/-- The link is accepted, and a write makes the file in `/etc`. With the root `.` everything is
accepted. -/
theorem report_escapes : (host.confine "output_dir" "/srv/out/new" ["/srv/out"] = .ok () ∧
      host.reach (path "/srv/out/new") = some (place "/etc/job") ∧
      ¬ host.Contained ["/srv/out"] (path "/srv/out/new")) ∧
    (host.confine "output_dir" "/etc/job" ["."] = .ok () ∧
      ¬ host.Contained ["."] (path "/etc/job")) := by
  have reached : host.reach (path "/srv/out/new") = some (place "/etc/job") := by decide +kernel
  have direct : host.reach (path "/etc/job") = some (place "/etc/job") := by decide
  refine ⟨⟨by decide +kernel, reached, fun contained => ?_⟩, by decide +kernel, fun contained => ?_⟩
  · obtain ⟨root, member, inside⟩ := contained _ reached
    rw [List.mem_singleton.mp member] at inside
    exact absurd inside (by decide)
  · obtain ⟨root, member, inside⟩ := contained _ direct
    rw [List.mem_singleton.mp member] at inside
    exact absurd inside (by decide)

/-- A new directory in the root. -/
theorem report_contained : host.confine "output_dir" "/srv/out/report" ["/srv/out"] = .ok () ∧
    host.Contained ["/srv/out"] (path "/srv/out/report") := by
  have accepted : host.confine "output_dir" "/srv/out/report" ["/srv/out"] = .ok () := by decide +kernel
  have unlinked : host.danglingLink (components "/srv/out/report".toList) = none := by decide +kernel
  refine ⟨accepted, (Host.contained_iff accepted (by decide)).mpr ⟨?_, ?_⟩⟩
  · intro link dangling
    rw [unlinked] at dangling
    cases dangling
  · intro _ _
    refine .inl fun root member => ?_
    rw [List.mem_singleton.mp member]
    decide

end DanglingExport

end Webfang.Mcp
