import Mathlib.Data.List.TakeWhile
import Webfang.Library.Counting
import Webfang.Lint.Extractor

/-!
# What the extractor misses

The sites of a file outside its test regions, in the order of the tree, and when `extract_file`
reports these and no others. Each construct is reported as it stands or leaves something out, so the
two lists of sites weigh the same only where nothing is left out.
-/
namespace Webfang.Lint

open Library.Weighing

/-! ### Test regions -/

/-- The predicate mentions `test`, not under a `not`. -/
inductive MentionsTest : Meta → Prop
  | test {path : ModPath} (named : path.isIdent "test" = true) : MentionsTest (.path path)
  | nested {path : ModPath} {predicates : List Meta} {predicate : Meta}
      (positive : path.isIdent "all" = true ∨ path.isIdent "any" = true)
      (member : predicate ∈ predicates) (mentions : MentionsTest predicate) :
      MentionsTest (.list path (some predicates))

def TestRegion (attributes : List Attribute) : Prop :=
  ∃ path predicates, .list path (some predicates) ∈ attributes ∧ path.isIdent "cfg" = true ∧
    ∃ predicate ∈ predicates, MentionsTest predicate

theorem anyMentionsTest_iff {predicates : List Meta} :
    anyMentionsTest predicates = true ↔ ∃ predicate ∈ predicates, metaMentionsTest predicate = true := by
  induction predicates with
  | nil => simp [anyMentionsTest]
  | cons predicate rest ih => simp [anyMentionsTest, ih]

theorem MentionsTest.reported {predicate : Meta} (mentions : MentionsTest predicate) :
    metaMentionsTest predicate = true := by
  induction mentions with
  | test named => exact named
  | nested positive member _ ih =>
    have some := anyMentionsTest_iff.mpr ⟨_, member, ih⟩
    rcases positive with all | any
    · simp [metaMentionsTest, all, some]
    · simp [metaMentionsTest, any, some]

mutual

theorem mentionsTest_of_reported : ∀ {predicate : Meta}, metaMentionsTest predicate = true →
    MentionsTest predicate
  | .path _, reported => .test reported
  | .nameValue _, reported => by simp [metaMentionsTest] at reported
  | .list path none, reported => by simp [metaMentionsTest] at reported
  | .list path (some predicates), reported => by
    simp only [metaMentionsTest] at reported
    split at reported
    next => cases reported
    next positive =>
      obtain ⟨predicate, member, mentions⟩ := exists_mentionsTest_of_reported reported
      refine .nested ?_ member mentions
      cases all : path.isIdent "all" with
      | true => exact .inl rfl
      | false => exact .inr (by simpa [all] using positive)

theorem exists_mentionsTest_of_reported : ∀ {predicates : List Meta},
    anyMentionsTest predicates = true → ∃ predicate ∈ predicates, MentionsTest predicate
  | [], reported => by simp [anyMentionsTest] at reported
  | predicate :: rest, reported => by
    rcases Bool.or_eq_true_iff.mp reported with here | later
    · exact ⟨predicate, List.mem_cons_self, mentionsTest_of_reported here⟩
    · obtain ⟨other, member, mentions⟩ := exists_mentionsTest_of_reported later
      exact ⟨other, List.mem_cons_of_mem _ member, mentions⟩

end

theorem metaMentionsTest_iff {predicate : Meta} :
    metaMentionsTest predicate = true ↔ MentionsTest predicate :=
  ⟨mentionsTest_of_reported, MentionsTest.reported⟩

theorem isTestRegion_iff {attributes : List Attribute} :
    isTestRegion attributes = true ↔ TestRegion attributes := by
  simp only [isTestRegion, List.any_eq_true, Bool.and_eq_true, TestRegion]
  constructor
  · rintro ⟨attr, member, named, mentions⟩
    cases attr with
    | path => cases mentions
    | nameValue => cases mentions
    | list path nested =>
      cases nested with
      | none => cases mentions
      | some predicates =>
        obtain ⟨predicate, inside, mentions⟩ := List.any_eq_true.mp mentions
        exact ⟨path, predicates, member, named, predicate, inside, metaMentionsTest_iff.mp mentions⟩
  · rintro ⟨path, predicates, member, named, predicate, inside, mentions⟩
    exact ⟨_, member, named, List.any_eq_true.mpr ⟨predicate, inside, mentions.reported⟩⟩

instance (attributes : List Attribute) : Decidable (TestRegion attributes) :=
  decidable_of_iff _ isTestRegion_iff

/-! ### Sites of a path -/

/-- The path as it is written, without generic arguments. -/
def rendered (segments : List Ident) : String := "::".intercalate (segments.map Ident.text)

def CrateRooted (segments : List Ident) : Prop := segments.head?.map Ident.text = some crateRoot

instance (segments : List Ident) : Decidable (CrateRooted segments) :=
  inferInstanceAs (Decidable (_ = _))

section Sites

variable (file : String) (line : Nat)

def resolverSites (segments : List Ident) : List Site :=
  match segments.dropWhile fun segment => segment.text ≠ validatingResolver with
  | [] => []
  | resolver :: rest => [⟨file, line, .choke, rendered (resolver :: rest.take 1)⟩]

/-- The sites of a path in expression, type or pattern position; the receiver of a method call is
reported with the method. -/
def pathSites (segments : List Ident) (method : Option Ident) : List Site :=
  resolverSites file (pathLine segments) segments ++
    if CrateRooted segments then
      [⟨file, pathLine segments, .inline, rendered (segments ++ method.toList)⟩]
    else []

def leafSites (segments : List Ident) : List Site :=
  (if CrateRooted segments then [⟨file, line, .use, rendered segments⟩] else []) ++
    resolverSites file line segments

end Sites

theorem rendered_append {front back : List Ident} (first : front ≠ []) (second : back ≠ []) :
    rendered (front ++ back) = rendered front ++ "::" ++ rendered back := by
  unfold rendered
  rw [List.map_append, String.intercalate_append_of_ne_nil (by simpa using first) (by simpa using second)]

theorem rendered_singleton (segment : Ident) : rendered [segment] = segment.text := by
  simp [rendered]

theorem rendered_cons_cons (segment next : Ident) (rest : List Ident) :
    rendered (segment :: next :: rest) = segment.text ++ "::" ++ rendered (next :: rest) := by
  rw [← List.singleton_append, rendered_append (List.cons_ne_nil _ _) (List.cons_ne_nil _ _),
    rendered_singleton]

theorem pushResolverChoke_eq (file : String) (line : Nat) (segments : List Ident) :
    pushResolverChoke file line (segments.map Ident.text) = resolverSites file line segments := by
  induction segments with
  | nil => rfl
  | cons segment rest ih =>
    by_cases named : segment.text = validatingResolver
    · cases rest with
      | nil => simp [pushResolverChoke, resolverSites, named, rendered]
      | cons next rest =>
        simp [pushResolverChoke, resolverSites, named, rendered_cons_cons, rendered_singleton]
    · simp only [List.map_cons, pushResolverChoke, ne_eq, named, not_false_eq_true, if_true, ih]
      simp [resolverSites, named]

theorem isCrateRooted_eq (segments : List Ident) :
    isCrateRooted segments = decide (CrateRooted segments) := by
  cases segments <;> simp [isCrateRooted, CrateRooted]

theorem recordPath_eq (file : String) (segments : List Ident) (method : Option Ident) :
    recordPath file segments (method.map Ident.text) = pathSites file segments method := by
  unfold recordPath pathSites
  dsimp only
  rw [pushResolverChoke_eq, isCrateRooted_eq]
  by_cases rooted : CrateRooted segments
  · have some : segments ≠ [] := by
      rintro rfl
      cases rooted
    cases method with
    | none => simp [rooted, rendered]
    | some method =>
      simp only [rooted, decide_true, if_true, Option.map_some, Option.toList_some,
        rendered_append some (List.cons_ne_nil _ _), rendered_singleton]
      rfl
  · simp [rooted]

/-! ### Leaves of a use tree -/

/-- A leaf of a use tree: its path, and the name that stands right under a segment of the same
name, where it ends so. -/
structure Leaf where
  path : List Ident
  again : Option Ident
  nonempty : path ≠ []

def Leaf.segments (leaf : Leaf) : List Ident := leaf.path ++ leaf.again.toList

/-- `self`, and a glob, stand for the path before them. -/
def ownLeaf (front : List Ident) : List Leaf :=
  if nonempty : front ≠ [] then [⟨front, none, nonempty⟩] else []

mutual

def leaves (front : List Ident) : UseTree → List Leaf
  | .path ident tree =>
    match tree with
    | .name name =>
      if name.text = ident.text ∧ name.text ≠ "self" then
        [⟨front ++ [ident], some name, by simp⟩]
      else leaves (front ++ [ident]) tree
    | _ => leaves (front ++ [ident]) tree
  | .name ident =>
    if ident.text = "self" then ownLeaf front else [⟨front ++ [ident], none, by simp⟩]
  | .rename ident _ =>
    if ident.text = "self" then ownLeaf front else [⟨front ++ [ident], none, by simp⟩]
  | .glob => ownLeaf front
  | .group items => leavesOfGroup front items

def leavesOfGroup (front : List Ident) : List UseTree → List Leaf
  | [] => []
  | item :: rest => leaves front item ++ leavesOfGroup front rest

end

/-- The leaf is reported in full: it is rooted at the crate and does not repeat a name, or has
nothing to report. -/
def Leaf.InView (leaf : Leaf) : Prop :=
  if CrateRooted leaf.path then leaf.again = none
  else ∀ segment ∈ leaf.segments, segment.text ≠ validatingResolver

theorem rendered_eq_empty_iff {segments : List Ident} : rendered segments = "" ↔ segments = [] := by
  cases segments with
  | nil => simp [rendered]
  | cons segment rest =>
    cases rest with
    | nil => simp [rendered_singleton, segment.nonempty]
    | cons next rest => simp [rendered_cons_cons, segment.nonempty]

theorem joinSegment_rendered (front : List Ident) (segment : Ident) :
    joinSegment (rendered front) segment.text = rendered (front ++ [segment]) := by
  unfold joinSegment
  by_cases none : front = []
  · subst none
    rw [if_pos (rendered_eq_empty_iff.mpr rfl), List.nil_append, rendered_singleton]
  · rw [if_neg (mt rendered_eq_empty_iff.mp none), rendered_append none (List.cons_ne_nil _ _),
      rendered_singleton]

theorem map_rendered_ownLeaf (front : List Ident) :
    (ownLeaf front).map (fun leaf => rendered leaf.path) =
      if rendered front ≠ "" then [rendered front] else [] := by
  by_cases none : front = []
  · simp [ownLeaf, none, rendered]
  · simp [ownLeaf, none, rendered_eq_empty_iff]

mutual

/-- The name that repeats its segment is dropped, and every other path is whole. -/
theorem flattenUseTree_rendered (front : List Ident) : ∀ tree,
    flattenUseTree (rendered front) tree = (leaves front tree).map fun leaf => rendered leaf.path
  | .path ident tree => by
    have under := flattenUseTree_rendered (front ++ [ident]) tree
    simp only [flattenUseTree, leaves, joinSegment_rendered]
    cases tree with
    | name name =>
      dsimp only
      by_cases repeats : name.text = ident.text ∧ name.text ≠ "self"
      · rw [if_pos repeats.1, if_pos repeats]
        rfl
      · rw [if_neg repeats, ← under]
        split
        next same =>
          -- `self` under `self` is the path before it either way
          have own : name.text = "self" := by simpa [same] using repeats
          simp [flattenUseTree, own, rendered_eq_empty_iff]
        next => rfl
    | path => exact under
    | rename => exact under
    | glob => exact under
    | group => exact under
  | .name ident => by
    simp only [flattenUseTree, leaves, joinSegment_rendered]
    split
    · exact (map_rendered_ownLeaf front).symm
    · rfl
  | .rename ident _ => by
    simp only [flattenUseTree, leaves, joinSegment_rendered]
    split
    · exact (map_rendered_ownLeaf front).symm
    · rfl
  | .glob => (map_rendered_ownLeaf front).symm
  | .group items => flattenUseTrees_rendered front items

theorem flattenUseTrees_rendered (front : List Ident) : ∀ items,
    flattenUseTrees (rendered front) items =
      (leavesOfGroup front items).map fun leaf => rendered leaf.path
  | [] => rfl
  | item :: rest => by
    rw [flattenUseTrees, leavesOfGroup, List.map_append, flattenUseTree_rendered front item,
      flattenUseTrees_rendered front rest]

end

/-! ### Weighing sites -/

def Site.weight (site : Site) : Nat := site.path.length + 1

theorem Site.weight_pos (site : Site) : 0 < site.weight := Nat.succ_pos _

theorem splitColons_append {segment : List Char} (noColon : ':' ∉ segment) (rest : List Char) :
    splitColons (segment ++ ':' :: ':' :: rest) = segment :: splitColons rest := by
  induction segment with
  | nil => rfl
  | cons c segment ih =>
    rw [List.mem_cons, not_or] at noColon
    rw [List.cons_append, splitColons.eq_3, ih noColon.2]
    · rfl
    · rintro rest' rfl
      exact absurd rfl noColon.1

theorem splitColons_eq_self {segment : List Char} (noColon : ':' ∉ segment) :
    splitColons segment = [segment] := by
  induction segment with
  | nil => rfl
  | cons c segment ih =>
    rw [List.mem_cons, not_or] at noColon
    rw [splitColons.eq_3, ih noColon.2]
    · rfl
    · rintro rest' rfl
      exact absurd rfl noColon.1

theorem splitPath_rendered {segments : List Ident} (nonempty : segments ≠ []) :
    splitPath (rendered segments) = segments.map Ident.text := by
  induction segments with
  | nil => exact absurd rfl nonempty
  | cons segment rest ih =>
    cases rest with
    | nil =>
      rw [rendered_singleton, splitPath, splitColons_eq_self segment.noColon]
      simp
    | cons next rest =>
      have later := ih (List.cons_ne_nil _ _)
      unfold splitPath at later ⊢
      rw [rendered_cons_cons, String.toList_append, String.toList_append, List.append_assoc]
      change (splitColons (segment.text.toList ++ ':' :: ':' :: (rendered (next :: rest)).toList)).map
        String.ofList = _
      rw [splitColons_append segment.noColon, List.map_cons, later, String.ofList_toList]
      rfl

theorem startsWithCrate_rendered {segments : List Ident} (nonempty : segments ≠ []) :
    startsWithCrate (rendered segments) = decide (CrateRooted segments) := by
  unfold startsWithCrate CrateRooted
  rw [splitPath_rendered nonempty, List.head?_map]
  exact decide_eq_decide.mpr Iff.rfl

/-! ### A leaf -/

section Leaves

variable (file : String) (line : Nat)

theorem length_rendered_lt {front back : List Ident} (some : front ≠ []) (more : back ≠ []) :
    (rendered front).length < (rendered (front ++ back)).length := by
  rw [rendered_append some more, String.length_append, String.length_append]
  change _ < (rendered front).length + 2 + _
  omega

/-- A longer path does not make the choke site lighter. -/
theorem total_resolverSites_le (front back : List Ident) :
    total Site.weight (resolverSites file line front) ≤
      total Site.weight (resolverSites file line (front ++ back)) := by
  unfold resolverSites
  rw [List.dropWhile_append]
  split
  next => exact Nat.zero_le _
  next resolver rest found =>
    rw [found]
    cases rest with
    | nil =>
      cases back with
      | nil => simp
      | cons next back =>
        have longer := length_rendered_lt (List.cons_ne_nil resolver []) (List.cons_ne_nil next [])
        simp only [List.isEmpty_cons, Bool.false_eq_true, if_false, List.cons_append, List.nil_append,
          List.take_succ_cons, List.take_zero, List.take_nil, total_cons, total_nil, Site.weight]
        rw [List.singleton_append] at longer
        omega
    | cons next rest => simp

theorem resolverSites_eq_nil {segments : List Ident}
    (absent : ∀ segment ∈ segments, segment.text ≠ validatingResolver) :
    resolverSites file line segments = [] := by
  unfold resolverSites
  rw [List.dropWhile_eq_nil_iff.mpr (by simpa using absent)]

theorem total_resolverSites_pos {segments : List Ident} {segment : Ident} (member : segment ∈ segments)
    (named : segment.text = validatingResolver) :
    0 < total Site.weight (resolverSites file line segments) := by
  unfold resolverSites
  split
  next none =>
    have apart := List.dropWhile_eq_nil_iff.mp none segment member
    simp [named] at apart
  next => simp [Site.weight]

theorem useLeaf_agree (leaf : Leaf) :
    AgreeOrLess Site.weight leaf.InView
      (if startsWithCrate (rendered leaf.path) then
        ⟨file, line, .use, rendered leaf.path⟩ ::
          pushResolverChoke file line (splitPath (rendered leaf.path))
      else [])
      (leafSites file line leaf.segments) := by
  obtain ⟨path, again, nonempty⟩ := leaf
  rw [startsWithCrate_rendered nonempty, splitPath_rendered nonempty, pushResolverChoke_eq]
  have root : CrateRooted (path ++ again.toList) ↔ CrateRooted path := by
    cases path with
    | nil => exact absurd rfl nonempty
    | cons segment rest => rfl
  unfold leafSites Leaf.segments Leaf.InView
  by_cases rooted : CrateRooted path
  · simp only [rooted, root, decide_true, if_true]
    cases again with
    | none => exact .inl ⟨rfl, by simp⟩
    | some name =>
      refine .inr ⟨nofun, ?_⟩
      have choke := total_resolverSites_le file line path [name]
      have longer := length_rendered_lt nonempty (List.cons_ne_nil name [])
      simp only [Option.toList_some, total_cons, total_append, total_nil, Site.weight]
      omega
  · simp only [rooted, root, decide_false, Bool.false_eq_true, if_false, List.nil_append]
    by_cases absent : ∀ segment ∈ path ++ again.toList, segment.text ≠ validatingResolver
    · exact .inl ⟨absent, (resolverSites_eq_nil file line absent).symm⟩
    · refine .inr ⟨absent, ?_⟩
      push Not at absent
      obtain ⟨segment, member, named⟩ := absent
      exact total_resolverSites_pos file line member named

theorem visitItemUse_agree (tree : UseTree) :
    AgreeOrLess Site.weight (∀ leaf ∈ leaves [] tree, leaf.InView) (visitItemUse file line tree)
      ((leaves [] tree).flatMap fun leaf => leafSites file line leaf.segments) := by
  have flat := flattenUseTree_rendered [] tree
  rw [rendered_eq_empty_iff.mpr rfl] at flat
  rw [visitItemUse, flat, List.flatMap_map]
  exact .flatMap fun leaf _ => useLeaf_agree file line leaf

end Leaves

/-! ### Paths among tokens -/

/-- The segments that follow one another, each right behind its separator. -/
def directSegments : List TokenTree → List Ident
  | first :: second :: .ident ident :: rest =>
    if isPathSeparator first second then ident :: directSegments rest else []
  | _ => []

/-- The tokens behind generic arguments: behind the `>` that closes the `<` already read. An arrow
does not close it. -/
def afterArguments (depth : Nat) (dash : Bool) : List TokenTree → List TokenTree
  | [] => []
  | .punct '<' _ :: rest => afterArguments (depth + 1) false rest
  | .punct '>' _ :: rest =>
    if dash then afterArguments depth false rest
    else
      match depth with
      | 0 => rest
      | depth + 1 => afterArguments depth false rest
  | .punct c spacing :: rest => afterArguments depth (c = '-' && spacing = .joint) rest
  | _ :: rest => afterArguments depth false rest

theorem length_afterArguments_le (depth : Nat) (dash : Bool) (tokens : List TokenTree) :
    (afterArguments depth dash tokens).length ≤ tokens.length := by
  induction tokens generalizing depth dash with
  | nil => simp [afterArguments]
  | cons token rest ih =>
    rw [List.length_cons]
    unfold afterArguments
    split
    next => exact Nat.zero_le _
    next same => cases same; exact Nat.le_succ_of_le (ih _ _)
    next same =>
      cases same
      split
      · exact Nat.le_succ_of_le (ih _ _)
      · split
        · exact Nat.le_succ _
        · exact Nat.le_succ_of_le (ih _ _)
    next same => cases same; exact Nat.le_succ_of_le (ih _ _)
    next same => cases same; exact Nat.le_succ_of_le (ih _ _)

/-- All the segments behind the first one, also those behind generic arguments: `::<` tells these
from a comparison. -/
def pathSegments : List TokenTree → List Ident
  | first :: second :: .ident ident :: rest =>
    if isPathSeparator first second then ident :: pathSegments rest else []
  | first :: second :: .punct '<' _ :: rest =>
    if isPathSeparator first second then pathSegments (afterArguments 0 false rest) else []
  | _ => []
termination_by tokens => tokens.length
decreasing_by
  · simp only [List.length_cons]
    omega
  · have := length_afterArguments_le 0 false rest
    simp only [List.length_cons]
    omega

section Tokens

variable (unicode : UnicodeIdent) (file : String)

/-- The path of an identifier `crate` and the segments behind it; the identifier alone is none. -/
def crateSite (ident : Ident) (segments : List Ident) : List Site :=
  if segments = [] then [] else [⟨file, ident.line, .inline, rendered (ident :: segments)⟩]

/-- The paths of a macro body that are rooted at the crate, with their segments. -/
def macroPaths : List TokenTree → List Site
  | [] => []
  | .ident ident :: rest =>
    if ident.text = crateRoot then
      crateSite file ident (pathSegments rest) ++
        macroPaths (rest.drop (3 * (directSegments rest).length))
    else macroPaths rest
  | .group stream :: rest => macroPaths stream ++ macroPaths rest
  | .punct _ _ :: rest => macroPaths rest
  | .literal :: rest => macroPaths rest
termination_by tokens => sizeOf tokens
decreasing_by
  · exact sizeOf_drop_lt _ rest _
  all_goals decreasing_tactic

/-- The mentions of the resolver in a macro body, each with the segment after it. -/
def resolverMentions : List TokenTree → List Site
  | [] => []
  | .ident ident :: rest =>
    (if ident.text = validatingResolver then
      [⟨file, ident.line, .choke, rendered (ident :: (directSegments rest).take 1)⟩]
    else []) ++ resolverMentions rest
  | .group stream :: rest => resolverMentions stream ++ resolverMentions rest
  | .punct _ _ :: rest => resolverMentions rest
  | .literal :: rest => resolverMentions rest

/-- Every path rooted at the crate has segments that `is_path_segment` takes, and none of them
behind generic arguments. -/
def TokensInView : List TokenTree → Prop
  | [] => True
  | .ident ident :: rest =>
    if ident.text = crateRoot then
      (pathSegments rest = directSegments rest ∧
        ∀ segment ∈ directSegments rest, isPathSegment unicode segment = true) ∧
        TokensInView (rest.drop (3 * (directSegments rest).length))
    else TokensInView rest
  | .group stream :: rest => TokensInView stream ∧ TokensInView rest
  | .punct _ _ :: rest => TokensInView rest
  | .literal :: rest => TokensInView rest
termination_by tokens => sizeOf tokens
decreasing_by
  · exact sizeOf_drop_lt _ rest _
  all_goals decreasing_tactic

variable {unicode file}

/-- The loop of `parse_macro_path` stops at the first segment it does not take. -/
theorem macroSegments_eq (tokens : List TokenTree) :
    macroSegments unicode tokens = (directSegments tokens).takeWhile (isPathSegment unicode) := by
  fun_induction macroSegments unicode tokens with
  | case1 first second ident rest taken ih =>
    obtain ⟨separator, segment⟩ := Bool.and_eq_true_iff.mp taken
    rw [directSegments, if_pos separator, List.takeWhile_cons_of_pos segment, ih]
  | case2 first second ident rest stopped =>
    rw [directSegments]
    split
    next separator =>
      rw [List.takeWhile_cons_of_neg]
      intro segment
      exact stopped (by rw [separator, segment]; rfl)
    next => rfl
  | case3 tokens other =>
    rw [directSegments]
    · rfl
    · exact other

theorem directSegments_prefix (tokens : List TokenTree) :
    directSegments tokens <+: pathSegments tokens := by
  fun_induction directSegments tokens with
  | case1 first second ident rest separator ih =>
    rw [pathSegments, if_pos separator]
    exact List.cons_prefix_cons.mpr ⟨rfl, ih⟩
  | case2 => exact List.nil_prefix
  | case3 => exact List.nil_prefix

/-- Behind the first segments the others follow. -/
theorem directSegments_drop (tokens : List TokenTree) (n : Nat) (within : n ≤ (directSegments tokens).length) :
    directSegments (tokens.drop (3 * n)) = (directSegments tokens).drop n := by
  fun_induction directSegments tokens generalizing n with
  | case1 first second ident rest separator ih =>
    cases n with
    | zero => simp [directSegments, separator]
    | succ n =>
      rw [show 3 * (n + 1) = 3 * n + 3 by omega]
      simpa using ih n (by simpa using within)
  | case2 first second ident rest apart =>
    obtain rfl : n = 0 := by simpa using within
    simp [directSegments, apart]
  | case3 tokens other =>
    obtain rfl : n = 0 := by simpa using within
    rw [Nat.mul_zero, List.drop_zero, List.drop_zero, directSegments]
    exact other

/-! ### The scan of a macro body -/

def Ident.weight (ident : Ident) : Nat := ident.text.length + 2

theorem length_rendered_cons (ident : Ident) (segments : List Ident) :
    (rendered (ident :: segments)).length = ident.text.length + total Ident.weight segments := by
  induction segments generalizing ident with
  | nil => simp [rendered_singleton]
  | cons next rest ih =>
    rw [rendered_cons_cons, String.length_append, String.length_append, ih, total_cons, Ident.weight]
    change _ + 2 + _ = _
    omega

theorem total_weight_le_of_prefix {front segments : List Ident} (starts : front <+: segments) :
    total Ident.weight front ≤ total Ident.weight segments := by
  obtain ⟨back, rfl⟩ := starts
  rw [total_append]
  exact Nat.le_add_right _ _

theorem total_weight_lt_of_prefix {front segments : List Ident} (starts : front <+: segments)
    (other : front ≠ segments) : total Ident.weight front < total Ident.weight segments := by
  obtain ⟨back, rfl⟩ := starts
  cases back with
  | nil => simp at other
  | cons ident back =>
    rw [total_append, total_cons, Ident.weight]
    omega

variable (unicode file) in
/-- The scan of the tokens falls short of their paths where one is not in view, and behind an
identifier it adds less than the segments that the identifier continues with. -/
structure Scanned (tokens : List TokenTree) : Prop where
  agree : AgreeOrLess Site.weight (TokensInView unicode tokens) (scanTokens unicode file tokens)
    (macroPaths file tokens)
  behind : directSegments tokens ≠ [] →
    total Site.weight (scanTokens unicode file tokens) <
      total Ident.weight (directSegments tokens) +
        total Site.weight (macroPaths file (tokens.drop (3 * (directSegments tokens).length)))

namespace Scanned

theorem le {tokens : List TokenTree} (scanned : Scanned unicode file tokens) :
    total Site.weight (scanTokens unicode file tokens) ≤
      total Ident.weight (directSegments tokens) +
        total Site.weight (macroPaths file (tokens.drop (3 * (directSegments tokens).length))) := by
  by_cases none : directSegments tokens = []
  · simpa [none] using scanned.agree.total_le
  · exact (scanned.behind none).le

end Scanned

/-- The path at an identifier `crate`, as far as the loop takes it. -/
theorem scanTokens_crate {ident : Ident} (root : ident.text = crateRoot) (rest : List TokenTree) :
    scanTokens unicode file (.ident ident :: rest) =
      crateSite file ident (macroSegments unicode rest) ++
        scanTokens unicode file (rest.drop (3 * (macroSegments unicode rest).length)) := by
  rw [scanTokens, if_pos root, parseMacroPath, crateSite]
  by_cases none : macroSegments unicode rest = []
  · simp [none]
  · simp [none, rendered, root]

variable (file) in
theorem total_crateSite (ident : Ident) {segments : List Ident} (some : segments ≠ []) :
    total Site.weight (crateSite file ident segments) =
      ident.text.length + total Ident.weight segments + 1 := by
  rw [crateSite, if_neg some, total_cons, total_nil, Site.weight, length_rendered_cons]

variable (file) in
theorem total_crateSite_le (ident : Ident) (segments : List Ident) :
    total Site.weight (crateSite file ident segments) ≤
      ident.text.length + total Ident.weight segments + 1 := by
  by_cases some : segments ≠ []
  · exact (total_crateSite file ident some).le
  · simp [crateSite, not_not.mp some]

/-- Where the loop stops, the scan goes on: it adds less than the segments left out, if there are
any. -/
theorem scan_after_macroSegments {rest : List TokenTree} (scanned : ∀ n, Scanned unicode file (rest.drop n)) :
    ∃ left, directSegments rest = macroSegments unicode rest ++ left ∧
      total Site.weight (scanTokens unicode file (rest.drop (3 * (macroSegments unicode rest).length))) ≤
        total Ident.weight left +
          total Site.weight (macroPaths file (rest.drop (3 * (directSegments rest).length))) ∧
      (left ≠ [] →
        total Site.weight (scanTokens unicode file (rest.drop (3 * (macroSegments unicode rest).length))) <
          total Ident.weight left +
            total Site.weight (macroPaths file (rest.drop (3 * (directSegments rest).length)))) := by
  have starts : macroSegments unicode rest <+: directSegments rest := by
    rw [macroSegments_eq]
    exact List.takeWhile_prefix _
  obtain ⟨left, whole⟩ := starts
  have lengths : (macroSegments unicode rest).length + left.length = (directSegments rest).length := by
    rw [← whole, List.length_append]
  have later := scanned (3 * (macroSegments unicode rest).length)
  have segments : directSegments (rest.drop (3 * (macroSegments unicode rest).length)) = left := by
    rw [directSegments_drop rest _ (by omega), ← whole, List.drop_left]
  have le := later.le
  have behind := later.behind
  rw [segments, List.drop_drop, ← Nat.mul_add, lengths] at le behind
  exact ⟨left, whole.symm, le, behind⟩

/-- A path is taken whole, or the site it gives and what the scan finds in the rest of it weigh
less. -/
theorem Scanned.crate {ident : Ident} (root : ident.text = crateRoot) {rest : List TokenTree}
    (scanned : ∀ n, Scanned unicode file (rest.drop n)) :
    AgreeOrLess Site.weight (TokensInView unicode (.ident ident :: rest))
      (scanTokens unicode file (.ident ident :: rest)) (macroPaths file (.ident ident :: rest)) := by
  rw [scanTokens_crate root, macroPaths, if_pos root, TokensInView, if_pos root]
  have direct := directSegments_prefix rest
  by_cases whole : pathSegments rest = directSegments rest ∧
      ∀ segment ∈ directSegments rest, isPathSegment unicode segment = true
  · have taken : macroSegments unicode rest = directSegments rest := by
      rw [macroSegments_eq, List.takeWhile_eq_self_iff]
      exact whole.2
    rw [taken, whole.1]
    have later := (scanned (3 * (directSegments rest).length)).agree
    exact ((AgreeOrLess.refl _).append later).congr ⟨fun both => ⟨⟨rfl, whole.2⟩, both.2⟩,
      fun both => ⟨trivial, both.2⟩⟩
  · refine .inr ⟨fun both => whole both.1, ?_⟩
    obtain ⟨left, split, le, behind⟩ := scan_after_macroSegments scanned
    have sum : total Ident.weight (directSegments rest) =
        total Ident.weight (macroSegments unicode rest) + total Ident.weight left := by
      rw [split, total_append]
    have some : pathSegments rest ≠ [] := by
      intro none
      have same := List.prefix_nil.mp (none ▸ direct)
      exact whole ⟨by rw [none, same], by simp [same]⟩
    have longer := total_weight_le_of_prefix direct
    have got := total_crateSite_le file ident (macroSegments unicode rest)
    have want := total_crateSite file ident some
    rw [total_append, total_append]
    by_cases all : left = []
    · -- the loop takes every direct segment, so some come behind generic arguments
      rw [all, List.append_nil] at split
      have apart : directSegments rest ≠ pathSegments rest := by
        refine fun same => whole ⟨same.symm, ?_⟩
        rwa [macroSegments_eq, eq_comm, List.takeWhile_eq_self_iff] at split
      have less := total_weight_lt_of_prefix direct apart
      omega
    · have less := behind all
      omega

/-- Behind an identifier the scan adds less than the identifier and the segments after it. -/
theorem Scanned.behind_ident (ident : Ident) {rest : List TokenTree}
    (scanned : ∀ n, Scanned unicode file (rest.drop n)) :
    total Site.weight (scanTokens unicode file (.ident ident :: rest)) <
      total Ident.weight (ident :: directSegments rest) +
        total Site.weight (macroPaths file (rest.drop (3 * (directSegments rest).length))) := by
  rw [total_cons, Ident.weight]
  by_cases root : ident.text = crateRoot
  · obtain ⟨left, split, le, -⟩ := scan_after_macroSegments scanned
    have got := total_crateSite_le file ident (macroSegments unicode rest)
    have sum : total Ident.weight (directSegments rest) =
        total Ident.weight (macroSegments unicode rest) + total Ident.weight left := by
      rw [split, total_append]
    rw [scanTokens_crate root, total_append]
    omega
  · have le := (scanned 0).le
    rw [List.drop_zero] at le
    rw [scanTokens, if_neg root]
    omega

theorem exists_ident_of_directSegments {tokens : List TokenTree} (some : directSegments tokens ≠ []) :
    ∃ left right ident rest spacing spacing',
      tokens = .punct left spacing :: .punct right spacing' :: .ident ident :: rest ∧
      directSegments tokens = ident :: directSegments rest := by
  fun_cases directSegments tokens with
  | case1 first second ident rest separator =>
    cases first with
    | punct left spacing =>
      cases second with
      | punct right spacing' => exact ⟨left, right, ident, rest, spacing, spacing', rfl, rfl⟩
      | _ => cases separator
    | _ => cases separator
  | case2 first second ident rest apart => simp [directSegments, apart] at some
  | case3 tokens other => rw [directSegments] at some; exact absurd rfl some; exact other

variable (unicode file) in
theorem scanned (tokens : List TokenTree) : Scanned unicode file tokens := by
  induction size : sizeOf tokens using Nat.strong_induction_on generalizing tokens with
  | _ bound ih =>
    subst size
    have smaller {rest : List TokenTree} (less : sizeOf rest < sizeOf tokens) (n : Nat) :
        Scanned unicode file (rest.drop n) :=
      ih _ (Nat.lt_of_le_of_lt (sizeOf_drop_le rest n) less) _ rfl
    constructor
    · cases tokens with
      | nil =>
        simp only [scanTokens, macroPaths, TokensInView]
        exact .refl _
      | cons token rest =>
        have tail : sizeOf rest < sizeOf (token :: rest) := sizeOf_drop_lt token rest 0
        have agree := (ih _ tail _ rfl).agree
        cases token with
        | ident ident =>
          by_cases root : ident.text = crateRoot
          · exact Scanned.crate root (smaller tail)
          · rwa [scanTokens, macroPaths, TokensInView, if_neg root, if_neg root, if_neg root]
        | group stream =>
          have inside : sizeOf stream < sizeOf (TokenTree.group stream :: rest) := by
            simp only [List.cons.sizeOf_spec, TokenTree.group.sizeOf_spec]
            omega
          rw [scanTokens, macroPaths, TokensInView]
          exact (ih _ inside _ rfl).agree.append agree
        | punct => rwa [scanTokens, macroPaths, TokensInView]
        | literal => rwa [scanTokens, macroPaths, TokensInView]
    · intro some
      obtain ⟨left, right, ident, rest, spacing, spacing', rfl, direct⟩ :=
        exists_ident_of_directSegments some
      have tail : sizeOf rest <
          sizeOf (.punct left spacing :: .punct right spacing' :: TokenTree.ident ident :: rest) := by
        simp only [List.cons.sizeOf_spec]
        omega
      have behind := Scanned.behind_ident ident (smaller tail)
      rw [direct, scanTokens, scanTokens]
      exact behind

end Tokens

/-! ### The whole file -/

section File

variable (unicode : UnicodeIdent) (file : String)

mutual

/-- The sites of a node outside the test regions. The path of a restricted visibility is no
reference. -/
def occurrences : Node → List Site
  | .guarded attributes children =>
    if TestRegion attributes then []
    else occurrencesInAttributes attributes ++ occurrencesInNodes children
  | .itemUse attributes line tree =>
    if TestRegion attributes then []
    else ((leaves [] tree).flatMap fun leaf => leafSites file line leaf.segments) ++
      occurrencesInValues attributes
  | .path segments generics => pathSites file segments none ++ occurrencesInNodes generics
  | .exprPath attributes qself segments generics =>
    occurrencesInAttributes attributes ++ (occurrencesInNodes qself ++
      (pathSites file segments none ++ occurrencesInNodes generics))
  | .exprMethodCall attributes (.exprPath own qself segments generics) method turbofish arguments =>
    (if method.text ∈ chokeMethods then [⟨file, method.line, .choke, method.text⟩] else []) ++
      ((pathSites file segments (some method) ++ (occurrencesInValues own ++
          (occurrencesInNodes qself ++ occurrencesInNodes generics))) ++
        (occurrencesInAttributes attributes ++ (occurrencesInNodes arguments ++
          occurrencesInNodes turbofish)))
  | .exprMethodCall attributes receiver method turbofish arguments =>
    (if method.text ∈ chokeMethods then [⟨file, method.line, .choke, method.text⟩] else []) ++
      (occurrences receiver ++ (occurrencesInAttributes attributes ++
        (occurrencesInNodes arguments ++ occurrencesInNodes turbofish)))
  | .macroCall segments generics tokens =>
    pathSites file segments none ++ (occurrencesInNodes generics ++
      (macroPaths file tokens ++ resolverMentions file tokens))
  | .visibility _ => []
  | .other children => occurrencesInNodes children

def occurrencesInNodes : List Node → List Site
  | [] => []
  | node :: rest => occurrences node ++ occurrencesInNodes rest

def occurrencesInAttribute : Attribute → List Site
  | .path path => pathSites file path.segments none
  | .list path _ => pathSites file path.segments none
  | .nameValue path value => pathSites file path.segments none ++ occurrences value

def occurrencesInAttributes : List Attribute → List Site
  | [] => []
  | attr :: rest => occurrencesInAttribute attr ++ occurrencesInAttributes rest

/-- The values of attributes, which are expressions, without the paths of the attributes. -/
def occurrencesInValues : List Attribute → List Site
  | [] => []
  | .nameValue _ value :: rest => occurrences value ++ occurrencesInValues rest
  | _ :: rest => occurrencesInValues rest

end

mutual

/-- The visitor leaves nothing of the node out. -/
def Node.InView : Node → Prop
  | .guarded attributes children =>
    TestRegion attributes ∨ (AttributesInView attributes ∧ NodesInView children)
  | .itemUse attributes _ tree =>
    TestRegion attributes ∨
      ((∀ leaf ∈ leaves [] tree, leaf.InView) ∧ occurrencesInValues file attributes = [])
  | .path _ generics => NodesInView generics
  | .exprPath attributes qself _ generics =>
    AttributesInView attributes ∧ NodesInView qself ∧ NodesInView generics
  | .exprMethodCall attributes receiver _ turbofish arguments =>
    (match receiver with
      | .exprPath own qself _ generics =>
        occurrencesInValues file own = [] ∧ occurrencesInNodes file qself = [] ∧
          occurrencesInNodes file generics = []
      | _ => receiver.InView) ∧
      AttributesInView attributes ∧ NodesInView arguments ∧ NodesInView turbofish
  | .macroCall _ generics tokens =>
    NodesInView generics ∧ TokensInView unicode tokens ∧ resolverMentions file tokens = []
  | .visibility _ => True
  | .other children => NodesInView children

def NodesInView : List Node → Prop
  | [] => True
  | node :: rest => node.InView ∧ NodesInView rest

def AttributeInView : Attribute → Prop
  | .path _ => True
  | .list _ _ => True
  | .nameValue _ value => value.InView

def AttributesInView : List Attribute → Prop
  | [] => True
  | attr :: rest => AttributeInView attr ∧ AttributesInView rest

end

theorem recordPath_agree (segments : List Ident) :
    AgreeOrLess Site.weight True (recordPath file segments none) (pathSites file segments none) :=
  .inl ⟨trivial, recordPath_eq file segments none⟩

theorem recordPath_agree_receiver (segments : List Ident) (method : Ident) :
    AgreeOrLess Site.weight True (recordPath file segments (some method.text))
      (pathSites file segments (some method)) :=
  .inl ⟨trivial, recordPath_eq file segments (some method)⟩

theorem skipped_agree (sites : List Site) : AgreeOrLess Site.weight (sites = []) [] sites :=
  .nil Site.weight_pos sites

/-- A receiver that is a path is reported with the method, and nothing else in it is visited. -/
theorem exprMethodCall_agree {attributes : List Attribute} {receiver : Node} {method : Ident}
    {turbofish arguments : List Node}
    (own : AgreeOrLess Site.weight (receiver.InView unicode file) (visit unicode file receiver)
      (occurrences file receiver))
    (around : AgreeOrLess Site.weight (AttributesInView unicode file attributes)
      (visitAttributes unicode file attributes) (occurrencesInAttributes file attributes))
    (inside : AgreeOrLess Site.weight (NodesInView unicode file arguments)
      (visitNodes unicode file arguments) (occurrencesInNodes file arguments))
    (types : AgreeOrLess Site.weight (NodesInView unicode file turbofish)
      (visitNodes unicode file turbofish) (occurrencesInNodes file turbofish)) :
    AgreeOrLess Site.weight
      ((Node.exprMethodCall attributes receiver method turbofish arguments).InView unicode file)
      (visit unicode file (.exprMethodCall attributes receiver method turbofish arguments))
      (occurrences file (.exprMethodCall attributes receiver method turbofish arguments)) := by
  have choke : AgreeOrLess Site.weight True _ _ :=
    .refl (if method.text ∈ chokeMethods then [⟨file, method.line, .choke, method.text⟩] else [])
  have rest := around.append (inside.append types)
  cases receiver with
  | exprPath inner qself segments generics =>
    simp only [visit, occurrences, Node.InView]
    have path := (recordPath_agree_receiver file segments method).append
      ((skipped_agree (occurrencesInValues file inner)).append
        ((skipped_agree (occurrencesInNodes file qself)).append
          (skipped_agree (occurrencesInNodes file generics))))
    simpa only [true_and, List.append_nil] using choke.append (path.append rest)
  | _ =>
    rw [visit, occurrences, Node.InView]
    · simpa only [true_and] using choke.append (own.append rest)
    all_goals nofun

mutual

theorem visit_agree : ∀ node : Node,
    AgreeOrLess Site.weight (node.InView unicode file) (visit unicode file node)
      (occurrences file node)
  | .guarded attributes children => by
    have inside := (visitAttributes_agree attributes).append (visitNodes_agree children)
    simp only [visit, occurrences, Node.InView, isTestRegion_iff]
    by_cases region : TestRegion attributes
    · simp only [region, if_true, true_or]
      exact .refl _
    · simpa only [region, if_false, false_or] using inside
  | .itemUse attributes line tree => by
    have inside := (visitItemUse_agree file line tree).append
      (skipped_agree (occurrencesInValues file attributes))
    simp only [visit, occurrences, Node.InView, isTestRegion_iff]
    by_cases region : TestRegion attributes
    · simp only [region, if_true, true_or]
      exact .refl _
    · simpa only [region, if_false, false_or, List.append_nil] using inside
  | .path segments generics => by
    have inside := (recordPath_agree file segments).append (visitNodes_agree generics)
    simpa only [visit, occurrences, Node.InView, true_and] using inside
  | .exprPath attributes qself segments generics => by
    have inside := (visitAttributes_agree attributes).append ((visitNodes_agree qself).append
      ((recordPath_agree file segments).append (visitNodes_agree generics)))
    simpa only [visit, occurrences, Node.InView, true_and] using inside
  | .exprMethodCall attributes receiver method turbofish arguments =>
    exprMethodCall_agree unicode file (visit_agree receiver) (visitAttributes_agree attributes)
      (visitNodes_agree arguments) (visitNodes_agree turbofish)
  | .macroCall segments generics tokens => by
    have inside := (recordPath_agree file segments).append ((visitNodes_agree generics).append
      ((scanned unicode file tokens).agree.append (skipped_agree (resolverMentions file tokens))))
    simpa only [visit, occurrences, Node.InView, true_and, List.append_nil] using inside
  | .visibility _ => by
    simp only [visit, occurrences, Node.InView]
    exact .refl _
  | .other children => by
    simpa only [visit, occurrences, Node.InView] using visitNodes_agree children

theorem visitNodes_agree : ∀ nodes : List Node,
    AgreeOrLess Site.weight (NodesInView unicode file nodes) (visitNodes unicode file nodes)
      (occurrencesInNodes file nodes)
  | [] => by
    simp only [visitNodes, occurrencesInNodes, NodesInView]
    exact .refl _
  | node :: rest => by
    simpa only [visitNodes, occurrencesInNodes, NodesInView] using
      (visit_agree node).append (visitNodes_agree rest)

theorem visitAttribute_agree : ∀ attr : Attribute,
    AgreeOrLess Site.weight (AttributeInView unicode file attr) (visitAttribute unicode file attr)
      (occurrencesInAttribute file attr)
  | .path path => by
    simpa only [visitAttribute, occurrencesInAttribute, AttributeInView] using
      recordPath_agree file path.segments
  | .list path _ => by
    simpa only [visitAttribute, occurrencesInAttribute, AttributeInView] using
      recordPath_agree file path.segments
  | .nameValue path value => by
    simpa only [visitAttribute, occurrencesInAttribute, AttributeInView, true_and] using
      (recordPath_agree file path.segments).append (visit_agree value)

theorem visitAttributes_agree : ∀ attributes : List Attribute,
    AgreeOrLess Site.weight (AttributesInView unicode file attributes)
      (visitAttributes unicode file attributes) (occurrencesInAttributes file attributes)
  | [] => by
    simp only [visitAttributes, occurrencesInAttributes, AttributesInView]
    exact .refl _
  | attr :: rest => by
    simpa only [visitAttributes, occurrencesInAttributes, AttributesInView] using
      (visitAttribute_agree attr).append (visitAttributes_agree rest)

end

def SynFile.occurrences (parsed : SynFile) : List Site :=
  occurrencesInAttributes file parsed.attributes ++ occurrencesInNodes file parsed.items

def SynFile.InView (parsed : SynFile) : Prop :=
  AttributesInView unicode file parsed.attributes ∧ NodesInView unicode file parsed.items

/-- Every site of the file is reported, each as often as it occurs, and nothing else is, exactly
where the visitor leaves nothing out. -/
theorem extractFile_perm_iff (parsed : SynFile) :
    (extractFile unicode file parsed).Perm (parsed.occurrences file) ↔ parsed.InView unicode file :=
  ((visitAttributes_agree unicode file parsed.attributes).append
    (visitNodes_agree unicode file parsed.items)).perm_iff

end File

/-! ### The resolver imported from the parent module -/

namespace SuperImport

def ascii : UnicodeIdent := ⟨Char.isAlpha, fun c => c.isAlphanum || c = '_'⟩

/-- `use super::ValidatingResolver;`. -/
def parsed : SynFile :=
  ⟨[], [.itemUse [] 1 (.path ⟨"super", 1, by decide, by decide⟩
    (.name ⟨"ValidatingResolver", 1, by decide, by decide⟩))]⟩

theorem super_import_missed :
    ¬ (extractFile ascii "client.rs" parsed).Perm (parsed.occurrences "client.rs") := by
  intro perm
  have lengths := perm.length_eq
  revert lengths
  decide

end SuperImport

end Webfang.Lint
