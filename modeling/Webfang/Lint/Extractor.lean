import Mathlib.Algebra.Order.Ring.Int
import Mathlib.Data.String.Basic

/-!
# The site extractor

`extract_file` of `tools/intra-crate-lint/src/lib.rs`, over the syntax tree that `syn` parses a
file to. The tree tells apart what the visitor has a method for; every other node is its children,
which the generated visitor goes through one after another. Reading and parsing the file, and the
walk over a directory, are left out.
-/
namespace Webfang.Lint

/-! ### The syntax tree -/

/-- An identifier: its text, `r#` included, and the line its span starts on. -/
structure Ident where
  text : String
  line : Nat
  nonempty : text ≠ ""
  noColon : ':' ∉ text.toList
  deriving DecidableEq

inductive Spacing where
  | alone
  | joint
  deriving DecidableEq, Repr

/-- The body of a macro is not parsed. -/
inductive TokenTree where
  | group (stream : List TokenTree)
  | ident (ident : Ident)
  | punct (char : Char) (spacing : Spacing)
  | literal

inductive UseTree where
  | path (ident : Ident) (tree : UseTree)
  | name (ident : Ident)
  | rename (ident renamed : Ident)
  | glob
  | group (items : List UseTree)

/-- A path without generic arguments. -/
structure ModPath where
  leadingColon : Bool
  segments : List Ident

/-- What the predicate of a `cfg` parses to. The arguments of a list are `none` where they are no
list of predicates. -/
inductive Meta where
  | path (path : ModPath)
  | list (path : ModPath) (nested : Option (List Meta))
  | nameValue (path : ModPath)

mutual

inductive Node where
  /-- An item, a member, a variant or a field, with its attributes. -/
  | guarded (attributes : List Attribute) (children : List Node)
  | itemUse (attributes : List Attribute) (line : Nat) (tree : UseTree)
  /-- A path, with the generic arguments of its segments. -/
  | path (segments : List Ident) (generics : List Node)
  | exprPath (attributes : List Attribute) (qself : List Node) (segments : List Ident)
      (generics : List Node)
  | exprMethodCall (attributes : List Attribute) (receiver : Node) (method : Ident)
      (turbofish arguments : List Node)
  | macroCall (segments : List Ident) (generics : List Node) (tokens : List TokenTree)
  | visibility (restricted : List Ident)
  | other (children : List Node)

inductive Attribute where
  | path (path : ModPath)
  | list (path : ModPath) (nested : Option (List Meta))
  | nameValue (path : ModPath) (value : Node)

end

structure SynFile where
  attributes : List Attribute
  items : List Node

/-! ### Sites -/

inductive Kind where
  | use
  | inline
  | choke
  deriving DecidableEq, Repr

structure Site where
  file : String
  line : Nat
  kind : Kind
  path : String
  deriving DecidableEq, Repr

def crateRoot : String := "crate"

def validatingResolver : String := "ValidatingResolver"

def chokeMethods : List String := ["dns_resolver", "redirect"]

structure UnicodeIdent where
  isXidStart : Char → Bool
  isXidContinue : Char → Bool

/-! ### Test regions -/

def ModPath.isIdent (path : ModPath) (name : String) : Bool :=
  match path.leadingColon, path.segments with
  | false, [segment] => segment.text = name
  | _, _ => false

mutual

def metaMentionsTest : Meta → Bool
  | .path path => path.isIdent "test"
  | .list path nested =>
    if !path.isIdent "all" && !path.isIdent "any" then false
    else
      match nested with
      | some nested => anyMentionsTest nested
      | none => false
  | .nameValue _ => false

def anyMentionsTest : List Meta → Bool
  | [] => false
  | predicate :: rest => metaMentionsTest predicate || anyMentionsTest rest

end

def isTestCfg : Attribute → Bool
  | .list _ (some predicates) => predicates.any metaMentionsTest
  | _ => false

def Attribute.modPath : Attribute → ModPath
  | .path named => named
  | .list named _ => named
  | .nameValue named _ => named

def isTestRegion (attributes : List Attribute) : Bool :=
  attributes.any fun attr => attr.modPath.isIdent "cfg" && isTestCfg attr

/-! ### Paths -/

section Paths

variable (file : String) (line : Nat)

/-- The first segment that names the resolver, with the one after it. -/
def pushResolverChoke : List String → List Site
  | [] => []
  | segment :: rest =>
    if segment ≠ validatingResolver then pushResolverChoke rest
    else
      match rest.head? with
      | some next => [⟨file, line, .choke, validatingResolver ++ "::" ++ next⟩]
      | none => [⟨file, line, .choke, validatingResolver⟩]

end Paths

def isCrateRooted (segments : List Ident) : Bool :=
  match segments.head? with
  | some segment => segment.text = crateRoot
  | none => false

def pathLine (segments : List Ident) : Nat :=
  match segments.head? with
  | some segment => segment.line
  | none => 1

def recordPath (file : String) (path : List Ident) (suffix : Option String) : List Site :=
  let segments := path.map Ident.text
  let line := pathLine path
  pushResolverChoke file line segments ++
    if isCrateRooted path then
      let rendered := "::".intercalate segments
      [⟨file, line, .inline,
        match suffix with
        | some suffix => rendered ++ "::" ++ suffix
        | none => rendered⟩]
    else []

/-! ### Use trees -/

def joinSegment (front segment : String) : String :=
  if front = "" then segment else front ++ "::" ++ segment

mutual

def flattenUseTree (front : String) : UseTree → List String
  | .path ident tree =>
    let next := joinSegment front ident.text
    match tree with
    -- taken for a name that only repeats the segment before it
    | .name name => if name.text = ident.text then [next] else flattenUseTree next tree
    | _ => flattenUseTree next tree
  | .name ident =>
    if ident.text = "self" then
      if front ≠ "" then [front] else []
    else [joinSegment front ident.text]
  | .rename ident _ =>
    if ident.text = "self" then
      if front ≠ "" then [front] else []
    else [joinSegment front ident.text]
  | .glob => if front ≠ "" then [front] else []
  | .group items => flattenUseTrees front items

def flattenUseTrees (front : String) : List UseTree → List String
  | [] => []
  | item :: rest => flattenUseTree front item ++ flattenUseTrees front rest

end

def splitColons : List Char → List (List Char)
  | [] => [[]]
  | ':' :: ':' :: rest => [] :: splitColons rest
  | c :: rest => (splitColons rest).modifyHead (c :: ·)

def splitPath (path : String) : List String := (splitColons path.toList).map String.ofList

def startsWithCrate (path : String) : Bool := (splitPath path).head? = some crateRoot

def visitItemUse (file : String) (line : Nat) (tree : UseTree) : List Site :=
  (flattenUseTree "" tree).flatMap fun leaf =>
    if startsWithCrate leaf then
      ⟨file, line, .use, leaf⟩ :: pushResolverChoke file line (splitPath leaf)
    else []

/-! ### Macro bodies -/

def isPathSeparator : TokenTree → TokenTree → Bool
  | .punct left spacing, .punct right _ => left = ':' && right = ':' && spacing = .joint
  | _, _ => false

section Tokens

variable (unicode : UnicodeIdent)

def isPathSegment (ident : Ident) : Bool :=
  match ident.text.toList with
  | [] => false
  | first :: rest => unicode.isXidStart first && rest.all unicode.isXidContinue

/-- The segments the loop of `parse_macro_path` collects, three tokens each. -/
def macroSegments : List TokenTree → List Ident
  | first :: second :: .ident ident :: rest =>
    if isPathSeparator first second && isPathSegment unicode ident then
      ident :: macroSegments rest
    else []
  | _ => []

/-- `tokens` follow `start`, the identifier `crate`. The second part counts how many of them the
path takes. -/
def parseMacroPath (start : Ident) (tokens : List TokenTree) : Option (String × Nat × Nat) :=
  let segments := macroSegments unicode tokens
  if segments = [] then none
  else some ("::".intercalate (crateRoot :: segments.map Ident.text), 3 * segments.length, start.line)

theorem sizeOf_drop_le (tokens : List TokenTree) (n : Nat) :
    sizeOf (tokens.drop n) ≤ sizeOf tokens := by
  induction tokens generalizing n with
  | nil => simp
  | cons token rest ih =>
    cases n with
    | zero => exact Nat.le_refl _
    | succ n =>
      have later := ih n
      simp only [List.drop_succ_cons, List.cons.sizeOf_spec]
      omega

theorem sizeOf_drop_lt (token : TokenTree) (rest : List TokenTree) (n : Nat) :
    sizeOf (rest.drop n) < sizeOf (token :: rest) := by
  have le := sizeOf_drop_le rest n
  simp only [List.cons.sizeOf_spec]
  omega

def scanTokens (file : String) : List TokenTree → List Site
  | [] => []
  | .ident ident :: rest =>
    if ident.text = crateRoot then
      match parseMacroPath unicode ident rest with
      | some (path, next, line) => ⟨file, line, .inline, path⟩ :: scanTokens file (rest.drop next)
      | none => scanTokens file rest
    else scanTokens file rest
  | .group stream :: rest => scanTokens file stream ++ scanTokens file rest
  | .punct _ _ :: rest => scanTokens file rest
  | .literal :: rest => scanTokens file rest
termination_by tokens => sizeOf tokens
decreasing_by
  · exact sizeOf_drop_lt _ rest next
  all_goals decreasing_tactic

end Tokens

/-! ### The visitor -/

section Visitor

variable (unicode : UnicodeIdent) (file : String)

mutual

def visit : Node → List Site
  | .guarded attributes children =>
    if isTestRegion attributes then []
    else visitAttributes attributes ++ visitNodes children
  | .itemUse attributes line tree =>
    if isTestRegion attributes then [] else visitItemUse file line tree
  | .path segments generics => recordPath file segments none ++ visitNodes generics
  | .exprPath attributes qself segments generics =>
    visitAttributes attributes ++ (visitNodes qself ++
      (recordPath file segments none ++ visitNodes generics))
  | .exprMethodCall attributes receiver method turbofish arguments =>
    (if method.text ∈ chokeMethods then [⟨file, method.line, .choke, method.text⟩] else []) ++
      ((match receiver with
        | .exprPath _ _ segments _ => recordPath file segments (some method.text)
        | _ => visit receiver) ++
      (visitAttributes attributes ++ (visitNodes arguments ++ visitNodes turbofish)))
  | .macroCall segments generics tokens =>
    recordPath file segments none ++ (visitNodes generics ++ scanTokens unicode file tokens)
  | .visibility _ => []
  | .other children => visitNodes children

def visitNodes : List Node → List Site
  | [] => []
  | node :: rest => visit node ++ visitNodes rest

/-- The path of the attribute and the value after `=`; the tokens of a list are not gone into. -/
def visitAttribute : Attribute → List Site
  | .path path => recordPath file path.segments none
  | .list path _ => recordPath file path.segments none
  | .nameValue path value => recordPath file path.segments none ++ visit value

def visitAttributes : List Attribute → List Site
  | [] => []
  | attr :: rest => visitAttribute attr ++ visitAttributes rest

end

def extractFile (parsed : SynFile) : List Site :=
  visitAttributes unicode file parsed.attributes ++ visitNodes unicode file parsed.items

end Visitor

end Webfang.Lint
