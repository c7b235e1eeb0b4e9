import Webfang.Downloader.WreqResponse
import Webfang.Library.CookieRules
import Webfang.Library.Transition

/-!
# The cookie bridge

`parse_set_cookie` reads a header into a `Cookie`, `CookieBridge` keeps it, and
`cookies_for_url` picks what goes with a request. Beside them run the rules of
`Library.CookieRules`, over the same headers.
-/
namespace Webfang.Downloader

open Library CookieRules

/-! ### The bridge -/

/-- `Url` of a request over HTTP: its path starts at the root. -/
structure RequestUrl extends Url where
  /-- The host is an IP address. -/
  address : Bool
  path : String
  rooted : path.toList.head? = some '/'

def domainMatches (requestDomain cookieDomain : String) : Bool :=
  if cookieDomain.toList.head? = some '.' then
    decide (requestDomain.toList = cookieDomain.toList.drop 1) ||
      decide (cookieDomain.toList <:+ requestDomain.toList)
  else decide (requestDomain = cookieDomain)

def pathMatches (requestPath cookiePath : String) : Bool :=
  if cookiePath = "/" then true else decide (cookiePath.toList <+: requestPath.toList)

structure CookieBridge where
  cookies : List Cookie

namespace CookieBridge

def new : CookieBridge := ⟨[]⟩

def upsert (bridge : CookieBridge) (cookie : Cookie) : CookieBridge :=
  let same (c : Cookie) : Bool := c.name = cookie.name && c.domain = cookie.domain && c.path = cookie.path
  ⟨CookieRules.upsert same cookie bridge.cookies⟩

def ingest (bridge : CookieBridge) (cookies : List Cookie) : CookieBridge := cookies.foldl upsert bridge

def cookiesForUrl (bridge : CookieBridge) (url : RequestUrl) : List Cookie :=
  let domain := url.host.getD ""
  bridge.cookies.filter fun c => domainMatches domain c.domain && pathMatches url.path c.path

/-- A page with several headers counts as its headers, one after the other. -/
theorem ingest_headers (bridge : CookieBridge) (sender : Url) (headers : List String) :
    bridge.ingest (headers.filterMap fun header => parseSetCookie header sender) =
      headers.foldl (fun bridge header => bridge.ingest (parseSetCookie header sender).toList) bridge := by
  induction headers generalizing bridge with
  | nil => rfl
  | cons header rest ih =>
    rw [List.filterMap_cons, List.foldl_cons, ← ih]
    cases parseSetCookie header sender <;> rfl

end CookieBridge

/-! ### Headers -/

/-- What `to_str` lets through: tabs and visible ASCII. -/
def Visible (c : Char) : Prop := c = '\t' ∨ 0x20 ≤ c.toNat ∧ c.toNat ≤ 0x7E

instance (c : Char) : Decidable (Visible c) := inferInstanceAs (Decidable (_ ∨ _))

/-- A header value as `to_str` gives it. -/
structure HeaderText where
  text : String
  visible : ∀ c ∈ text.toList, Visible c

theorem isWhitespace_of_visible {c : Char} (visible : Visible c) : Text.isWhitespace c = isWsp c := by
  rw [Bool.eq_iff_iff, isWsp_iff]
  rcases visible with rfl | ⟨low, high⟩
  · decide
  · simp only [Text.isWhitespace, Bool.or_eq_true, Bool.and_eq_true, decide_eq_true_eq, beq_iff_eq]
    omega

theorem Visible.toLower {c : Char} (visible : Visible c) : Visible c.toLower := by
  rcases toLower_cases c with same | ⟨low, high, moved⟩
  · rwa [same]
  · right
    omega

theorem trim_of_visible {text : String} (visible : ∀ c ∈ text.toList, Visible c) :
    (Text.trim text).toList = trim text.toList := by
  have same : ∀ c ∈ text.toList, Text.isWhitespace c = isWsp c := fun c member =>
    isWhitespace_of_visible (visible c member)
  rw [Text.trim, String.toList_ofList, trim, trimEnds, dropWhile_congr same, List.rdropWhile, List.rdropWhile,
    dropWhile_congr fun c member => ?_]
  exact same c ((List.dropWhile_suffix _).subset (List.mem_reverse.mp member))

/-! ### Attributes -/

/-- What `parse_set_cookie` takes an attribute for, under a name with its equals sign. -/
def recognised (key part : String) : Option String :=
  (Text.stripPrefix (Text.toAsciiLowercase (Text.trim part)) key).map Text.trim

/-- The path of an attribute that is no domain. -/
def recognisedPath (part : String) : Option String :=
  if (recognised "domain=" part).isSome then none else recognised "path=" part

theorem applyAttribute_eq (cookie : Cookie) (part : String) :
    (cookie.applyAttribute part).name = cookie.name ∧ (cookie.applyAttribute part).value = cookie.value ∧
      (cookie.applyAttribute part).domain = (recognised "domain=" part).getD cookie.domain ∧
      (cookie.applyAttribute part).path = (recognisedPath part).getD cookie.path := by
  unfold Cookie.applyAttribute recognisedPath recognised
  dsimp only
  generalize Text.toAsciiLowercase (Text.trim part) = text
  cases Text.stripPrefix text "domain=" with
  | some val => simp
  | none =>
    cases Text.stripPrefix text "path=" with
    | some val => simp
    | none =>
      by_cases httpOnly : text = "httponly"
      · simp [httpOnly]
      · by_cases secure : text = "secure" <;> simp [httpOnly, secure]

theorem foldl_applyAttribute (cookie : Cookie) (parts : List String) :
    (parts.foldl Cookie.applyAttribute cookie).name = cookie.name ∧
      (parts.foldl Cookie.applyAttribute cookie).value = cookie.value ∧
      (parts.foldl Cookie.applyAttribute cookie).domain =
        (parts.reverse.findSome? (recognised "domain=")).getD cookie.domain ∧
      (parts.foldl Cookie.applyAttribute cookie).path =
        (parts.reverse.findSome? recognisedPath).getD cookie.path := by
  rw [← foldl_getD, ← foldl_getD]
  induction parts generalizing cookie with
  | nil => simp
  | cons part rest ih =>
    obtain ⟨name, value, domain, path⟩ := applyAttribute_eq cookie part
    obtain ⟨names, values, domains, paths⟩ := ih (cookie.applyAttribute part)
    simp only [List.foldl_cons]
    exact ⟨names.trans name, values.trans value, by rw [domains, domain], by rw [paths, path]⟩

section Recognised

variable {name part : List Char} {key : String} (clean : ∀ c ∈ name, isWsp c = false ∧ c ≠ '=')
  (named : key.toList = name ++ ['=']) (visible : ∀ c ∈ part, Visible c)
include visible

theorem toList_lowercase_trim :
    (Text.toAsciiLowercase (Text.trim (String.ofList part))).toList = lower (trim part) := by
  rw [Text.toAsciiLowercase, String.toList_ofList, trim_of_visible (by simpa using visible),
    String.toList_ofList, lower]

include clean named

theorem written_of_recognised (found : (recognised key (String.ofList part)).isSome = true) :
    Written name part := by
  rw [← written_iff clean, ← named, ← toList_lowercase_trim visible]
  by_contra other
  have missed : Text.stripPrefix (Text.toAsciiLowercase (Text.trim (String.ofList part))) key = none :=
    if_neg (by simpa [List.isPrefixOf_iff_prefix] using other)
  rw [recognised, missed] at found
  simp at found

theorem recognised_of_written (written : Written name part) :
    recognised key (String.ofList part) = some (String.ofList (lower (readAttribute part).2)) := by
  have whole := toList_lowercase_trim visible
  obtain ⟨before, after, rfl, front⟩ := written
  rw [lower_trim_of_written after front] at whole
  rw [recognised, readAttribute_of_written clean front]
  generalize Text.toAsciiLowercase (Text.trim (String.ofList (before ++ '=' :: after))) = text at whole
  have stripped : Text.stripPrefix text key = some (String.ofList (lower (after.rdropWhile isWsp))) := by
    have here : key.toList.isPrefixOf text.toList = true := by
      rw [List.isPrefixOf_iff_prefix, whole, named]
      exact ⟨lower (after.rdropWhile isWsp), by simp⟩
    have behind : text.toList.drop key.toList.length = lower (after.rdropWhile isWsp) := by
      rw [whole, named]
      simp
    rw [Text.stripPrefix, if_pos here, behind]
  have seen : ∀ c ∈ (String.ofList (lower (after.rdropWhile isWsp))).toList, Visible c := by
    intro c member
    rw [String.toList_ofList] at member
    obtain ⟨d, inside, rfl⟩ := List.mem_map.mp member
    have part : d ∈ before ++ '=' :: after := by simp [(List.rdropWhile_prefix _ _).subset inside]
    exact (visible d part).toLower
  have trimmed : Text.trim (String.ofList (lower (after.rdropWhile isWsp))) =
      String.ofList (lower (trim after)) := by
    apply String.toList_inj.mp
    rw [trim_of_visible seen, String.toList_ofList, String.toList_ofList, ← lower_trim, trim_rdropWhile]
  rw [stripped, Option.map_some, trimmed]

end Recognised

/-! ### One header -/

def HeaderText.parts (header : HeaderText) : List (List Char) := (header.text.toList.splitOn ';').tail

/-- The request, as the rules read it. -/
def RequestUrl.request (url : RequestUrl) : Request :=
  { host := (url.host.getD "").toList, address := url.address, path := url.path.toList }

theorem HeaderText.visible_part {header : HeaderText} {part : List Char}
    (member : part ∈ header.text.toList.splitOn ';') : ∀ c ∈ part, Visible c := fun c inside =>
  header.visible c ((Text.sublist_of_mem_splitOnP member).subset inside)

/-- Both readings split the name from the value alike. -/
theorem splitOnce_trim {first : List Char} (visible : ∀ c ∈ first, Visible c) :
    (Text.splitOnce (Text.trim (String.ofList first)) '=').map
      (fun (name, value) => ((Text.trim name).toList, (Text.trim value).toList)) = pair first := by
  have whole : (Text.trim (String.ofList first)).toList = trim first := by
    rw [trim_of_visible (by simpa using visible), String.toList_ofList]
  rw [← pair_trim first]
  unfold Text.splitOnce pair
  rw [whole]
  dsimp only
  cases rest : (trim first).drop ((trim first).takeWhile fun c => decide (c ≠ '=')).length with
  | nil => simp
  | cons stop back =>
    have seen : ∀ c ∈ trim first, Visible c := fun c member => visible c (mem_of_mem_trim member)
    have front : ∀ c ∈ (trim first).takeWhile fun c => decide (c ≠ '='), Visible c := fun c member =>
      seen c ((List.takeWhile_prefix _).subset member)
    have behind : ∀ c ∈ back, Visible c := fun c member =>
      seen c ((List.drop_suffix _ _).subset (rest ▸ List.mem_cons_of_mem _ member))
    simp only [Option.map_some]
    rw [trim_of_visible (by simpa using front), trim_of_visible (by simpa using behind), String.toList_ofList,
      String.toList_ofList]

/-- What a header is read into: nothing for both, or a cookie whose domain and path the last
recognised attributes give. -/
theorem parse_cases (header : HeaderText) (sender : Url) :
    ∃ first, header.text.toList.splitOn ';' = first :: header.parts ∧
      ((parseSetCookie header.text sender = none ∧ ∀ request, setCookie header.text.toList request = none) ∨
        ∃ name value cookie, pair first = some (name, value) ∧ name ≠ [] ∧
          parseSetCookie header.text sender = some cookie ∧ cookie.name.toList = name ∧
          cookie.value.toList = value ∧
          cookie.domain =
            (header.parts.reverse.findSome? fun part => recognised "domain=" (String.ofList part)).getD
              (sender.host.getD "") ∧
          cookie.path =
            (header.parts.reverse.findSome? fun part => recognisedPath (String.ofList part)).getD "/") := by
  cases pieces : header.text.toList.splitOn ';' with
  | nil => exact absurd pieces (List.splitOn_ne_nil _ _)
  | cons first parts =>
    have visible : ∀ c ∈ first, Visible c := HeaderText.visible_part (pieces ▸ List.mem_cons_self)
    have split := splitOnce_trim visible
    have tail : header.parts = parts := by rw [HeaderText.parts, pieces, List.tail_cons]
    refine ⟨first, by rw [tail], ?_⟩
    unfold parseSetCookie setCookie
    simp only [pieces, List.map_cons]
    cases here : Text.splitOnce (Text.trim (String.ofList first)) '=' with
    | none =>
      rw [here, Option.map_none] at split
      simp [← split]
    | some both =>
      obtain ⟨name, value⟩ := both
      rw [here, Option.map_some] at split
      simp only [← split]
      by_cases blank : Text.trim name = ""
      · simp [blank]
      · right
        have named : (Text.trim name).toList ≠ [] := fun empty => blank (String.toList_inj.mp empty)
        obtain ⟨names, values, domains, paths⟩ :=
          foldl_applyAttribute ⟨Text.trim name, Text.trim value, sender.host.getD "", "/", false, false⟩
            (parts.map String.ofList)
        refine ⟨_, _, _, rfl, named, if_neg blank, congrArg String.toList names,
          congrArg String.toList values, ?_, ?_⟩
        · rw [domains, tail, ← List.map_reverse, List.findSome?_map, Function.comp_def]
        · rw [paths, tail, ← List.map_reverse, List.findSome?_map, Function.comp_def]

/-! ### The last attributes -/

theorem clean_domain : ∀ c ∈ "domain".toList, isWsp c = false ∧ c ≠ '=' := forall_of_all (by decide)

theorem clean_path : ∀ c ∈ "path".toList, isWsp c = false ∧ c ≠ '=' := forall_of_all (by decide)

theorem name_of_written {name part : List Char} (clean : ∀ c ∈ name, isWsp c = false ∧ c ≠ '=')
    (written : Written name part) : (readAttribute part).1 = name := by
  obtain ⟨before, after, rfl, front⟩ := written
  rw [readAttribute_of_written clean front]

section Attributes

variable {header : HeaderText} {part : List Char}

theorem HeaderText.visible_of_mem (member : part ∈ header.parts.reverse) : ∀ c ∈ part, Visible c :=
  header.visible_part (List.mem_of_mem_tail (List.mem_reverse.mp member))

theorem domain_kind (member : part ∈ header.parts.reverse)
    (found : (recognised "domain=" (String.ofList part)).isSome = true) :
    decide ((readAttribute part).1 = "domain".toList) = true :=
  decide_eq_true (name_of_written clean_domain
    (written_of_recognised clean_domain rfl (header.visible_of_mem member) found))

theorem path_kind (member : part ∈ header.parts.reverse)
    (found : (recognisedPath (String.ofList part)).isSome = true) :
    decide ((readAttribute part).1 = "path".toList) = true := by
  have path : (recognised "path=" (String.ofList part)).isSome = true := by
    unfold recognisedPath at found
    split at found
    · simp at found
    · exact found
  exact decide_eq_true (name_of_written clean_path
    (written_of_recognised clean_path rfl (header.visible_of_mem member) path))

theorem mem_of_last {name : List Char} (last : lastAttribute name header.parts = some part) :
    part ∈ header.parts.reverse := List.mem_of_find?_eq_some last

theorem domain_of_last (last : lastAttribute "domain".toList header.parts = some part)
    (written : Written "domain".toList part) :
    (header.parts.reverse.findSome? fun part => recognised "domain=" (String.ofList part)) =
      some (String.ofList (lower (readAttribute part).2)) :=
  findSome?_of_find? (fun _ member => domain_kind member) last
    (recognised_of_written clean_domain rfl (header.visible_of_mem (mem_of_last last)) written)

theorem path_of_last (last : lastAttribute "path".toList header.parts = some part)
    (written : Written "path".toList part) :
    (header.parts.reverse.findSome? fun part => recognisedPath (String.ofList part)) =
      some (String.ofList (lower (readAttribute part).2)) := by
  refine findSome?_of_find? (fun _ member => path_kind member) last ?_
  -- a path is no domain
  have other : (recognised "domain=" (String.ofList part)).isSome = false := by
    rw [Bool.eq_false_iff]
    intro found
    have domain := of_decide_eq_true (domain_kind (mem_of_last last) found)
    rw [name_of_written clean_path written] at domain
    exact absurd domain (by decide)
  rw [recognisedPath, if_neg (by simp [other])]
  exact recognised_of_written clean_path rfl (header.visible_of_mem (mem_of_last last)) written

end Attributes

/-! ### Agreement -/

/-- A cookie that the bridge keeps, and what the rules keep in its place: they go with the
same requests to `url`. -/
structure Agree (url : RequestUrl) (cookie : Cookie) (stored : Stored) : Prop where
  name : cookie.name.toList = stored.name
  value : cookie.value.toList = stored.value
  path : cookie.path.toList = stored.path
  domain : undot cookie.domain.toList = stored.domain
  sent : (domainMatches (url.host.getD "") cookie.domain && pathMatches url.path cookie.path) =
    stored.sentWith url.request

/-- The last `Domain` attribute of a header, on which both sides agree. -/
structure FaithfulDomain (url sender : RequestUrl) (part : List Char) : Prop where
  written : Written "domain".toList part
  given : undot (readAttribute part).2 ≠ []
  allowed : DomainMatch sender.request (lower (undot (readAttribute part).2))
  dotted : Below url.request.host (lower (undot (readAttribute part).2)) →
    ((readAttribute part).2.head? = some '.' ↔ url.address = false)

/-- The last `Path` attribute of a header, on which both sides agree. -/
structure FaithfulPath (url : RequestUrl) (part : List Char) : Prop where
  written : Written "path".toList part
  rooted : (readAttribute part).2.head? = some '/'
  cased : lower (readAttribute part).2 = (readAttribute part).2
  boundary : (readAttribute part).2 <+: url.path.toList → PathMatch url.path.toList (readAttribute part).2

/-- A header that the bridge reads as the rules do, and that replaces what it replaces. -/
structure Faithful (url : RequestUrl) (bridge : CookieBridge) (sender : RequestUrl) (header : HeaderText) :
    Prop where
  host : lastAttribute "domain".toList header.parts = none → sender.request.host.head? ≠ some '.'
  domain : ∀ part, lastAttribute "domain".toList header.parts = some part → FaithfulDomain url sender part
  path : ∀ part, lastAttribute "path".toList header.parts = some part → FaithfulPath url part
  key : ∀ cookie, parseSetCookie header.text sender.toUrl = some cookie →
    ∀ old ∈ bridge.cookies, old.name = cookie.name → old.path = cookie.path →
      undot old.domain.toList = undot cookie.domain.toList → old.domain = cookie.domain

theorem lower_undot (text : List Char) : lower (undot text) = undot (lower text) := by
  cases text with
  | nil => rfl
  | cons c rest =>
    by_cases dot : c = '.'
    · subst dot
      rfl
    · have moved : c.toLower ≠ '.' := mt (toLower_eq_iff (by decide)).mp dot
      have kept {d : Char} (other : d ≠ '.') (rest : List Char) : undot (d :: rest) = d :: rest := by
        unfold undot
        split
        next same => exact absurd (List.cons.inj same).1 other
        next => rfl
      rw [kept dot, lower, List.map_cons, kept moved]

/-- A text with a leading dot, and one without. -/
theorem undot_cases (text : List Char) :
    text.head? = some '.' ∧ text = '.' :: undot text ∨ text.head? ≠ some '.' ∧ undot text = text := by
  cases text with
  | nil => exact .inr ⟨by simp, rfl⟩
  | cons c rest =>
    by_cases dot : c = '.'
    · subst dot
      exact .inl ⟨rfl, rfl⟩
    · refine .inr ⟨by simpa using dot, ?_⟩
      unfold undot
      split
      next same => exact absurd (List.cons.inj same).1 dot
      next => rfl

theorem domainMatches_dotted (requestDomain : String) (domain : List Char) :
    domainMatches requestDomain (String.ofList ('.' :: domain)) =
      decide (requestDomain.toList = domain ∨ Below requestDomain.toList domain) := by
  unfold domainMatches
  rw [String.toList_ofList, List.head?_cons, if_pos rfl, Bool.decide_or]
  rfl

theorem domainMatches_plain {domain : List Char} (plain : domain.head? ≠ some '.') (requestDomain : String) :
    domainMatches requestDomain (String.ofList domain) = decide (requestDomain.toList = domain) := by
  unfold domainMatches
  rw [String.toList_ofList, if_neg plain]
  apply decide_eq_decide.mpr
  rw [← String.toList_inj, String.toList_ofList]

theorem FaithfulDomain.matches {url sender : RequestUrl} {part : List Char}
    (faithful : FaithfulDomain url sender part) :
    domainMatches (url.host.getD "") (String.ofList (lower (readAttribute part).2)) =
      decide (DomainMatch url.request (lower (undot (readAttribute part).2))) := by
  have dotted := faithful.dotted
  rcases undot_cases (readAttribute part).2 with ⟨dot, whole⟩ | ⟨dot, whole⟩
  · have shape : lower (readAttribute part).2 = '.' :: lower (undot (readAttribute part).2) := by
      rw [whole]
      rfl
    rw [shape, domainMatches_dotted]
    apply decide_eq_decide.mpr
    constructor
    · rintro (same | below)
      · exact .inl same
      · exact .inr ⟨(dotted below).mp dot, below⟩
    · rintro (same | ⟨_, below⟩)
      · exact .inl same
      · exact .inr below
  · rw [whole] at dotted ⊢
    have plain : (lower (readAttribute part).2).head? ≠ some '.' := by
      rw [lower, List.head?_map]
      intro moved
      obtain ⟨c, first, same⟩ := Option.map_eq_some_iff.mp moved
      rw [toLower_eq_iff (by decide)] at same
      exact dot (first.trans (congrArg some same))
    rw [domainMatches_plain plain]
    apply decide_eq_decide.mpr
    constructor
    · exact .inl
    · rintro (same | ⟨name, below⟩)
      · exact same
      · exact absurd ((dotted below).mpr name) dot

theorem pathMatches_eq {url : RequestUrl} {path : List Char}
    (boundary : path <+: url.path.toList → PathMatch url.path.toList path) :
    pathMatches url.path (String.ofList path) = decide (PathMatch url.path.toList path) := by
  unfold pathMatches
  by_cases root : String.ofList path = "/"
  · -- the root is a prefix of every path, and ends at a slash
    have shape : path = ['/'] := by
      rw [← String.toList_ofList (l := path), root]
      rfl
    have opens : ['/'] <+: url.path.toList := by
      have rooted := url.rooted
      cases chars : url.path.toList with
      | nil => simp [chars] at rooted
      | cons c rest =>
        obtain rfl : c = '/' := by simpa [chars] using rooted
        exact ⟨rest, rfl⟩
    rw [if_pos root, shape]
    exact (decide_eq_true (.inr ⟨opens, .inl rfl⟩)).symm
  · rw [if_neg root, String.toList_ofList]
    apply decide_eq_decide.mpr
    constructor
    · exact boundary
    · rintro (same | ⟨front, _⟩)
      · exact same ▸ List.prefix_rfl
      · exact front

theorem Faithful.read {url sender : RequestUrl} {bridge : CookieBridge} {header : HeaderText}
    (faithful : Faithful url bridge sender header) :
    (parseSetCookie header.text sender.toUrl = none ∧ setCookie header.text.toList sender.request = none) ∨
      ∃ cookie stored, parseSetCookie header.text sender.toUrl = some cookie ∧
        setCookie header.text.toList sender.request = some stored ∧ Agree url cookie stored := by
  obtain ⟨first, pieces, none | ⟨name, value, cookie, split, named, parsed, names, values, domains, paths⟩⟩ :=
    parse_cases header sender.toUrl
  · exact .inl ⟨none.1, none.2 _⟩
  · right
    -- the path of both is the one that the last attribute gives, or the root
    have path : cookie.path.toList = pathAttribute header.parts ∧
        pathMatches url.path cookie.path =
          decide (PathMatch url.path.toList (pathAttribute header.parts)) := by
      unfold pathAttribute
      cases last : lastAttribute "path".toList header.parts with
      | none =>
        have absent := findSome?_of_find?_none (fun _ member => path_kind member) last
        rw [absent, Option.getD_none] at paths
        rw [paths]
        exact ⟨rfl, @pathMatches_eq url ['/'] fun opens => .inr ⟨opens, .inl rfl⟩⟩
      | some part =>
        have here := faithful.path part last
        rw [path_of_last last here.written, Option.getD_some, here.cased] at paths
        simp only [if_pos here.rooted]
        rw [paths, String.toList_ofList]
        exact ⟨rfl, pathMatches_eq here.boundary⟩
    unfold setCookie
    simp only [pieces, split, if_neg named]
    cases last : lastAttribute "domain".toList header.parts with
    | none =>
      have absent := findSome?_of_find?_none (fun _ member => domain_kind member) last
      rw [absent, Option.getD_none] at domains
      rw [domainAttribute_of_none last, if_pos rfl]
      refine ⟨cookie, _, parsed, rfl, names, values, path.1, ?_, ?_⟩
      · rcases undot_cases sender.request.host with ⟨dot, _⟩ | ⟨_, whole⟩
        · exact absurd dot (faithful.host last)
        · rw [domains]
          exact whole
      · have own := domainMatches_plain (faithful.host last) (url.host.getD "")
        rw [show String.ofList sender.request.host = sender.host.getD "" from String.ofList_toList] at own
        rw [path.2, domains, own]
        rfl
    | some part =>
      have here := faithful.domain part last
      have some_value : (readAttribute part).2 ≠ [] := fun empty => here.given (by rw [empty]; rfl)
      have given : lower (undot (readAttribute part).2) ≠ [] := fun empty =>
        here.given (List.map_eq_nil_iff.mp empty)
      rw [domain_of_last last here.written, Option.getD_some] at domains
      rw [domainAttribute_of_last last some_value, if_neg given, if_pos here.allowed]
      refine ⟨cookie, _, parsed, rfl, names, values, path.1, ?_, ?_⟩
      · rw [domains, String.toList_ofList, ← lower_undot]
      · rw [path.2, domains, here.matches]
        rfl

/-! ### Runs -/

/-- The bridge, and what the rules keep of the same headers. -/
structure Jars where
  bridge : CookieBridge
  store : List Stored

/-- A header, with the request whose answer brought it. -/
structure Arrival where
  sender : RequestUrl
  header : HeaderText

namespace Jars

def start : Jars := ⟨.new, []⟩

def arrive (jars : Jars) (arrival : Arrival) : Jars :=
  { bridge := jars.bridge.ingest (parseSetCookie arrival.header.text arrival.sender.toUrl).toList
    store := receive jars.store arrival.header.text.toList arrival.sender.request }

/-- The cookies that go with a request, by name, value and path, are those of the rules. -/
def SentAsRuled (jars : Jars) (url : RequestUrl) : Prop :=
  ((jars.bridge.cookiesForUrl url).map fun cookie =>
      (cookie.name.toList, cookie.value.toList, cookie.path.toList)) =
    (jars.store.filter (Stored.sentWith url.request)).map fun stored =>
      (stored.name, stored.value, stored.path)

instance (jars : Jars) (url : RequestUrl) : Decidable (jars.SentAsRuled url) :=
  inferInstanceAs (Decidable (_ = _))

/-- The runs that take only headers of some kind. -/
abbrev Reached (kind : Jars → Arrival → Prop) : Jars → Prop :=
  Reachable (fun jars arrival next => next = jars.arrive arrival) kind start

variable {jars : Jars} {url : RequestUrl} {arrival : Arrival}

/-- Every cookie has its counterpart, in the same place. -/
def Aligned (url : RequestUrl) (jars : Jars) : Prop :=
  List.Forall₂ (Agree url) jars.bridge.cookies jars.store

theorem Aligned.arrive (aligned : Aligned url jars)
    (faithful : Faithful url jars.bridge arrival.sender arrival.header) :
    Aligned url (jars.arrive arrival) := by
  rcases faithful.read with ⟨unread, none⟩ | ⟨cookie, stored, parsed, kept, agree⟩
  · unfold Aligned Jars.arrive receive
    rw [unread, none]
    exact aligned
  · unfold Aligned Jars.arrive receive
    rw [parsed, kept]
    apply upsert_forall₂ aligned agree
    -- the old cookies of the same key are at the same places
    intro old member other here
    have key := faithful.key cookie parsed old member
    rw [Bool.eq_iff_iff]
    simp only [Stored.sameKey, Bool.and_eq_true, decide_eq_true_eq, ← here.name, ← agree.name, ← here.path,
      ← agree.path, ← here.domain, ← agree.domain, String.toList_inj]
    constructor
    · rintro ⟨⟨name, domain⟩, path⟩
      exact ⟨⟨name, by rw [domain]⟩, path⟩
    · rintro ⟨⟨name, domain⟩, path⟩
      exact ⟨⟨name, key name path domain⟩, path⟩

theorem Aligned.sentAsRuled (aligned : Aligned url jars) : jars.SentAsRuled url := by
  have kept : List.Forall₂ (Agree url)
      (jars.bridge.cookies.filter fun c =>
        domainMatches (url.host.getD "") c.domain && pathMatches url.path c.path)
      (jars.store.filter (Stored.sentWith url.request)) :=
    List.rel_filter (fun _ _ agree => by
      show _ = true ↔ _ = true
      rw [agree.sent]) aligned
  have shown : List.Forall₂ Eq
      ((jars.bridge.cookiesForUrl url).map fun cookie =>
        (cookie.name.toList, cookie.value.toList, cookie.path.toList))
      ((jars.store.filter (Stored.sentWith url.request)).map fun stored =>
        (stored.name, stored.value, stored.path)) := by
    rw [List.forall₂_map_left_iff, List.forall₂_map_right_iff]
    exact kept.imp fun _ _ agree => by rw [agree.name, agree.value, agree.path]
  rw [List.forall₂_eq_eq_eq] at shown
  exact shown

end Jars

/-- In every run whose headers are all faithful for a request, the bridge returns for it what
the rules send with it. -/
theorem Jars.sent_as_ruled (url : RequestUrl) {jars : Jars}
    (reached : Reached (fun jars arrival => Faithful url jars.bridge arrival.sender arrival.header) jars) :
    jars.SentAsRuled url := by
  apply Aligned.sentAsRuled
  induction reached with
  | start => exact .nil
  | step _ faithful taken ih =>
    subst taken
    exact ih.arrive faithful

/-! ### A path in upper case, and a faithful run -/

namespace CookieRuns

def siteUrl (host path : String) (rooted : path.toList.head? = some '/') : RequestUrl :=
  { text := "https://" ++ host ++ path, host := some host, address := false, path, rooted }

def adminCookie : Arrival :=
  { sender := siteUrl "a.test" "/" rfl
    header := { text := "sid=1; Path=/Admin", visible := forall_of_all (by decide) } }

def adminUrl : RequestUrl := siteUrl "a.test" "/Admin" rfl

/-- The path of the cookie is kept in lower case, so that the cookie is lost for the path it
was set for. -/
theorem path_loses_case :
    Jars.Reached (fun _ _ => True) (Jars.start.arrive adminCookie) ∧
      (Jars.start.arrive adminCookie).store.map (·.path) = ["/Admin".toList] ∧
      (Jars.start.arrive adminCookie).bridge.cookies.map (·.path) = ["/admin"] ∧
      ¬ (Jars.start.arrive adminCookie).SentAsRuled adminUrl :=
  ⟨.step .start trivial rfl, by decide, by decide, by decide⟩

def appCookie : Arrival :=
  { sender := siteUrl "www.a.test" "/" rfl
    header := { text := "sid=1; Domain=.A.test; Path=/app", visible := forall_of_all (by decide) } }

def pageUrl : RequestUrl := siteUrl "b.a.test" "/app/x" rfl

theorem app_faithful : Faithful pageUrl Jars.start.bridge appCookie.sender appCookie.header where
  host none := absurd none (by decide)
  domain part last := by
    have here : lastAttribute "domain".toList appCookie.header.parts = some " Domain=.A.test".toList := by
      decide
    obtain rfl := Option.some.inj (here.symm.trans last)
    exact
      { written := ⟨" Domain".toList, ".A.test".toList, by decide, by decide⟩
        given := by decide
        allowed := by decide
        dotted := by decide }
  path part last := by
    have here : lastAttribute "path".toList appCookie.header.parts = some " Path=/app".toList := by
      decide
    obtain rfl := Option.some.inj (here.symm.trans last)
    exact
      { written := ⟨" Path".toList, "/app".toList, by decide, by decide⟩
        rooted := by decide
        cased := by decide
        boundary := by decide }
  key _ _ _ member := absurd member List.not_mem_nil

theorem app_sent : (Jars.start.arrive appCookie).SentAsRuled pageUrl ∧
      ((Jars.start.arrive appCookie).bridge.cookiesForUrl pageUrl).map (·.name) = ["sid"] :=
  ⟨Jars.sent_as_ruled pageUrl (.step .start app_faithful rfl), by decide⟩

end CookieRuns

end Webfang.Downloader
