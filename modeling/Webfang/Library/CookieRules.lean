import Webfang.Library.Text

/-!
# The rules of cookies

What a user agent keeps of a `Set-Cookie` header, and to which requests it sends what it
keeps: domains with the host-only flag, and paths up to a slash boundary. The default path
is the root. Attributes that are about time and about secure channels are not read.
-/
namespace Library.CookieRules

/-! ### Headers -/

/-- A space or a tab. -/
def isWsp (c : Char) : Bool := c == ' ' || c == '\t'

def trim (text : List Char) : List Char := trimEnds isWsp text

def lower (text : List Char) : List Char := text.map Char.toLower

/-- A name and a value, split at the first equals sign. -/
def pair (text : List Char) : Option (List Char × List Char) :=
  let name := text.takeWhile (· ≠ '=')
  match text.drop name.length with
  | [] => none
  | _ :: value => some (trim name, trim value)

/-- An attribute: its name in lower case and its value, which may be missing. -/
def readAttribute (part : List Char) : List Char × List Char :=
  match pair part with
  | some (name, value) => (lower name, value)
  | none => (lower (trim part), [])

def lastAttribute (name : List Char) (parts : List (List Char)) : Option (List Char) :=
  parts.reverse.find? fun part => (readAttribute part).1 = name

def undot : List Char → List Char
  | '.' :: rest => rest
  | text => text

/-- The last domain that is not empty, without its leading dot. -/
def domainAttribute (parts : List (List Char)) : List Char :=
  match parts.reverse.find? fun part =>
    (readAttribute part).1 = "domain".toList ∧ (readAttribute part).2 ≠ [] with
  | some part => lower (undot (readAttribute part).2)
  | none => []

/-- A path that does not start at the root is as good as none. -/
def pathAttribute (parts : List (List Char)) : List Char :=
  match lastAttribute "path".toList parts with
  | some part => if (readAttribute part).2.head? = some '/' then (readAttribute part).2 else ['/']
  | none => ['/']

/-! ### Matching -/

/-- The host and the path of a request. An address is no host name. -/
structure Request where
  host : List Char
  address : Bool
  path : List Char

def Below (host domain : List Char) : Prop := '.' :: domain <:+ host

instance (host domain : List Char) : Decidable (Below host domain) := inferInstanceAs (Decidable (_ <:+ _))

def DomainMatch (request : Request) (domain : List Char) : Prop :=
  request.host = domain ∨ request.address = false ∧ Below request.host domain

instance (request : Request) (domain : List Char) : Decidable (DomainMatch request domain) :=
  inferInstanceAs (Decidable (_ ∨ _))

/-- The paths are equal, or one is a prefix of the other that ends at a slash. -/
def PathMatch (requested path : List Char) : Prop :=
  requested = path ∨
    path <+: requested ∧ (path.getLast? = some '/' ∨ (requested.drop path.length).head? = some '/')

instance (requested path : List Char) : Decidable (PathMatch requested path) :=
  inferInstanceAs (Decidable (_ ∨ _))

/-! ### The store -/

structure Stored where
  name : List Char
  value : List Char
  domain : List Char
  hostOnly : Bool
  path : List Char

def setCookie (header : List Char) (sender : Request) : Option Stored :=
  match header.splitOn ';' with
  | [] => none
  | first :: parts =>
    match pair first with
    | none => none
    | some (name, value) =>
      if name = [] then none
      else
        let domain := domainAttribute parts
        let path := pathAttribute parts
        if domain = [] then some { name, value, domain := sender.host, hostOnly := true, path }
        else if DomainMatch sender domain then some { name, value, domain, hostOnly := false, path }
        else none

/-- The first element that has the key is replaced, or else the new one goes last. -/
def upsert {α : Type} (sameKey : α → Bool) (new : α) : List α → List α
  | [] => [new]
  | old :: rest => if sameKey old then new :: rest else old :: upsert sameKey new rest

def Stored.sameKey (new old : Stored) : Bool :=
  old.name = new.name && old.domain = new.domain && old.path = new.path

def receive (store : List Stored) (header : List Char) (sender : Request) : List Stored :=
  match setCookie header sender with
  | some new => upsert new.sameKey new store
  | none => store

def Stored.sentWith (request : Request) (cookie : Stored) : Bool :=
  (if cookie.hostOnly then decide (request.host = cookie.domain)
    else decide (DomainMatch request cookie.domain)) &&
    decide (PathMatch request.path cookie.path)

/-! ### Blanks and letter case -/

theorem isWsp_iff (c : Char) : isWsp c = true ↔ c.toNat = 32 ∨ c.toNat = 9 := by
  have same (d : Char) : c = d ↔ c.toNat = d.toNat := Char.toNat_inj.symm
  simp [isWsp, same]

theorem isWsp_toLower (c : Char) : isWsp c.toLower = isWsp c := by
  rw [Bool.eq_iff_iff, isWsp_iff, isWsp_iff]
  rcases toLower_cases c with same | ⟨low, high, moved⟩
  · rw [same]
  · omega

theorem lower_append (front back : List Char) : lower (front ++ back) = lower front ++ lower back :=
  List.map_append

theorem mem_lower {c : Char} (other : c.toNat < 65) {text : List Char} : c ∈ lower text ↔ c ∈ text := by
  simp only [lower, List.mem_map, toLower_eq_iff other, exists_eq_right]

theorem trim_dropWhile (text : List Char) : trim (text.dropWhile isWsp) = trim text := trimEnds_dropWhile text

theorem trim_rdropWhile (text : List Char) : trim (text.rdropWhile isWsp) = trim text := trimEnds_rdropWhile text

theorem lower_dropWhile (text : List Char) : lower (text.dropWhile isWsp) = (lower text).dropWhile isWsp := by
  rw [lower, lower, List.dropWhile_map]
  simp [Function.comp_def, isWsp_toLower]

theorem lower_rdropWhile (text : List Char) :
    lower (text.rdropWhile isWsp) = (lower text).rdropWhile isWsp := by
  have mirrored := lower_dropWhile text.reverse
  simp only [lower, List.map_reverse] at mirrored ⊢
  simp only [List.rdropWhile, List.map_reverse, mirrored]

theorem lower_trim (text : List Char) : lower (trim text) = trim (lower text) := by
  rw [trim, trimEnds, lower_rdropWhile, lower_dropWhile, trim, trimEnds]

/-! ### Names and values -/

theorem takeWhile_split {before : List Char} (first : '=' ∉ before) (after : List Char) :
    (before ++ '=' :: after).takeWhile (· ≠ '=') = before := by
  rw [List.takeWhile_append_of_pos]
  · simp
  · intro c member
    have apart : c ≠ '=' := fun same => first (same ▸ member)
    simpa using apart

theorem pair_split {before : List Char} (first : '=' ∉ before) (after : List Char) :
    pair (before ++ '=' :: after) = some (trim before, trim after) := by
  unfold pair
  simp only [takeWhile_split first, List.drop_left]

theorem pair_of_absent {text : List Char} (absent : '=' ∉ text) : pair text = none := by
  have whole : text.takeWhile (· ≠ '=') = text := by
    rw [List.takeWhile_eq_self_iff]
    intro c member
    have apart : c ≠ '=' := fun same => absent (same ▸ member)
    simpa using apart
  unfold pair
  simp only [whole, List.drop_length]

theorem mem_of_mem_trim {c : Char} {text : List Char} (member : c ∈ trim text) : c ∈ text :=
  mem_of_mem_trimEnds member

/-- A text either has no equals sign, or splits at its first one. -/
theorem split_cases (text : List Char) :
    '=' ∉ text ∨ ∃ before after, text = before ++ '=' :: after ∧ '=' ∉ before := by
  by_cases member : '=' ∈ text
  · exact .inr (List.eq_append_cons_of_mem member)
  · exact .inl member

/-- A split text, trimmed at its ends. -/
theorem trim_split (before after : List Char) :
    trim (before ++ '=' :: after) = before.dropWhile isWsp ++ '=' :: after.rdropWhile isWsp := by
  rw [trim, trimEnds, dropWhile_append_stop rfl, rdropWhile_append_stop rfl]

/-- A trimmed text splits into the same name and value. -/
theorem pair_trim (text : List Char) : pair (trim text) = pair text := by
  rcases split_cases text with absent | ⟨before, after, rfl, first⟩
  · have shorter : '=' ∉ trim text := mt mem_of_mem_trim absent
    rw [pair_of_absent absent, pair_of_absent shorter]
  · have kept : '=' ∉ before.dropWhile isWsp := fun member => first ((List.dropWhile_suffix _).subset member)
    rw [trim_split, pair_split kept, pair_split first, trim_dropWhile, trim_rdropWhile]

/-- An attribute with its name right before the equals sign. -/
def Written (name part : List Char) : Prop :=
  ∃ before after, part = before ++ '=' :: after ∧ lower (before.dropWhile isWsp) = name

section Written

variable {name part : List Char} (clean : ∀ c ∈ name, isWsp c = false ∧ c ≠ '=')
include clean

theorem not_mem_before {before : List Char} (named : lower (before.dropWhile isWsp) = name) :
    '=' ∉ before := by
  intro member
  have kept : '=' ∈ before.dropWhile isWsp := by
    rw [← List.takeWhile_append_dropWhile (p := isWsp) (l := before)] at member
    rcases List.mem_append.mp member with blank | kept
    · have := List.mem_takeWhile_imp blank
      contradiction
    · exact kept
  rw [← mem_lower (by decide), named] at kept
  exact (clean _ kept).2 rfl

theorem readAttribute_of_written {before after : List Char} (named : lower (before.dropWhile isWsp) = name) :
    readAttribute (before ++ '=' :: after) = (name, trim after) := by
  have whole : lower (trim before) = name := by
    rw [trim, trimEnds, lower_rdropWhile, named, List.rdropWhile_eq_self_iff]
    intro more
    simp [(clean _ (List.getLast_mem more)).1]
  unfold readAttribute
  rw [pair_split (not_mem_before clean named)]
  simp [whole]

omit clean in
theorem lower_trim_of_written {before : List Char} (after : List Char)
    (named : lower (before.dropWhile isWsp) = name) :
    lower (trim (before ++ '=' :: after)) = name ++ '=' :: lower (after.rdropWhile isWsp) := by
  rw [trim_split, lower_append, named]
  rfl

/-- The trimmed attribute starts with the name and an equals sign just when it is so written. -/
theorem written_iff : name ++ ['='] <+: lower (trim part) ↔ Written name part := by
  constructor
  · rintro ⟨rest, whole⟩
    rcases split_cases part with absent | ⟨before, after, rfl, first⟩
    · -- without an equals sign there is none in the trimmed text
      have member : '=' ∈ lower (trim part) := by simp [← whole]
      rw [mem_lower (by decide)] at member
      exact absurd (mem_of_mem_trim member) absent
    · refine ⟨before, after, rfl, ?_⟩
      rw [trim_split, lower_append] at whole
      have kept : '=' ∉ lower (before.dropWhile isWsp) := by
        rw [mem_lower (by decide)]
        exact fun member => first ((List.dropWhile_suffix _).subset member)
      -- both sides stop at their first equals sign
      have fronts := congrArg (List.takeWhile (· ≠ '=')) whole
      rw [List.append_assoc, List.singleton_append, takeWhile_split fun member => (clean _ member).2 rfl,
        show lower ('=' :: after.rdropWhile isWsp) = '=' :: lower (after.rdropWhile isWsp) from rfl,
        takeWhile_split kept] at fronts
      exact fronts.symm
  · rintro ⟨before, after, rfl, named⟩
    rw [lower_trim_of_written after named]
    exact ⟨lower (after.rdropWhile isWsp), by simp⟩

end Written

/-! ### The last of some attributes -/

section Last

variable {α β : Type} {p q : α → Bool} {f : α → Option β} {list : List α} {a : α} {b : β}

/-- The first element of a kind settles a search that reads elements of this kind only. -/
theorem findSome?_of_find? (kind : ∀ x ∈ list, (f x).isSome = true → p x = true)
    (found : list.find? p = some a) (here : f a = some b) : list.findSome? f = some b := by
  induction list with
  | nil => simp at found
  | cons x rest ih =>
    rw [List.find?_cons] at found
    cases first : p x with
    | true =>
      obtain rfl : x = a := by simpa [first] using found
      rw [List.findSome?_cons, here]
    | false =>
      have unread : f x = none := by
        cases read : f x with
        | none => rfl
        | some c => simp [kind x List.mem_cons_self (by simp [read])] at first
      rw [List.findSome?_cons, unread]
      exact ih (fun y member => kind y (List.mem_cons_of_mem _ member)) (by simpa [first] using found)

theorem findSome?_of_find?_none (kind : ∀ x ∈ list, (f x).isSome = true → p x = true)
    (none : list.find? p = none) :
    list.findSome? f = Option.none := by
  rw [List.findSome?_eq_none_iff]
  intro x member
  have other := List.find?_eq_none.mp none x member
  cases read : f x with
  | none => rfl
  | some c => exact absurd (kind x member (by simp [read])) other

theorem find?_and (found : list.find? p = some a) (too : q a = true) :
    list.find? (fun x => p x && q x) = some a := by
  induction list with
  | nil => simp at found
  | cons x rest ih =>
    rw [List.find?_cons] at found ⊢
    cases first : p x with
    | true =>
      obtain rfl : x = a := by simpa [first] using found
      simp [too]
    | false =>
      simp only [Bool.false_and]
      exact ih (by simpa [first] using found)

theorem find?_and_none (none : list.find? p = none) : list.find? (fun x => p x && q x) = Option.none := by
  rw [List.find?_eq_none] at none ⊢
  intro x member both
  exact none x member (Bool.and_eq_true_iff.mp both).1

/-- The elements of a list in turn, each setting what it reads. -/
theorem foldl_getD (f : α → Option β) (list : List α) (start : β) :
    list.foldl (fun held x => (f x).getD held) start = (list.reverse.findSome? f).getD start := by
  induction list generalizing start with
  | nil => rfl
  | cons x rest ih =>
    rw [List.foldl_cons, ih, List.reverse_cons, List.findSome?_append]
    cases rest.reverse.findSome? f <;> cases read : f x <;> simp [List.findSome?, read]

end Last

theorem domainAttribute_of_last {parts : List (List Char)} {part : List Char}
    (last : lastAttribute "domain".toList parts = some part) (value : (readAttribute part).2 ≠ []) :
    domainAttribute parts = lower (undot (readAttribute part).2) := by
  have found := find?_and (q := fun part => decide ((readAttribute part).2 ≠ [])) last (by simpa using value)
  unfold domainAttribute
  simp only [Bool.decide_and]
  rw [found]

theorem domainAttribute_of_none {parts : List (List Char)}
    (none : lastAttribute "domain".toList parts = none) :
    domainAttribute parts = [] := by
  have absent := find?_and_none (q := fun part => decide ((readAttribute part).2 ≠ [])) none
  unfold domainAttribute
  simp only [Bool.decide_and]
  rw [absent]

theorem upsert_forall₂ {α β : Type} {R : α → β → Prop} {p : α → Bool} {q : β → Bool} {olds : List α}
    {others : List β} {a : α} {b : β} (held : List.Forall₂ R olds others) (new : R a b)
    (keys : ∀ x ∈ olds, ∀ y, R x y → p x = q y) : List.Forall₂ R (upsert p a olds) (upsert q b others) := by
  induction held with
  | nil => exact .cons new .nil
  | @cons x y olds others here _ ih =>
    rw [upsert, upsert, keys x List.mem_cons_self y here]
    cases q y with
    | true => exact .cons new ‹_›
    | false => exact .cons here (ih fun x member => keys x (List.mem_cons_of_mem _ member))

end Library.CookieRules
