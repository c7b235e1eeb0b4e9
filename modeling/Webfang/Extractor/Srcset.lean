import Webfang.Library.Counting
import Webfang.Domain.ValidUrl
import Webfang.Assets.AssetNames

/-!
# The images of a page

`extract_images` of `extractor/mod.rs`. A `srcset` is split at every comma and the first word of
each part is a URL. The HTML grammar reads it by state: a comma inside a URL is part of it, one
inside the parentheses of a descriptor part of that, and only another ends a candidate. The two
agree on the text of each candidate by itself, since both start anew behind the comma that ends it.
The HTML parser selects the elements: a document is what it selects.
-/
namespace Webfang.Extractor

open Library
open Domain (UrlCrate ValidUrl)
open Assets (AssetType detectFromPath)

/-- The `url` crate with what the extractor asks of it beside the hardening gate. -/
structure AssetCrate extends UrlCrate where
  path : Url → String
  join : Url → String → Option Url

structure AssetUrl (crate : AssetCrate) where
  url : ValidUrl crate.toUrlCrate
  assetType : AssetType
  alt : Option String

structure ImgElement where
  src : Option String
  srcset : Option String
  alt : Option String

/-- The `img` elements and the `srcset`s of the `source` elements, in document order. -/
structure Document where
  imgs : List ImgElement
  sources : List String

/-- Splits at every comma; `trim`, then the first word. -/
def parseSrcset (srcset : String) : List String :=
  (srcset.toList.splitOn ',').filterMap fun part =>
    (Text.splitWhitespace (Text.trim (String.ofList part))).head?.filter (· ≠ "")

namespace AssetCrate

variable (crate : AssetCrate)

def detectFromUrl (url : String) : AssetType :=
  match crate.parse url with
  | .ok parsed => detectFromPath (crate.path parsed)
  | .error _ => .unknown

def processAssetSrc (src : String) (baseUrl : crate.Url) (alt : Option String) :
    Option (AssetUrl crate) :=
  if src = "" ∨ src.toList.head? = some '#' then none
  else do
    let joined ← crate.join baseUrl src
    let url ← (ValidUrl.tryFromUrl joined : Except _ (ValidUrl crate.toUrlCrate)).toOption
    some ⟨url, crate.detectFromUrl (crate.asStr url.url), alt⟩

def image (baseUrl : crate.Url) (alt : Option String) (src : String) : Option (AssetUrl crate) :=
  (crate.processAssetSrc src baseUrl alt).filter fun asset => asset.assetType = .image

/-- The loop over one `srcset`. -/
def srcsetImages (baseUrl : crate.Url) (srcset : String) : List (AssetUrl crate) :=
  (parseSrcset srcset).filterMap (crate.image baseUrl none)

def extractImages (document : Document) (baseUrl : crate.Url) : List (AssetUrl crate) :=
  document.imgs.filterMap (fun img => img.src.bind (crate.image baseUrl img.alt)) ++
    (document.imgs.filterMap ImgElement.srcset).flatMap (crate.srcsetImages baseUrl) ++
      document.sources.flatMap (crate.srcsetImages baseUrl)

end AssetCrate

/-! ### The first word of a part -/

/-- The first run without white space; nothing if there is none. -/
def firstWord (text : List Char) : List Char :=
  (text.dropWhile Text.isWhitespace).takeWhile fun c => !Text.isWhitespace c

theorem head?_splitOnP {α : Type} (p : α → Bool) (text : List α) :
    (text.splitOnP p).head? = some (text.takeWhile fun a => !p a) := by
  induction text with
  | nil => rfl
  | cons a rest ih =>
    rw [List.splitOnP_cons_eq_if_modifyHead]
    cases stops : p a with
    | true => simp [stops]
    | false => simp [stops, List.head?_modifyHead, ih]

theorem head?_words (text : List Char) :
    (((text.splitOnP Text.isWhitespace).filter fun word => !word.isEmpty).head?).getD [] = firstWord text := by
  unfold firstWord
  induction text with
  | nil => rfl
  | cons a rest ih =>
    rw [List.splitOnP_cons_eq_if_modifyHead]
    cases blank : Text.isWhitespace a with
    | true => simpa [blank] using ih
    | false =>
      have next := head?_splitOnP Text.isWhitespace rest
      cases parts : rest.splitOnP Text.isWhitespace with
      | nil => exact absurd parts (List.splitOnP_ne_nil _ rest)
      | cons part later =>
        rw [parts] at next
        cases next
        simp [blank]

theorem takeWhile_append_of_stops {α : Type} {p : α → Bool} {back : List α} (stops : ∀ a ∈ back, p a = false)
    (front : List α) : (front ++ back).takeWhile p = front.takeWhile p := by
  induction front with
  | nil =>
    cases back with
    | nil => rfl
    | cons a back => simp [stops a List.mem_cons_self]
  | cons a front ih =>
    rw [List.cons_append, List.takeWhile_cons, List.takeWhile_cons, ih]

theorem firstWord_trimEnds (text : List Char) :
    firstWord (trimEnds Text.isWhitespace text) = firstWord text := by
  have kept : (text.dropWhile Text.isWhitespace).rdropWhile Text.isWhitespace ++
      (text.dropWhile Text.isWhitespace).rtakeWhile Text.isWhitespace = text.dropWhile Text.isWhitespace :=
    List.rdropWhile_append_rtakeWhile
  have blank : ∀ c ∈ (text.dropWhile Text.isWhitespace).rtakeWhile Text.isWhitespace,
      (!Text.isWhitespace c) = false := fun c member => by simpa using List.mem_rtakeWhile_imp member
  unfold firstWord trimEnds
  rw [← dropWhile_rdropWhile, List.dropWhile_idempotent, dropWhile_rdropWhile, ← takeWhile_append_of_stops blank, kept]

def readPart (part : List Char) : Option (List Char) :=
  if firstWord part = [] then none else some (firstWord part)

/-- The words of a text that stand first between commas. -/
def pieces (text : List Char) : List (List Char) := (text.splitOn ',').filterMap readPart

theorem parseSrcset_eq (srcset : String) : parseSrcset srcset = (pieces srcset.toList).map String.ofList := by
  unfold parseSrcset pieces
  rw [List.map_filterMap]
  apply List.filterMap_congr
  intro part _
  have words := head?_words (trimEnds Text.isWhitespace part)
  rw [firstWord_trimEnds] at words
  have split : Text.splitWhitespace (Text.trim (String.ofList part)) =
      (((trimEnds Text.isWhitespace part).splitOnP Text.isWhitespace).filter fun word => !word.isEmpty).map
        String.ofList := by
    simp [Text.splitWhitespace, Text.trim, trimEnds]
  rw [split, List.head?_map]
  unfold readPart
  cases first : (((trimEnds Text.isWhitespace part).splitOnP Text.isWhitespace).filter
      fun word => !word.isEmpty).head? with
  | none =>
    rw [first] at words
    simp [← words]
  | some word =>
    have nonempty : word ≠ [] := by
      have kept := (List.mem_filter.mp (List.mem_of_mem_head? first)).2
      simpa using kept
    rw [first] at words
    have text : String.ofList word ≠ "" := by
      intro none
      exact nonempty (by simpa using congrArg String.toList none)
    simp [← words, nonempty, text, Option.filter]

theorem pieces_append (front back : List Char) : pieces (front ++ ',' :: back) = pieces front ++ pieces back := by
  rw [pieces, List.splitOn_append_cons_self, List.filterMap_append]
  rfl

theorem pieces_skip {c : Char} (blank : Text.isWhitespace c = true) (text : List Char) :
    pieces (c :: text) = pieces text := by
  have plain : (c == ',') = false := by
    rw [beq_eq_false_iff_ne]
    rintro rfl
    exact absurd blank (by decide)
  unfold pieces
  rw [List.splitOn_cons_eq_if_modifyHead, plain]
  cases parts : text.splitOn ',' with
  | nil => exact absurd parts (List.splitOn_ne_nil _ _)
  | cons part rest =>
    have same : readPart (c :: part) = readPart part := by
      unfold readPart firstWord
      rw [List.dropWhile_cons_of_pos blank]
    simp only [Bool.false_eq_true, if_false, List.modifyHead_cons, List.filterMap_cons, same]

theorem firstWord_append {word back : List Char} (nonempty : word ≠ [])
    (solid : ∀ c ∈ word, Text.isWhitespace c = false)
    (stops : ∀ c, back.head? = some c → Text.isWhitespace c = true) : firstWord (word ++ back) = word := by
  cases word with
  | nil => exact absurd rfl nonempty
  | cons first word =>
    have opens : Text.isWhitespace first = false := solid first List.mem_cons_self
    have runs : ∀ c ∈ first :: word, (!Text.isWhitespace c) = true := fun c member => by simp [solid c member]
    have ends : back.takeWhile (fun c => !Text.isWhitespace c) = [] := by
      cases back with
      | nil => rfl
      | cons c back => simp [stops c rfl]
    unfold firstWord
    rw [List.cons_append, List.dropWhile_cons_of_neg (by simp [opens]), ← List.cons_append,
      List.takeWhile_append_of_pos runs, ends, List.append_nil]

theorem pieces_flat {text word : List Char} (flat : ',' ∉ text) (read : readPart text = some word) :
    pieces text = [word] := by
  rw [pieces, List.splitOn_eq_singleton flat, List.filterMap_cons_some read]
  rfl

/-- A word at the beginning of a text is read, and then what follows the next comma. -/
theorem pieces_word {word : List Char} (nonempty : word ≠ [])
    (solid : ∀ c ∈ word, c ≠ ',' ∧ Text.isWhitespace c = false) (back : List Char)
    (stops : ∀ c, back.head? = some c → c = ',' ∨ Text.isWhitespace c = true) :
    pieces (word ++ back) = word :: pieces (back.dropWhile (· ≠ ',')) := by
  have flat : ',' ∉ back.takeWhile (· ≠ ',') := fun member => by simpa using List.mem_takeWhile_imp member
  have read : readPart (word ++ back.takeWhile (· ≠ ',')) = some word := by
    have same : firstWord (word ++ back.takeWhile (· ≠ ',')) = word := by
      refine firstWord_append nonempty (fun c member => (solid c member).2) fun c first => ?_
      have member := List.mem_of_mem_head? first
      cases back with
      | nil => cases member
      | cons d back =>
        rcases stops d rfl with rfl | blank
        · simp at member
        · rw [List.takeWhile_cons] at first
          split at first
          next => cases first; exact blank
          next => cases first
    rw [readPart, same, if_neg nonempty]
  have alone : ',' ∉ word ++ back.takeWhile (· ≠ ',') := by
    rw [List.mem_append]
    rintro (inside | behind)
    · exact (solid _ inside).1 rfl
    · exact flat behind
  have split := List.takeWhile_append_dropWhile (p := (· ≠ ',')) (l := back)
  cases later : back.dropWhile (· ≠ ',') with
  | nil =>
    rw [later, List.append_nil] at split
    rw [split] at read alone
    rw [pieces_flat alone read]
    rfl
  | cons c rest =>
    have comma : c = ',' := by
      have opens := List.head?_dropWhile_not (· ≠ ',') back
      rw [later] at opens
      simpa using opens
    subst comma
    have whole : word ++ back = (word ++ back.takeWhile (· ≠ ',')) ++ ',' :: rest := by
      rw [List.append_assoc, ← later, split]
    have anew : pieces (',' :: rest) = pieces rest := by
      rw [← List.nil_append (',' :: rest), pieces_append]
      rfl
    rw [whole, pieces_append, anew, pieces_flat alone read]
    rfl

/-- The word stands first between commas: only white space lies between it and the comma or the
beginning in front of it. -/
structure FirstBetweenCommas (text word : List Char) : Prop where
  nonempty : word ≠ []
  solid : ∀ c ∈ word, c ≠ ',' ∧ Text.isWhitespace c = false
  placed : ∃ front gap back, text = front ++ gap ++ word ++ back ∧
    (front = [] ∨ front.getLast? = some ',') ∧ (∀ c ∈ gap, Text.isWhitespace c = true) ∧
      ∀ c, back.head? = some c → c = ',' ∨ Text.isWhitespace c = true

theorem mem_readPart {part word : List Char} (read : readPart part = some word) :
    word ≠ [] ∧ (∀ c ∈ word, Text.isWhitespace c = false) ∧ ∃ gap back, part = gap ++ word ++ back ∧
      (∀ c ∈ gap, Text.isWhitespace c = true) ∧ ∀ c, back.head? = some c → Text.isWhitespace c = true := by
  unfold readPart at read
  split at read
  next => cases read
  next nonempty =>
    cases read
    refine ⟨nonempty, fun c member => ?_, part.takeWhile Text.isWhitespace,
      (part.dropWhile Text.isWhitespace).dropWhile fun c => !Text.isWhitespace c, ?_,
      fun c member => List.mem_takeWhile_imp member, fun c first => ?_⟩
    · simpa using List.mem_takeWhile_imp (p := fun c => !Text.isWhitespace c) member
    · rw [firstWord, List.append_assoc, List.takeWhile_append_dropWhile, List.takeWhile_append_dropWhile]
    · have stops := List.head?_dropWhile_not (fun c => !Text.isWhitespace c) (part.dropWhile Text.isWhitespace)
      rw [first] at stops
      simpa using stops

theorem firstBetweenCommas_of_mem {text word : List Char} (member : word ∈ pieces text) :
    FirstBetweenCommas text word := by
  by_cases comma : ',' ∈ text
  · obtain ⟨front, back, rfl⟩ := List.append_of_mem comma
    rw [pieces_append] at member
    rcases List.mem_append.mp member with inFront | inBack
    · obtain ⟨nonempty, solid, before, gap, later, split, opens, blank, stops⟩ :=
        firstBetweenCommas_of_mem inFront
      refine ⟨nonempty, solid, before, gap, later ++ ',' :: back, by simp [split], opens, blank, fun c first => ?_⟩
      cases later with
      | nil => exact .inl (Option.some.inj first).symm
      | cons d later => exact stops c first
    · obtain ⟨nonempty, solid, before, gap, later, split, opens, blank, stops⟩ :=
        firstBetweenCommas_of_mem inBack
      refine ⟨nonempty, solid, front ++ ',' :: before, gap, later, by simp [split], .inr ?_, blank, stops⟩
      rcases opens with rfl | ends
      · simp
      · rw [List.getLast?_append, List.getLast?_cons, ends]
        rfl
  · rw [pieces, List.splitOn_eq_singleton comma] at member
    obtain ⟨part, alone, read⟩ := List.mem_filterMap.mp member
    rw [List.mem_singleton.mp alone] at read
    obtain ⟨nonempty, solid, gap, back, split, blank, stops⟩ := mem_readPart read
    refine ⟨nonempty, fun c inside => ⟨?_, solid c inside⟩, [], gap, back, by simpa using split, .inl rfl, blank,
      fun c first => .inr (stops c first)⟩
    rintro rfl
    exact comma (by rw [split]; simp [inside])
termination_by text.length

theorem mem_pieces_iff {text word : List Char} : word ∈ pieces text ↔ FirstBetweenCommas text word := by
  constructor
  · exact firstBetweenCommas_of_mem
  · rintro ⟨nonempty, solid, front, gap, back, rfl, comma, blank, stops⟩
    have first : word ∈ pieces (gap ++ word ++ back) := by
      induction gap with
      | nil =>
        rw [List.nil_append, pieces_word nonempty solid back stops]
        exact List.mem_cons_self
      | cons c gap ih =>
        rw [List.cons_append, List.cons_append, pieces_skip (blank c List.mem_cons_self)]
        exact ih fun d member => blank d (List.mem_cons_of_mem _ member)
    rcases comma with rfl | comma
    · simpa using first
    · obtain ⟨before, rfl⟩ := List.getLast?_eq_some_iff.mp comma
      simp only [List.append_assoc, List.cons_append] at first ⊢
      rw [pieces_append]
      exact List.mem_append_right _ first

/-! ### The grammar -/

def isAsciiWhitespace (c : Char) : Bool :=
  c == '\t' || c == '\n' || c == '\x0C' || c == '\r' || c == ' '

/-- An image candidate: its URL, and what stands behind the URL up to the comma that ends the
candidate. Descriptors are passed over and not judged. -/
structure Candidate where
  url : List Char
  after : List Char
  deriving DecidableEq, Repr

/-- The candidate of a run that no descriptor follows: commas at its end are not of the URL. -/
def Candidate.ofRun (run : List Char) : Candidate := ⟨run.rdropWhile (· == ','), run.rtakeWhile (· == ',')⟩

/-- Where the reader of the HTML grammar is, with what it has read of a candidate. -/
inductive ReadState where
  | between
  | url (run : List Char)
  | descriptor (url after : List Char)
  | parentheses (url after : List Char)
  deriving DecidableEq, Repr

def candidatesFrom : ReadState → List Char → List Candidate
  | .between, [] => []
  | .url run, [] => [.ofRun run]
  | .descriptor url after, [] | .parentheses url after, [] => [⟨url, after⟩]
  | .between, c :: rest =>
    if isAsciiWhitespace c || c == ',' then candidatesFrom .between rest
    else candidatesFrom (.url [c]) rest
  | .url run, c :: rest =>
    if isAsciiWhitespace c then
      if run.getLast? = some ',' then .ofRun run :: candidatesFrom .between rest
      else candidatesFrom (.descriptor run [c]) rest
    else candidatesFrom (.url (run ++ [c])) rest
  | .descriptor url after, c :: rest =>
    if c = ',' then ⟨url, after⟩ :: candidatesFrom .between rest
    else if c = '(' then candidatesFrom (.parentheses url (after ++ [c])) rest
    else candidatesFrom (.descriptor url (after ++ [c])) rest
  | .parentheses url after, c :: rest =>
    if c = ')' then candidatesFrom (.descriptor url (after ++ [c])) rest
    else candidatesFrom (.parentheses url (after ++ [c])) rest

def candidates (srcset : String) : List Candidate := candidatesFrom .between srcset.toList

def Candidate.text (candidate : Candidate) : List Char := candidate.url ++ candidate.after

/-- What has been read of the candidate at hand. -/
def ReadState.text : ReadState → List Char
  | .between => []
  | .url run => run
  | .descriptor link after | .parentheses link after => link ++ after

theorem Candidate.text_ofRun (run : List Char) : (Candidate.ofRun run).text = run :=
  List.rdropWhile_append_rtakeWhile

theorem isWhitespace_of_ascii {c : Char} (blank : isAsciiWhitespace c = true) : Text.isWhitespace c = true := by
  simp only [isAsciiWhitespace, Bool.or_eq_true, beq_iff_eq] at blank
  rcases blank with (((rfl | rfl) | rfl) | rfl) | rfl <;> decide

/-- The code cuts a text as it cuts the candidates of the text one by one. -/
theorem pieces_candidatesFrom (state : ReadState) (rest : List Char) :
    pieces (state.text ++ rest) = (candidatesFrom state rest).flatMap fun candidate => pieces candidate.text := by
  induction rest generalizing state with
  | nil =>
    cases state with
    | between => rfl
    | url run => simp [candidatesFrom, ReadState.text, Candidate.text_ofRun]
    | descriptor url after => simp [candidatesFrom, ReadState.text, Candidate.text]
    | parentheses url after => simp [candidatesFrom, ReadState.text, Candidate.text]
  | cons c rest ih =>
    have goesOn (front : List Char) : front ++ c :: rest = (front ++ [c]) ++ rest := by simp
    cases state with
    | between =>
      rw [candidatesFrom]
      split
      next separator =>
        rw [← ih .between]
        rcases Bool.or_eq_true _ _ |>.mp separator with blank | comma
        · exact pieces_skip (isWhitespace_of_ascii blank) rest
        · rw [eq_of_beq comma]
          exact pieces_append [] rest
      next => exact ih (.url [c])
    | url run =>
      rw [candidatesFrom]
      split
      next blank =>
        split
        next comma =>
          obtain ⟨front, rfl⟩ := List.getLast?_eq_some_iff.mp comma
          have anew : pieces (front ++ [',']) = pieces front := by
            rw [pieces_append]
            exact List.append_nil _
          rw [List.flatMap_cons, Candidate.text_ofRun, ← ih .between, anew, ReadState.text, ReadState.text,
            List.append_assoc, List.singleton_append, pieces_append, pieces_skip (isWhitespace_of_ascii blank)]
          rfl
        next =>
          rw [← ih (.descriptor run [c]), ReadState.text, ReadState.text, goesOn]
      next =>
        rw [← ih (.url (run ++ [c])), ReadState.text, ReadState.text, goesOn]
    | descriptor url after =>
      rw [candidatesFrom]
      split
      next comma =>
        rw [comma, List.flatMap_cons, ← ih .between]
        exact pieces_append (url ++ after) rest
      next =>
        split
        all_goals
          rw [← ih, ReadState.text, ReadState.text, goesOn, List.append_assoc url]
    | parentheses url after =>
      rw [candidatesFrom]
      split
      all_goals
        rw [← ih, ReadState.text, ReadState.text, goesOn, List.append_assoc url]

/-- A candidate has a URL, which is no comma, and a separator behind it. -/
structure Candidate.Delimited (candidate : Candidate) : Prop where
  nonempty : candidate.url ≠ []
  stops : ∀ c, candidate.after.head? = some c → c = ',' ∨ Text.isWhitespace c = true

def ReadState.Begun : ReadState → Prop
  | .between => True
  | .url run => run ≠ [] ∧ run.head? ≠ some ','
  | .descriptor link after | .parentheses link after => after ≠ [] ∧ (⟨link, after⟩ : Candidate).Delimited

theorem Candidate.delimited_ofRun {run : List Char} (begun : (ReadState.url run).Begun) :
    (Candidate.ofRun run).Delimited := by
  obtain ⟨nonempty, opens⟩ := begun
  constructor
  · intro commas
    cases run with
    | nil => exact nonempty rfl
    | cons c run =>
      have comma := List.rdropWhile_eq_nil_iff.mp commas c List.mem_cons_self
      rw [eq_of_beq comma] at opens
      exact opens rfl
  · intro c first
    have comma := List.mem_rtakeWhile_imp (List.mem_of_mem_head? first)
    exact .inl (eq_of_beq comma)

theorem delimited_of_mem (state : ReadState) {rest : List Char} {candidate : Candidate} (begun : state.Begun)
    (member : candidate ∈ candidatesFrom state rest) : candidate.Delimited := by
  induction rest generalizing state with
  | nil =>
    cases state with
    | between => cases member
    | url run =>
      rw [candidatesFrom, List.mem_singleton] at member
      exact member ▸ Candidate.delimited_ofRun begun
    | descriptor url after | parentheses url after =>
      rw [candidatesFrom, List.mem_singleton] at member
      exact member ▸ begun.2
  | cons c rest ih =>
    -- what is read later stands behind the first character
    have later {url after : List Char} (begun : after ≠ [] ∧ (⟨url, after⟩ : Candidate).Delimited) :
        after ++ [c] ≠ [] ∧ (⟨url, after ++ [c]⟩ : Candidate).Delimited := by
      obtain ⟨some_, nonempty, stops⟩ := begun
      refine ⟨by simp, nonempty, fun d first => stops d ?_⟩
      cases after with
      | nil => exact absurd rfl some_
      | cons e after => exact first
    cases state with
    | between =>
      rw [candidatesFrom] at member
      split at member
      next => exact ih .between trivial member
      next other =>
        refine ih (.url [c]) ⟨by simp, fun comma => other ?_⟩ member
        cases comma
        rfl
    | url run =>
      rw [candidatesFrom] at member
      split at member
      next blank =>
        split at member
        next =>
          rcases List.mem_cons.mp member with rfl | member
          · exact Candidate.delimited_ofRun begun
          · exact ih .between trivial member
        next =>
          refine ih (.descriptor run [c]) ⟨by simp, begun.1, fun d first => ?_⟩ member
          cases first
          exact .inr (isWhitespace_of_ascii blank)
      next =>
        refine ih (.url (run ++ [c])) ⟨by simp, ?_⟩ member
        rw [List.head?_append_of_ne_nil _ begun.1]
        exact begun.2
    | descriptor url after =>
      rw [candidatesFrom] at member
      split at member
      next =>
        rcases List.mem_cons.mp member with rfl | member
        · exact begun.2
        · exact ih .between trivial member
      next =>
        split at member
        next => exact ih (.parentheses _ _) (later begun) member
        next => exact ih (.descriptor _ _) (later begun) member
    | parentheses url after =>
      rw [candidatesFrom] at member
      split at member
      next => exact ih (.descriptor _ _) (later begun) member
      next => exact ih (.parentheses _ _) (later begun) member

/-! ### Both readings -/

namespace Candidate

/-- The URL is one word to the code. -/
def Solid (candidate : Candidate) : Prop := ∀ c ∈ candidate.url, c ≠ ',' ∧ Text.isWhitespace c = false

instance : DecidablePred Solid := fun candidate =>
  inferInstanceAs (Decidable (∀ c ∈ candidate.url, c ≠ ',' ∧ Text.isWhitespace c = false))

/-- The text of the candidate beside its URL, from the first comma on; all of it, where the URL is
no word. -/
def remainder (candidate : Candidate) : List Char :=
  if candidate.Solid then candidate.after.dropWhile (· ≠ ',') else candidate.text

variable {candidate : Candidate}

theorem pieces_solid (delimited : candidate.Delimited) (solid : candidate.Solid) :
    pieces candidate.text = candidate.url :: pieces candidate.remainder := by
  rw [remainder, if_pos solid]
  exact pieces_word delimited.nonempty solid candidate.after delimited.stops

theorem pieces_broken (broken : ¬ candidate.Solid) : pieces candidate.text = pieces candidate.remainder := by
  rw [remainder, if_neg broken]

theorem solid_of_mem_pieces {text : List Char} (member : candidate.url ∈ pieces text) : candidate.Solid :=
  (mem_pieces_iff.mp member).solid

end Candidate

/-- The URLs of the candidates. -/
def candidateUrls (srcset : String) : List String :=
  (candidates srcset).map fun candidate => String.ofList candidate.url

namespace AssetCrate

variable (crate : AssetCrate) (baseUrl : crate.Url) (srcset : String)

/-- The images among the URLs, each with the URL it is taken under. -/
def imagesOf (urls : List String) : List (String × AssetUrl crate) :=
  urls.filterMap fun url => (crate.image baseUrl none url).map fun asset => (url, asset)

/-- What is taken from a `srcset` are the images among its candidates, and no URL of a candidate is
cut at its commas. -/
structure ReadsCandidates : Prop where
  images : crate.imagesOf baseUrl (parseSrcset srcset) = crate.imagesOf baseUrl (candidateUrls srcset)
  uncut : ∀ url ∈ candidateUrls srcset, ',' ∈ url.toList → url ∈ parseSrcset srcset

def IsImage (url : List Char) : Prop := (crate.image baseUrl none (String.ofList url)).isSome = true

/-- No URL of a candidate has a comma, none that has white space beyond ASCII is an image, and no
word is one that stands first behind a comma in the rest of a candidate. -/
structure Undivided : Prop where
  commas : ∀ candidate ∈ candidates srcset, ',' ∉ candidate.url
  spaces : ∀ candidate ∈ candidates srcset, crate.IsImage baseUrl candidate.url →
    ∀ c ∈ candidate.url, Text.isWhitespace c = false
  strays : ∀ candidate ∈ candidates srcset, ∀ word, FirstBetweenCommas candidate.remainder word →
    ¬ crate.IsImage baseUrl word

theorem srcsetImages_eq :
    crate.srcsetImages baseUrl srcset = (crate.imagesOf baseUrl (parseSrcset srcset)).map Prod.snd := by
  rw [imagesOf, List.map_filterMap, srcsetImages]
  congr 1
  funext url
  rw [Option.map_map]
  exact Option.map_id'.symm

/-- What a word gives. -/
def taken (url : List Char) : Option (String × AssetUrl crate) :=
  (crate.image baseUrl none (String.ofList url)).map fun asset => (String.ofList url, asset)

theorem taken_eq_none_iff (url : List Char) : crate.taken baseUrl url = none ↔ ¬ crate.IsImage baseUrl url := by
  rw [taken, IsImage, Option.map_eq_none_iff, Bool.not_eq_true, Option.isSome_eq_false_iff,
    Option.isNone_iff_eq_none]

theorem imagesOf_parseSrcset : crate.imagesOf baseUrl (parseSrcset srcset) =
    (candidates srcset).flatMap fun candidate => (pieces candidate.text).filterMap (crate.taken baseUrl) := by
  rw [imagesOf, parseSrcset_eq, List.filterMap_map, ← List.filterMap_flatMap]
  congr 1
  exact pieces_candidatesFrom .between srcset.toList

theorem imagesOf_candidateUrls : crate.imagesOf baseUrl (candidateUrls srcset) =
    (candidates srcset).flatMap fun candidate => (crate.taken baseUrl candidate.url).toList := by
  rw [imagesOf, candidateUrls, List.filterMap_map, List.filterMap_eq_flatMap_toList]
  rfl

theorem strays_iff (candidate : Candidate) :
    (pieces candidate.remainder).filterMap (crate.taken baseUrl) = [] ↔
      ∀ word, FirstBetweenCommas candidate.remainder word → ¬ crate.IsImage baseUrl word := by
  rw [List.filterMap_eq_nil_iff]
  refine forall_congr' fun word => ?_
  rw [mem_pieces_iff, taken_eq_none_iff]

variable {crate baseUrl srcset}

theorem delimited_candidates {candidate : Candidate} (member : candidate ∈ candidates srcset) :
    candidate.Delimited :=
  delimited_of_mem .between trivial member

/-- The code takes nothing under a URL that is no word. -/
theorem ReadsCandidates.solid (reads : crate.ReadsCandidates baseUrl srcset) {candidate : Candidate}
    (member : candidate ∈ candidates srcset) (isImage : crate.IsImage baseUrl candidate.url) : candidate.Solid := by
  obtain ⟨asset, image⟩ := Option.isSome_iff_exists.mp isImage
  have inCandidates : (String.ofList candidate.url, asset) ∈ crate.imagesOf baseUrl (candidateUrls srcset) :=
    List.mem_filterMap.mpr ⟨_, List.mem_map_of_mem member, by rw [image]; rfl⟩
  rw [← reads.images, imagesOf, parseSrcset_eq, List.filterMap_map] at inCandidates
  obtain ⟨word, piece, same⟩ := List.mem_filterMap.mp inCandidates
  obtain ⟨_, _, pair⟩ := Option.map_eq_some_iff.mp same
  have named : word = candidate.url := String.ofList_injective (congrArg Prod.fst pair)
  exact Candidate.solid_of_mem_pieces (named ▸ piece)

/-- A candidate's own image is among those that the code takes from its text. -/
theorem ReadsCandidates.taken_le (reads : crate.ReadsCandidates baseUrl srcset) {candidate : Candidate}
    (member : candidate ∈ candidates srcset) : (crate.taken baseUrl candidate.url).toList.length ≤
      ((pieces candidate.text).filterMap (crate.taken baseUrl)).length := by
  by_cases solid : candidate.Solid
  · rw [Candidate.pieces_solid (delimited_candidates member) solid]
    cases image : crate.taken baseUrl candidate.url with
    | none => exact Nat.zero_le _
    | some pair =>
      rw [List.filterMap_cons_some image, List.length_cons]
      exact Nat.succ_le_succ (Nat.zero_le _)
  · have none : crate.taken baseUrl candidate.url = none :=
      (crate.taken_eq_none_iff baseUrl _).mpr fun isImage => solid (reads.solid member isImage)
    rw [none]
    exact Nat.zero_le _

theorem ReadsCandidates.undivided (reads : crate.ReadsCandidates baseUrl srcset) :
    crate.Undivided baseUrl srcset := by
  -- candidate by candidate, the code takes as many images as there are
  have parts : ∀ candidate ∈ candidates srcset, (crate.taken baseUrl candidate.url).toList.length =
      ((pieces candidate.text).filterMap (crate.taken baseUrl)).length := by
    have total := congrArg List.length reads.images.symm
    rw [imagesOf_parseSrcset, imagesOf_candidateUrls, List.length_flatMap, List.length_flatMap] at total
    exact Counting.eq_of_sum_map_eq (fun candidate member => reads.taken_le member) total
  refine ⟨fun candidate member comma => ?_, fun candidate member isImage c inside =>
    (reads.solid member isImage c inside).2, fun candidate member => ?_⟩
  · have piece := reads.uncut _ (List.mem_map_of_mem member) (by rwa [String.toList_ofList])
    rw [parseSrcset_eq] at piece
    obtain ⟨word, piece, named⟩ := List.mem_map.mp piece
    have same : word = candidate.url := String.ofList_injective named
    exact (Candidate.solid_of_mem_pieces (same ▸ piece) ',' comma).1 rfl
  · rw [← strays_iff, ← List.length_eq_zero_iff]
    have part := parts candidate member
    by_cases solid : candidate.Solid
    · rw [Candidate.pieces_solid (delimited_candidates member) solid] at part
      cases image : crate.taken baseUrl candidate.url with
      | none =>
        rw [image, List.filterMap_cons_none image] at part
        exact part.symm
      | some pair =>
        rw [image, List.filterMap_cons_some image, Option.toList_some, List.length_cons, List.length_cons] at part
        exact (Nat.add_right_cancel part).symm
    · have none : crate.taken baseUrl candidate.url = none :=
        (crate.taken_eq_none_iff baseUrl _).mpr fun isImage => solid (reads.solid member isImage)
      rw [none, Candidate.pieces_broken solid] at part
      exact part.symm

theorem Undivided.readsCandidates (undivided : crate.Undivided baseUrl srcset) :
    crate.ReadsCandidates baseUrl srcset := by
  obtain ⟨commas, spaces, strays⟩ := undivided
  constructor
  · rw [imagesOf_parseSrcset, imagesOf_candidateUrls]
    apply List.flatMap_congr
    intro candidate member
    have stray := (crate.strays_iff baseUrl candidate).mpr (strays candidate member)
    by_cases solid : candidate.Solid
    · rw [Candidate.pieces_solid (delimited_candidates member) solid]
      cases image : crate.taken baseUrl candidate.url with
      | none =>
        rw [List.filterMap_cons_none image, stray]
        rfl
      | some pair =>
        rw [List.filterMap_cons_some image, stray]
        rfl
    · -- without a comma, the URL is broken by white space and is no image
      have none : crate.taken baseUrl candidate.url = none := by
        refine (crate.taken_eq_none_iff baseUrl _).mpr fun isImage => solid fun c inside => ⟨?_, ?_⟩
        · rintro rfl
          exact commas candidate member inside
        · exact spaces candidate member isImage c inside
      rw [Candidate.pieces_broken solid, stray, none]
      rfl
  · intro url member comma
    obtain ⟨candidate, listed, rfl⟩ := List.mem_map.mp member
    rw [String.toList_ofList] at comma
    exact absurd comma (commas candidate listed)

/-- The images of a `srcset` are those of its candidates, for every text and every base, exactly when
the commas and the white space that the code splits at lie between the candidates. -/
theorem readsCandidates_iff (crate : AssetCrate) (baseUrl : crate.Url) (srcset : String) :
    crate.ReadsCandidates baseUrl srcset ↔ crate.Undivided baseUrl srcset :=
  ⟨ReadsCandidates.undivided, Undivided.readsCandidates⟩

/-- From a document without divided candidates come the images of its sources, then those of the
candidates of each `srcset`. -/
theorem extractImages_undivided {document : Document}
    (undivided : ∀ srcset ∈ document.imgs.filterMap ImgElement.srcset ++ document.sources,
      crate.Undivided baseUrl srcset) :
    crate.extractImages document baseUrl =
      document.imgs.filterMap (fun img => img.src.bind (crate.image baseUrl img.alt)) ++
        (document.imgs.filterMap ImgElement.srcset ++ document.sources).flatMap fun srcset =>
          (crate.imagesOf baseUrl (candidateUrls srcset)).map Prod.snd := by
  rw [extractImages, List.append_assoc, ← List.flatMap_append]
  congr 1
  apply List.flatMap_congr
  intro srcset member
  rw [srcsetImages_eq, (undivided srcset member).readsCandidates.images]

end AssetCrate

/-! A page of https://a.test/ with the URL of an image service, whose path has a comma. -/

namespace ServedImage

/-- URLs of one host, by their text; a relative one is joined to a base without a path. -/
def crate : AssetCrate where
  Url := String
  parse s := if "https://a.test/".toList.isPrefixOf s.toList then .ok s else .error "relative URL without a base"
  asStr := id
  scheme _ := "https"
  username _ := ""
  password _ := none
  setUsername url _ := some url
  setPassword url _ := some url
  path url := String.ofList (url.toList.drop "https://a.test".toList.length)
  join base src := some (if src.toList.head? = some '/' then Text.dropLastChar base ++ src else base ++ src)

def base : crate.Url := "https://a.test/"

def srcset : String := "/w_100,h_200/a.png 1x, /b.png 2x"

/-- The URL is cut, and its second half is taken for an image that the page does not reference. -/
theorem served_image_cut :
    candidateUrls srcset = ["/w_100,h_200/a.png", "/b.png"] ∧
    (crate.imagesOf base (parseSrcset srcset)).map (fun taken => crate.asStr taken.2.url.url) =
      ["https://a.test/h_200/a.png", "https://a.test/b.png"] ∧
    ¬ ∀ (crate : AssetCrate) (baseUrl : crate.Url) (srcset : String), crate.ReadsCandidates baseUrl srcset := by
  refine ⟨by decide, by decide, fun always => ?_⟩
  have images := (always crate base srcset).images
  have cut : (crate.imagesOf base (parseSrcset srcset)).map Prod.fst = ["h_200/a.png", "/b.png"] := by decide
  have whole : (crate.imagesOf base (candidateUrls srcset)).map Prod.fst = ["/w_100,h_200/a.png", "/b.png"] := by
    decide
  rw [images, whole] at cut
  exact absurd cut (by decide)

/-- Inside parentheses a comma ends no candidate; a URL may be followed by its comma at once. -/
example : candidateUrls "a.png (1,b.png), c.png,d.png 2x" = ["a.png", "c.png,d.png"] ∧
    candidateUrls "a.png, b.png,, ,c.png" = ["a.png", "b.png", "c.png"] := by
  decide

end ServedImage

end Webfang.Extractor
