import Webfang.Library.KeyedList
import Webfang.Mcp.PanicContainment

/-!
# The id the scan finds

An object is read member by member, as its text was written. The scan of the whole gives its `id`,
and the scan of a cut gives the same or the scan window.
-/
namespace Webfang.Mcp

open Library JsonText JsonBytes KeyedList Subslice

variable {parse : List UInt8 → Option Json}

/-! ### Objects as they are written -/

/-- A member of an object: its name, the bytes between the quotation marks of its key, the text of its
value and what that reads as. -/
structure Member where
  name : String
  spelled : List UInt8
  text : List UInt8
  value : Json

def AllWs (bytes : List UInt8) : Prop := ∀ b ∈ bytes, isWs b = true

variable (parse) in
inductive WrittenMember (m : Member) : List UInt8 → Prop
  | intro {before middle : List UInt8} {chars : List Char} (opening : AllWs before) (between : AllWs middle)
    (names : SpellsChars m.name.toList chars) (spells : m.spelled = encodeChars chars)
    (reads : parse m.text = some m.value) :
    WrittenMember m (before ++ quote :: (m.spelled ++ quote :: (middle ++ colon :: m.text)))

variable (parse) in
/-- The bytes between the braces. -/
inductive WrittenMembers : List Member → List UInt8 → Prop
  | none {blank : List UInt8} (spaces : AllWs blank) : WrittenMembers [] blank
  | last {m : Member} {bytes : List UInt8} (written : WrittenMember parse m bytes) : WrittenMembers [m] bytes
  | more {m : Member} {ms : List Member} {bytes rest : List UInt8} (written : WrittenMember parse m bytes)
    (others : WrittenMembers ms rest) (nonempty : ms ≠ []) : WrittenMembers (m :: ms) (bytes ++ comma :: rest)

variable (parse) in
/-- A document that is an object with these members, in the order of the text. -/
structure WrittenObject (bytes : List UInt8) (members : List Member) : Prop where
  parts : ∃ before body after, bytes = before ++ openBrace :: (body ++ closeBrace :: after) ∧ AllWs before ∧
    AllWs after ∧ WrittenMembers parse members body

/-- `serde_json::from_slice` reads JSON, whatever white space stands around it, and of an object it
keeps the last member of each name. -/
structure Serde (parse : List UInt8 → Option Json) : Prop where
  json {bytes : List UInt8} {v : Json} (reads : parse bytes = some v) :
    ∃ (double : List Char → UInt64) (text : List Char) (w : Json),
      bytes = encodeChars text ∧ Spells double (.value w) text
  blank {before after : List UInt8} (opening : AllWs before) (closing : AllWs after) (bytes : List UInt8) :
    parse (before ++ bytes ++ after) = parse bytes
  object {bytes : List UInt8} {fields : List (String × Json)} (reads : parse bytes = some (.obj fields)) :
    ∃ members, WrittenObject parse bytes members ∧
      ∀ key, (Json.obj fields).get key = (members.reverse.find? fun m => m.name = key).map Member.value

theorem skipWs_blank {blank : List UInt8} (spaces : AllWs blank) {b : UInt8} (stops : isWs b = false)
    (rest : List UInt8) : skipWs (blank ++ b :: rest) = b :: rest := by
  rw [skipWs, List.dropWhile_append_of_pos spaces, List.dropWhile_cons_of_neg (by simp [stops])]

/-- The id to echo for a document, by its top-level `id`, and why. -/
def answerOf : Option Json → Json × IdSource
  | none => (.null, .notification)
  | some .null => (.null, .nullId)
  | some id => (id, .envelope)

theorem answerOf_envelope {found : Option Json} (envelope : (answerOf found).2 = .envelope) :
    found = some (answerOf found).1 := by
  rcases found with _ | value
  · cases envelope
  · cases value <;> rfl

theorem answerOf_notification {found : Option Json} (notification : (answerOf found).2 = .notification) :
    found = none := by
  rcases found with _ | value
  · rfl
  · cases value <;> cases notification

section Written

variable (serde : Serde parse)

include serde

/-- A written member is read up to its separator, key and value. -/
theorem WrittenMember.scanned {m : Member} {bytes : List UInt8} (written : WrittenMember parse m bytes)
    {separator : UInt8} (separates : separator = comma ∨ separator = closeBrace) (rest : List UInt8) :
    ∃ input value left, skipWs (bytes ++ separator :: rest) = quote :: input ∧
      scanMember input = some (m.spelled, value, left) ∧ parse value = some m.value ∧
      skipWs left = separator :: rest := by
  obtain @⟨before, middle, chars, opening, between, names, spells, reads⟩ := written
  obtain ⟨double, text, w, same, spelled⟩ := serde.json reads
  have shaped : Shaped m.text := same ▸ shaped_of_spells spelled
  obtain ⟨front, core, back, split, leading, trailing, value⟩ := shaped.parts
  obtain ⟨taken, left, rfl, skipped⟩ := skipValue_core value trailing separates rest
  obtain ⟨b, tail, first, visible⟩ := core_first value
  refine ⟨m.spelled ++ quote :: (middle ++ colon :: (m.text ++ separator :: rest)), core ++ taken,
    left ++ separator :: rest, ?_, ?_, ?_, ?_⟩
  · rw [List.append_assoc, List.cons_append, List.append_assoc, List.cons_append, List.append_assoc,
      List.cons_append]
    exact skipWs_blank opening (by decide) _
  · apply scanMember_of (scanString_inner _ _) (skipWs_blank between (by decide) _)
    · have reached : skipWs (m.text ++ separator :: rest) =
          core ++ ((taken ++ left) ++ separator :: rest) := by
        rw [split, first, List.append_assoc, List.append_assoc]
        exact skipWs_blank leading visible _
      rw [reached, skipped]
    · rw [spells]
      exact inner_of_spellsChars names
  · have spaced : AllWs taken := fun b member => trailing b (List.mem_append_left _ member)
    have alone : parse ([] ++ core ++ taken) = parse core := serde.blank (by simp [AllWs]) spaced core
    rw [← reads, split, serde.blank leading trailing, ← alone]
    rfl
  · have spaced : AllWs left := fun b member => trailing b (List.mem_append_right _ member)
    exact skipWs_blank spaced (by rcases separates with rfl | rfl <;> decide) rest

omit serde in
theorem WrittenMembers.blank {bytes : List UInt8} (written : WrittenMembers parse [] bytes) :
    AllWs bytes := by
  cases written with
  | none spaces => exact spaces

/-- The first member is scanned, and what follows is the end of the object or the other members. -/
theorem WrittenMembers.scanned {m : Member} {ms : List Member} {bytes : List UInt8}
    (written : WrittenMembers parse (m :: ms) bytes) (rest : List UInt8) :
    ∃ input value left, skipWs (bytes ++ closeBrace :: rest) = quote :: input ∧
      scanMember input = some (m.spelled, value, left) ∧ parse value = some m.value ∧
      ((ms = [] ∧ skipWs left = closeBrace :: rest) ∨
        ∃ more, skipWs left = comma :: (more ++ closeBrace :: rest) ∧ ms ≠ [] ∧
          WrittenMembers parse ms more) := by
  cases written with
  | last written =>
    obtain ⟨input, value, left, start, member, reads, next⟩ := written.scanned serde (.inr rfl) rest
    exact ⟨input, value, left, start, member, reads, .inl ⟨rfl, next⟩⟩
  | @more _ _ bytes more written others nonempty =>
    obtain ⟨input, value, left, start, member, reads, next⟩ :=
      written.scanned serde (.inl rfl) (more ++ closeBrace :: rest)
    rw [List.append_assoc, List.cons_append]
    exact ⟨input, value, left, start, member, reads, .inr ⟨more, next, nonempty, others⟩⟩

/-- The keys and the values of an object are those of its text. -/
theorem WrittenMembers.unique {members others : List Member} {first second rest rest' : List UInt8}
    (one : WrittenMembers parse members first) (two : WrittenMembers parse others second)
    (same : first ++ closeBrace :: rest = second ++ closeBrace :: rest') :
    members.map (fun m => (m.spelled, m.value)) = others.map fun m => (m.spelled, m.value) := by
  induction members generalizing others first second with
  | nil =>
    have ended : skipWs (first ++ closeBrace :: rest) = closeBrace :: rest :=
      skipWs_blank one.blank (by decide) rest
    cases others with
    | nil => rfl
    | cons m ms =>
      obtain ⟨input, value, left, start, _⟩ := two.scanned serde rest'
      rw [← same, ended] at start
      exact absurd (List.cons.inj start).1 (by decide)
  | cons m ms ih =>
    obtain ⟨input, value, left, start, member, reads, next⟩ := one.scanned serde rest
    cases others with
    | nil =>
      rw [same, skipWs_blank two.blank (by decide) rest'] at start
      exact absurd (List.cons.inj start).1 (by decide)
    | cons m' ms' =>
      obtain ⟨input', value', left', start', member', reads', next'⟩ := two.scanned serde rest'
      -- the scan does not depend on the reading
      rw [← same, start] at start'
      obtain rfl := (List.cons.inj start').2
      rw [member] at member'
      obtain ⟨spelled, rfl, rfl⟩ : m.spelled = m'.spelled ∧ value = value' ∧ left = left' := by
        simpa using member'
      rw [reads] at reads'
      rw [List.map_cons, List.map_cons, spelled, Option.some.inj reads']
      congr 1
      rcases next with ⟨rfl, next⟩ | ⟨more, next, nonempty, others⟩
      · rcases next' with ⟨rfl, _⟩ | ⟨more', next', _⟩
        · rfl
        · rw [next] at next'
          exact absurd (List.cons.inj next').1 (by decide)
      · rcases next' with ⟨rfl, next'⟩ | ⟨more', next', nonempty', others'⟩
        · rw [next] at next'
          exact absurd (List.cons.inj next').1 (by decide)
        · rw [next] at next'
          exact ih others others' (List.cons.inj next').2

/-- The scan gives the first member whose key is spelled `id`. -/
theorem WrittenMembers.scan {members : List Member} {bytes : List UInt8}
    (written : WrittenMembers parse members bytes) (rest : List UInt8) :
    scanMembers parse (bytes ++ closeBrace :: rest) =
      answerOf ((members.find? fun m => m.spelled == idKey).map Member.value) := by
  induction members generalizing bytes with
  | nil =>
    exact scanMembers_inl (Turn.empty (skipWs_blank written.blank (by decide) rest)).eq
  | cons m ms ih =>
    obtain ⟨input, value, left, start, member, reads, next⟩ := written.scanned serde rest
    by_cases here : m.spelled = idKey
    · rw [here] at member
      rw [scanMembers_inl (Turn.identified start member).eq, List.find?_cons_of_pos (by simpa using here),
        Option.map_some, idOf, reads]
      cases m.value <;> rfl
    · rw [List.find?_cons_of_neg (by simpa using here)]
      rcases next with ⟨rfl, next⟩ | ⟨more, next, _, others⟩
      · exact scanMembers_inl (Turn.closed start member here next).eq
      · rw [scanMembers_inr (Turn.again start member here next).eq]
        exact ih others

end Written

/-! ### Plain keys -/

/-- The names are distinct, and no key is written with an escape. -/
structure PlainKeys (members : List Member) : Prop where
  distinct : (members.map Member.name).Nodup
  unescaped : ∀ m ∈ members, backslash ∉ m.spelled

theorem backslash_mem_encode {chars : List Char} (inside : '\\' ∈ chars) : backslash ∈ encodeChars chars :=
  List.mem_flatMap.mpr ⟨'\\', inside, by decide⟩

/-- A key without an escape spells its name. -/
theorem WrittenMember.encoded {m : Member} {bytes : List UInt8} (written : WrittenMember parse m bytes)
    (unescaped : backslash ∉ m.spelled) : m.spelled = Utf8.encode m.name := by
  obtain ⟨_, _, names, spells, _⟩ := written
  rw [spells] at unescaped ⊢
  rw [eq_of_unescaped names fun inside => unescaped (backslash_mem_encode inside)]
  exact (Utf8.encode_eq m.name).symm

theorem WrittenMembers.encoded {members : List Member} {body : List UInt8}
    (written : WrittenMembers parse members body) (unescaped : ∀ m ∈ members, backslash ∉ m.spelled) :
    ∀ m ∈ members, m.spelled = Utf8.encode m.name := by
  induction written with
  | none => simp
  | last written =>
    intro m member
    obtain rfl := List.mem_singleton.mp member
    exact written.encoded (unescaped _ List.mem_cons_self)
  | more written _ _ ih =>
    intro m member
    rcases List.mem_cons.mp member with rfl | inside
    · exact written.encoded (unescaped _ List.mem_cons_self)
    · exact ih (fun n other => unescaped n (List.mem_cons_of_mem _ other)) m inside

theorem encode_id : Utf8.encode "id" = idKey := by
  rw [Utf8.encode_eq]
  rfl

/-- Where the keys spell their names, the key of the scan is the name `id`. -/
theorem find?_spelled {members : List Member} (encoded : ∀ m ∈ members, m.spelled = Utf8.encode m.name) :
    members.find? (fun m => m.spelled == idKey) = members.find? fun m => m.name = "id" := by
  apply find?_congr_of_mem
  intro m member
  rw [encoded m member, ← encode_id, Bool.eq_iff_iff, beq_iff_eq, decide_eq_true_iff]
  exact ⟨Utf8.encode_inj, congrArg Utf8.encode⟩

theorem PlainKeys.transfer {members others : List Member} {body body' : List UInt8}
    (plain : PlainKeys members)
    (written : WrittenMembers parse members body) (again : WrittenMembers parse others body')
    (same : members.map (fun m => (m.spelled, m.value)) = others.map fun m => (m.spelled, m.value)) :
    PlainKeys others := by
  have spelled : members.map Member.spelled = others.map Member.spelled := by
    simpa [List.map_map, Function.comp_def] using congrArg (List.map Prod.fst) same
  have unescaped : ∀ m ∈ others, backslash ∉ m.spelled := by
    intro m member
    obtain ⟨n, inside, equal⟩ := List.mem_map.mp (spelled ▸ List.mem_map_of_mem member)
    exact equal ▸ plain.unescaped n inside
  refine ⟨?_, unescaped⟩
  have names : (members.map Member.name).map Utf8.encode = (others.map Member.name).map Utf8.encode := by
    calc (members.map Member.name).map Utf8.encode
        = members.map fun m => Utf8.encode m.name := by rw [List.map_map]; rfl
      _ = members.map Member.spelled := (List.map_congr_left (written.encoded plain.unescaped)).symm
      _ = others.map Member.spelled := spelled
      _ = others.map fun m => Utf8.encode m.name := List.map_congr_left (again.encoded unescaped)
      _ = (others.map Member.name).map Utf8.encode := by rw [List.map_map]; rfl
  rw [← List.map_injective_iff.mpr (fun _ _ => Utf8.encode_inj) names]
  exact plain.distinct

/-- A whole object is scanned for the `id` that the document has. -/
theorem WrittenObject.scan (serde : Serde parse) {d : List UInt8} {fields : List (String × Json)}
    {members : List Member} (object : parse d = some (.obj fields)) (written : WrittenObject parse d members)
    (plain : PlainKeys members) : scanEnvelopeId parse d = answerOf ((Json.obj fields).get "id") := by
  obtain ⟨before, body, after, rfl, opening, closing, inside⟩ := written.parts
  obtain ⟨members', ⟨before', body', after', same, opening', closing', inside'⟩, kept⟩ := serde.object object
  have starts : skipWs (before ++ openBrace :: (body ++ closeBrace :: after)) =
      openBrace :: (body ++ closeBrace :: after) := skipWs_blank opening (by decide) _
  have starts' : skipWs (before' ++ openBrace :: (body' ++ closeBrace :: after')) =
      openBrace :: (body' ++ closeBrace :: after') := skipWs_blank opening' (by decide) _
  rw [← same, starts] at starts'
  have again := inside.unique serde inside' (List.cons.inj starts').2
  have plain' := plain.transfer inside inside' again
  rw [kept, find?_reverse_of_nodup plain'.distinct, ← find?_spelled (inside'.encoded plain'.unescaped),
    ← inside'.scan serde after', ← (List.cons.inj starts').2]
  simp only [scanEnvelopeId, starts, if_pos]

/-- A cut of an object that contains a brace starts like the whole. -/
theorem cut_behind_brace {before inside cut : List UInt8} (opening : AllWs before)
    (front : cut <+: before ++ openBrace :: inside) (brace : openBrace ∈ cut) :
    ∃ more rest, inside = more ++ rest ∧ cut = before ++ openBrace :: more := by
  obtain ⟨rest, whole⟩ := front
  rcases List.append_eq_append_iff.mp whole with ⟨short, split, _⟩ | ⟨tail, split, equal⟩
  · have blank := opening openBrace (split ▸ List.mem_append_left short brace)
    exact absurd blank (by decide)
  · cases tail with
    | nil =>
      rw [List.append_nil] at split
      exact absurd (opening openBrace (split ▸ brace)) (by decide)
    | cons b more =>
      obtain ⟨rfl, same⟩ := List.cons.inj equal
      exact ⟨more, rest, same, split⟩

/-- What a cut is scanned for: the answer for the whole, or the scan window. -/
theorem WrittenObject.scan_cut {d cut : List UInt8} {members : List Member}
    (written : WrittenObject parse d members) (front : cut <+: d) (brace : openBrace ∈ cut) :
    scanEnvelopeId parse cut = scanEnvelopeId parse d ∨ scanEnvelopeId parse cut = (.null, .scanWindow) := by
  obtain ⟨before, body, after, rfl, opening, _, _⟩ := written.parts
  obtain ⟨more, rest, split, rfl⟩ := cut_behind_brace opening front brace
  rw [split]
  simp only [scanEnvelopeId, skipWs_blank opening (show isWs openBrace = false by decide), if_pos]
  exact (scanMembers_append more rest).elim .inr fun same => .inl same.symm

/-! ### Ids of documents and of their cuts -/

/-- Of an object whose keys are distinct and unescaped the scan gives the `id`, or says that it is null
or absent. A cut that contains the brace gives the same or the scan window: no other id, and no
notification where there is an `id`. The body handed on is the one received. -/
theorem id_of_every_cut (serde : Serde parse) {d : List UInt8} {fields : List (String × Json)}
    {members : List Member} (object : parse d = some (.obj fields)) (written : WrittenObject parse d members)
    (plain : PlainKeys members) :
    scanEnvelopeId parse d = answerOf ((Json.obj fields).get "id") ∧
    (∀ cut, cut <+: d → openBrace ∈ cut →
      (scanEnvelopeId parse cut = answerOf ((Json.obj fields).get "id") ∨
        scanEnvelopeId parse cut = (.null, .scanWindow)) ∧
      ((scanEnvelopeId parse cut).2 = .envelope →
        (Json.obj fields).get "id" = some (scanEnvelopeId parse cut).1) ∧
      ((scanEnvelopeId parse cut).2 = .notification → (Json.obj fields).get "id" = none)) ∧
    ∀ (ε : Type) (request : Request ε),
      collect (captureRequestId parse request).1.body = collect request.body := by
  have whole := written.scan serde object plain
  refine ⟨whole, ?_, fun ε request => captureRequestId_body request⟩
  intro cut front brace
  have agrees := written.scan_cut front brace
  rw [whole] at agrees
  refine ⟨agrees, ?_, ?_⟩
  · intro envelope
    rcases agrees with same | window
    · rw [same] at envelope ⊢
      exact answerOf_envelope envelope
    · rw [window] at envelope
      cases envelope
  · intro notification
    rcases agrees with same | window
    · rw [same] at notification
      exact answerOf_notification notification
    · rw [window] at notification
      cases notification

namespace EnvelopeRuns

/-- `{"id":7}` -/
def document : List UInt8 := [openBrace, quote, 0x69, 0x64, quote, colon, 0x37, closeBrace]

/-- The reader on a number and on a document of it. -/
def read (bytes : List UInt8) : Option Json :=
  if trimEnds isWs bytes = [0x37] then some (.int 7)
  else if trimEnds isWs bytes = document then some (.obj [("id", .int 7)])
  else none

def idMember : Member := ⟨"id", idKey, [0x37], .int 7⟩

theorem read_seven : read [0x37] = some (.int 7) := by
  rw [read, if_pos (by decide)]

theorem read_document : read document = some (.obj [("id", .int 7)]) := by
  rw [read, if_neg (by decide), if_pos (by decide)]

theorem spells_id : SpellsChars "id".toList ['i', 'd'] :=
  .cons (.plain (by decide) (by decide) (by decide)) (.cons (.plain (by decide) (by decide) (by decide)) .nil)

theorem idMember_written : WrittenMember read idMember [quote, 0x69, 0x64, quote, colon, 0x37] := by
  have noWs : AllWs [] := by simp [AllWs]
  exact WrittenMember.intro noWs noWs spells_id (by decide) read_seven

theorem document_written {before after : List UInt8} (opening : AllWs before) (closing : AllWs after) :
    WrittenObject read (before ++ document ++ after) [idMember] :=
  ⟨before, [quote, 0x69, 0x64, quote, colon, 0x37], after, by simp [document], opening, closing,
    .last idMember_written⟩

theorem chars_of_ws {bytes : List UInt8} (blank : AllWs bytes) :
    ∃ chars : List Char, bytes = encodeChars chars ∧ ∀ c ∈ chars, isSpace c = true := by
  refine ⟨bytes.map fun b => Char.ofNat b.toNat, ?_, ?_⟩
  · induction bytes with
    | nil => rfl
    | cons b rest ih =>
      rw [List.map_cons, encodeChars_cons, ← ih fun c member => blank c (List.mem_cons_of_mem b member)]
      rcases isWs_cases (blank b List.mem_cons_self) with rfl | rfl | rfl | rfl <;> rfl
  · intro c member
    obtain ⟨b, inside, rfl⟩ := List.mem_map.mp member
    rcases isWs_cases (blank b inside) with rfl | rfl | rfl | rfl <;> decide

/-- White space around a text makes no difference to what it spells. -/
theorem spells_trimmed {bytes : List UInt8} {core : List Char} {v : Json}
    (trimmed : trimEnds isWs bytes = encodeChars core) (spelled : Spells (fun _ => 0) (.value v) core) :
    ∃ (double : List Char → UInt64) (text : List Char) (w : Json),
      bytes = encodeChars text ∧ Spells double (.value w) text := by
  obtain ⟨before, after, split, opening, closing⟩ := trimEnds_split isWs bytes
  obtain ⟨front, rfl, blank⟩ := chars_of_ws opening
  obtain ⟨back, rfl, blank'⟩ := chars_of_ws closing
  refine ⟨_, front ++ core ++ back, v, ?_, .spaced ?_ spelled⟩
  · rw [split, trimmed, encodeChars_append, encodeChars_append]
  · intro c member
    exact (List.mem_append.mp member).elim (blank c) (blank' c)

theorem spells_document : Spells (fun _ => 0) (.value (.obj [("id", .int 7)]))
    ("\x7b\"id\":7\x7d".toList) := by
  have named : SpellsKey "id" ['"', 'i', 'd', '"', ':'] :=
    ⟨[], ['"', 'i', 'd', '"'], [], ⟨['i', 'd'], spells_id, rfl⟩, by simp, rfl⟩
  exact .obj (.lastField named (.int 7))

theorem read_serde : Serde read where
  json := by
    intro bytes v reads
    unfold read at reads
    split at reads
    next seven =>
      have trimmed : trimEnds isWs bytes = encodeChars ['7'] := seven.trans (by decide)
      exact spells_trimmed trimmed (.int 7)
    next =>
      split at reads
      next same => exact spells_trimmed (same.trans (by decide)) spells_document
      next => cases reads
  blank := by
    intro before after opening closing bytes
    simp only [read, trimEnds_append opening closing]
  object := by
    intro bytes fields reads
    obtain ⟨before, after, split, opening, closing⟩ := trimEnds_split isWs bytes
    unfold read at reads
    split at reads
    next => cases reads
    next =>
      split at reads
      next same =>
        cases reads
        refine ⟨[idMember], ?_, ?_⟩
        · rw [split, same]
          exact document_written opening closing
        · intro key
          simp [Json.get, idMember]
      next => cases reads

theorem document_id :
    scanEnvelopeId read document = (.int 7, .envelope) := by
  have written : WrittenObject read ([] ++ document ++ []) [idMember] :=
    document_written (by simp [AllWs]) (by simp [AllWs])
  have plain : PlainKeys [idMember] := ⟨by simp, by decide⟩
  exact (id_of_every_cut read_serde read_document written plain).1

end EnvelopeRuns

end Webfang.Mcp
