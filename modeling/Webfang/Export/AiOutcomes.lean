import Mathlib.Data.Finset.Card
import Webfang.Export.AiChunks

/-!
# Failed chunks and the status of their page

When a run over cleaned chunks leaves no page `COMMITTED` of which a chunk was recorded as failed,
whatever the order of the chunks. The chunks of a page move one record, so a chunk that is committed
or promoted settles the page for the failed ones too.
-/
namespace Webfang.Export

open Library Domain CommitSession

attribute [local instance] lawful_identity

variable {crates : ExportCrates} {key : String} {slot : Option Standing} {moves : List ChunkMove}

/-! ### Sequences of moves -/

def Uncommitted (slot : Option Standing) : Prop := ∀ s, slot = some s → s.status ≠ .committed

def Committed (slot : Option Standing) : Prop := ∃ s, slot = some s ∧ s.status = .committed

/-- A failure leaves the status alone, so failures open no committed page and commit no open one. -/
theorem applyMoves_fails (fails : ∀ move ∈ moves, move = .fail) (start : Uncommitted slot) :
    Uncommitted (applyMoves key slot moves) := by
  induction moves generalizing slot with
  | nil => exact start
  | cons move rest ih =>
    refine ih (fun other member => fails other (List.mem_cons_of_mem _ member)) ?_
    rw [fails move List.mem_cons_self]
    cases slot with
    | some s =>
      rintro _ ⟨⟩
      exact start s rfl
    | none =>
      unfold ChunkMove.apply
      cases Text.isBlank key with
      | true => nofun
      | false =>
        rintro _ ⟨⟩
        nofun

theorem applyMoves_blank (blank : Text.isBlank key = true) (spared : .commit ∉ moves) :
    applyMoves key none moves = none := by
  induction moves with
  | nil => rfl
  | cons move rest ih =>
    have idle : ChunkMove.apply (!Text.isBlank key) none move = none := by
      rw [blank]
      cases move with
      | commit => exact absurd List.mem_cons_self spared
      | fail => rfl
      | promote => rfl
    rw [applyMoves, List.foldl_cons, idle]
    exact ih fun later => spared (List.mem_cons_of_mem _ later)

/-- A committed page stays committed, unless a promotion finds a record without a name. -/
theorem applyMoves_committed {s : Standing} (here : s.status = .committed)
    (named : s.named = true ∨ .promote ∉ moves) : Committed (applyMoves key (some s) moves) := by
  induction moves generalizing s with
  | nil => exact ⟨s, rfl, here⟩
  | cons move rest ih =>
    have later : s.named = true ∨ .promote ∉ rest :=
      named.imp_right fun absent member => absent (List.mem_cons_of_mem _ member)
    rw [applyMoves, List.foldl_cons]
    cases move with
    | commit =>
      simp only [ChunkMove.apply, here, PageStatus.isTerminal, if_true]
      exact ih rfl (.inl rfl)
    | fail => exact ih here later
    | promote =>
      have name : s.named = true := named.resolve_right fun absent => absent List.mem_cons_self
      simp only [ChunkMove.apply, here, name, if_true]
      exact ih rfl (.inl rfl)

/-- Without a failure, the chunks of a new page make the record of a page committed from scratch. -/
theorem applyMoves_fresh (addressed : Text.isBlank key = false) (clean : .fail ∉ moves) :
    applyMoves key none moves = if moves = [] then none else some ChunkMove.fresh := by
  have settled : ∀ {rest : List ChunkMove}, .fail ∉ rest →
      applyMoves key (some ChunkMove.fresh) rest = some ChunkMove.fresh := by
    intro rest spared
    induction rest with
    | nil => rfl
    | cons move rest ih =>
      rw [applyMoves, List.foldl_cons]
      cases move with
      | fail => exact absurd List.mem_cons_self spared
      | _ => exact ih fun later => spared (List.mem_cons_of_mem _ later)
  cases moves with
  | nil => rfl
  | cons move rest =>
    have first : ChunkMove.apply (!Text.isBlank key) none move = some ChunkMove.fresh := by
      rw [addressed]
      cases move with
      | fail => exact absurd List.mem_cons_self clean
      | _ => rfl
    rw [if_neg (List.cons_ne_nil _ _), applyMoves, List.foldl_cons, first]
    exact settled fun later => clean (List.mem_cons_of_mem _ later)

/-- A committed chunk and a failed one of a page commit it in one of the two orders: the attempts
can wrap to 0 after one of them only. -/
theorem applyMoves_either (spared : .promote ∉ moves ∨ slot = none) :
    Committed (applyMoves key slot (.commit :: .fail :: moves)) ∨
      Committed (applyMoves key slot (.fail :: .commit :: moves)) := by
  have settled : Committed (applyMoves key (some { ChunkMove.fresh with attempts := 2, clean := false })
      moves) := applyMoves_committed rfl (.inl rfl)
  cases slot with
  | none => exact .inl settled
  | some s =>
    have spared : .promote ∉ moves := spared.resolve_right (Option.some_ne_none s)
    cases terminal : s.status.isTerminal with
    | true =>
      refine .inl ?_
      simp only [applyMoves, List.foldl_cons, ChunkMove.apply, terminal, if_true]
      exact settled
    | false =>
      by_cases wrapped : s.attempts + 1 = 0
      · refine .inr ?_
        have counted : s.attempts + 1 + 1 ≠ 0 := by rw [wrapped]; decide
        simp only [applyMoves, List.foldl_cons, ChunkMove.apply, terminal, Bool.false_eq_true, if_false]
        refine applyMoves_committed ?_ (.inr spared)
        rw [Standing.flush, if_neg counted]
      · refine .inl ?_
        simp only [applyMoves, List.foldl_cons, ChunkMove.apply, terminal, Bool.false_eq_true, if_false]
        refine applyMoves_committed ?_ (.inr spared)
        rw [Standing.flush, if_neg wrapped]

/-! ### The plan -/

variable {session : CommitSession} {gated : List GatedChunk} {claimed : List (String × String)}

/-- Validation accepts the chunk. -/
def GatedChunk.Valid (crates : ExportCrates) (gated : GatedChunk) : Prop :=
  (gated.chunk.validate crates).isOk = true

instance (crates : ExportCrates) (gated : GatedChunk) : Decidable (gated.Valid crates) :=
  inferInstanceAs (Decidable (_ = true))

def GatedChunk.Fails (crates : ExportCrates) (gated : GatedChunk) : Prop :=
  gated.decision = .driveAndCommit ∧ ¬ gated.Valid crates

def GatedChunk.Exports (crates : ExportCrates) (gated : GatedChunk) : Prop :=
  gated.decision = .driveAndCommit ∧ gated.Valid crates

def GatedChunk.At (urls : UrlCrates) (key : String) (gated : GatedChunk) : Prop :=
  urls.canonicalKey gated.chunk.url = key

instance (crates : ExportCrates) (gated : GatedChunk) : Decidable (gated.Fails crates) :=
  inferInstanceAs (Decidable (_ ∧ _))

instance (crates : ExportCrates) (gated : GatedChunk) : Decidable (gated.Exports crates) :=
  inferInstanceAs (Decidable (_ ∧ _))

instance (urls : UrlCrates) (key : String) (gated : GatedChunk) : Decidable (gated.At urls key) :=
  inferInstanceAs (Decidable (_ = _))

variable (crates) in
theorem planAiChunk_cases (claimed : List (String × String)) (gated : GatedChunk) :
    (gated.decision ≠ .driveAndCommit ∧ planAiChunk crates claimed gated = .notDriven) ∨
      (gated.Fails crates ∧ ∃ error, planAiChunk crates claimed gated = .invalid error) ∨
      (gated.Exports crates ∧ gated.identity ∈ claimed ∧ planAiChunk crates claimed gated = .duplicate) ∨
      (gated.Exports crates ∧ gated.identity ∉ claimed ∧
        planAiChunk crates claimed gated = .exported gated.contentHash) := by
  unfold planAiChunk
  by_cases decided : gated.decision = .driveAndCommit
  · have driven : gated.driven = true := by simp [GatedChunk.driven, decided]
    rw [if_pos driven]
    cases checked : gated.chunk.validate crates with
    | error e =>
      have refused : ¬ gated.Valid crates := by
        rw [GatedChunk.Valid, checked]
        nofun
      exact .inr (.inl ⟨⟨decided, refused⟩, _, rfl⟩)
    | ok validated =>
      have passed : gated.Valid crates := by
        rw [GatedChunk.Valid, checked]
        rfl
      by_cases repeated : gated.identity ∈ claimed
      · exact .inr (.inr (.inl ⟨⟨decided, passed⟩, repeated, if_pos repeated⟩))
      · exact .inr (.inr (.inr ⟨⟨decided, passed⟩, repeated, if_neg repeated⟩))
  · have idle : ¬ gated.driven = true := by simpa [GatedChunk.driven] using decided
    exact .inl ⟨decided, if_neg idle⟩

def claimChunk (crates : ExportCrates) (claimed : List (String × String)) (gated : GatedChunk) :
    List (String × String) :=
  if gated.Exports crates ∧ gated.identity ∉ claimed then gated.identity :: claimed else claimed

theorem planAiChunks_cons (claimed : List (String × String)) (gated : GatedChunk) (rest : List GatedChunk) :
    planAiChunks crates claimed (gated :: rest) =
      ⟨gated, planAiChunk crates claimed gated⟩ ::
        planAiChunks crates (claimChunk crates claimed gated) rest := by
  rw [planAiChunks, claimChunk]
  rcases planAiChunk_cases crates claimed gated with
    ⟨decided, made⟩ | ⟨fails, error, made⟩ | ⟨-, repeated, made⟩ | ⟨exports, first, made⟩
  · rw [made, if_neg fun both => decided both.1.1]
  · rw [made, if_neg fun both => fails.2 both.1.2]
  · rw [made, if_neg fun both => both.2 repeated]
  · rw [made, if_pos ⟨exports, first⟩]

theorem move_planAiChunk (claimed : List (String × String)) (gated : GatedChunk) :
    PlannedChunk.move ⟨gated, planAiChunk crates claimed gated⟩ =
      if gated.Fails crates then some .fail
      else if gated.decision = .promoteFromFlushProof then some .promote
      else if gated.Exports crates ∧ gated.identity ∉ claimed then some .commit
      else none := by
  unfold PlannedChunk.move
  dsimp only
  rcases planAiChunk_cases crates claimed gated with
    ⟨decided, made⟩ | ⟨fails, error, made⟩ | ⟨exports, repeated, made⟩ | ⟨exports, first, made⟩
  · rw [made, if_neg fun fails => decided fails.1]
    cases here : gated.decision with
    | driveAndCommit => exact absurd here decided
    | promoteFromFlushProof => rfl
    | alreadyCommitted =>
      rw [if_neg (by nofun), if_neg fun both => decided both.1.1]
  · rw [made, fails.1, if_pos fails]
  · rw [made, exports.1, if_neg fun fails => fails.2 exports.2, if_neg (by nofun),
      if_neg fun both => both.2 repeated]
  · rw [made, exports.1, if_neg fun fails => fails.2 exports.2, if_neg (by nofun),
      if_pos ⟨exports, first⟩]

/-! ### Permuted chunks -/

theorem count_movesAt_cons (move : ChunkMove) (g : GatedChunk) :
    (movesAt crates.urls key (planAiChunks crates claimed (g :: gated))).count move =
      (if g.At crates.urls key ∧
          PlannedChunk.move ⟨g, planAiChunk crates claimed g⟩ = some move then 1 else 0) +
        (movesAt crates.urls key (planAiChunks crates (claimChunk crates claimed g) gated)).count move := by
  rw [planAiChunks_cons, movesAt_cons, List.count_append]
  congr 1
  by_cases here : g.At crates.urls key
  · have moved : PlannedChunk.moveAt crates.urls key ⟨g, planAiChunk crates claimed g⟩ =
        PlannedChunk.move ⟨g, planAiChunk crates claimed g⟩ := if_pos here
    rw [movesAt, List.filterMap_cons, moved]
    cases PlannedChunk.move ⟨g, planAiChunk crates claimed g⟩ with
    | none => simp
    | some other => simp [here, List.count_cons]
  · have moved : PlannedChunk.moveAt crates.urls key ⟨g, planAiChunk crates claimed g⟩ = none := if_neg here
    rw [movesAt, List.filterMap_cons, moved, if_neg fun both => here both.1]
    rfl

theorem count_unclaimed {move : ChunkMove} {makes : GatedChunk → Prop} [DecidablePred makes]
    (moved : ∀ claimed g,
      PlannedChunk.move ⟨g, planAiChunk crates claimed g⟩ = some move ↔ makes g) :
    (movesAt crates.urls key (planAiChunks crates claimed gated)).count move =
      gated.countP fun g => g.At crates.urls key ∧ makes g := by
  induction gated generalizing claimed with
  | nil => rfl
  | cons g rest ih =>
    simp only [count_movesAt_cons, ih, List.countP_cons, moved, add_comm, decide_eq_true_eq]

theorem moved_fail (claimed : List (String × String)) (g : GatedChunk) :
    PlannedChunk.move ⟨g, planAiChunk crates claimed g⟩ = some .fail ↔ g.Fails crates := by
  rw [move_planAiChunk]
  split_ifs <;> simp_all

theorem moved_promote (claimed : List (String × String)) (g : GatedChunk) :
    PlannedChunk.move ⟨g, planAiChunk crates claimed g⟩ = some .promote ↔
      g.decision = .promoteFromFlushProof := by
  rw [move_planAiChunk]
  split_ifs with fails <;> simp_all [GatedChunk.Fails]

theorem moved_commit (claimed : List (String × String)) (g : GatedChunk) :
    PlannedChunk.move ⟨g, planAiChunk crates claimed g⟩ = some .commit ↔
      g.Exports crates ∧ g.identity ∉ claimed := by
  rw [move_planAiChunk]
  split_ifs with fails <;> simp_all [GatedChunk.Fails, GatedChunk.Exports]

def exportedPairs (crates : ExportCrates) (key : String) (gated : List GatedChunk) :
    Finset (String × String) :=
  ((gated.filter fun g => g.At crates.urls key ∧ g.Exports crates).map GatedChunk.identity).toFinset

theorem mem_exportedPairs {pair : String × String} : pair ∈ exportedPairs crates key gated ↔
    ∃ g ∈ gated, (g.At crates.urls key ∧ g.Exports crates) ∧ g.identity = pair := by
  simp [exportedPairs, and_assoc]

theorem count_commit : (movesAt crates.urls key (planAiChunks crates claimed gated)).count .commit =
    (exportedPairs crates key gated \ claimed.toFinset).card := by
  induction gated generalizing claimed with
  | nil => simp [movesAt, planAiChunks, exportedPairs]
  | cons g rest ih =>
    simp only [count_movesAt_cons, ih, moved_commit]
    by_cases here : g.At crates.urls key
    · by_cases first : g.Exports crates ∧ g.identity ∉ claimed
      · -- the pair is counted here and claimed for the rest
        have pairs : exportedPairs crates key (g :: rest) =
            insert g.identity (exportedPairs crates key rest) := by
          simp [exportedPairs, here, first.1]
        have split : insert g.identity (exportedPairs crates key rest) \ claimed.toFinset =
            insert g.identity (exportedPairs crates key rest \ insert g.identity claimed.toFinset) := by
          ext pair
          by_cases same : pair = g.identity <;> simp [same, first.2]
        rw [if_pos ⟨here, first⟩, claimChunk, if_pos first, List.toFinset_cons, pairs, split,
          Finset.card_insert_of_notMem (by simp), add_comm]
      · have pairs : exportedPairs crates key (g :: rest) \ claimed.toFinset =
            exportedPairs crates key rest \ claimed.toFinset := by
          by_cases exports : g.Exports crates
          · have repeated : g.identity ∈ claimed := by
              by_contra fresh
              exact first ⟨exports, fresh⟩
            have added : exportedPairs crates key (g :: rest) =
                insert g.identity (exportedPairs crates key rest) := by
              simp [exportedPairs, here, exports]
            rw [added, Finset.insert_sdiff_of_mem _ (by simpa using repeated)]
          · simp [exportedPairs, exports]
        rw [if_neg fun both => first both.2, claimChunk, if_neg first, pairs, zero_add]
    · have pairs : exportedPairs crates key (g :: rest) = exportedPairs crates key rest := by
        simp [exportedPairs, here]
      -- a claim of another key takes nothing from the pairs of this one
      have other : g.identity ∉ exportedPairs crates key rest := by
        intro member
        obtain ⟨h, -, ⟨at_, -⟩, same⟩ := mem_exportedPairs.mp member
        have url : h.chunk.url = g.chunk.url := congrArg Prod.fst same
        exact here (by rw [GatedChunk.At, ← url]; exact at_)
      rw [if_neg fun both => here both.1, pairs, zero_add, claimChunk]
      split
      · rw [List.toFinset_cons, Finset.sdiff_insert, Finset.erase_eq_of_notMem fun member =>
          other (Finset.mem_sdiff.mp member).1]
      · rfl

/-- The moves of a page do not depend on the order of the chunks, as far as their numbers go. -/
theorem movesAt_perm {gated' : List GatedChunk} (perm : gated'.Perm gated) :
    (movesAt crates.urls key (planAiChunks crates [] gated')).Perm
      (movesAt crates.urls key (planAiChunks crates [] gated)) := by
  rw [List.perm_iff_count]
  intro move
  cases move with
  | commit =>
    have pairs : exportedPairs crates key gated' = exportedPairs crates key gated := by
      ext pair
      simp only [mem_exportedPairs, perm.mem_iff]
    rw [count_commit, count_commit, pairs]
  | fail => rw [count_unclaimed moved_fail, count_unclaimed moved_fail, perm.countP_eq]
  | promote => rw [count_unclaimed moved_promote, count_unclaimed moved_promote, perm.countP_eq]

theorem movesAt_plan_cons {move : ChunkMove} {g : GatedChunk} (here : g.At crates.urls key)
    (moved : PlannedChunk.move ⟨g, planAiChunk crates claimed g⟩ = some move) :
    movesAt crates.urls key (planAiChunks crates claimed (g :: gated)) =
      move :: movesAt crates.urls key (planAiChunks crates (claimChunk crates claimed g) gated) := by
  rw [planAiChunks_cons, movesAt]
  exact List.filterMap_cons_some ((if_pos here).trans moved)

theorem fail_mem_iff : .fail ∈ movesAt crates.urls key (planAiChunks crates claimed gated) ↔
    ∃ g ∈ gated, g.At crates.urls key ∧ g.Fails crates := by
  rw [← List.count_pos_iff, count_unclaimed moved_fail, List.countP_pos_iff]
  simp

theorem promote_mem_iff : .promote ∈ movesAt crates.urls key (planAiChunks crates claimed gated) ↔
    ∃ g ∈ gated, g.At crates.urls key ∧ g.decision = .promoteFromFlushProof := by
  rw [← List.count_pos_iff, count_unclaimed moved_promote, List.countP_pos_iff]
  simp

theorem exports_of_commit_mem
    (member : .commit ∈ movesAt crates.urls key (planAiChunks crates claimed gated)) :
    ∃ g ∈ gated, g.At crates.urls key ∧ g.Exports crates := by
  rw [← List.count_pos_iff, count_commit, Finset.card_pos] at member
  obtain ⟨pair, listed⟩ := member
  obtain ⟨g, present, here, -⟩ := mem_exportedPairs.mp (Finset.mem_sdiff.mp listed).1
  exact ⟨g, present, here⟩

theorem exists_of_mem_plan {planned : PlannedChunk} (member : planned ∈ planAiChunks crates claimed gated) :
    planned.toGatedChunk ∈ gated ∧
      ∃ claimed', planned.outcome = planAiChunk crates claimed' planned.toGatedChunk := by
  induction gated generalizing claimed with
  | nil => cases member
  | cons g rest ih =>
    rw [planAiChunks_cons] at member
    cases member with
    | head => exact ⟨List.mem_cons_self, claimed, rfl⟩
    | tail _ later =>
      obtain ⟨present, outcome⟩ := ih later
      exact ⟨List.mem_cons_of_mem _ present, outcome⟩

/-! ### The gate -/

variable {chunks : List DocumentChunk}

/-- With a record under the key, the gate's decision is the same for all chunks of the key. -/
theorem decision_of_record {chunk chunk' : DocumentChunk} {record : RawRecord}
    (same : crates.urls.canonicalKey chunk'.url = crates.urls.canonicalKey chunk.url)
    (found : session.records[crates.urls.canonicalKey chunk.url]? = some record) :
    (gateChunk crates session chunk').decision = (gateChunk crates session chunk).decision := by
  unfold gateChunk CommitSession.decide
  dsimp only
  rw [same, found]

theorem parses_of_valid {g : GatedChunk} (valid : g.Valid crates) :
    (crates.urls.parse g.chunk.url).isSome := by
  unfold GatedChunk.Valid DocumentChunk.validate at valid
  split_ifs at valid with content title unparsed
  · cases valid
  · cases valid
  · cases valid
  · simpa [Option.isSome_iff_ne_none, Option.isNone_iff_eq_none] using unparsed

theorem key_of_exports {g : GatedChunk} (names : Addressable crates.urls g.chunk.url)
    (exports : g.Exports crates) : Text.isBlank (crates.urls.canonicalKey g.chunk.url) = false :=
  names.key (names.parsed (parses_of_valid exports.2))

theorem planCall_placed {session : CommitSession}
    (names : ∀ chunk ∈ chunks, Addressable crates.urls chunk.url) :
    ∀ planned ∈ planCall crates session chunks, planned.Placed crates.urls := by
  intro planned member
  obtain ⟨gated, claimed, outcome⟩ := exists_of_mem_plan member
  obtain ⟨chunk, listed, made⟩ := List.mem_map.mp gated
  have named : Addressable crates.urls planned.chunk.url := by
    rw [← made]
    exact names chunk listed
  refine ⟨named, fun moved => key_of_exports named ?_⟩
  have whole : planned = ⟨planned.toGatedChunk, planAiChunk crates claimed planned.toGatedChunk⟩ := by
    rw [← outcome]
  rw [whole, moved_commit] at moved
  exact moved.1

/-! ### The condition -/

/-- No chunk that will be recorded as failed belongs to a page held as `COMMITTED`, to a page with a
chunk to export, or to an addressed page with a chunk to promote. -/
def Unmixed (crates : ExportCrates) (session : CommitSession) (chunks : List DocumentChunk) : Prop :=
  ∀ failed ∈ chunks, (gateChunk crates session failed).Fails crates →
    Uncommitted (slotStanding session.records (crates.urls.canonicalKey failed.url)) ∧
      ∀ other ∈ chunks, crates.urls.canonicalKey other.url = crates.urls.canonicalKey failed.url →
        ¬ (gateChunk crates session other).Exports crates ∧
          ((gateChunk crates session other).decision = .promoteFromFlushProof →
            Text.isBlank (crates.urls.canonicalKey failed.url) = true)

def pageMoves (crates : ExportCrates) (session : CommitSession) (key : String)
    (chunks : List DocumentChunk) : List ChunkMove :=
  movesAt crates.urls key (planCall crates session chunks)

theorem pageMoves_perm {chunks' : List DocumentChunk} (perm : chunks'.Perm chunks) :
    (pageMoves crates session key chunks').Perm (pageMoves crates session key chunks) :=
  movesAt_perm (perm.map _)

theorem mem_gated {makes : GatedChunk → Prop} :
    (∃ g ∈ chunks.map (gateChunk crates session), g.At crates.urls key ∧ makes g) ↔
      ∃ chunk ∈ chunks,
        crates.urls.canonicalKey chunk.url = key ∧ makes (gateChunk crates session chunk) := by
  constructor
  · rintro ⟨g, member, here⟩
    obtain ⟨chunk, listed, rfl⟩ := List.mem_map.mp member
    exact ⟨chunk, listed, here⟩
  · rintro ⟨chunk, listed, here⟩
    exact ⟨gateChunk crates session chunk, List.mem_map_of_mem listed, here⟩

/-- A page with a failing chunk and a promoted one has no record yet. -/
theorem slot_of_split {failed other : DocumentChunk}
    (same : crates.urls.canonicalKey other.url = crates.urls.canonicalKey failed.url)
    (fails : (gateChunk crates session failed).Fails crates)
    (promotes : (gateChunk crates session other).decision = .promoteFromFlushProof) :
    slotStanding session.records (crates.urls.canonicalKey failed.url) = none := by
  rw [slotStanding, Option.map_eq_none_iff]
  by_contra present
  obtain ⟨record, found⟩ := Option.ne_none_iff_exists'.mp present
  have decisions : (gateChunk crates session other).decision = (gateChunk crates session failed).decision :=
    decision_of_record same found
  rw [promotes, fails.1] at decisions
  cases decisions

theorem Unmixed.failing (unmixed : Unmixed crates session chunks)
    (fails : .fail ∈ pageMoves crates session key chunks) :
    Uncommitted (slotStanding session.records key) ∧ .commit ∉ pageMoves crates session key chunks ∧
      (.promote ∈ pageMoves crates session key chunks →
        Text.isBlank key = true ∧ slotStanding session.records key = none) := by
  obtain ⟨failed, listed, here, failing⟩ := mem_gated.mp (fail_mem_iff.mp fails)
  subst here
  obtain ⟨open_, others⟩ := unmixed failed listed failing
  refine ⟨open_, fun commits => ?_, fun promotes => ?_⟩
  · obtain ⟨other, present, same, exports⟩ := mem_gated.mp (exports_of_commit_mem commits)
    exact (others other present same).1 exports
  · obtain ⟨other, present, same, promoted⟩ := mem_gated.mp (promote_mem_iff.mp promotes)
    exact ⟨(others other present same).2 promoted, slot_of_split same failing promoted⟩

theorem Unmixed.uncommitted (unmixed : Unmixed crates session chunks) {seen : List ChunkMove}
    (subset : seen ⊆ pageMoves crates session key chunks) (fails : .fail ∈ seen) :
    Uncommitted (applyMoves key (slotStanding session.records key) seen) := by
  obtain ⟨open_, spared, blank⟩ := unmixed.failing (subset fails)
  by_cases promotes : .promote ∈ pageMoves crates session key chunks
  · obtain ⟨nameless, absent⟩ := blank promotes
    rw [absent, applyMoves_blank nameless fun commits => spared (subset commits)]
    nofun
  · refine applyMoves_fails (fun move member => ?_) open_
    cases move with
    | fail => rfl
    | commit => exact absurd (subset member) spared
    | promote => exact absurd (subset member) promotes

/-- A list whose members are all the same is its own only permutation. -/
theorem eq_of_perm_uniform {move : ChunkMove} {seen : List ChunkMove} (perm : seen.Perm moves)
    (uniform : ∀ other ∈ moves, other = move) : seen = moves := by
  have flat := List.eq_replicate_of_mem uniform
  rw [flat, List.perm_replicate] at perm
  rw [perm, ← flat]

theorem Unmixed.applyMoves_perm (unmixed : Unmixed crates session chunks)
    (names : ∀ chunk ∈ chunks, Addressable crates.urls chunk.url) {seen : List ChunkMove}
    (perm : seen.Perm (pageMoves crates session key chunks)) :
    applyMoves key (slotStanding session.records key) seen =
      applyMoves key (slotStanding session.records key) (pageMoves crates session key chunks) := by
  have uniform (move : ChunkMove) (all : ∀ other ∈ pageMoves crates session key chunks, other = move) :=
    congrArg (applyMoves key (slotStanding session.records key)) (eq_of_perm_uniform perm all)
  -- a commit needs a name, so nothing happens under a blank key
  have nameless (blank : Text.isBlank key = true) (absent : slotStanding session.records key = none)
      (spared : .commit ∉ pageMoves crates session key chunks) :
      applyMoves key (slotStanding session.records key) seen =
        applyMoves key (slotStanding session.records key) (pageMoves crates session key chunks) := by
    rw [absent, applyMoves_blank blank spared,
      applyMoves_blank blank fun commits => spared (perm.subset commits)]
  by_cases fails : .fail ∈ pageMoves crates session key chunks
  · obtain ⟨-, spared, blank⟩ := unmixed.failing fails
    by_cases promotes : .promote ∈ pageMoves crates session key chunks
    · exact nameless (blank promotes).1 (blank promotes).2 spared
    · refine uniform .fail fun move member => ?_
      cases move with
      | fail => rfl
      | commit => exact absurd member spared
      | promote => exact absurd member promotes
  · cases slot : session.records[key]? with
    | none =>
      have absent : slotStanding session.records key = none := by rw [slotStanding, slot]; rfl
      cases blank : Text.isBlank key with
      | true =>
        refine nameless blank absent fun commits => ?_
        obtain ⟨chunk, listed, here, exports⟩ := mem_gated.mp (exports_of_commit_mem commits)
        have named := key_of_exports (names chunk listed) exports
        rw [show crates.urls.canonicalKey (gateChunk crates session chunk).chunk.url = key from here,
          blank] at named
        cases named
      | false =>
        rw [absent, applyMoves_fresh blank fails,
          applyMoves_fresh blank fun later => fails (perm.subset later)]
        have same : seen = [] ↔ pageMoves crates session key chunks = [] :=
          ⟨fun empty => (empty ▸ perm).nil_eq.symm, fun empty => (empty ▸ perm).eq_nil⟩
        simp only [same]
    | some record =>
      -- the page has a record, so all its chunks take one way
      by_cases promotes : .promote ∈ pageMoves crates session key chunks
      · refine uniform .promote fun move member => ?_
        obtain ⟨first, -, here, promoted⟩ := mem_gated.mp (promote_mem_iff.mp promotes)
        cases move with
        | promote => rfl
        | fail => exact absurd member fails
        | commit =>
          obtain ⟨other, -, there, exports⟩ := mem_gated.mp (exports_of_commit_mem member)
          have decisions : (gateChunk crates session other).decision =
              (gateChunk crates session first).decision :=
            decision_of_record (there.trans here.symm) (here ▸ slot)
          rw [promoted, exports.1] at decisions
          cases decisions
      · refine uniform .commit fun move member => ?_
        cases move with
        | commit => rfl
        | fail => exact absurd member fails
        | promote => exact absurd member promotes

/-! ### The call -/

variable {outputPath : String} {ctx : ResumeContext} {store : RecordStore} {load : Io} {file : StateFile}
  {output : Option Bytes} {env : AiCallEnv} {call : AiCallResult}

def AiCallEnv.Uncancelled (env : AiCallEnv) : Prop := ∀ n, (env.steps n).cancelled = false

/-- The chunk was recorded as failed. -/
def AiTrace.Failed (trace : AiTrace) : Prop := ∃ error, trace.planned.outcome = .invalid error

def AiCallResult.status (call : AiCallResult) (key : String) : Option PageStatus :=
  call.records[key]?.map RawRecord.status

/-- No page of which a chunk was recorded as failed is `COMMITTED`. -/
def FailuresOpen (crates : ExportCrates) (call : AiCallResult) : Prop :=
  ∀ trace ∈ call.traces, trace.Failed →
    call.status (crates.urls.canonicalKey trace.planned.chunk.url) ≠ some .committed

/-- Every call on the chunks that returns keeps its failed pages open, and without a cancellation the
statuses it leaves are those of every other order of the chunks. -/
def KeepsFailures (crates : ExportCrates) (outputPath : String) (ctx : ResumeContext) (store : RecordStore)
    (load : Io) (file : StateFile) (output : Option Bytes) (chunks : List DocumentChunk) : Prop :=
  ∀ env call,
    processResultsWithChunks crates outputPath (some ctx) store load file output env chunks = .ok call →
      FailuresOpen crates call ∧
        (env.Uncancelled → ∀ env' chunks' call', chunks'.Perm chunks → env'.Uncancelled →
          processResultsWithChunks crates outputPath (some ctx) store load file output env' chunks' =
            .ok call' →
          ∀ key, call'.status key = call.status key)

theorem openSession_held (crates : ExportCrates) (ctx : ResumeContext) (store : RecordStore) (load : Io)
    (file : StateFile) (output : Option Bytes) :
    AllHeld (openSession crates.fromStr (some ctx) store load file output).1.records :=
  fun key record found => held_of_valid (loadOrInit_allValid store load file key record found)

/-- What a call that returns leaves is the run over its plan. -/
theorem of_returned
    (returned : processResultsWithChunks crates outputPath (some ctx) store load file output env chunks =
      .ok call) :
    let session := (openSession crates.fromStr (some ctx) store load file output).1
    let run := commitAiOutcomes crates outputPath ctx.runId env.steps session (planCall crates session chunks)
    call.traces = run.2 ∧ call.records = run.1.records := by
  unfold processResultsWithChunks at returned
  split at returned
  · cases returned
  · dsimp only at returned
    split at returned
    · cases returned
    · cases returned
      exact ⟨rfl, rfl⟩

theorem status_eq (key : String) : call.status key = (slotStanding call.records key).map Standing.status := by
  rw [AiCallResult.status, slotStanding, Option.map_map]
  rfl

/-- The moves a call applied, as far as it came. -/
theorem moves_of_returned (names : ∀ chunk ∈ chunks, Addressable crates.urls chunk.url)
    (returned : processResultsWithChunks crates outputPath (some ctx) store load file output env chunks =
      .ok call) :
    let session := (openSession crates.fromStr (some ctx) store load file output).1
    (call.traces.map AiTrace.planned <+: planCall crates session chunks) ∧
      (env.Uncancelled → call.traces.map AiTrace.planned = planCall crates session chunks) ∧
      ∀ key, slotStanding call.records key = applyMoves key (slotStanding session.records key)
        (movesAt crates.urls key (call.traces.map AiTrace.planned)) := by
  obtain ⟨traces, records⟩ := of_returned returned
  rw [traces, records]
  exact commitAiOutcomes_spec outputPath ctx.runId (planCall_placed names)
    (openSession_held crates ctx store load file output) rfl env.steps

theorem move_of_failed {claimed : List (String × String)} {trace : AiTrace} (failed : trace.Failed)
    (planned : trace.planned ∈ planAiChunks crates claimed gated) :
    trace.planned.move = some .fail := by
  obtain ⟨error, invalid⟩ := failed
  obtain ⟨-, claimed', outcome⟩ := exists_of_mem_plan planned
  have decided : trace.planned.decision = .driveAndCommit := by
    rcases planAiChunk_cases crates claimed' trace.planned.toGatedChunk with
      ⟨-, made⟩ | ⟨fails, -⟩ | ⟨exports, -⟩ | ⟨exports, -⟩
    · rw [outcome, made] at invalid
      cases invalid
    · exact fails.1
    · exact exports.1
    · exact exports.1
  rw [PlannedChunk.move, decided, invalid]

theorem Unmixed.keepsFailures (names : ∀ chunk ∈ chunks, Addressable crates.urls chunk.url)
    (unmixed : Unmixed crates (openSession crates.fromStr (some ctx) store load file output).1 chunks) :
    KeepsFailures crates outputPath ctx store load file output chunks := by
  intro env call returned
  obtain ⟨seen, whole, moved⟩ := moves_of_returned names returned
  refine ⟨fun trace listed failed => ?_, fun calm env' chunks' call' perm calm' returned' key => ?_⟩
  · have present : trace.planned ∈ call.traces.map AiTrace.planned := List.mem_map_of_mem listed
    rw [status_eq, moved]
    have open_ := unmixed.uncommitted (List.Sublist.subset (seen.sublist.filterMap _))
      (List.mem_filterMap.mpr ⟨_, present, (if_pos rfl).trans (move_of_failed failed (seen.subset present))⟩)
    rw [Ne, Option.map_eq_some_iff]
    rintro ⟨s, held, committed⟩
    exact open_ s held committed
  · have names' : ∀ chunk ∈ chunks', Addressable crates.urls chunk.url :=
      fun chunk member => names chunk (perm.subset member)
    obtain ⟨-, whole', moved'⟩ := moves_of_returned names' returned'
    rw [status_eq, status_eq, moved, moved', whole calm, whole' calm']
    exact congrArg _ (unmixed.applyMoves_perm names (pageMoves_perm perm))

/-! ### The condition is needed -/

/-- A call in which nothing goes wrong and nobody cancels. -/
def calm : AiCallEnv where
  steps _ := { now := 0 }
  fallbackRunId := ""

theorem calm_returns (crates : ExportCrates) (outputPath : String) (ctx : ResumeContext)
    (store : RecordStore) (load : Io) (file : StateFile) (output : Option Bytes)
    (chunks : List DocumentChunk) :
    ∃ call, processResultsWithChunks crates outputPath (some ctx) store load file output calm chunks =
      .ok call := by
  unfold processResultsWithChunks
  simp [calm]

/-- Whatever the order of the chunks, their page is not `COMMITTED` when one of them fails. -/
theorem KeepsFailures.uncommitted (names : ∀ chunk ∈ chunks, Addressable crates.urls chunk.url)
    (keeps : KeepsFailures crates outputPath ctx store load file output chunks)
    {failed : DocumentChunk} (listed : failed ∈ chunks) {session : CommitSession}
    (opened : (openSession crates.fromStr (some ctx) store load file output).1 = session)
    (fails : (gateChunk crates session failed).Fails crates) {chunks' : List DocumentChunk}
    (perm : chunks'.Perm chunks) :
    ¬ Committed (applyMoves (crates.urls.canonicalKey failed.url)
      (slotStanding session.records (crates.urls.canonicalKey failed.url))
      (pageMoves crates session (crates.urls.canonicalKey failed.url) chunks')) := by
  subst opened
  have going : calm.Uncancelled := fun _ => rfl
  obtain ⟨call, returned⟩ := calm_returns crates outputPath ctx store load file output chunks
  obtain ⟨call', returned'⟩ := calm_returns crates outputPath ctx store load file output chunks'
  obtain ⟨-, whole, -⟩ := moves_of_returned names returned
  obtain ⟨-, whole', moved'⟩ :=
    moves_of_returned (fun chunk member => names chunk (perm.subset member)) returned'
  obtain ⟨open_, orders⟩ := keeps calm call returned
  rintro ⟨s, held, committed⟩
  -- the failed chunk has its trace in the call on the given order
  have moves : .fail ∈ pageMoves crates
      (openSession crates.fromStr (some ctx) store load file output).1
      (crates.urls.canonicalKey failed.url) chunks :=
    fail_mem_iff.mpr (mem_gated.mpr ⟨failed, listed, rfl, fails⟩)
  obtain ⟨planned, present, moved⟩ := List.mem_filterMap.mp moves
  rw [planCall, ← planCall, ← whole going] at present
  obtain ⟨trace, traced, rfl⟩ := List.mem_map.mp present
  unfold PlannedChunk.moveAt at moved
  split at moved
  next here =>
    have invalid : trace.Failed := by
      unfold PlannedChunk.move at moved
      split at moved
      · cases moved
      · cases moved
      · split at moved
        · cases moved
        next error made => exact ⟨error, made⟩
        · cases moved
        · cases moved
    apply open_ trace traced invalid
    rw [here, ← orders going calm chunks' call' perm going returned', status_eq, moved', whole' going]
    rw [pageMoves] at held
    rw [held, Option.map_some, committed]
  · cases moved

theorem exists_perm_pair {α : Type} {first second : α} {list : List α} (one : first ∈ list)
    (two : second ∈ list) (distinct : first ≠ second) : ∃ rest, (first :: second :: rest).Perm list := by
  obtain ⟨before, after, rfl⟩ := List.append_of_mem one
  have later : second ∈ before ++ after := by
    rcases List.mem_append.mp two with here | here
    · exact List.mem_append_left _ here
    · exact List.mem_append_right _ ((List.mem_cons.mp here).resolve_left distinct.symm)
  obtain ⟨front, back, split⟩ := List.append_of_mem later
  refine ⟨front ++ back, ?_⟩
  have inner : (second :: (front ++ back)).Perm (before ++ after) := by
    rw [split]
    exact List.perm_middle.symm
  exact (inner.cons first).trans List.perm_middle.symm

/-- No failure belongs to a page with a chunk to export or to promote, or to a committed one. -/
theorem KeepsFailures.unmixed (names : ∀ chunk ∈ chunks, Addressable crates.urls chunk.url)
    (keeps : KeepsFailures crates outputPath ctx store load file output chunks) :
    Unmixed crates (openSession crates.fromStr (some ctx) store load file output).1 chunks := by
  generalize opened : (openSession crates.fromStr (some ctx) store load file output).1 = session
  intro failed listed fails
  have open_ {chunks' : List DocumentChunk} (perm : chunks'.Perm chunks) :=
    keeps.uncommitted names listed opened fails perm
  have here : (gateChunk crates session failed).At crates.urls (crates.urls.canonicalKey failed.url) := rfl
  have failing (claimed : List (String × String)) := (moved_fail claimed _).mpr fails
  refine ⟨fun s slot committed => ?_, fun other present same =>
    have there : (gateChunk crates session other).At crates.urls (crates.urls.canonicalKey failed.url) := same
    ⟨fun exports => ?_, fun promotes => ?_⟩⟩
  · -- the page of a promoted chunk would have no record
    have spared : .promote ∉ pageMoves crates session (crates.urls.canonicalKey failed.url) chunks := by
      intro promoted
      obtain ⟨other, -, same, promotes⟩ := mem_gated.mp (promote_mem_iff.mp promoted)
      rw [slot_of_split same fails promotes] at slot
      cases slot
    apply open_ (List.Perm.refl chunks)
    rw [slot]
    exact applyMoves_committed committed (.inr spared)
  · have distinct : other ≠ failed := by
      rintro rfl
      exact fails.2 exports.2
    obtain ⟨rest, perm⟩ := exists_perm_pair present listed distinct
    have unclaimed : PlannedChunk.move ⟨gateChunk crates session other,
        planAiChunk crates [] (gateChunk crates session other)⟩ = some .commit :=
      (moved_commit _ _).mpr ⟨exports, List.not_mem_nil⟩
    have claims : ∀ claimed, claimChunk crates claimed (gateChunk crates session failed) = claimed :=
      fun claimed => if_neg fun both => fails.2 both.1.2
    -- in both orders the rest of the chunks finds the same claims
    have front : pageMoves crates session (crates.urls.canonicalKey failed.url) (other :: failed :: rest) =
        .commit :: .fail :: movesAt crates.urls (crates.urls.canonicalKey failed.url)
          (planAiChunks crates (claimChunk crates [] (gateChunk crates session other))
            (rest.map (gateChunk crates session))) := by
      rw [pageMoves, planCall, List.map_cons, List.map_cons, movesAt_plan_cons there unclaimed,
        movesAt_plan_cons here (failing _), claims]
    have back : pageMoves crates session (crates.urls.canonicalKey failed.url) (failed :: other :: rest) =
        .fail :: .commit :: movesAt crates.urls (crates.urls.canonicalKey failed.url)
          (planAiChunks crates (claimChunk crates [] (gateChunk crates session other))
            (rest.map (gateChunk crates session))) := by
      rw [pageMoves, planCall, List.map_cons, List.map_cons, movesAt_plan_cons here (failing _), claims,
        movesAt_plan_cons there unclaimed]
    have settled := @applyMoves_either (crates.urls.canonicalKey failed.url)
      (slotStanding session.records (crates.urls.canonicalKey failed.url))
      (movesAt crates.urls (crates.urls.canonicalKey failed.url)
        (planAiChunks crates (claimChunk crates [] (gateChunk crates session other))
          (rest.map (gateChunk crates session)))) ?_
    · rw [← front, ← back] at settled
      rcases settled with first | second
      · exact open_ perm first
      · exact open_ ((List.Perm.swap other failed rest).trans perm) second
    · rw [or_iff_not_imp_left, not_not]
      intro promoted
      obtain ⟨third, -, there, promotes⟩ := mem_gated.mp (promote_mem_iff.mp promoted)
      exact slot_of_split there fails promotes
  · by_contra named
    rw [Bool.not_eq_true] at named
    have distinct : other ≠ failed := by
      rintro rfl
      rw [fails.1] at promotes
      cases promotes
    obtain ⟨rest, perm⟩ := exists_perm_pair present listed distinct
    have first : ChunkMove.apply (!Text.isBlank (crates.urls.canonicalKey failed.url)) none .promote =
        some ChunkMove.fresh := by
      rw [named]
      rfl
    apply open_ perm
    rw [slot_of_split same fails promotes, pageMoves, planCall, List.map_cons, List.map_cons,
      movesAt_plan_cons there ((moved_promote _ _).mpr promotes), movesAt_plan_cons here (failing _),
      applyMoves, List.foldl_cons, first, ← applyMoves]
    exact applyMoves_committed rfl (.inl rfl)

/-- A call keeps its failed pages open, in every order of its chunks, exactly when no failing chunk
shares a page with a chunk that commits it or meets one that is committed. -/
theorem keepsFailures_iff (names : ∀ chunk ∈ chunks, Addressable crates.urls chunk.url) :
    KeepsFailures crates outputPath ctx store load file output chunks ↔
      Unmixed crates (openSession crates.fromStr (some ctx) store load file output).1 chunks :=
  ⟨KeepsFailures.unmixed names, Unmixed.keepsFailures names⟩

/-! Two chunks of one page, the second without a title, and the same on two pages. -/

namespace MixedPage

def plain : ExportCrates := PlainCrates.knowing []

def resuming : ResumeContext := ⟨"run", true⟩

def chunk (url title : String) : DocumentChunk where
  id := "1"
  url
  title
  content := "a"
  metadata := []
  timestampRfc3339 := ""
  timestamp := ""
  correlationId := none

def onePage : List DocumentChunk := [chunk "https://a.test/p" "Page", chunk "https://a.test/p" " "]

def twoPages : List DocumentChunk := [chunk "https://a.test/p" "Page", chunk "https://a.test/q" " "]

def opened : CommitSession := (openSession plain.fromStr (some resuming) ⟨"a.test"⟩ {} .missing none).1

/-- The call on a new domain. -/
def run (chunks : List DocumentChunk) : Except ExporterError AiCallResult :=
  processResultsWithChunks plain "out/export.jsonl" (some resuming) ⟨"a.test"⟩ {} .missing none calm chunks

/-- What the call leaves of the page: its status, and what the table says about its record. -/
def summary (call : AiCallResult) : List AiChunkOutcome × Option PageStatus × Option (Option String) :=
  (call.traces.map fun trace => trace.planned.outcome, call.status "https://a.test/p",
    call.records["https://a.test/p"]?.map invariantViolation)

/-- The failed chunk has a page of its own. -/
theorem two_pages_keep_failures :
    KeepsFailures plain "out/export.jsonl" resuming ⟨"a.test"⟩ {} .missing none twoPages := by
  refine (keepsFailures_iff ?_).mpr ?_
  · intro chunk listed
    rcases List.mem_pair.mp listed with rfl | rfl
    · exact ⟨fun _ => by decide, fun _ => by decide⟩
    · exact ⟨fun _ => by decide, fun _ => by decide⟩
  · intro failed listed fails
    rcases List.mem_pair.mp listed with rfl | rfl
    · exact absurd fails (by decide)
    · refine ⟨?_, fun other present same => ?_⟩
      · have absent : slotStanding opened.records (plain.urls.canonicalKey "https://a.test/q") = none := by
          decide
        intro s held
        exact absurd (absent.symm.trans held) (by nofun)
      · rcases List.mem_pair.mp present with rfl | rfl
        · exact absurd same (by decide)
        · exact ⟨by decide, fun promotes => absurd promotes (by decide)⟩

/-- The page is committed although its second chunk failed, and its record breaks the table: the
next load drops it. -/
theorem one_page_committed : (run onePage).toOption.map summary =
        some ([.exported "ca978112ca1bbdcafac231b39a23dc4da786eff8147c4e72b9807785afee48bb",
          .invalid "empty_title"], some .committed, some (some "committed must not carry last_error")) ∧
      ¬ KeepsFailures plain "out/export.jsonl" resuming ⟨"a.test"⟩ {} .missing none onePage := by
  have evaluated : (run onePage).toOption.map summary =
      some ([.exported "ca978112ca1bbdcafac231b39a23dc4da786eff8147c4e72b9807785afee48bb",
        .invalid "empty_title"], some .committed, some (some "committed must not carry last_error")) := by
    decide
  refine ⟨evaluated, fun keeps => ?_⟩
  have settled : (run onePage).toOption.map (fun call => call.traces.map fun trace =>
      (plain.urls.canonicalKey trace.planned.chunk.url, trace.planned.outcome)) =
      some [("https://a.test/p",
          .exported "ca978112ca1bbdcafac231b39a23dc4da786eff8147c4e72b9807785afee48bb"),
        ("https://a.test/p", .invalid "empty_title")] := by decide
  cases ran : run onePage with
  | error e =>
    rw [ran] at evaluated
    cases evaluated
  | ok call =>
    rw [ran] at evaluated settled
    have status := (Prod.mk.inj (Prod.mk.inj (Option.some.inj evaluated)).2).1
    have second : ("https://a.test/p", AiChunkOutcome.invalid "empty_title") ∈
        call.traces.map fun trace =>
          (plain.urls.canonicalKey trace.planned.chunk.url, trace.planned.outcome) := by
      rw [show call.traces.map _ = _ from Option.some.inj settled]
      exact List.mem_cons_of_mem _ List.mem_cons_self
    obtain ⟨trace, traced, same⟩ := List.mem_map.mp second
    obtain ⟨key, outcome⟩ := Prod.mk.inj same
    exact (keeps calm call ran).1 trace traced ⟨_, outcome⟩ (by rw [key]; exact status)

end MixedPage

end Webfang.Export
