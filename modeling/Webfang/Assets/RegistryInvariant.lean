import Webfang.Assets.RegistryRuns

/-!
# The invariants of the registry

Every step of a call keeps them, whatever the others do in between. An eviction pass takes
entries and their ledger keys together; a cell that is not in the ledger yet belongs to a call
that still has to put it there.
-/
namespace Webfang.Assets

open Library

namespace Registry

variable {Asset : Type} {s s' : Registry Asset} {e : RegistryEvent Asset} {index : Nat}
  {call : DownloadCall Asset}

/-! ### Every run -/

theorem Sound.called (sound : s.Sound) (url : String) :
    ({ s with calls := s.calls ++ [⟨url, .called⟩] } : Registry Asset).Sound := by
  have split {other : DownloadCall Asset} (member : other ∈ s.calls ++ [⟨url, .called⟩]) :
      other ∈ s.calls ∨ other = ⟨url, .called⟩ := by simpa using member
  refine
    { bounded := sound.bounded, ordered := sound.ordered.congr rfl rfl, listed := sound.listed,
      held := ?_, owned := ?_, single := sound.single, tracked := sound.tracked, pending := ?_,
      permit := ?_ }
  · intro other member cell free
    rcases split member with old | rfl
    · exact sound.held other old cell free
    · cases free
  · intro other member cell key free known
    rcases split member with old | rfl
    · exact sound.owned other old cell key free known
    · cases free
  · intro key cell known unflagged
    obtain ⟨other, member, same⟩ := sound.pending key cell known unflagged
    exact ⟨other, List.mem_append_left _ member, same⟩
  · intro j other cell there here
    rcases Nat.lt_or_ge j s.calls.length with old | new
    · rw [List.getElem?_append_left old] at there
      exact sound.permit j other cell there here
    · rw [List.getElem?_append_right new] at there
      have last : other = ⟨url, .called⟩ := by
        have member := List.mem_of_getElem? there
        simpa using member
      rw [last] at here
      cases here

/-- The cells of another call keep their permits when one call's cell changes. -/
theorem permit_withCell {cell : Nat} (change : Cell Asset → Cell Asset)
    (free : ∀ (j : Nat) (flag : Bool), j ≠ index → s.cells[cell]? ≠ some ⟨none, some j, flag⟩)
    (j k : Nat) (flag : Bool) (apart : j ≠ index) (held : s.cells[k]? = some ⟨none, some j, flag⟩) :
    ∃ flag, (s.withCell cell change).cells[k]? = some ⟨none, some j, flag⟩ := by
  have elsewhere : cell ≠ k := by
    rintro rfl
    exact free j flag apart held
  exact ⟨flag, by rw [getElem?_withCell, if_neg elsewhere, held]⟩

theorem isLedgered_withCell {cell : Nat} {change : Cell Asset → Cell Asset}
    (same : ∀ c, (change c).ledgered = c.ledgered) (k : Nat) :
    (s.withCell cell change).isLedgered k = s.isLedgered k := by
  unfold isLedgered
  rw [getElem?_withCell]
  split
  next => cases s.cells[k]? <;> simp [same]
  next => rfl

theorem Sound.cellOf (sound : s.Sound) {cell : Nat} (found : s.calls[index]? = some call)
    (holds : call.stage.cell? = some cell) :
    cell < s.cells.length ∧ ∀ url, s.get url = some cell → url = call.url :=
  ⟨sound.held call (List.mem_of_getElem? found) cell holds,
    fun url => sound.owned call (List.mem_of_getElem? found) cell url holds⟩

theorem Sound.moved (sound : s.Sound) {stage : Stage Asset} (found : s.calls[index]? = some call)
    (ledgered : ∀ cell, call.stage = .inserted cell → s.isLedgered cell = true)
    (owned : ∀ cell, stage.cell? = some cell →
      cell < s.cells.length ∧ ∀ url, s.get url = some cell → url = call.url)
    (idle : ∀ cell, stage ≠ .downloading cell) : (s.moveTo index call stage).Sound :=
  sound.moveTo found rfl rfl rfl rfl rfl (fun _ => rfl) ledgered owned
    (fun _ _ flag _ held => ⟨flag, held⟩) fun cell here => absurd here (idle cell)

/-- What is listed after a registration: the new cell, or what was listed before it. -/
theorem Sound.registered_cases (sound : s.Sound) {key url : String} {cell : Nat} (unknown : s.get key = none)
    (known : (s.register key).get url = some cell) :
    key = url ∧ cell = s.cells.length ∨ s.get url = some cell ∧ cell < s.cells.length := by
  rw [get_register unknown] at known
  split at known
  next same =>
    cases known
    exact .inl ⟨same, rfl⟩
  next => exact .inr ⟨known, sound.listed url cell known⟩

/-- A new cell is registered together with the move of its call. -/
theorem Sound.registered (sound : s.Sound) (found : s.calls[index]? = some call)
    (here : call.stage = .missed) (unknown : s.get call.url = none) :
    ((s.register call.url).moveTo index call (.inserted s.cells.length)).Sound := by
  have listing {url : String} {cell : Nat}
      (known : ((s.register call.url).moveTo index call (.inserted s.cells.length)).get url = some cell) :
      call.url = url ∧ cell = s.cells.length ∨ s.get url = some cell ∧ cell < s.cells.length :=
    sound.registered_cases unknown known
  have cells : ((s.register call.url).moveTo index call (.inserted s.cells.length)).cells =
      s.cells ++ [⟨none, none, false⟩] := rfl
  have old {cell : Nat} (known : cell < s.cells.length) :
      (s.cells ++ [⟨none, none, false⟩])[cell]? = s.cells[cell]? := List.getElem?_append_left known
  have foundT : (s.register call.url).calls[index]? = some call := found
  refine
    { bounded := sound.bounded, ordered := ⟨?_, sound.ordered.queue, sound.ordered.seen⟩,
      listed := ?_, held := ?_, owned := ?_, single := ?_, tracked := ?_, pending := ?_, permit := ?_ }
  · change ((s.entries ++ [(call.url, s.cells.length)]).map Prod.fst).Nodup
    rw [List.map_append, List.nodup_append]
    refine ⟨sound.ordered.keys, by simp, ?_⟩
    intro key member other last
    rw [show other = call.url by simpa using last]
    rintro rfl
    exact get_eq_none.mp unknown member
  · intro url cell known
    rw [cells, List.length_append, List.length_singleton]
    rcases listing known with ⟨-, rfl⟩ | ⟨-, below⟩
    · exact Nat.lt_succ_self _
    · exact Nat.lt_succ_of_lt below
  · rw [cells, List.length_append, List.length_singleton]
    refine Counting.forall_mem_set ?_ fun cell holds => ?_
    · exact fun other member cell holds => Nat.lt_succ_of_lt (sound.held other member cell holds)
    · cases holds
      exact Nat.lt_succ_self _
  · -- nobody else holds the new cell, and its call holds no other
    refine Counting.forall_mem_set ?_ fun cell url holds known => ?_
    · intro other member cell url holds known
      have below := sound.held other member cell holds
      rcases listing known with ⟨-, rfl⟩ | ⟨known, -⟩
      · exact absurd below (Nat.lt_irrefl _)
      · exact sound.owned other member cell url holds known
    · cases holds
      rcases listing known with ⟨same, -⟩ | ⟨-, below⟩
      · exact same.symm
      · exact absurd below (Nat.lt_irrefl _)
  · intro url other cell known known'
    rcases listing known with ⟨same, rfl⟩ | ⟨known, below⟩
    · rcases listing known' with ⟨same', -⟩ | ⟨-, below⟩
      · exact same.symm.trans same'
      · exact absurd below (Nat.lt_irrefl _)
    · rcases listing known' with ⟨-, rfl⟩ | ⟨known', -⟩
      · exact absurd below (Nat.lt_irrefl _)
      · exact sound.single url other cell known known'
  · intro url cell known flagged
    unfold isLedgered at flagged
    rw [cells] at flagged
    rcases listing known with ⟨-, rfl⟩ | ⟨known, below⟩
    · simp at flagged
    · rw [old below] at flagged
      exact sound.tracked url cell known flagged
  · intro url cell known unflagged
    unfold isLedgered at unflagged
    rw [cells] at unflagged
    rcases listing known with ⟨same, rfl⟩ | ⟨known, below⟩
    · refine ⟨{ call with stage := .inserted s.cells.length }, ?_, same, rfl⟩
      exact List.mem_iff_getElem?.mpr ⟨index, by rw [getElem?_moveTo foundT, if_pos rfl]⟩
    · rw [old below] at unflagged
      obtain ⟨other, member, same, there⟩ := sound.pending url cell known unflagged
      exact ⟨other, mem_moveTo foundT member (by rw [there, here]; exact nofun), same, there⟩
  · intro j other cell there downloads
    rw [getElem?_moveTo foundT] at there
    split at there
    next =>
      cases there
      cases downloads
    next =>
      have holds : other.stage.cell? = some cell := by rw [downloads]; rfl
      rw [cells, old (sound.held other (List.mem_of_getElem? there) cell holds)]
      exact sound.permit j other cell there downloads

/-- A pass takes entries and their ledger keys together. -/
theorem Sound.evicted (sound : s.Sound) : s.evictOverCapacity.Sound := by
  rw [evictOverCapacity_eq sound.bounded sound.ordered.queue]
  have get {url : String} {cell : Nat} (known : (s.without s.victims s.spared).get url = some cell) :
      url ∉ s.victims ∧ s.get url = some cell := by
    rw [get_without] at known
    split at known
    · cases known
    next kept => exact ⟨kept, known⟩
  exact
    { bounded := sound.bounded
      ordered := sound.ordered.without
      listed := fun url cell known => sound.listed url cell (get known).2
      held := sound.held
      owned := fun other member cell url holds known => sound.owned other member cell url holds (get known).2
      single := fun url other cell known known' => sound.single url other cell (get known).2 (get known').2
      tracked := fun url cell known flagged =>
        (mem_spared sound.ordered.queue).mpr ⟨sound.tracked url cell (get known).2 flagged, (get known).1⟩
      pending := fun url cell known unflagged => sound.pending url cell (get known).2 unflagged
      permit := sound.permit }

theorem InsertionLedger.mem_pushNew {order : InsertionLedger} {key url : String}
    (seen : ∀ url, url ∈ order.seen ↔ url ∈ order.queue) :
    url ∈ (order.pushNew key).queue ↔ url ∈ order.queue ∨ url = key := by
  unfold InsertionLedger.pushNew
  split
  next known =>
    have queued := (seen key).mp known
    exact ⟨.inl, fun either => either.elim id fun same => same ▸ queued⟩
  next => simp

theorem Ordered.pushNew (ordered : s.Ordered) (key : String) :
    ({ s with order := s.order.pushNew key } : Registry Asset).Ordered := by
  refine ⟨ordered.keys, ?_, ?_⟩
  · change (s.order.pushNew key).queue.Nodup
    unfold InsertionLedger.pushNew
    split
    next => exact ordered.queue
    next fresh =>
      refine List.nodup_append.mpr ⟨ordered.queue, by simp, ?_⟩
      intro other queued last same
      rw [List.mem_singleton] at same
      rintro rfl
      subst same
      exact fresh ((ordered.seen _).mpr queued)
  · intro url
    change url ∈ (s.order.pushNew key).seen ↔ url ∈ (s.order.pushNew key).queue
    unfold InsertionLedger.pushNew
    split
    next => exact ordered.seen url
    next => simp [ordered.seen]

theorem Sound.ledgered {cell : Nat} (sound : s.Sound) (found : s.calls[index]? = some call)
    (here : call.stage = .inserted cell) : (s.ledger index call cell).Sound := by
  have holds : call.stage.cell? = some cell := by rw [here]; rfl
  obtain ⟨known, owner⟩ := sound.cellOf found holds
  let t : Registry Asset :=
    { s.withCell cell fun c => { c with ledgered := true } with order := s.order.pushNew call.url }
  have same : s.ledger index call cell = t.moveTo index call (.ledgered cell) := by
    unfold ledger
    simp only [t]
    rw [show (s.withCell cell fun c => { c with ledgered := true }).capacity = s.capacity from rfl,
      if_pos sound.bounded]
    rfl
  have flags (k : Nat) : t.isLedgered k = if cell = k then s.cells[k]?.isSome else s.isLedgered k := by
    unfold isLedgered
    rw [show t.cells = (s.withCell cell fun c => { c with ledgered := true }).cells from rfl,
      getElem?_withCell]
    split
    next => cases s.cells[k]? <;> rfl
    next => rfl
  have sound' : t.Sound :=
    { bounded := sound.bounded
      ordered := (sound.ordered.pushNew call.url).congr rfl rfl
      listed := by
        rw [show t.cells.length = s.cells.length from List.length_modify ..]
        exact sound.listed
      held := by
        rw [show t.cells.length = s.cells.length from List.length_modify ..]
        exact sound.held
      owned := sound.owned
      single := sound.single
      tracked := fun url k listed flagged => by
        refine (InsertionLedger.mem_pushNew sound.ordered.seen).mpr ?_
        rw [flags] at flagged
        split at flagged
        next this =>
          subst this
          exact .inr (owner url listed)
        next => exact .inl (sound.tracked url k listed flagged)
      pending := fun url k listed unflagged => by
        rw [flags] at unflagged
        split at unflagged
        next => rw [List.getElem?_eq_getElem (sound.listed url k listed)] at unflagged; cases unflagged
        next => exact sound.pending url k listed unflagged
      permit := fun j other k there downloads => by
        obtain ⟨flag, held⟩ := sound.permit j other k there downloads
        rw [show t.cells = (s.withCell cell fun c => { c with ledgered := true }).cells from rfl,
          getElem?_withCell, held]
        split
        · exact ⟨true, rfl⟩
        · exact ⟨flag, rfl⟩ }
  rw [same]
  refine sound'.moved found (fun k there => ?_) (fun k there => ?_) (fun _ => nofun)
  · rw [here] at there
    cases there
    rw [flags, if_pos rfl, List.getElem?_eq_getElem known]
    rfl
  · cases there
    exact sound'.cellOf found holds

theorem Sound.withMarks (sound : s.Sound) (inFlight : List String) : ({ s with inFlight } : Registry Asset).Sound :=
  { sound with ordered := sound.ordered.congr rfl rfl }

theorem mark_eq (url : String) : s.mark url = { s with inFlight := (s.mark url).inFlight } := by
  unfold mark
  split <;> rfl

theorem calls_evictOverCapacity (sound : s.Sound) : s.evictOverCapacity.calls = s.calls := by
  rw [evictOverCapacity_eq sound.bounded sound.ordered.queue]
  rfl

theorem Steps.sound (taken : Steps s e s') (sound : s.Sound) : s'.Sound := by
  cases taken with
  | called url => exact sound.called url
  | moved found ledgered free _ =>
    exact sound.moved found (fun cell here => absurd here (ledgered cell))
      (fun cell holds => by rw [free] at holds; cases holds)
      fun cell here => by rw [here] at free; cases free
  | @joined index cell call found here known =>
    refine sound.moved found (fun _ there => by rw [here] at there; cases there) (fun k there => ?_) (fun _ => nofun)
    cases there
    exact ⟨sound.listed call.url cell known, fun url listed => sound.single url call.url cell listed known⟩
  | registered found here unknown => exact sound.registered found here unknown
  | ledgered found here => exact sound.ledgered found here
  | @evicted index cell call found here =>
    have found' : s.evictOverCapacity.calls[index]? = some call := by rw [calls_evictOverCapacity sound, found]
    refine sound.evicted.moved found' (fun _ there => by rw [here] at there; cases there) (fun k there => ?_)
      (fun _ => nofun)
    cases there
    exact sound.evicted.cellOf found' (by rw [here]; rfl)
  | @marked index cell call found here =>
    rw [mark_eq]
    have sound' := sound.withMarks (s.mark call.url).inFlight
    refine sound'.moved found (fun _ there => by rw [here] at there; cases there) (fun k there => ?_) (fun _ => nofun)
    cases there
    exact sound'.cellOf found (by rw [here]; rfl)
  | @began index cell flag call found here empty =>
    have holds : call.stage.cell? = some cell := by rw [here]; rfl
    have owns := sound.cellOf found holds
    refine sound.moveTo found rfl rfl rfl rfl (List.length_modify ..)
      (isLedgered_withCell fun _ => rfl) (fun _ there => by rw [here] at there; cases there)
      (fun k there => ?_) ?_ (fun k there => ?_)
    · cases there
      exact owns
    · intro j k flag apart held
      refine permit_withCell _ (fun j' flag' _ taken => ?_) j k flag apart held
      rw [empty] at taken
      cases taken
    · cases there
      exact ⟨flag, by rw [getElem?_withCell, if_pos rfl, empty]; rfl⟩
  | @finished _ index cell call result asset found here =>
    obtain ⟨flag, held⟩ := sound.permit index call cell found here
    refine sound.moveTo found rfl rfl rfl rfl (List.length_modify ..)
      (isLedgered_withCell fun _ => rfl) (fun _ there => by rw [here] at there; cases there)
      (fun k there => by cases there) ?_ (fun k there => by cases there)
    intro j k flag' apart taken
    refine permit_withCell _ (fun j' flag'' apart' there => ?_) j k flag' apart taken
    -- the permit of this cell is with the call that ends
    rw [held] at there
    cases there
    exact apart' rfl
  | @unmarked index call result found here =>
    refine (sound.withMarks (s.unmark call.url).inFlight).moved found ?_ (fun _ there => by cases there) (fun _ => nofun)
    intro _ there
    rw [here] at there
    cases there

/-! ### The marks -/

/-- A mark belongs to a call of its URL that has yet to remove it. -/
def Marks (s : Registry Asset) : Prop :=
  ∀ url ∈ s.inFlight, ∃ call ∈ s.calls, call.url = url ∧ call.stage.isMarked = true

theorem Marks.moveTo {t : Registry Asset} {stage : Stage Asset} (marks : s.Marks)
    (found : s.calls[index]? = some call) (calls : t.calls = s.calls)
    (inFlight : ∀ url ∈ t.inFlight, url ∈ s.inFlight ∨ url = call.url ∧ stage.isMarked = true)
    (kept : call.stage.isMarked = true → stage.isMarked = true ∨ call.url ∉ t.inFlight) :
    (t.moveTo index call stage).Marks := by
  intro url listed
  have foundT : t.calls[index]? = some call := by rw [calls, found]
  have moved : { call with stage } ∈ (t.moveTo index call stage).calls :=
    List.mem_iff_getElem?.mpr ⟨index, by rw [getElem?_moveTo foundT, if_pos rfl]⟩
  rcases inFlight url listed with old | ⟨rfl, marked⟩
  · obtain ⟨other, member, rfl, marked⟩ := marks url old
    by_cases same : other.stage = call.stage ∧ other.url = call.url
    · obtain ⟨stages, urls⟩ := same
      rcases kept (stages ▸ marked) with still | gone
      · exact ⟨_, moved, urls.symm, still⟩
      · exact absurd (urls ▸ listed) gone
    · obtain ⟨j, there⟩ := List.mem_iff_getElem?.mp member
      have apart : index ≠ j := by
        rintro rfl
        rw [found] at there
        cases there
        exact same ⟨rfl, rfl⟩
      exact ⟨other, List.mem_iff_getElem?.mpr ⟨j, by rw [getElem?_moveTo foundT, if_neg apart, calls, there]⟩,
        rfl, marked⟩
  · exact ⟨_, moved, rfl, marked⟩

theorem Steps.marks (taken : Steps s e s') (sound : s.Sound) (marks : s.Marks) : s'.Marks := by
  have idle {call : DownloadCall Asset} {stage here : Stage Asset} {t : Registry Asset}
      (same : call.stage = here) (unmarked : here.isMarked = false) (set : call.stage.isMarked = true) :
      stage.isMarked = true ∨ call.url ∉ t.inFlight := by
    rw [same, unmarked] at set
    cases set
  cases taken with
  | called url =>
    intro key listed
    obtain ⟨other, member, same⟩ := marks key listed
    exact ⟨other, List.mem_append_left _ member, same⟩
  | moved found _ _ marked => exact marks.moveTo found rfl (fun _ => .inl) fun set => .inl (marked set)
  | joined found here _ => exact marks.moveTo found rfl (fun _ => .inl) (idle here rfl)
  | registered found here _ => exact marks.moveTo found rfl (fun _ => .inl) (idle here rfl)
  | ledgered found here =>
    unfold ledger
    exact marks.moveTo found rfl (fun _ => .inl) (idle here rfl)
  | evicted found here =>
    refine marks.moveTo found (calls_evictOverCapacity sound) (fun url listed => .inl ?_) (idle here rfl)
    rwa [evictOverCapacity_eq sound.bounded sound.ordered.queue] at listed
  | @marked index cell call found here =>
    refine marks.moveTo found (by rw [mark_eq]) (fun url listed => ?_) fun _ => .inl rfl
    unfold mark at listed
    split at listed
    · exact .inl listed
    · rcases List.mem_append.mp listed with old | new
      · exact .inl old
      · exact .inr ⟨List.mem_singleton.mp new, rfl⟩
  | began found _ _ => exact marks.moveTo found rfl (fun _ => .inl) fun _ => .inl rfl
  | finished _ found _ => exact marks.moveTo found rfl (fun _ => .inl) fun _ => .inl rfl
  | unmarked found _ =>
    exact marks.moveTo found rfl (fun url listed => .inl (List.mem_filter.mp listed).1)
      fun _ => .inr (by simp [unmark])

end Registry

end Webfang.Assets
