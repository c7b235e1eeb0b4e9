import Webfang.Assets.AssetNames
import Webfang.Library.Counting
import Webfang.Library.Transition

/-!
# Downloads into one directory tree

`download_once` from the end of its stream: the choice of the final path and the rename of the
temporary file, with an await in between. Temporary files are named by fresh UUIDs and are kept
apart from the others. While no download chooses a path that another one has or is about to take
with other bytes, every asset returned still has its bytes in its file.
-/
namespace Webfang.Assets

open Library
open Domain.Filename (Url)
open Waf (Bytes)

variable {Directory : Type}

structure DownloadedAsset (Directory : Type) where
  url : String
  localPath : AssetPath Directory
  mimeType : Option String
  size : Nat
  contentHash : String
  deriving DecidableEq, Repr

/-- A download that has not failed. -/
inductive SaveStage (Directory : Type) where
  /-- Before the test of its final path. -/
  | streaming
  | named (response : AssetResponse) (finalPath : AssetPath Directory)
  | returned (response : AssetResponse) (asset : DownloadedAsset Directory)
  | failed
  deriving DecidableEq, Repr

def SaveStage.pending : SaveStage Directory → Option (AssetPath Directory × Bytes)
  | .named response finalPath => some (finalPath, response.body)
  | .streaming | .returned _ _ | .failed => none

def SaveStage.target : SaveStage Directory → Option (AssetPath Directory × Bytes)
  | .named response finalPath => some (finalPath, response.body)
  | .returned response asset => some (asset.localPath, response.body)
  | .streaming | .failed => none

structure Save (Directory : Type) where
  url : Url
  stage : SaveStage Directory
  deriving DecidableEq, Repr

structure SaveState (Directory : Type) where
  files : AssetPath Directory → Option Bytes
  saves : List (Save Directory)

inductive SaveEvent where
  | download (url : Url)
  /-- The stream has ended and the free-name test is made. -/
  | name (index : Nat) (response : AssetResponse)
  | rename (index : Nat)
  | fail (index : Nat)

namespace SaveState

def start (files : AssetPath Directory → Option Bytes) : SaveState Directory := ⟨files, []⟩

def moveTo (s : SaveState Directory) (index : Nat) (save : Save Directory) (stage : SaveStage Directory) :
    SaveState Directory :=
  { s with saves := s.saves.set index { save with stage } }

end SaveState

namespace AssetDownloader

variable (d : AssetDownloader Directory)

def finalPath (files : AssetPath Directory → Option Bytes) (url : Url) (response : AssetResponse) :
    AssetPath Directory :=
  if (files (d.plainPath url response)).isSome then d.hashedPath url response else d.plainPath url response

def asset (url : Url) (response : AssetResponse) (finalPath : AssetPath Directory) :
    DownloadedAsset Directory where
  url := url.asStr
  localPath := finalPath
  mimeType := response.mimeType
  size := response.body.length
  contentHash := shortHash (d.contentHash response.body)

variable {d} {s s' : SaveState Directory} {e : SaveEvent}

/-! ### The choice of a path -/

/-- No download has another content for the path. -/
def Agrees (target : SaveStage Directory → Option (AssetPath Directory × Bytes))
    (s : SaveState Directory) (path : AssetPath Directory) (body : Bytes) : Prop :=
  ∀ save ∈ s.saves, ∀ claim ∈ target save.stage, claim.1 = path → claim.2 = body

/-- Where the plain path is free, no download that is still to be renamed is heading for it with
other bytes. Where it is taken, no download has or is heading for the hashed path with other
bytes. -/
def NamesApart (d : AssetDownloader Directory) (s : SaveState Directory) : SaveEvent → Prop
  | .name index response => ∀ save ∈ s.saves[index]?,
    if s.files (d.plainPath save.url response) = none then
      Agrees SaveStage.pending s (d.plainPath save.url response) response.body
    else Agrees SaveStage.target s (d.hashedPath save.url response) response.body
  | _ => True

def Held (d : AssetDownloader Directory) (files : AssetPath Directory → Option Bytes) :
    SaveStage Directory → Prop
  | .returned response asset => files asset.localPath = some response.body ∧
      asset.contentHash = shortHash (d.contentHash response.body) ∧ asset.size = response.body.length
  | _ => True

def Keeps (d : AssetDownloader Directory) (s : SaveState Directory) : Prop :=
  ∀ save ∈ s.saves, d.Held s.files save.stage

/-- The downloads that share a path share its bytes. -/
def AllAgree (s : SaveState Directory) : Prop :=
  ∀ save ∈ s.saves, ∀ claim ∈ save.stage.target, Agrees SaveStage.target s claim.1 claim.2

theorem Keeps.moveTo {index : Nat} {save : Save Directory} {stage : SaveStage Directory}
    (kept : d.Keeps s) (new : d.Held s.files stage) : d.Keeps (s.moveTo index save stage) :=
  Counting.forall_mem_set kept new

theorem AllAgree.moveTo {index : Nat} {save : Save Directory} {stage : SaveStage Directory}
    (agree : AllAgree s) (new : ∀ claim ∈ stage.target, Agrees SaveStage.target s claim.1 claim.2) :
    AllAgree (s.moveTo index save stage) := by
  refine Counting.forall_mem_set (fun first member claim held => ?_) fun claim held => ?_
  · refine Counting.forall_mem_set (agree first member claim held) fun other chosen same => ?_
    exact (new other chosen first member claim held same.symm).symm
  · refine Counting.forall_mem_set (new claim held) fun other chosen same => ?_
    rw [Option.mem_unique chosen held]

/-- The path that is chosen has no other bytes, now or later. -/
theorem agrees_finalPath {index : Nat} {response : AssetResponse} {save : Save Directory}
    (kept : d.Keeps s) (apart : d.NamesApart s (.name index response))
    (found : s.saves[index]? = some save) :
    Agrees SaveStage.target s (d.finalPath s.files save.url response) response.body := by
  have apart := apart save found
  unfold finalPath
  split at apart
  next free =>
    rw [free]
    intro other member claim held same
    cases stage : other.stage with
    | named pending path =>
      exact apart other member claim (by rw [stage] at held ⊢; exact held) same
    | returned done asset =>
      -- its file would be there
      rw [stage] at held
      cases held
      have there := kept other member
      rw [stage] at there
      have present := there.1
      rw [show asset.localPath = d.plainPath save.url response from same, free] at present
      cases present
    | streaming => rw [stage] at held; cases held
    | failed => rw [stage] at held; cases held
  next taken =>
    rw [if_pos (Option.isSome_iff_ne_none.mpr taken)]
    exact apart

/-! ### Steps -/

variable [DecidableEq Directory]

def step (d : AssetDownloader Directory) (s : SaveState Directory) : SaveEvent → Option (SaveState Directory)
  | .download url => some { s with saves := s.saves ++ [⟨url, .streaming⟩] }
  | .name index response => do
    let save ← s.saves[index]?
    match save.stage with
    | .streaming => some (s.moveTo index save (.named response (d.finalPath s.files save.url response)))
    | _ => none
  | .rename index => do
    let save ← s.saves[index]?
    match save.stage with
    | .named response finalPath =>
      let s := { s with files := Function.update s.files finalPath (some response.body) }
      some (s.moveTo index save (.returned response (d.asset save.url response finalPath)))
    | _ => none
  | .fail index => do
    let save ← s.saves[index]?
    match save.stage with
    | .streaming | .named _ _ => some (s.moveTo index save .failed)
    | _ => none

def Step (d : AssetDownloader Directory) (s : SaveState Directory) (e : SaveEvent) (s' : SaveState Directory) : Prop :=
  d.step s e = some s'

/-! ### What one event does -/

inductive Steps (d : AssetDownloader Directory) (s : SaveState Directory) : SaveEvent → SaveState Directory → Prop
  | downloaded (url : Url) :
      Steps d s (.download url) { s with saves := s.saves ++ [⟨url, .streaming⟩] }
  | named {index : Nat} {response : AssetResponse} {save : Save Directory}
      (found : s.saves[index]? = some save) (here : save.stage = .streaming) :
      Steps d s (.name index response)
        (s.moveTo index save (.named response (d.finalPath s.files save.url response)))
  | renamed {index : Nat} {response : AssetResponse} {finalPath : AssetPath Directory}
      {save : Save Directory} (found : s.saves[index]? = some save)
      (here : save.stage = .named response finalPath) :
      Steps d s (.rename index)
        (SaveState.moveTo { s with files := Function.update s.files finalPath (some response.body) }
          index save (.returned response (d.asset save.url response finalPath)))
  | failed {index : Nat} {save : Save Directory} (found : s.saves[index]? = some save) :
      Steps d s (.fail index) (s.moveTo index save .failed)

theorem step_cases (taken : d.Step s e s') : d.Steps s e s' := by
  unfold Step at taken
  cases e with
  | download url =>
    cases taken
    exact .downloaded url
  | name index response =>
    obtain ⟨save, found, taken⟩ := Option.bind_eq_some_iff.mp taken
    split at taken
    next here =>
      cases taken
      exact .named found here
    next => cases taken
  | rename index =>
    obtain ⟨save, found, taken⟩ := Option.bind_eq_some_iff.mp taken
    split at taken
    next response finalPath here =>
      cases taken
      exact .renamed found here
    next => cases taken
  | fail index =>
    obtain ⟨save, found, taken⟩ := Option.bind_eq_some_iff.mp taken
    split at taken
    · cases taken
      exact .failed found
    · cases taken
      exact .failed found
    · cases taken

instance : Decidable (NamesApart d s e) := by
  unfold NamesApart Agrees
  cases e <;> infer_instance

theorem Steps.keeps (taken : d.Steps s e s') (apart : d.NamesApart s e) (kept : d.Keeps s)
    (agree : AllAgree s) : d.Keeps s' ∧ AllAgree s' := by
  cases taken with
  | downloaded url =>
    have old {other : Save Directory} (member : other ∈ s.saves ++ [⟨url, .streaming⟩]) :
        other ∈ s.saves ∨ other = ⟨url, .streaming⟩ := by simpa using member
    refine ⟨fun other member => ?_, fun first member claim held other member' => ?_⟩
    · rcases old member with before | rfl
      · exact kept other before
      · trivial
    · rcases old member with before | rfl
      · rcases old member' with before' | rfl
        · exact agree first before claim held other before'
        · exact nofun
      · cases held
  | @named index response save found here =>
    have chosen := agrees_finalPath kept apart found
    refine ⟨kept.moveTo trivial, agree.moveTo fun claim held => ?_⟩
    cases held
    exact chosen
  | @renamed index response finalPath save found here =>
    have mine := agree save (List.mem_of_getElem? found) (finalPath, response.body) (by rw [here]; rfl)
    refine ⟨?_, ?_⟩
    · refine Keeps.moveTo (fun other member => ?_) ⟨Function.update_self .., rfl, rfl⟩
      have there := kept other member
      cases stage : other.stage with
      | returned done asset =>
        rw [stage] at there
        refine ⟨?_, there.2⟩
        change Function.update s.files finalPath (some response.body) asset.localPath = _
        rw [Function.update_apply]
        split
        next same =>
          have bytes : done.body = response.body :=
            mine other member (asset.localPath, done.body) (by rw [stage]; rfl) same
          rw [bytes]
        next => exact there.1
      | _ => trivial
    · refine AllAgree.moveTo agree fun claim held => ?_
      cases held
      exact mine
  | failed found => exact ⟨kept.moveTo trivial, agree.moveTo nofun⟩

/-- Every asset returned keeps its bytes in every run whose names stay apart. -/
theorem assets_kept (d : AssetDownloader Directory) (files : AssetPath Directory → Option Bytes)
    (s : SaveState Directory) (reached : Reachable d.Step d.NamesApart (.start files) s) : d.Keeps s := by
  have both : d.Keeps s ∧ AllAgree s := by
    refine reached.invariant (motive := fun s => d.Keeps s ∧ AllAgree s) ⟨nofun, nofun⟩ ?_
    rintro s e s' ⟨kept, agree⟩ apart taken
    exact (step_cases taken).keeps apart kept agree
  exact both.1

/-! Two slugs, and one that is taken between the test and the rename. -/

namespace OneSlug

def firstByte (body : Bytes) : Domain.Digest := Vector.replicate 32 (body.headD 0)

def slugs : AssetDownloader Bool := ⟨true, false, .slug, firstByte, fun _ => 0⟩

def logoA : Url := ⟨"https://a.test/x/logo.png", "/x/logo.png", some "a.test"⟩

def logoB : Url := ⟨"https://a.test/y/logo.png", "/y/logo.png", some "a.test"⟩

def answer (byte : UInt8) : AssetResponse := ⟨some "image/png", none, [byte]⟩

def icon : Url := ⟨"https://a.test/y/icon.png", "/y/icon.png", some "a.test"⟩

def apart : List SaveEvent :=
  [.download logoA, .download icon, .name 0 (answer 1), .name 1 (answer 2), .rename 0, .rename 1]

def crossed : List SaveEvent :=
  [.download logoA, .download logoB, .name 0 (answer 1), .name 1 (answer 2), .rename 0, .rename 1]

/-- Two downloads in flight under different slugs. -/
theorem two_slugs_kept : ∃ s, Reachable slugs.Step slugs.NamesApart (.start fun _ => none) s ∧
    s.files ⟨true, "logo.png"⟩ = some [1] ∧ s.files ⟨true, "icon.png"⟩ = some [2] ∧ slugs.Keeps s := by
  have values : (runEvents (fun s e => if decide (slugs.NamesApart s e) then slugs.step s e else none)
      (.start fun _ => none) apart).map (fun s =>
        (s.files ⟨true, "logo.png"⟩, s.files ⟨true, "icon.png"⟩)) = some (some [1], some [2]) := by
    decide
  obtain ⟨s, ran, same⟩ := Option.map_eq_some_iff.mp values
  obtain ⟨first, second⟩ := Prod.mk.inj same
  have reached : Reachable slugs.Step slugs.NamesApart (.start fun _ => none) s :=
    Reachable.run_checked .start (fun _ _ => of_decide_eq_true) ran
  exact ⟨s, reached, first, second, assets_kept slugs _ s reached⟩

/-- A returned logo of one byte, with the first digits of its hash. -/
def returned (url : Url) (byte : UInt8) (contentHash : String) : Save Bool :=
  ⟨url, .returned (answer byte) ⟨url.asStr, ⟨true, "logo.png"⟩, some "image/png", 1, contentHash⟩⟩

/-- Both names are free when they are tested, and the second rename replaces the first file. -/
theorem crossed_replaced : ∃ s, Reachable slugs.Step (fun _ _ => True) (.start fun _ => none) s ∧
    s.saves = [returned logoA 1 "010101010101", returned logoB 2 "020202020202"] ∧
    s.files ⟨true, "logo.png"⟩ = some [2] ∧ ¬slugs.Keeps s := by
  have values : (runEvents slugs.step (.start fun _ => none) crossed).map (fun s =>
      (s.saves, s.files ⟨true, "logo.png"⟩)) =
      some ([returned logoA 1 "010101010101", returned logoB 2 "020202020202"], some [2]) := by
    decide
  obtain ⟨s, ran, same⟩ := Option.map_eq_some_iff.mp values
  obtain ⟨saves, file⟩ := Prod.mk.inj same
  refine ⟨s, Reachable.run .start (fun _ _ _ => trivial) ran, saves, file, fun kept => ?_⟩
  have held := kept (returned logoA 1 "010101010101") (by rw [saves]; exact List.mem_cons_self)
  have one : s.files ⟨true, "logo.png"⟩ = some [1] := held.1
  rw [file] at one
  cases one

end OneSlug

end AssetDownloader

end Webfang.Assets
