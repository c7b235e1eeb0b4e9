import Webfang.Assets.AssetFiles

/-!
# The temporary files of a download

One call of `download_with_retry` with everything that can happen to it: each attempt opens its
own temporary file and streams the body into it, and any later step may fail. Only the size
limit removes the file on its way out, so a failure after the file was opened leaves it behind.
-/
namespace Webfang.Assets

open Library
open Domain.Filename (Url)
open Waf (Bytes)

/-! ### Errors -/

/-- The errors of a download. `transient` tells whether `classify` takes the transport error or
the kind of the I/O error for a retriable one. -/
inductive ScraperError where
  | network (transient : Bool)
  | io (transient : Bool)
  | http (status : UInt16) (url : String)
  | payloadTooLarge
  | internal (message : String)
  deriving DecidableEq, Repr

/-- `classify() == ErrorClass::TransientRetriable`. -/
def ScraperError.isRetriable : ScraperError → Bool
  | .network transient => transient
  | .io transient => transient
  | .http status _ => decide (500 ≤ status)
  | .payloadTooLarge => false
  | .internal _ => false

/-! ### The call -/

/-- What is read of a response before its body. -/
structure ResponseHead where
  status : UInt16
  mimeType : Option String
  dispositionFilename : Option String
  deriving DecidableEq, Repr

def ResponseHead.isSuccess (head : ResponseHead) : Bool := decide (200 ≤ head.status ∧ head.status < 300)

def ResponseHead.response (head : ResponseHead) (body : Bytes) : AssetResponse :=
  ⟨head.mimeType, head.dispositionFilename, body⟩

variable {Directory : Type}

variable (Directory) in
/-- Where the call stands. -/
inductive Phase where
  | sending
  | opening (head : ResponseHead)
  | streaming (head : ResponseHead) (temp : AssetPath Directory) (body : Bytes)
  /-- The body is over the size limit. -/
  | removing (temp : AssetPath Directory)
  | named (head : ResponseHead) (temp : AssetPath Directory) (body : Bytes) (finalPath : AssetPath Directory)
  /-- The backoff before another attempt. -/
  | waiting
  | returned (result : Except ScraperError (DownloadedAsset Directory))

namespace Phase

/-- The temporary file of the attempt. -/
def temp : Phase Directory → Option (AssetPath Directory)
  | .streaming _ temp _ | .removing temp | .named _ temp _ _ => some temp
  | .sending | .opening _ | .waiting | .returned _ => none

def target : Phase Directory → Option (AssetPath Directory)
  | .named _ _ _ finalPath => some finalPath
  | .returned (.ok asset) => some asset.localPath
  | _ => none

end Phase

structure Call (Directory : Type) where
  files : AssetPath Directory → Option Bytes
  attempt : Nat
  phase : Phase Directory

/-- What happens to the call; an error has whether it is transient. -/
inductive CallEvent where
  | send (answer : Except Bool ResponseHead)
  /-- `ensure_subdir`, then `File::create` under this UUID. -/
  | create (uuid : String) (dir file : Option Bool)
  /-- A chunk of the stream, and whether its write fails after so many bytes. -/
  | chunk (bytes : Bytes) (write : Option (Bool × Nat))
  | broken (transient : Bool)
  /-- The end of the stream and `sync_all`. -/
  | sync (error : Option Bool)
  | remove (removed : Bool)
  | rename (error : Option Bool)
  | wake

structure DownloadLimits where
  maxFileSize : Nat
  maxRetries : Nat

namespace Call

def start (files : AssetPath Directory → Option Bytes) : Call Directory := ⟨files, 0, .sending⟩

/-- The attempt ends with the error: another one follows, or the call returns it. -/
def fail (limits : DownloadLimits) (call : Call Directory) (e : ScraperError) : Call Directory :=
  { call with phase := if e.isRetriable = false ∨ call.attempt = limits.maxRetries then .returned (.error e) else .waiting }

variable {limits : DownloadLimits} {call : Call Directory} {e : ScraperError}

@[simp] theorem fail_files : (call.fail limits e).files = call.files := rfl

theorem fail_phase (limits : DownloadLimits) (call : Call Directory) (e : ScraperError) :
    (call.fail limits e).phase = .returned (.error e) ∨ (call.fail limits e).phase = .waiting := by
  unfold fail
  split
  · exact .inl rfl
  · exact .inr rfl

@[simp] theorem fail_temp : (call.fail limits e).phase.temp = none := by
  rcases fail_phase limits call e with here | here <;> rw [here] <;> rfl

@[simp] theorem fail_target : (call.fail limits e).phase.target = none := by
  rcases fail_phase limits call e with here | here <;> rw [here] <;> rfl

end Call

namespace AssetDownloader

variable [DecidableEq Directory] (d : AssetDownloader Directory) (limits : DownloadLimits) (url : Url)

def tempPath (uuid : String) : AssetPath Directory := ⟨d.subdirPath url, uuid ++ ".tmp"⟩

/-- One event of `download_once`, or the backoff between two attempts; `none` when it cannot
happen. -/
def callStep (call : Call Directory) (e : CallEvent) : Option (Call Directory) :=
  match call.phase, e with
  | .sending, .send (.error transient) => some (call.fail limits (.network transient))
  | .sending, .send (.ok head) =>
    if head.isSuccess then some { call with phase := .opening head }
    else some (call.fail limits (.http head.status url.asStr))
  | .opening _, .create _ (some transient) _ => some (call.fail limits (.io transient))
  | .opening _, .create _ none (some transient) => some (call.fail limits (.io transient))
  | .opening head, .create uuid none none =>
    let temp := d.tempPath url uuid
    some { call with files := Function.update call.files temp (some []), phase := .streaming head temp [] }
  | .streaming _ _ _, .broken transient => some (call.fail limits (.network transient))
  | .streaming head temp body, .chunk bytes write =>
    if bytes = [] then some call
    else
      let downloaded := body.length + bytes.length
      if 2 ^ 64 ≤ downloaded then some (call.fail limits (.internal "integer overflow in download size"))
      else if limits.maxFileSize < downloaded then some { call with phase := .removing temp }
      else
        match write with
        | some (transient, written) =>
          let partly := { call with files := Function.update call.files temp (some (body ++ bytes.take written)) }
          some (partly.fail limits (.io transient))
        | none =>
          some { call with
            files := Function.update call.files temp (some (body ++ bytes))
            phase := .streaming head temp (body ++ bytes) }
  | .removing temp, .remove removed =>
    -- the outcome of the removal is ignored
    let call := if removed then { call with files := Function.update call.files temp none } else call
    some (call.fail limits .payloadTooLarge)
  | .streaming _ _ _, .sync (some transient) => some (call.fail limits (.io transient))
  | .streaming head temp body, .sync none =>
    some { call with phase := .named head temp body (d.finalPath call.files url (head.response body)) }
  | .named _ _ _ _, .rename (some transient) => some (call.fail limits (.io transient))
  | .named head temp body finalPath, .rename none =>
    some { call with
      files := Function.update (Function.update call.files temp none) finalPath (some body)
      phase := .returned (.ok (d.asset url (head.response body) finalPath)) }
  | .waiting, .wake => some { call with attempt := call.attempt + 1, phase := .sending }
  | _, _ => none

/-! ### What one event does -/

/-- The event ends no attempt while its temporary file is there, unless the size limit does
and the removal succeeds. -/
def Clean (call : Call Directory) : CallEvent → Prop
  | .broken _ => False
  | .sync error | .rename error => error = none
  | .remove removed => removed = true
  | .chunk bytes write => ∀ head temp body, call.phase = .streaming head temp body → bytes ≠ [] →
      body.length + bytes.length < 2 ^ 64 ∧
        (write.isSome = true → limits.maxFileSize < body.length + bytes.length)
  | .send _ | .create _ _ _ | .wake => True

/-- A new UUID names no file, and is not the name of an asset. -/
def Fresh (call : Call Directory) : CallEvent → Prop
  | .create uuid _ _ => call.files (d.tempPath url uuid) = none ∧
      ∀ response, d.hashedPath url response ≠ d.tempPath url uuid
  | _ => True

inductive CallSteps (call : Call Directory) : CallEvent → Call Directory → Prop
  | failed {e : CallEvent} (error : ScraperError) (clean : Clean limits call e)
      (noTemp : call.phase.temp = none) (noTarget : call.phase.target = none)
      (running : ∀ result, call.phase ≠ .returned result) : CallSteps call e (call.fail limits error)
  | answered {head : ResponseHead} (here : call.phase = .sending) :
      CallSteps call (.send (.ok head)) { call with phase := .opening head }
  | created {uuid : String} {head : ResponseHead} {temp : AssetPath Directory}
      (here : call.phase = .opening head) (path : temp = d.tempPath url uuid) :
      CallSteps call (.create uuid none none)
        { call with files := Function.update call.files temp (some []), phase := .streaming head temp [] }
  | skipped (write : Option (Bool × Nat)) : CallSteps call (.chunk [] write) call
  | appended {head : ResponseHead} {temp : AssetPath Directory} {body bytes : Bytes}
      (here : call.phase = .streaming head temp body) (fits : body.length + bytes.length < 2 ^ 64) :
      CallSteps call (.chunk bytes none)
        { call with
          files := Function.update call.files temp (some (body ++ bytes))
          phase := .streaming head temp (body ++ bytes) }
  | exceeded {head : ResponseHead} {temp : AssetPath Directory} {body bytes : Bytes} {write : Option (Bool × Nat)}
      (here : call.phase = .streaming head temp body) (fits : body.length + bytes.length < 2 ^ 64)
      (large : limits.maxFileSize < body.length + bytes.length) :
      CallSteps call (.chunk bytes write) { call with phase := .removing temp }
  | lost {e : CallEvent} {temp : AssetPath Directory} {files : AssetPath Directory → Option Bytes}
      (error : ScraperError) (unclean : ¬ Clean limits call e) (open_ : call.phase.temp = some temp)
      (same : files = call.files ∨ ∃ body, files = Function.update call.files temp (some body)) :
      CallSteps call e (Call.fail limits { call with files } error)
  | removed {temp : AssetPath Directory} (here : call.phase = .removing temp) :
      CallSteps call (.remove true)
        (Call.fail limits { call with files := Function.update call.files temp none } .payloadTooLarge)
  | synced {head : ResponseHead} {temp : AssetPath Directory} {body : Bytes}
      (here : call.phase = .streaming head temp body) :
      CallSteps call (.sync none)
        { call with phase := .named head temp body (d.finalPath call.files url (head.response body)) }
  | renamed {head : ResponseHead} {temp finalPath : AssetPath Directory} {body : Bytes}
      (here : call.phase = .named head temp body finalPath) :
      CallSteps call (.rename none)
        { call with
          files := Function.update (Function.update call.files temp none) finalPath (some body)
          phase := .returned (.ok (d.asset url (head.response body) finalPath)) }
  | woken (here : call.phase = .waiting) :
      CallSteps call .wake { call with attempt := call.attempt + 1, phase := .sending }

variable {d limits url} {call call' : Call Directory} {e : CallEvent}

/-- One chunk: skipped, over a limit, written, or half written. -/
theorem chunk_cases {head : ResponseHead} {temp : AssetPath Directory} {body bytes : Bytes}
    {write : Option (Bool × Nat)} (here : call.phase = .streaming head temp body)
    (taken : d.callStep limits url call (.chunk bytes write) = some call') :
    CallSteps d limits url call (.chunk bytes write) call' := by
  have open_ : call.phase.temp = some temp := by rw [here]; rfl
  simp only [callStep, here] at taken
  by_cases empty : bytes = []
  · rw [if_pos empty] at taken
    cases taken
    subst empty
    exact .skipped write
  rw [if_neg empty] at taken
  by_cases overflow : 2 ^ 64 ≤ body.length + bytes.length
  · rw [if_pos overflow] at taken
    cases taken
    refine .lost _ (fun clean => ?_) open_ (.inl rfl)
    exact absurd (clean head temp body here empty).1 (Nat.not_lt.mpr overflow)
  rw [if_neg overflow] at taken
  have fits := Nat.lt_of_not_le overflow
  by_cases large : limits.maxFileSize < body.length + bytes.length
  · rw [if_pos large] at taken
    cases taken
    exact .exceeded here fits large
  rw [if_neg large] at taken
  cases write with
  | none =>
    cases taken
    exact .appended here fits
  | some failure =>
    cases taken
    refine .lost _ (fun clean => ?_) open_ (.inr ⟨_, rfl⟩)
    exact large ((clean head temp body here empty).2 rfl)

theorem callStep_cases (taken : d.callStep limits url call e = some call') :
    CallSteps d limits url call e call' := by
  cases here : call.phase with
  | sending =>
    have bare : call.phase.temp = none ∧ call.phase.target = none := by rw [here]; exact ⟨rfl, rfl⟩
    have running : ∀ result, call.phase ≠ .returned result := by rw [here]; exact nofun
    cases e with
    | send answer =>
      cases answer with
      | error transient =>
        simp only [callStep, here] at taken
        cases taken
        exact .failed _ trivial bare.1 bare.2 running
      | ok head =>
        simp only [callStep, here] at taken
        split at taken
        · cases taken
          exact .answered here
        · cases taken
          exact .failed _ trivial bare.1 bare.2 running
    | _ => simp [callStep, here] at taken
  | opening head =>
    have bare : call.phase.temp = none ∧ call.phase.target = none := by rw [here]; exact ⟨rfl, rfl⟩
    have running : ∀ result, call.phase ≠ .returned result := by rw [here]; exact nofun
    cases e with
    | create uuid dir file =>
      cases dir with
      | some transient =>
        simp only [callStep, here] at taken
        cases taken
        exact .failed _ trivial bare.1 bare.2 running
      | none =>
        cases file <;> simp only [callStep, here] at taken <;> cases taken
        · exact .created here rfl
        · exact .failed _ trivial bare.1 bare.2 running
    | _ => simp [callStep, here] at taken
  | streaming head temp body =>
    have open_ : call.phase.temp = some temp := by rw [here]; rfl
    cases e with
    | chunk bytes write => exact chunk_cases here taken
    | broken transient =>
      simp only [callStep, here] at taken
      cases taken
      exact .lost _ id open_ (.inl rfl)
    | sync error =>
      cases error <;> simp only [callStep, here] at taken <;> cases taken
      · exact .synced here
      · exact .lost _ nofun open_ (.inl rfl)
    | _ => simp [callStep, here] at taken
  | removing temp =>
    have open_ : call.phase.temp = some temp := by rw [here]; rfl
    cases e with
    | remove removed =>
      cases removed <;> simp only [callStep, here] at taken <;> cases taken
      · exact .lost _ nofun open_ (.inl rfl)
      · exact .removed here
    | _ => simp [callStep, here] at taken
  | named head temp body finalPath =>
    have open_ : call.phase.temp = some temp := by rw [here]; rfl
    cases e with
    | rename error =>
      cases error <;> simp only [callStep, here] at taken <;> cases taken
      · exact .renamed here
      · exact .lost _ nofun open_ (.inl rfl)
    | _ => simp [callStep, here] at taken
  | waiting =>
    cases e with
    | wake =>
      simp only [callStep, here] at taken
      cases taken
      exact .woken here
    | _ => simp [callStep, here] at taken
  | returned result => cases e <;> simp [callStep, here] at taken

/-! ### What is on disk -/

variable {files : AssetPath Directory → Option Bytes}

/-- The files are those from before the call, but for its temporary file, or its asset once it
has returned one. -/
structure Tidy (d : AssetDownloader Directory) (url : Url) (files : AssetPath Directory → Option Bytes)
    (call : Call Directory) : Prop where
  temp : ∀ temp, call.phase.temp = some temp → files temp = none ∧ call.files temp ≠ none ∧
    ∀ response, d.hashedPath url response ≠ temp
  same : ∀ path, call.phase.temp ≠ some path →
    (∀ asset, call.phase = .returned (.ok asset) → path ≠ asset.localPath) → call.files path = files path

/-- A file that the call created is there, and the call has lost sight of it. -/
def Stranded (d : AssetDownloader Directory) (url : Url) (files : AssetPath Directory → Option Bytes)
    (call : Call Directory) : Prop :=
  ∃ path, files path = none ∧ call.files path ≠ none ∧ call.phase.temp ≠ some path ∧
    call.phase.target ≠ some path ∧ ∀ response, d.hashedPath url response ≠ path

omit [DecidableEq Directory] in
theorem Tidy.before (tidy : Tidy d url files call) (running : ∀ result, call.phase ≠ .returned result)
    {path : AssetPath Directory} (apart : call.phase.temp ≠ some path) : call.files path = files path :=
  tidy.same path apart fun _ returned => absurd returned (running _)

theorem Tidy.step (tidy : Tidy d url files call) (fresh : Fresh d url call e) (clean : Clean limits call e)
    (taken : CallSteps d limits url call e call') : Tidy d url files call' := by
  cases taken with
  | failed error _ noTemp noTarget running =>
    refine ⟨fun temp open_ => ?_, fun path _ _ => ?_⟩
    · rw [Call.fail_temp] at open_
      cases open_
    · exact tidy.before running (by rw [noTemp]; exact nofun)
  | answered here =>
    refine ⟨nofun, fun path _ _ => tidy.before ?_ ?_⟩ <;> rw [here] <;> exact nofun
  | @created uuid head temp here path =>
    obtain ⟨free, unnamed⟩ := fresh
    rw [← path] at free unnamed
    have old (path : AssetPath Directory) : call.files path = files path := by
      refine tidy.before ?_ ?_ <;> rw [here] <;> exact nofun
    refine ⟨?_, fun path apart _ => ?_⟩
    · intro other open_
      obtain rfl := Option.some.inj open_
      exact ⟨(old _).symm.trans free, by simp, unnamed⟩
    · have other : path ≠ temp := fun same => apart (congrArg some same.symm)
      exact (Function.update_of_ne other _ _).trans (old path)
  | skipped => exact tidy
  | @appended head temp body bytes here fits =>
    obtain ⟨new, _, unnamed⟩ := tidy.temp temp (by rw [here]; rfl)
    refine ⟨?_, fun path apart _ => ?_⟩
    · intro other open_
      obtain rfl := Option.some.inj open_
      exact ⟨new, by simp, unnamed⟩
    · have other : path ≠ temp := fun same => apart (congrArg some same.symm)
      refine (Function.update_of_ne other _ _).trans (tidy.before ?_ ?_) <;> rw [here]
      · exact nofun
      · exact fun same => other (Option.some.inj same).symm
  | exceeded here fits large =>
    have kept := tidy.temp _ (by rw [here]; rfl)
    refine ⟨?_, fun path apart _ => ?_⟩
    · intro other open_
      obtain rfl := Option.some.inj open_
      exact kept
    · refine tidy.before ?_ ?_ <;> rw [here]
      · exact nofun
      · exact apart
  | lost _ unclean => exact absurd clean unclean
  | @removed temp here =>
    have new := (tidy.temp temp (by rw [here]; rfl)).1
    refine ⟨fun temp open_ => ?_, fun path _ _ => ?_⟩
    · rw [Call.fail_temp] at open_
      cases open_
    · by_cases same : path = temp
      · rw [same]
        exact (Function.update_self ..).trans new.symm
      · refine (Function.update_of_ne same _ _).trans (tidy.before ?_ ?_) <;> rw [here]
        · exact nofun
        · exact fun open_ => same (Option.some.inj open_).symm
  | synced here =>
    have kept := tidy.temp _ (by rw [here]; rfl)
    refine ⟨?_, fun path apart _ => ?_⟩
    · intro other open_
      obtain rfl := Option.some.inj open_
      exact kept
    · refine tidy.before ?_ ?_ <;> rw [here]
      · exact nofun
      · exact apart
  | @renamed head temp finalPath body here =>
    have new := (tidy.temp temp (by rw [here]; rfl)).1
    refine ⟨nofun, fun path _ apart => ?_⟩
    have other : path ≠ finalPath := apart _ rfl
    refine (Function.update_of_ne other _ _).trans ?_
    by_cases same : path = temp
    · rw [same, Function.update_self, new]
    · rw [Function.update_of_ne same]
      refine tidy.before ?_ ?_ <;> rw [here]
      · exact nofun
      · exact fun open_ => same (Option.some.inj open_).symm
  | woken here =>
    refine ⟨nofun, fun path _ _ => tidy.before ?_ ?_⟩ <;> rw [here] <;> exact nofun

theorem Tidy.strands (tidy : Tidy d url files call) (unclean : ¬ Clean limits call e)
    (taken : CallSteps d limits url call e call') : Stranded d url files call' := by
  cases taken with
  | failed error clean => exact absurd clean unclean
  | answered | created | woken => exact absurd trivial unclean
  | skipped => exact absurd (fun _ _ _ _ nonempty => absurd rfl nonempty) unclean
  | appended here fits =>
    refine absurd (fun head' temp' body' again _ => ?_) unclean
    rw [here] at again
    cases again
    exact ⟨fits, nofun⟩
  | exceeded here fits large =>
    refine absurd (fun head' temp' body' again _ => ?_) unclean
    rw [here] at again
    cases again
    exact ⟨fits, fun _ => large⟩
  | removed | synced | renamed => exact absurd rfl unclean
  | @lost _ temp after error _ open_ same =>
    obtain ⟨new, there, unnamed⟩ := tidy.temp temp open_
    refine ⟨temp, new, ?_, by simp, by simp, unnamed⟩
    rcases same with rfl | ⟨body, rfl⟩
    · exact there
    · simp

theorem Stranded.step (stranded : Stranded d url files call) (fresh : Fresh d url call e)
    (taken : CallSteps d limits url call e call') : Stranded d url files call' := by
  obtain ⟨path, new, there, unopened, untargeted, unnamed⟩ := stranded
  cases taken with
  | failed error => exact ⟨path, new, there, by simp, by simp, unnamed⟩
  | answered | woken => exact ⟨path, new, there, nofun, nofun, unnamed⟩
  | @created uuid head temp here named =>
    have other : path ≠ temp := by
      rintro rfl
      rw [named] at there
      exact there fresh.1
    refine ⟨path, new, ?_, fun open_ => other (Option.some.inj open_).symm, nofun, unnamed⟩
    exact (Function.update_of_ne other _ _).trans_ne there
  | skipped => exact ⟨path, new, there, unopened, untargeted, unnamed⟩
  | @appended head temp body bytes here fits =>
    have other : path ≠ temp := fun same => unopened (by rw [here, same, Phase.temp])
    refine ⟨path, new, ?_, fun open_ => other (Option.some.inj open_).symm, nofun, unnamed⟩
    exact (Function.update_of_ne other _ _).trans_ne there
  | exceeded here => exact ⟨path, new, there, by rwa [here] at unopened, nofun, unnamed⟩
  | @lost _ temp after error _ open_ same =>
    refine ⟨path, new, ?_, by simp, by simp, unnamed⟩
    rcases same with rfl | ⟨body, rfl⟩
    · exact there
    · have other : path ≠ temp := fun same => unopened (by rw [open_, same])
      simpa [Function.update_of_ne other] using there
  | @removed temp here =>
    have other : path ≠ temp := fun same => unopened (by rw [here, same, Phase.temp])
    refine ⟨path, new, ?_, by simp, by simp, unnamed⟩
    exact (Function.update_of_ne other _ _).trans_ne there
  | @synced head temp body here =>
    refine ⟨path, new, there, by rwa [here] at unopened, fun chosen => ?_, unnamed⟩
    -- the plain path is only chosen while no file is there
    have final := Option.some.inj chosen
    unfold finalPath at final
    split at final
    next => exact unnamed _ final
    next free =>
      rw [final] at free
      exact there (by simpa using free)
  | @renamed head temp finalPath body here =>
    have other : path ≠ temp := fun same => unopened (by rw [here, same, Phase.temp])
    have elsewhere : path ≠ finalPath := fun same => untargeted (by rw [here, same]; rfl)
    refine ⟨path, new, ?_, nofun, fun target => elsewhere (Option.some.inj target).symm, unnamed⟩
    exact ((Function.update_of_ne elsewhere _ _).trans (Function.update_of_ne other _ _)).trans_ne there

/-! ### A whole call -/

/-- After an error the files are as before the call; after an asset only its path differs. -/
def LeavesOnly (files : AssetPath Directory → Option Bytes) (call : Call Directory) :
    Except ScraperError (DownloadedAsset Directory) → Prop
  | .error _ => call.files = files
  | .ok asset => ∀ path, path ≠ asset.localPath → call.files path = files path

omit [DecidableEq Directory] in
theorem Tidy.leavesOnly {result : Except ScraperError (DownloadedAsset Directory)} (tidy : Tidy d url files call)
    (returned : call.phase = .returned result) : LeavesOnly files call result := by
  have closed (path : AssetPath Directory) : call.phase.temp ≠ some path := by rw [returned]; exact nofun
  cases result with
  | error error =>
    funext path
    refine tidy.same path (closed path) fun asset again => ?_
    rw [returned] at again
    cases again
  | ok asset =>
    intro path apart
    refine tidy.same path (closed path) fun other again => ?_
    rw [returned] at again
    cases again
    exact apart

omit [DecidableEq Directory] in
theorem Stranded.not_leavesOnly {result : Except ScraperError (DownloadedAsset Directory)}
    (stranded : Stranded d url files call) (returned : call.phase = .returned result) :
    ¬ LeavesOnly files call result := by
  obtain ⟨path, new, there, -, untargeted, -⟩ := stranded
  intro only
  cases result with
  | error error => exact there ((congrFun only path).trans new)
  | ok asset =>
    refine there ((only path fun same => untargeted ?_).trans new)
    rw [returned, same]
    rfl

/-- **Temporary files**: in a call whose UUIDs are new, an error leaves the files as they were
and an asset adds only its own file exactly when no attempt failed while its temporary file was
there, but by the size limit with a removal that succeeded. -/
theorem leavesOnly_iff (d : AssetDownloader Directory) (limits : DownloadLimits) (url : Url)
    (files : AssetPath Directory → Option Bytes) (events : List CallEvent) (call : Call Directory)
    (result : Except ScraperError (DownloadedAsset Directory))
    (ran : runEvents (d.callStep limits url) (.start files) events = some call)
    (returned : call.phase = .returned result)
    (fresh : ∀ pair ∈ visited (d.callStep limits url) (.start files) events, Fresh d url pair.1 pair.2) :
    LeavesOnly files call result ↔
      ∀ pair ∈ visited (d.callStep limits url) (.start files) events, Clean limits pair.1 pair.2 := by
  have tidy : Tidy d url files (.start files) := ⟨nofun, fun _ _ _ => rfl⟩
  obtain ⟨kept, lost⟩ := @runEvents_good_or_broken _ _ _ (Tidy d url files) (Stranded d url files) (Fresh d url)
    (Clean limits) _ _ _
    (fun _ _ _ tidy fresh clean taken => tidy.step fresh clean (callStep_cases taken))
    (fun _ _ _ tidy _ unclean taken => tidy.strands unclean (callStep_cases taken))
    (fun _ _ _ stranded fresh taken => stranded.step fresh (callStep_cases taken)) tidy ran fresh
  constructor
  · intro only
    by_contra unclean
    exact (lost unclean).not_leavesOnly returned only
  · exact fun clean => (kept clean).leavesOnly returned

end AssetDownloader

/-! One image of two bytes, whose connection breaks or whose body ends. -/

namespace OneImage

open AssetDownloader AssetDownloader.OneSlug

def limits : DownloadLimits := ⟨10, 3⟩

def uuid : String := "11111111-1111-4111-8111-111111111111"

def temp : AssetPath Bool := ⟨true, uuid ++ ".tmp"⟩

def head : ResponseHead := ⟨200, some "image/png", none⟩

/-- Up to the end of the body. -/
def body : List CallEvent := [.send (.ok head), .create uuid none none, .chunk [1, 2] none]

def empty : AssetPath Bool → Option Bytes := fun _ => none

def run (events : List CallEvent) : Option (Call Bool) := runEvents (slugs.callStep limits logoA) (.start empty) events

theorem plainPath_filename (response : AssetResponse) : (slugs.plainPath logoA response).filename = "logo.png" := by
  have name : slugs.sanitizeFilename (Domain.Filename.basename logoA.path) = "logo.png" := by decide
  have again : slugs.sanitizeFilename "logo.png" = "logo.png" := by decide
  have extension : afterLastDot "logo.png" = "png" := by decide
  have slug : slugs.assetNaming = .slug := rfl
  simp [plainPath, generateFilename, slug, name, again, extension]

theorem hashedPath_ne_temp (response : AssetResponse) : slugs.hashedPath logoA response ≠ temp := by
  have parts : splitExtension "logo.png" = ("logo", "png") := by decide
  intro same
  have names := congrArg (fun path : AssetPath Bool => path.filename.toList.head?) same
  simp [hashedPath, resolveCollision, plainPath_filename, parts, temp, uuid] at names

def opened (content : Bytes) : Call Bool :=
  ⟨Function.update empty temp (some content), 0, .streaming head temp content⟩

theorem send_step : slugs.callStep limits logoA (.start empty) (.send (.ok head)) = some ⟨empty, 0, .opening head⟩ :=
  rfl

theorem tempPath_uuid : slugs.tempPath logoA uuid = temp := by
  have image : detectFromPath logoA.path = .image := by decide
  simp [tempPath, subdirPath, image, temp, slugs]

theorem create_step :
    slugs.callStep limits logoA ⟨empty, 0, .opening head⟩ (.create uuid none none) = some (opened []) := by
  simp only [callStep, tempPath_uuid]
  rfl

theorem chunk_step : slugs.callStep limits logoA (opened []) (.chunk [1, 2] none) = some (opened [1, 2]) := by
  have overwritten : Function.update (Function.update empty temp (some [])) temp (some [1, 2]) =
      Function.update empty temp (some [1, 2]) := Function.update_idem ..
  simp only [callStep, opened]
  rw [if_neg (by decide), if_neg (by decide), if_neg (by decide)]
  simp only [List.nil_append, overwritten]

theorem run_body (rest : List CallEvent) :
    run (body ++ rest) = runEvents (slugs.callStep limits logoA) (opened [1, 2]) rest := by
  simp [run, body, runEvents, send_step, create_step, chunk_step]

theorem visited_body (rest : List CallEvent) :
    visited (slugs.callStep limits logoA) (.start empty) (body ++ rest) =
      (.start empty, .send (.ok head)) :: (⟨empty, 0, .opening head⟩, .create uuid none none) ::
        (opened [], .chunk [1, 2] none) :: visited (slugs.callStep limits logoA) (opened [1, 2]) rest := by
  simp only [body, List.cons_append, List.nil_append]
  rw [visited_cons send_step, visited_cons create_step, visited_cons chunk_step]

theorem fresh_body (rest : List CallEvent)
    (later : ∀ pair ∈ visited (slugs.callStep limits logoA) (opened [1, 2]) rest, Fresh slugs logoA pair.1 pair.2) :
    ∀ pair ∈ visited (slugs.callStep limits logoA) (.start empty) (body ++ rest), Fresh slugs logoA pair.1 pair.2 := by
  rw [visited_body]
  simp only [List.forall_mem_cons]
  refine ⟨trivial, ⟨rfl, fun response => ?_⟩, trivial, later⟩
  rw [tempPath_uuid]
  exact hashedPath_ne_temp response

/-- The connection breaks after the first chunk, and the temporary file stays. -/
theorem broken_stream_leaves_temp : ∃ call,
    run (body ++ [.broken false]) = some call ∧
    (∀ pair ∈ visited (slugs.callStep limits logoA) (.start empty) (body ++ [.broken false]),
      Fresh slugs logoA pair.1 pair.2) ∧
    call.phase = .returned (.error (.network false)) ∧ call.files temp = some [1, 2] ∧
    ¬ LeavesOnly empty call (.error (.network false)) := by
  have broke : slugs.callStep limits logoA (opened [1, 2]) (.broken false) =
      some { opened [1, 2] with phase := .returned (.error (.network false)) } := rfl
  refine ⟨_, (run_body _).trans (by simp [runEvents, broke]; rfl), fresh_body _ ?_, rfl, by simp [opened], ?_⟩
  · rw [visited_cons broke]
    simp [visited, Fresh]
  · intro only
    have there := congrFun only temp
    simp [opened, empty] at there

def logo : AssetPath Bool := ⟨true, "logo.png"⟩

theorem finalPath_logo : slugs.finalPath (opened [1, 2]).files logoA (head.response [1, 2]) = logo := by
  have image : detectFromPath logoA.path = .image := by decide
  have plain : slugs.plainPath logoA (head.response [1, 2]) = logo := by
    have name := plainPath_filename (head.response [1, 2])
    simp only [plainPath, subdirPath, image, if_true] at name ⊢
    rw [name]
    rfl
  have apart : logo ≠ temp := by decide
  have free : (opened [1, 2]).files logo = none := by simp [opened, Function.update_of_ne apart, empty]
  simp [finalPath, plain, free]

/-- The body ends, and only the image is new. -/
theorem whole_image_alone : ∃ call, run (body ++ [.sync none, .rename none]) = some call ∧
    LeavesOnly empty call (.ok (slugs.asset logoA (head.response [1, 2]) logo)) := by
  have synced : slugs.callStep limits logoA (opened [1, 2]) (.sync none) =
      some { opened [1, 2] with phase := .named head temp [1, 2] logo } := by
    rw [← finalPath_logo]
    rfl
  obtain ⟨call, renamed, returned⟩ : ∃ call, slugs.callStep limits logoA
      { opened [1, 2] with phase := .named head temp [1, 2] logo } (.rename none) = some call ∧
      call.phase = .returned (.ok (slugs.asset logoA (head.response [1, 2]) logo)) := ⟨_, rfl, rfl⟩
  have ran : run (body ++ [.sync none, .rename none]) = some call := by
    simp [run_body, runEvents, synced, renamed]
  have fresh := fresh_body [.sync none, .rename none] (by
    rw [visited_cons synced, visited_cons renamed]
    simp [visited, Fresh])
  refine ⟨call, ran, (leavesOnly_iff slugs limits logoA empty _ call _ ran returned fresh).mpr ?_⟩
  rw [visited_body, visited_cons synced, visited_cons renamed]
  simp only [List.forall_mem_cons, visited, Clean, opened]
  refine ⟨trivial, trivial, ?_, trivial, trivial, List.forall_mem_nil _⟩
  rintro _ _ _ ⟨⟩ -
  refine ⟨by decide, fun failed => ?_⟩
  cases failed

end OneImage

end Webfang.Assets
