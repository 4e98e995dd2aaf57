import Mathlib.Data.List.Nodup
import Chatroom.OnlineStatus

/-!
# The two sets of the status uploader (`server/online_status_upload.hpp`)

Between two uploads `OnlineStatusUploader` collects the users who were active in `sess_` and those who
left in `removal_sess_`; an upload takes both sets, refreshes the entries of the former and deletes
those of the latter. `UploadImpl` has three steps: it sets `in_progress_` or gives up, it takes the
sets under the lock, and it executes the pipeline and resets `in_progress_`. Other threads may call
`AddSession` and `RemoveSession` between them.

`RemoveSession` takes the user out of `sess_`, but `AddSession` does not take them out of
`removal_sess_`. The log of the calls, newest first, tells what the last event of a user was.
-/

namespace Chatroom.OnlineSets

open Trace OnlineStatus

inductive Event where
  | added
  | removed
  deriving DecidableEq, Repr

/-- What is logged: a call for a user, or that an upload has taken the sets. -/
inductive Entry where
  | call (uid : Uid) (event : Event)
  | taken
  deriving DecidableEq, Repr

/-- The last event of a user since the sets were last taken. -/
def lastSince (uid : Uid) : List Entry → Option Event
  | [] | .taken :: _ => none
  | .call u event :: log => if u = uid then some event else lastSince uid log

/-- The last event of a user. -/
def lastEver (uid : Uid) : List Entry → Option Event
  | [] => none
  | .taken :: log => lastEver uid log
  | .call u event :: log => if u = uid then some event else lastEver uid log

/-- An event since the sets were taken is the last one. -/
theorem lastEver_of_lastSince {uid : Uid} {event : Event} : ∀ {log : List Entry},
    lastSince uid log = some event → lastEver uid log = some event
  | .call u e :: log, h => by
    rw [lastSince] at h
    rw [lastEver]
    split at h
    · next hu => rw [if_pos hu, h]
    · next hu =>
      rw [if_neg hu]
      exact lastEver_of_lastSince h

/-- Where an upload is. `in_progress_` is set unless there is none. -/
inductive Phase where
  | idle
  | entered
  | sending (sendingList erasingList : List Uid)
  deriving DecidableEq, Repr

/-- The users whose entries are about to be deleted. -/
def Phase.erasing : Phase → List Uid
  | .sending _ erasingList => erasingList
  | _ => []

structure State where
  sets : Uploader
  phase : Phase
  /-- History. -/
  log : List Entry
  deriving DecidableEq, Repr

def init : State := ⟨⟨[], []⟩, .idle, []⟩

inductive Label where
  | addSession (uid : Uid)
  | removeSession (uid : Uid)
  /-- `UploadImpl` is called; while another upload is in progress that is all. -/
  | uploadImpl
  | takeSets
  | exec
  deriving DecidableEq, Repr

def step (s : State) : Label → Option State
  | .addSession uid =>
    some { s with
      sets := ⟨s.sets.sess.insert uid, s.sets.removalSess⟩
      log := .call uid .added :: s.log }
  | .removeSession uid =>
    some { s with
      sets := ⟨s.sets.sess.erase uid, s.sets.removalSess.insert uid⟩
      log := .call uid .removed :: s.log }
  | .uploadImpl =>
    match s.phase with
    | .idle => some { s with phase := .entered }
    | _ => some s
  | .takeSets =>
    match s.phase with
    | .entered =>
      some ⟨⟨[], []⟩, .sending s.sets.sess s.sets.removalSess, .taken :: s.log⟩
    | _ => none
  | .exec =>
    match s.phase with
    | .sending _ _ => some { s with phase := .idle }
    | _ => none

/-- The last event wins. -/
structure LastWins (s : State) : Prop where
  sess : ∀ uid ∈ s.sets.sess, lastSince uid s.log = some .added
  removal : ∀ uid ∈ s.sets.removalSess, lastSince uid s.log = some .removed
  /-- An upload deletes no entry of a user whose last event is activity. -/
  erasing : ∀ uid ∈ s.phase.erasing, lastEver uid s.log = some .removed

/-- Nobody is active again whose removal is waiting, or is under way. -/
def NoneReturns (s : State) : Label → Prop
  | .addSession uid => uid ∉ s.sets.removalSess ∧ uid ∉ s.phase.erasing
  | _ => True

instance (s : State) (l : Label) : Decidable (NoneReturns s l) := by
  unfold NoneReturns; split <;> infer_instance

variable {s s' : State} {l : Label}

/-- The last event is one of the two. -/
theorem LastWins.disjoint (h : LastWins s) {uid : Uid} (hin : uid ∈ s.sets.sess) :
    uid ∉ s.sets.removalSess := by
  intro hout
  have hadded := h.sess uid hin
  rw [h.removal uid hout] at hadded
  cases hadded

/-! ## The set of the active users

`RemoveSession` takes the user out, so this set follows the events. -/

/-- `sess_` is always right. -/
structure SessOk (s : State) : Prop where
  nodup : s.sets.sess.Nodup
  sess : ∀ uid ∈ s.sets.sess, lastSince uid s.log = some .added

theorem SessOk.step (h : SessOk s) (hs : step s l = some s') : SessOk s' := by
  cases l with
  | addSession uid =>
    cases hs
    refine ⟨h.nodup.insert, fun u hu => ?_⟩
    rw [lastSince]
    split
    · rfl
    · next hne =>
      rcases List.mem_insert_iff.mp hu with rfl | hold
      · exact absurd rfl hne
      · exact h.sess u hold
  | removeSession uid =>
    cases hs
    refine ⟨h.nodup.erase uid, fun u hu => ?_⟩
    -- the set has no duplicates, so one `erase` takes the user out
    obtain ⟨hne, hold⟩ := h.nodup.mem_erase_iff.mp hu
    rw [lastSince, if_neg hne.symm]
    exact h.sess u hold
  | uploadImpl =>
    simp only [OnlineSets.step] at hs
    split at hs
    · cases hs
      exact ⟨h.nodup, h.sess⟩
    · cases hs
      exact h
  | takeSets =>
    simp only [OnlineSets.step] at hs
    split at hs
    · cases hs
      exact ⟨List.nodup_nil, fun _ hu => absurd hu List.not_mem_nil⟩
    · cases hs
  | exec =>
    simp only [OnlineSets.step] at hs
    split at hs
    · cases hs
      exact ⟨h.nodup, h.sess⟩
    · cases hs

/-! ## The set of the users who left

`AddSession` does not take the user out of this set, so it follows the events only as long as nobody
comes back.
For each step it is shown when it keeps the set right; only `AddSession` has a condition. -/

/-- A user who comes back while the removal waits, or is under way, makes the set wrong. -/
theorem LastWins.addSession_iff (hsess : SessOk s) (h : LastWins s) {uid : Uid}
    (hs : step s (.addSession uid) = some s') :
    LastWins s' ↔ NoneReturns s (.addSession uid) := by
  have hsess' := hsess.step hs
  cases hs
  constructor
  · -- the call itself is the last event of the user from now on
    intro h'
    refine ⟨fun hmem => ?_, fun hmem => ?_⟩
    · have hlast := h'.removal uid hmem
      rw [lastSince, if_pos rfl] at hlast
      cases hlast
    · have hlast := h'.erasing uid hmem
      rw [lastEver, if_pos rfl] at hlast
      cases hlast
  · rintro ⟨hremoval, herasing⟩
    refine ⟨hsess'.sess, fun u hu => ?_, fun u hu => ?_⟩
    · rw [lastSince, if_neg (by rintro rfl; exact hremoval hu)]
      exact h.removal u hu
    · rw [lastEver, if_neg (by rintro rfl; exact herasing hu)]
      exact h.erasing u hu

/-- A removal is the last event of its user. -/
theorem LastWins.removeSession (hsess : SessOk s) (h : LastWins s) {uid : Uid}
    (hs : step s (.removeSession uid) = some s') : LastWins s' := by
  have hsess' := hsess.step hs
  cases hs
  refine ⟨hsess'.sess, fun u hu => ?_, fun u hu => ?_⟩
  · rw [lastSince]
    split
    · rfl
    · next hne =>
      rcases List.mem_insert_iff.mp hu with rfl | hold
      · exact absurd rfl hne
      · exact h.removal u hold
  · rw [lastEver]
    split
    · rfl
    · exact h.erasing u hu

/-- The sets become the lists of the upload. -/
theorem LastWins.takeSets (h : LastWins s) (hs : step s .takeSets = some s') : LastWins s' := by
  simp only [OnlineSets.step] at hs
  split at hs
  · cases hs
    refine ⟨fun _ hu => absurd hu List.not_mem_nil, fun _ hu => absurd hu List.not_mem_nil, ?_⟩
    intro u hu
    show lastEver u s.log = _
    exact lastEver_of_lastSince (h.removal u hu)
  · cases hs

/-- **After a step the last event wins if and only if nobody has returned.** -/
theorem LastWins.step_iff (hsess : SessOk s) (h : LastWins s) (hs : step s l = some s') :
    LastWins s' ↔ NoneReturns s l := by
  cases l with
  | addSession uid => exact h.addSession_iff hsess hs
  | removeSession uid => exact iff_of_true (h.removeSession hsess hs) trivial
  | uploadImpl =>
    refine iff_of_true ?_ trivial
    simp only [OnlineSets.step] at hs
    split at hs
    · cases hs
      exact ⟨h.sess, h.removal, fun _ hu => absurd hu List.not_mem_nil⟩
    · cases hs
      exact h
  | takeSets => exact iff_of_true (h.takeSets hs) trivial
  | exec =>
    refine iff_of_true ?_ trivial
    simp only [OnlineSets.step] at hs
    split at hs
    · cases hs
      exact ⟨h.sess, h.removal, fun _ hu => absurd hu List.not_mem_nil⟩
    · cases hs

theorem init_sessOk : SessOk init := ⟨List.nodup_nil, fun _ hu => absurd hu List.not_mem_nil⟩

theorem init_lastWins : LastWins init := by
  refine ⟨?_, ?_, ?_⟩ <;> exact fun _ hu => absurd hu List.not_mem_nil

/-- **The last event wins throughout a run, exactly if nobody is active again whose removal is waiting
or under way.** Then the two sets are disjoint. Of the active users it is true in every run. -/
theorem lastWins_iff (ls : List Label) (hrun : (run step anyStep init ls).isSome) :
    ((∀ pre, pre <+: ls → ∀ s, run step anyStep init pre = some s → LastWins s) ↔
        (run step NoneReturns init ls).isSome) ∧
      (∀ s, LastWins s → ∀ uid ∈ s.sets.sess, uid ∉ s.sets.removalSess) ∧
      ∀ s, Reach step anyStep init s → ∀ uid ∈ s.sets.sess, lastSince uid s.log = some .added := by
  refine ⟨?_, fun s h uid hin => h.disjoint hin, fun s hreach => ?_⟩
  · exact run_isSome_iff (fun s l s' hsess h hs => ⟨hsess.step hs, h.step_iff hsess hs⟩)
      init_sessOk init_lastWins hrun
  · exact (hreach.invariant init_sessOk fun _ _ _ hinv _ hs => hinv.step hs).sess

/-- A user leaves, and comes back after the upload. -/
theorem lastWins_after_upload : ∃ s, run step anyStep init [.addSession 7, .removeSession 7,
    .uploadImpl, .takeSets, .uploadImpl, .exec, .addSession 7] = some s ∧ s.sets.sess = [7] ∧
      LastWins s :=
  ⟨_, rfl, rfl, (lastWins_iff [.addSession 7, .removeSession 7, .uploadImpl, .takeSets, .uploadImpl,
    .exec, .addSession 7] (by decide)).1.mpr (by decide) _ (List.prefix_refl _) _ rfl⟩

/-- A user leaves and comes back before the upload, which then deletes the entry of the user. -/
theorem not_lastWins_return : ∃ s, run step anyStep init [.removeSession 7, .addSession 7,
    .uploadImpl, .takeSets] = some s ∧ s.phase = .sending [7] [7] ∧
      lastEver 7 s.log = some .added ∧ ¬ LastWins s := by
  refine ⟨_, rfl, rfl, rfl, fun h => ?_⟩
  have hlast := h.erasing 7 List.mem_cons_self
  cases hlast

/-! ## The entries

In the model of the entries the upload of a backend is one step. -/

/-- An upload that is not interrupted empties the sets, and a user whose last event is activity can be
found as before. -/
theorem upload_keeps_active {σ : OnlineStatus.State} {sid : ServerId} (hsets : σ.uploader sid = s.sets)
    (hidle : s.phase = .idle) (h : LastWins s) :
    ∃ s', run step anyStep s [.uploadImpl, .takeSets, .exec] = some s' ∧
      (σ.upload sid).uploader sid = s'.sets ∧
      ∀ uid, lastEver uid s.log = some .added →
        getUserLocation (σ.upload sid) uid = getUserLocation σ uid := by
  refine ⟨⟨⟨[], []⟩, .idle, .taken :: s.log⟩, ?_, ?_, fun uid hlast => ?_⟩
  · simp [run, anyStep, step, hidle]
  · exact Function.update_self ..
  · have hnot : uid ∉ (σ.uploader sid).removalSess := by
      rw [hsets]
      intro hmem
      rw [lastEver_of_lastSince (h.removal uid hmem)] at hlast
      cases hlast
    rw [getUserLocation_upload]
    exact if_neg hnot

end Chatroom.OnlineSets
