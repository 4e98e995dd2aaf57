import Chatroom.Cluster.State

/-!
# The removal of a user who has left

When the close of a session is processed, the entry of its user is to be deleted. This takes three
steps: the uid is put into `removal_sess_`, an upload takes the set, and its pipeline is executed. An
upload that finds another in progress is skipped, and the uid waits for the next one. In between, the
user may have come back, to the same server or to another one, and then the deletion hits the entry of
the new session. It does not in a run in which `UpdateUserStatus` is called only for users whose
removals are all executed.
-/

namespace Chatroom.Cluster

open Trace Threads History
open OnlineStatus (ServerId sidText unset)
open Backend (Uid Tid Act Erasing erasing_advance erasing_of_alone not_mem_of_any)

variable {cfg : Config} {σ σ' : State} {l : Label} {b b' : ServerId} {uid u : Uid} {k : Bool}
  {log : List Event} {e : Event}

/-! ## Removals in the history

The history records closes, swaps, deletions and writes of entries. A fold over it keeps the removals
that
are under way, and for each of them whether the entry has been written since; the property is then
that a
deletion meets none that is marked. -/

/-- A removal under way: the close of a session was processed, and the deletion is not executed yet. -/
structure Removal where
  server : ServerId
  uid : Uid
  /-- An upload has taken it. -/
  taken : Bool
  /-- Since the close, `UpdateUserStatus` has written the entry that is there. -/
  rewritten : Bool
  deriving DecidableEq, Repr

def Removal.write (uid : Uid) (byUpdate : Bool) (r : Removal) : Removal :=
  if r.uid = uid then { r with rewritten := byUpdate } else r

def Removal.take (b : ServerId) (r : Removal) : Removal :=
  if r.server = b then { r with taken := true } else r

def Removal.vanish (us : List Uid) (r : Removal) : Removal :=
  if r.uid ∈ us then { r with rewritten := false } else r

/-- The removals under way after an event. -/
def observe (rs : List Removal) : Event → List Removal
  | .closed b uid => rs ++ [⟨b, uid, false, false⟩]
  | .swapped b => rs.map (·.take b)
  | .deleted b us => (rs.filter fun r => !(r.server = b && r.taken)).map (·.vanish us)
  | .updated _ uid => rs.map (·.write uid true)
  | .created uid => rs.map (·.write uid false)
  | .expired uid => rs.map (·.write uid false)
  | .accepted .. => rs
  | .appended .. => rs

def removals (log : List Event) : List Removal := log.foldl observe []

/-- The deletions of an upload hit no entry that was written after the close they are for. -/
def DeletesOld (before : List Event) : Event → Prop
  | .deleted b us =>
    ∀ r ∈ removals before, r.server = b → r.taken = true → r.uid ∈ us → r.rewritten = false
  | _ => True

def NoStaleDelete (σ : State) : Prop := Justified DeletesOld σ.log

/-! ## Removals in the state

The condition is about the state: what is in `removal_sess_`, and what an upload has in its hands. -/

/-- The removal of a user is not executed yet. -/
def Outstanding (τ : Backend.State) (uid : Uid) : Prop := uid ∈ τ.onlineRemoval ∨ Erasing τ uid

def Settled (σ : State) : Act → Prop
  | .updateUserStatus uid => ∀ b, ¬ Outstanding (σ.servers b) uid
  | _ => True

/-- `UpdateUserStatus` is called only for users of whom no removal is outstanding on any server. -/
def UpdatesSettled (σ : State) : Label → Prop
  | .server b l => ∀ a ∈ firstAct (σ.view b) l, Settled σ a
  | _ => True

/-! ## The two agree

One lemma for each event that begins, moves or ends a removal, and one for all others; then one for
the
step of a backend. This needs that at most one upload of a backend is in progress (`UploadOk`), since
a swap
takes the whole set. -/

/-- A removal of the user is under way on `b`, taken by an upload or not. -/
def Under (log : List Event) (b : ServerId) (uid : Uid) (taken : Bool) : Prop :=
  ∃ r ∈ removals log, r.server = b ∧ r.uid = uid ∧ r.taken = taken

theorem removals_concat : removals (log ++ [e]) = observe (removals log) e := by
  rw [removals, List.foldl_append]
  rfl

/-- An event that only changes whether entries were written since. -/
theorem under_map {f : Removal → Removal} (he : observe (removals log) e = (removals log).map f)
    (hf : ∀ r, (f r).server = r.server ∧ (f r).uid = r.uid ∧ (f r).taken = r.taken) :
    Under (log ++ [e]) b uid k ↔ Under log b uid k := by
  unfold Under
  rw [removals_concat, he]
  simp only [List.mem_map, exists_exists_and_eq_and, hf]

theorem Removal.write_same (r : Removal) : (r.write u k).server = r.server ∧ (r.write u k).uid = r.uid ∧
    (r.write u k).taken = r.taken := by
  unfold Removal.write
  split <;> exact ⟨rfl, rfl, rfl⟩

theorem Removal.vanish_same (r : Removal) (us : List Uid) : (r.vanish us).server = r.server ∧
    (r.vanish us).uid = r.uid ∧ (r.vanish us).taken = r.taken := by
  unfold Removal.vanish
  split <;> exact ⟨rfl, rfl, rfl⟩

/-- The close of a session begins a removal. -/
theorem under_closed :
    Under (log ++ [.closed b u]) b' uid k ↔ Under log b' uid k ∨ b' = b ∧ uid = u ∧ k = false := by
  unfold Under
  rw [removals_concat, observe]
  constructor
  · rintro ⟨r, hr, rfl, rfl, rfl⟩
    rcases List.mem_append.mp hr with hold | hnew
    · exact .inl ⟨r, hold, rfl, rfl, rfl⟩
    · cases List.mem_singleton.mp hnew
      exact .inr ⟨rfl, rfl, rfl⟩
  · rintro (⟨r, hr, hrest⟩ | ⟨rfl, rfl, rfl⟩)
    · exact ⟨r, List.mem_append_left _ hr, hrest⟩
    · exact ⟨_, List.mem_append_right _ List.mem_cons_self, rfl, rfl, rfl⟩

/-- An upload takes all removals of its server. -/
theorem under_swapped :
    Under (log ++ [.swapped b]) b' uid k ↔
      if b' = b then k = true ∧ ∃ k', Under log b' uid k' else Under log b' uid k := by
  unfold Under
  rw [removals_concat, observe]
  constructor
  · rintro ⟨r', hr', rfl, rfl, rfl⟩
    obtain ⟨r, hr, rfl⟩ := List.mem_map.mp hr'
    unfold Removal.take
    by_cases hserver : r.server = b
    · simp only [hserver, if_true, true_and]
      exact ⟨r.taken, r, hr, hserver, rfl, rfl⟩
    · simp only [hserver, if_false]
      exact ⟨r, hr, rfl, rfl, rfl⟩
  · intro h
    split at h
    · next heq =>
      subst heq
      obtain ⟨rfl, k', r, hr, rfl, rfl, rfl⟩ := h
      refine ⟨r.take r.server, List.mem_map_of_mem hr, ?_⟩
      simp [Removal.take]
    · next hne =>
      obtain ⟨r, hr, rfl, rfl, rfl⟩ := h
      refine ⟨r.take b, List.mem_map_of_mem hr, ?_⟩
      simp [Removal.take, hne]

/-- The pipeline ends those that its upload has taken. -/
theorem under_deleted {us : List Uid} :
    Under (log ++ [.deleted b us]) b' uid k ↔ Under log b' uid k ∧ (b' = b → k = false) := by
  unfold Under
  rw [removals_concat, observe]
  constructor
  · rintro ⟨r', hr', rfl, rfl, rfl⟩
    obtain ⟨r, hr, rfl⟩ := List.mem_map.mp hr'
    obtain ⟨hmem, hkept⟩ := List.mem_filter.mp hr
    obtain ⟨hserver, huid, htaken⟩ := r.vanish_same us
    rw [hserver, huid, htaken]
    exact ⟨⟨r, hmem, rfl, rfl, rfl⟩, by simpa [imp_iff_not_or] using hkept⟩
  · rintro ⟨⟨r, hr, rfl, rfl, rfl⟩, hkept⟩
    refine ⟨r.vanish us, List.mem_map_of_mem (List.mem_filter.mpr ⟨hr, ?_⟩), r.vanish_same us⟩
    simpa [imp_iff_not_or] using hkept

/-- The history of the removals and the sets of the uploaders agree. -/
structure RemovalsOk (σ : State) : Prop where
  queued : ∀ b uid, uid ∈ (σ.servers b).onlineRemoval ↔ Under σ.log b uid false
  erasing : ∀ b uid, Erasing (σ.servers b) uid ↔ Under σ.log b uid true

/-- The events that begin or end no removal. -/
def Event.keeps : Event → Bool
  | .closed _ _ | .swapped _ | .deleted _ _ => false
  | _ => true

/-- The other events leave the removals under way as they are. -/
theorem under_keep {e : Option Event} (he : ∀ e' ∈ e, e'.keeps = true) :
    Under (log ++ e.toList) b uid k ↔ Under log b uid k := by
  cases e with
  | none => simp
  | some e' =>
    have hkeeps := he e' rfl
    cases e' with
    | closed b u => cases hkeeps
    | swapped b => cases hkeeps
    | deleted b us => cases hkeeps
    | updated | created | expired => exact under_map rfl fun r => r.write_same
    | accepted | appended => exact under_map (List.map_id' _).symm fun r => ⟨rfl, rfl, rfl⟩

theorem observed_keep {τ : Backend.State} {a : Act} (ha : a.online = false) :
    ∀ e ∈ observed b τ a, e.keeps = true := by
  intro e he
  cases observes_of_observed he with
  | accepted | appended => rfl
  | updated | closed | swapped | deleted => cases ha

/-- What is said of the other servers stays, and of the one that moved it is said anew. -/
theorem RemovalsOk.put (h : RemovalsOk σ) {τ : Backend.State} {e : Option Event}
    (hother : ∀ b' ≠ b, ∀ uid k, Under (σ.log ++ e.toList) b' uid k ↔ Under σ.log b' uid k)
    (hqueued : ∀ uid, uid ∈ τ.onlineRemoval ↔ Under (σ.log ++ e.toList) b uid false)
    (herasing : ∀ uid, Erasing τ uid ↔ Under (σ.log ++ e.toList) b uid true) :
    RemovalsOk (σ.put b τ e) := by
  refine ⟨fun b' uid => ?_, fun b' uid => ?_⟩
  · show uid ∈ (Function.update σ.servers b τ b').onlineRemoval ↔ _
    rcases eq_or_ne b' b with rfl | hne
    · rw [Function.update_self]
      exact hqueued uid
    · rw [Function.update_of_ne hne]
      exact (h.queued b' uid).trans (hother b' hne uid false).symm
  · show Erasing (Function.update σ.servers b τ b') uid ↔ _
    rcases eq_or_ne b' b with rfl | hne
    · rw [Function.update_self]
      exact herasing uid
    · rw [Function.update_of_ne hne]
      exact (h.erasing b' uid).trans (hother b' hne uid true).symm

variable {τ τ' : Backend.State} {t : Tid} {a : Act} {new rest : List Act}

/-- A step of a backend that leaves the removals alone. -/
theorem RemovalsOk.keep (h : RemovalsOk σ) {e : Option Event}
    (he : ∀ e' ∈ e, e'.keeps = true)
    (hremoval : τ.onlineRemoval = (σ.servers b).onlineRemoval)
    (herasing : ∀ uid, Erasing τ uid ↔ Erasing (σ.servers b) uid) : RemovalsOk (σ.put b τ e) := by
  refine h.put (fun b' _ uid k => under_keep he) (fun uid => ?_) fun uid => ?_
  · rw [hremoval, under_keep he]
    exact h.queued b uid
  · rw [herasing, under_keep he]
    exact h.erasing b uid

/-- An act of a backend, by what it does to the sets of the uploader. -/
theorem RemovalsOk.run (h : RemovalsOk σ) (hup : Backend.UploadOk (σ.servers b))
    (hcode : (σ.servers b).code t = a :: rest)
    (hex : Backend.exec (cfg.backend b) t (σ.view b) a = some (τ, new)) :
    RemovalsOk (σ.put b { τ with code := advance (σ.servers b).code t new rest }
      (observed b (σ.view b) a)) := by
  cases Backend.exec_online hex with
  | updated _ hremoval _ hnew =>
    subst hnew
    refine h.keep ?_ hremoval fun uid => erasing_advance hcode rfl fun _ => List.not_mem_nil
    rintro _ ⟨⟩
    rfl
  | begun _ _ hremoval _ hnew =>
    subst hnew
    refine h.keep (observed_keep rfl) hremoval fun uid => erasing_advance hcode rfl ?_
    simp
  | other hoff _ hremoval _ hnew =>
    exact h.keep (observed_keep hoff) hremoval fun uid =>
      erasing_advance hcode (Act.uploads_of_online hoff) (not_mem_of_any hnew)
  | @removed u _ hremoval _ hnew =>
    subst hnew
    refine h.put (e := some (.closed b u)) (fun b' hne uid k => ?_) (fun uid => ?_) fun uid => ?_
    · rw [Option.toList_some, under_closed]
      simp [hne]
    · rw [Option.toList_some, under_closed, ← h.queued b uid]
      dsimp only
      rw [hremoval, List.mem_insert_iff]
      simp [or_comm, State.view]
    · rw [Option.toList_some, under_closed, erasing_advance hcode rfl fun _ => List.not_mem_nil,
        h.erasing b uid]
      simp
  | swapped _ hremoval _ hnew =>
    subst hnew
    -- no other upload has anything taken, so what is taken now is the whole set
    have hnone : ∀ uid, ¬ Under σ.log b uid true :=
      fun uid hunder => hup.not_erasing hcode ((h.erasing b uid).mpr hunder)
    refine h.put (e := some (.swapped b)) (fun b' hne uid k => ?_) (fun uid => ?_) fun uid => ?_
    · rw [Option.toList_some, under_swapped, if_neg hne]
    · rw [Option.toList_some, under_swapped, if_pos rfl]
      dsimp only
      rw [hremoval]
      simp
    · rw [Option.toList_some, under_swapped, if_pos rfl, erasing_of_alone hup hcode rfl]
      simp [hnone, ← h.queued b uid, State.view]
  | deleted _ hremoval _ hnew =>
    subst hnew
    refine h.put (e := some (.deleted b _)) (fun b' hne uid k => ?_) (fun uid => ?_) fun uid => ?_
    · rw [Option.toList_some, under_deleted]
      simp [hne]
    · rw [Option.toList_some, under_deleted, ← h.queued b uid]
      dsimp only
      rw [hremoval]
      simp [State.view]
    · rw [Option.toList_some, under_deleted, erasing_of_alone hup hcode rfl]
      simp

theorem RemovalsOk.congr (h : RemovalsOk σ) {e : Option Event}
    (he : ∀ e' ∈ e, e'.keeps = true)
    (hservers : σ'.servers = σ.servers) (hlog : σ'.log = σ.log ++ e.toList) : RemovalsOk σ' := by
  refine ⟨fun b uid => ?_, fun b uid => ?_⟩
  · rw [hservers, hlog, under_keep he]
    exact h.queued b uid
  · rw [hservers, hlog, under_keep he]
    exact h.erasing b uid

theorem RemovalsOk.step (h : RemovalsOk σ) (hup : ∀ b, Backend.UploadOk (σ.servers b))
    (hs : Stepped cfg σ l σ') : RemovalsOk σ' := by
  cases hs with
  | run hcode hex => exact h.run (hup _) hcode hex
  | @other b l τ mq ctl hl hτ =>
    obtain ⟨hremoval, -, -⟩ := Backend.online_of_not_run hτ hl
    have herasing : ∀ uid, Erasing τ uid ↔ Erasing (σ.view b) uid :=
      fun uid => Backend.erasing_of_not_run hτ hl
    exact (h.keep (e := none) (by simp) hremoval herasing).congr (e := none) (by simp) rfl
      (by simp [State.put])
  | created =>
    refine h.congr (e := some (.created _)) ?_ rfl rfl
    rintro _ ⟨⟩
    rfl
  | expired =>
    refine h.congr (e := some (.expired _)) ?_ rfl rfl
    rintro _ ⟨⟩
    rfl
  | attempted | registered | kicked | tokenExpired | received | timedOut | trimQueue | trimCtl =>
    exact h.congr (e := none) (by simp) rfl (List.append_nil _).symm

/-- **The removals under way in the history are those outstanding in the state**, in every run. -/
theorem removalsOk_of_reach {ok : State → Label → Prop} (h : Reach (step cfg) ok init σ) :
    RemovalsOk σ := by
  have hknown : ∀ {σ}, Reach (step cfg) ok init σ → ∀ b, Backend.UploadOk (σ.servers b) :=
    fun hr b => Backend.uploadOk_of_reach (server_of_reach hr b)
  refine h.invariant_of hknown ?_ ?_
  · refine ⟨fun b uid => ?_, fun b uid => ?_⟩
    · simp [init, Backend.init, Under, removals]
    · simp only [Under, removals, init, List.foldl_nil, List.not_mem_nil, false_and, exists_false,
        iff_false]
      rintro ⟨t, us, hmem, -⟩
      cases Backend.eq_lock_of_mem_init hmem
  · exact fun _ _ _ hup hinv _ hs => hinv.step hup (step_cases hs)

/-! ## The run

With the two in agreement the argument is short. Only `UpdateUserStatus` marks a removal, and it is
called
only if the state has none outstanding, so the history has none to mark. -/

/-- No removal is under way for an entry written since the close. -/
structure DeletesOk (σ : State) : Prop where
  old : ∀ r ∈ removals σ.log, r.rewritten = false
  history : NoStaleDelete σ

theorem Removal.rewritten_vanish {us : List Uid} {r : Removal} (h : r.rewritten = false) :
    (r.vanish us).rewritten = false := by
  unfold Removal.vanish
  split
  · rfl
  · exact h

/-- Every event keeps this but the update of a user who has a removal under way. -/
theorem old_observe {rs : List Removal} (h : ∀ r ∈ rs, r.rewritten = false)
    (he : ∀ b uid, e = .updated b uid → ∀ r ∈ rs, r.uid ≠ uid) :
    ∀ r ∈ observe rs e, r.rewritten = false := by
  intro r' hr'
  cases e with
  | closed b uid =>
    rcases List.mem_append.mp hr' with hold | hnew
    · exact h r' hold
    · cases List.mem_singleton.mp hnew
      rfl
  | swapped b =>
    obtain ⟨r, hr, rfl⟩ := List.mem_map.mp hr'
    unfold Removal.take
    split <;> exact h r hr
  | deleted b us =>
    obtain ⟨r, hr, rfl⟩ := List.mem_map.mp hr'
    exact Removal.rewritten_vanish (h r (List.mem_filter.mp hr).1)
  | updated b uid =>
    obtain ⟨r, hr, rfl⟩ := List.mem_map.mp hr'
    rw [Removal.write, if_neg (he b uid rfl r hr)]
    exact h r hr
  | created uid | expired uid =>
    obtain ⟨r, hr, rfl⟩ := List.mem_map.mp hr'
    unfold Removal.write
    split
    · rfl
    · exact h r hr
  | accepted | appended => exact h r' hr'

/-- An event that is no such update keeps the removals unmarked, and a deletion then meets none. -/
theorem DeletesOk.record (h : DeletesOk σ) (hlog : σ'.log = σ.log ++ [e])
    (he : ∀ b uid, e = .updated b uid → ∀ r ∈ removals σ.log, r.uid ≠ uid) : DeletesOk σ' := by
  refine ⟨?_, ?_⟩
  · rw [hlog, removals_concat]
    exact old_observe h.old he
  · rw [NoStaleDelete, hlog]
    refine h.history.concat ?_
    cases e with
    | deleted b us => exact fun r hr _ _ _ => h.old r hr
    | _ => trivial

theorem DeletesOk.congr (h : DeletesOk σ) (hlog : σ'.log = σ.log) : DeletesOk σ' := by
  refine ⟨?_, ?_⟩
  · rw [hlog]
    exact h.old
  · rw [NoStaleDelete, hlog]
    exact h.history

/-- A user who has no removal outstanding has none under way. -/
theorem RemovalsOk.settled (h : RemovalsOk σ) (hsettled : ∀ b, ¬ Outstanding (σ.servers b) uid) :
    ∀ r ∈ removals σ.log, r.uid ≠ uid := by
  intro r hr huid
  refine hsettled r.server ?_
  cases htaken : r.taken with
  | false => exact .inl ((h.queued _ _).mpr ⟨r, hr, rfl, huid, htaken⟩)
  | true => exact .inr ((h.erasing _ _).mpr ⟨r, hr, rfl, huid, htaken⟩)

/-- The step lemma: the condition is used at the acts of the backends, and nowhere else. -/
theorem DeletesOk.step (h : DeletesOk σ) (hrem : RemovalsOk σ) (hok : UpdatesSettled σ l)
    (hs : Stepped cfg σ l σ') : DeletesOk σ' := by
  cases hs with
  | @run b t a rest τ new hcode hex =>
    have hsettled : Settled σ a := hok a (firstAct_run hcode)
    cases he : observed b (σ.view b) a with
    | none => exact h.congr (List.append_nil _)
    | some e =>
      refine h.record rfl ?_
      rintro b' uid rfl
      cases observes_of_observed he
      exact hrem.settled hsettled
  | created => exact h.record (e := .created _) rfl (by simp)
  | expired => exact h.record (e := .expired _) rfl (by simp)
  | other | attempted | registered | kicked | tokenExpired | received | timedOut | trimQueue | trimCtl =>
    exact h.congr rfl

/-- **No deletion hits an entry written after the close it is for**, in every run in which
`UpdateUserStatus` waits for the removals of the user, on whatever server they are. -/
theorem noStaleDelete_of_updatesSettled (h : Reach (step cfg) UpdatesSettled init σ) :
    NoStaleDelete σ := by
  have hinv : DeletesOk σ := by
    refine h.invariant_of removalsOk_of_reach ⟨by simp [init, removals], justified_nil⟩ ?_
    exact fun _ _ _ hrem hinv hok hs => hinv.step hrem hok (step_cases hs)
  exact hinv.history

/-- The condition can be read off the history. -/
def settledBy (rs : List Removal) : Act → Bool
  | .updateUserStatus uid => rs.all (·.uid ≠ uid)
  | _ => true

def UpdatesSettledBy (σ : State) : Label → Prop
  | .server b l => ∀ a ∈ firstAct (σ.view b) l, settledBy (removals σ.log) a = true
  | _ => True

instance (σ : State) : ∀ l, Decidable (UpdatesSettledBy σ l)
  | .server b l => inferInstanceAs (Decidable (∀ a ∈ firstAct (σ.view b) l, _))
  | .userLoginAttempt .. | .registerUserToken .. | .sendServerKickCmd .. | .expireStatus ..
  | .expireToken .. | .recvFromMsgQueue .. | .recvTimeout .. | .trimQueue .. | .trimCtl .. =>
    .isTrue trivial

/-- What the history says is enough, and this can be decided. -/
theorem RemovalsOk.updatesSettled (h : RemovalsOk σ) (hok : UpdatesSettledBy σ l) :
    UpdatesSettled σ l := by
  cases l with
  | server b l =>
    intro a ha
    have hby := hok a ha
    cases a with
    | updateUserStatus uid =>
      have hall : ∀ r ∈ removals σ.log, r.uid ≠ uid := by simpa [settledBy] using hby
      rintro b' (hqueued | herasing)
      · obtain ⟨r, hr, -, huid, -⟩ := (h.queued b' uid).mp hqueued
        exact hall r hr huid
      · obtain ⟨r, hr, -, huid, -⟩ := (h.erasing b' uid).mp herasing
        exact hall r hr huid
    | _ => trivial
  | _ => trivial

open Backend (closing waking)

/-- User 7 leaves server 1, and comes to server 2 when the entry is deleted. -/
theorem noStaleDelete_moved : ∃ σ, Reach (step exampleConfig) UpdatesSettled init σ ∧
    NoStaleDelete σ ∧ .deleted 1 [7] ∈ σ.log ∧ σ.redis.location 7 = some (sidText 2) := by
  have hrun : (run (step exampleConfig) UpdatesSettledBy init
      (loggingIn 0 7 [116] ++ starting 1 ++ verifying 1 0 Backend.verifyFrame ++
        onServer 1 (closing 2 0 ++ waking 9) ++
        loggingIn 1 7 [116] ++ starting 2 ++ verifying 2 0 Backend.verifyFrame)).any
      (fun σ => .deleted 1 [7] ∈ σ.log ∧ σ.redis.location 7 = some (sidText 2)) = true := by
    decide +kernel
  obtain ⟨σ, hreachBy, htest⟩ := exists_reach_of_run hrun
  have hreach : Reach (step exampleConfig) UpdatesSettled init σ :=
    hreachBy.mono fun _ _ hr hok => (removalsOk_of_reach hr).updatesSettled hok
  exact ⟨σ, hreach, noStaleDelete_of_updatesSettled hreach, by simpa using htest⟩

/-- User 7 leaves server 1. Between the swap and the pipeline of its upload the user comes to server 2,
with the token of the first login, and the pipeline deletes the entry of the session there. -/
theorem not_noStaleDelete_moved : ∃ σ, Reach (step exampleConfig) anyStep init σ ∧
    ¬ NoStaleDelete σ ∧ ((σ.servers 2).sessions 0).verified = true ∧
    ((σ.servers 2).sessions 0).down = false ∧ σ.redis.location 7 = none := by
  have hrun : (run (step exampleConfig) anyStep init
      (loggingIn 0 7 [116] ++ starting 1 ++ verifying 1 0 Backend.verifyFrame ++
        onServer 1 (closing 2 0 ++ waking 8) ++
        starting 2 ++ verifying 2 0 Backend.verifyFrame ++ onServer 1 [.run Backend.worker])).any
      (fun σ => σ.log.getLast? = some (.deleted 1 [7]) ∧
        (⟨1, 7, true, true⟩ : Removal) ∈ removals σ.log.dropLast ∧
        ((σ.servers 2).sessions 0).verified = true ∧ ((σ.servers 2).sessions 0).down = false ∧
        σ.redis.location 7 = none) = true := by
    decide +kernel
  obtain ⟨σ, hreach, htest⟩ := exists_reach_of_run hrun
  obtain ⟨hlast, hmem, hrest⟩ := of_decide_eq_true htest
  refine ⟨σ, hreach, fun h => ?_, hrest⟩
  have hlog : σ.log = σ.log.dropLast ++ .deleted 1 [7] :: [] :=
    (List.dropLast_append_getLast? _ hlast).symm
  have hold := h _ _ _ hlog _ hmem rfl rfl List.mem_cons_self
  cases hold

end Chatroom.Cluster
