import Chatroom.Server.Backend.Closing

/-!
# The worker

Only the worker processes events, one at a time, and each act of the processing goes by the event
it took. It verifies a session at most once, and a verified session keeps its uid. `WorkerOk` holds
in every run.
-/

namespace Chatroom.Backend

open Trace Threads

variable {cfg : Config} {σ σ' : State} {t : Tid} {a : Act} {new rest : List Act} {l : Label}

/-- The acts of `Processor` that go by the event it processes. Only the worker does them. -/
def Act.workerOnly : Act → Bool
  | .processor _ _ | .dispatch _ _ | .verifyUser _ _ _ _ | .setVerified _ _ | .emplaceSess _ _
  | .eraseTemp _ false | .welcome _ | .chatFind _ _ _ | .getUserLocation _ _ _
  | .sendToMsgQueue _ _ _ _ | .deliver _ _ _ => true
  | _ => false

/-- An act of the processing of `item`; other acts belong to anything. -/
def Act.Fits (item : Option (SessId × Option MsgNode)) : Act → Prop
  | .processor s msg => item = some (s, msg)
  | .dispatch s n => item = some (s, some n)
  | .verifyUser s n _ _ => item = some (s, some n)
  | .setVerified s _ => ∃ n, item = some (s, some n)
  | .emplaceSess _ s => ∃ n, item = some (s, some n)
  | .eraseTemp s false => ∃ n, item = some (s, some n)
  | .welcome s => ∃ n, item = some (s, some n)
  | .chatFind s n _ => item = some (s, some n)
  | .getUserLocation s n _ => item = some (s, some n)
  | .sendToMsgQueue _ s n _ => item = some (s, some n)
  | .deliver s n _ => item = some (s, some n)
  | _ => True

/-- The acts from the begin of the processing to the entry in `sess_`. -/
def Act.spine : Act → Bool
  | .processor _ _ | .dispatch _ _ | .verifyUser _ _ _ _ | .setVerified _ _ | .emplaceSess _ _ => true
  | _ => false

/-- The session about to be verified. -/
def Act.verifies : Act → Option SessId
  | .verifyUser s _ _ _ => some s
  | .setVerified s _ => some s
  | _ => none

structure WorkerOk (σ : State) : Prop where
  fits : ∀ t, ∀ a ∈ σ.code t, a.Fits (if t = worker then σ.item else none)
  once : (σ.code worker).countP Act.spine ≤ 1
  unverified : ∀ a ∈ σ.code worker, ∀ s, a.verifies = some s → (σ.sessions s).verified = false
  emplace : ∀ uid s, .emplaceSess uid s ∈ σ.code worker →
    (σ.sessions s).verified = true ∧ (σ.sessions s).userId = uid

variable {item : Option (SessId × Option MsgNode)}

/-! ## Acts go by the event

What replaces an act of the processing of an event is again of the processing of this event. Of the
acts that
other threads do nothing has to be said. -/

/-- What any thread may do belongs to anything. -/
theorem Act.fits_of_not_workerOnly (h : a.workerOnly = false) : a.Fits item := by
  unfold Act.Fits
  split <;> trivial

theorem fits_of_any (h : new.any Act.workerOnly = false) : ∀ b ∈ new, b.Fits item := by
  exact forall_of_any (fun _ => Act.fits_of_not_workerOnly) h

theorem fits_verifyFailed {s : SessId} {n : MsgNode} (h : item = some (s, some n)) :
    ∀ b ∈ verifyFailed s, b.Fits item := by
  simpa [verifyFailed, removeTempSession, Act.Fits] using ⟨n, h⟩

theorem fits_verified {s : SessId} {uid : Uid} (h : ∃ n, item = some (s, some n)) :
    ∀ b ∈ addSession uid s ++ [.updateUserStatus uid, .welcome s], b.Fits item := by
  simpa [addSession, Act.Fits] using h

/-- The acts that only bring others. -/
theorem Expands.fits (h : Expands cfg σ a new) (ha : a.Fits item) : ∀ b ∈ new, b.Fits item := by
  cases h with
  | dispatch hd =>
    cases hd with
    | refused => exact fits_verifyFailed ha
    | nothing => exact fits_of_any rfl
    | verify | chat => simpa [Act.Fits] using ha
  | setVerifiedAgain => exact fits_verified ha
  | processorFrame | chatLocal | chatRemote | located => simpa [Act.Fits] using ha
  | _ => exact fits_of_any rfl

/-- And all acts. -/
theorem Exec.fits (h : Exec cfg t σ a σ' new) (ha : a.Fits item) : ∀ b ∈ new, b.Fits item := by
  cases h with
  | expand he => exact he.fits ha
  | verifyFailed => exact fits_verifyFailed ha
  | verifyOk => simpa [Act.Fits] using ⟨_, ha⟩
  | setVerified => exact fits_verified ha
  | pushSend hnew => rcases hnew with rfl | rfl <;> exact fits_of_any rfl
  | _ => exact fits_of_any rfl

/-! ## At most one verification

`once` counts the acts of the spine that the worker has left. From it follows that a session which is
being
verified is not verified a second time by an act that is still to come. -/

/-- An act of the spine makes way for at most one. -/
theorem Exec.spine_le (h : Exec cfg t σ a σ' new) :
    new.countP Act.spine ≤ [a].countP Act.spine := by
  cases h with
  | expand he =>
    cases he with
    | dispatch hd => cases hd <;> exact Nat.le_of_ble_eq_true rfl
    | _ => exact Nat.le_of_ble_eq_true rfl
  | crash => exact Nat.zero_le _
  | pushSend hnew => rcases hnew with rfl | rfl <;> exact Nat.le_of_ble_eq_true rfl
  | _ => exact Nat.le_of_ble_eq_true rfl

/-- An act that verifies is on the spine. -/
theorem Act.spine_of_verifies {s : SessId} (h : a.verifies = some s) : a.spine = true := by
  unfold Act.verifies at h
  split at h <;> first | rfl | cases h

/-- No act is left that would verify a session twice. -/
theorem WorkerOk.verifies_rest (h : WorkerOk σ) (hcode : σ.code worker = a :: rest)
    (ha : a.spine = true) : ∀ b ∈ rest, b.verifies = none := by
  intro b hb
  have honce := h.once
  rw [hcode, List.countP_cons_of_pos ha] at honce
  have hnone : rest.countP Act.spine = 0 := by omega
  rw [List.countP_eq_zero] at hnone
  by_contra hsome
  obtain ⟨s, hs⟩ := Option.ne_none_iff_exists'.mp hsome
  exact hnone b hb (Act.spine_of_verifies hs)

/-- Where a session gets verified. -/
theorem Exec.verified (h : Exec cfg t σ a σ' new) (s : SessId) :
    ((σ'.sessions s).verified = (σ.sessions s).verified ∧
        (σ'.sessions s).userId = (σ.sessions s).userId) ∨
      ∃ uid, a = .setVerified s uid ∧ (σ.sessions s).verified = false ∧
        (σ'.sessions s).verified = true ∧ (σ'.sessions s).userId = uid := by
  cases h with
  | @setVerified s₀ uid hv =>
    rcases eq_or_ne s s₀ with rfl | hne
    · exact .inr ⟨uid, rfl, hv, by simp, by simp⟩
    · rw [State.modify_of_ne hne]
      exact .inl ⟨rfl, rfl⟩
  | close | closeToSess | closeToTemp | closeReturn | eraseSess | eraseTempClose | pushSend | popSend
  | asyncWrite | start =>
    exact .inl ⟨keep_of_update (g := SessionState.verified) rfl (by rfl) s,
      keep_of_update (g := SessionState.userId) rfl (by rfl) s⟩
  | _ => exact .inl ⟨rfl, rfl⟩

/-- **The uid of a verified session never changes.** -/
theorem Exec.verified_mono (h : Exec cfg t σ a σ' new) {s : SessId}
    (hv : (σ.sessions s).verified = true) :
    (σ'.sessions s).verified = true ∧ (σ'.sessions s).userId = (σ.sessions s).userId := by
  rcases h.verified s with ⟨hv', hu'⟩ | ⟨uid, -, hun, -⟩
  · exact ⟨hv'.trans hv, hu'⟩
  · rw [hun] at hv
    cases hv

/-- A new act that verifies is the next one in the processing of a session not verified. -/
theorem Exec.verifies_new (h : Exec cfg t σ a σ' new) (hun : ∀ s, a.verifies = some s →
    (σ.sessions s).verified = false) : ∀ b ∈ new, ∀ s, b.verifies = some s →
      (σ.sessions s).verified = false ∧ ∀ uid, a ≠ .setVerified s uid := by
  have hnone : new.any (fun b => b.verifies.isSome) = false → ∀ b ∈ new, ∀ s, b.verifies = some s →
      (σ.sessions s).verified = false ∧ ∀ uid, a ≠ .setVerified s uid := by
    intro hany b hb s hs
    have hb' := List.any_eq_false.mp hany b hb
    simp [hs] at hb'
  cases h with
  | expand he =>
    cases he with
    | dispatch hd =>
      cases hd with
      | verify _ hv _ => simpa [Act.verifies] using hv
      | _ => exact hnone rfl
    | _ => exact hnone rfl
  | verifyOk => simpa [Act.verifies] using hun
  | pushSend hnew => rcases hnew with rfl | rfl <;> exact hnone rfl
  | _ => exact hnone rfl

theorem mem_verified {uid uid₀ : Uid} {s s₀ : SessId}
    (h : .emplaceSess uid s ∈ addSession uid₀ s₀ ++ [.updateUserStatus uid₀, .welcome s₀]) :
    uid = uid₀ ∧ s = s₀ := by
  simpa [addSession] using h

/-- A session is entered into `sess_` right after it was verified. -/
theorem Exec.emplace_new (h : Exec cfg t σ a σ' new) {uid : Uid} {s : SessId}
    (hb : .emplaceSess uid s ∈ new) : a = .setVerified s uid ∧
      ((σ.sessions s).verified = false →
        (σ'.sessions s).verified = true ∧ (σ'.sessions s).userId = uid) := by
  have hnone : new.any (fun b => b matches .emplaceSess _ _) = false → False := by
    intro hany
    have hb' := List.any_eq_false.mp hany _ hb
    exact hb' rfl
  cases h with
  | setVerified hv =>
    obtain ⟨rfl, rfl⟩ := mem_verified hb
    exact ⟨rfl, fun _ => ⟨by simp, by simp⟩⟩
  | expand he =>
    cases he with
    | setVerifiedAgain hv =>
      -- `SetVerified` has no effect on a verified session, but `AddSession` is called all the same
      obtain ⟨rfl, rfl⟩ := mem_verified hb
      refine ⟨rfl, fun hun => ?_⟩
      rw [hv] at hun
      cases hun
    | dispatch hd => cases hd <;> exact (hnone rfl).elim
    | _ => exact (hnone rfl).elim
  | pushSend hnew => rcases hnew with rfl | rfl <;> exact (hnone rfl).elim
  | _ => exact (hnone rfl).elim

/-! ## Steps -/

/-- Nobody but the worker verifies. -/
theorem WorkerOk.eq_worker (h : WorkerOk σ) (ha : a ∈ σ.code t) (hw : a.workerOnly = true) :
    t = worker := by
  by_contra ht
  have hfits := h.fits t a ha
  rw [if_neg ht] at hfits
  cases a with
  | eraseTemp s byClose => cases byClose <;> simp [Act.workerOnly, Act.Fits] at hw hfits
  | _ => simp [Act.workerOnly, Act.Fits] at hw hfits

/-- An act is done, by the worker or by another thread. -/
theorem WorkerOk.run (h : WorkerOk σ) (hcode : σ.code t = a :: rest)
    (hex : Exec cfg t σ a σ' new) : WorkerOk { σ' with code := advance σ.code t new rest } := by
  have ha : a ∈ σ.code t := head_mem hcode
  refine ⟨?_, ?_, ?_, ?_⟩
  · intro t' b hb
    dsimp only at hb ⊢
    rw [hex.item_eq]
    rcases mem_advance hcode hb with ⟨rfl, hnew⟩ | hold
    · exact hex.fits (h.fits t' a ha) b hnew
    · exact h.fits t' b hold
  · exact countP_advance_le hcode h.once hex.spine_le
  · intro b hb s hs
    -- a session gets verified by `setVerified` only, and no other act that verifies is left then
    by_cases ht : worker = t
    · subst ht
      dsimp only at hb
      rw [advance_self, List.mem_append] at hb
      rcases hb with hnew | hold
      · obtain ⟨hv, hne⟩ := hex.verifies_new (h.unverified a ha) b hnew s hs
        rcases hex.verified s with ⟨hv', -⟩ | ⟨uid, rfl, -⟩
        · exact hv'.trans hv
        · exact absurd rfl (hne uid)
      · rcases hex.verified s with ⟨hv', -⟩ | ⟨uid, rfl, -⟩
        · exact hv'.trans (h.unverified b (mem_of_rest hcode hold) s hs)
        · rw [h.verifies_rest hcode rfl b hold] at hs
          cases hs
    · dsimp only at hb
      rw [advance_of_ne ht] at hb
      rcases hex.verified s with ⟨hv', -⟩ | ⟨uid, rfl, -⟩
      · exact hv'.trans (h.unverified b hb s hs)
      · exact absurd (h.eq_worker ha rfl).symm ht
  · intro uid s hb
    rcases mem_advance hcode hb with ⟨rfl, hnew⟩ | hold
    · obtain ⟨rfl, hverified⟩ := hex.emplace_new hnew
      exact hverified (h.unverified _ ha s rfl)
    · obtain ⟨hv, hu⟩ := h.emplace uid s hold
      obtain ⟨hv', hu'⟩ := hex.verified_mono hv
      exact ⟨hv', hu'.trans hu⟩

/-- Entry points begin with none of the acts of the worker. -/
theorem Entry.acts_workerOnly (e : Entry) : (e.acts σ).any Act.workerOnly = false := by
  cases e with
  | writeDone s ok =>
    simp only [Entry.acts]
    split
    · split <;> rfl
    · rfl
  | _ => rfl

/-- The worker begins something; the other threads do nothing that goes by the event taken. -/
theorem WorkerOk.fits_begin (h : WorkerOk σ) {acts : List Act} (hacts : ∀ b ∈ acts, b.Fits item) :
    ∀ t, ∀ b ∈ Function.update σ.code worker acts t, b.Fits (if t = worker then item else none) := by
  intro t b hb
  by_cases ht : t = worker
  · subst ht
    rw [Function.update_self] at hb
    exact hacts b hb
  · rw [Function.update_of_ne ht] at hb
    have hfits := h.fits t b hb
    rw [if_neg ht] at hfits ⊢
    exact hfits

/-- The step lemma. The worker takes an event only when it has nothing left to do. -/
theorem WorkerOk.step (h : WorkerOk σ) (hs : Stepped cfg σ l σ') : WorkerOk σ' := by
  cases hs with
  | run hcode hex => exact h.run hcode hex
  | wait =>
    exact ⟨h.fits_begin (fits_of_any rfl), by simp [Act.spine], by simp [Act.verifies], by simp⟩
  | take =>
    refine ⟨h.fits_begin fun b hb => ?_, by simp [Act.spine], by simp [Act.verifies], by simp⟩
    cases List.mem_singleton.mp hb
    rfl
  | leave _ hcode =>
    -- the event is forgotten, and nothing is pending that goes by it
    have hnil : Function.update σ.code worker [] = σ.code := by
      rw [← hcode, Function.update_eq_self]
    exact ⟨hnil ▸ h.fits_begin (fits_of_any rfl), h.once, h.unverified, h.emplace⟩
  | @call t e ht hcode _ =>
    have hworker : Function.update σ.code t (e.acts σ) worker = σ.code worker :=
      Function.update_of_ne (Ne.symm ht) ..
    refine ⟨fun t' b hb => ?_, by simpa [hworker] using h.once, fun b hb s hs => ?_,
      fun uid s hb => ?_⟩
    · rcases mem_update hb with ⟨rfl, hnew⟩ | hold
      · exact fits_of_any e.acts_workerOnly b hnew
      · have hitem : (e.begin σ).item = σ.item := by cases e <;> rfl
        dsimp only
        rw [hitem]
        exact h.fits t' b hold
    · dsimp only at hb
      rw [hworker] at hb
      obtain ⟨c, w, hx, -⟩ := e.begin_sessions (σ := σ) s
      simpa [hx] using h.unverified b hb s hs
    · dsimp only at hb
      rw [hworker] at hb
      obtain ⟨c, w, hx, -⟩ := e.begin_sessions (σ := σ) s
      simpa [hx] using h.emplace uid s hb
  | redis => exact ⟨h.fits, h.once, h.unverified, h.emplace⟩

/-- At the start the worker is about to take the mutex of its queue. -/
theorem workerOk_init : WorkerOk init := by
  refine ⟨fun t a ha => ?_, Nat.zero_le _, by simp [init, Act.verifies], by simp [init]⟩
  rw [eq_lock_of_mem_init ha]
  trivial

end Chatroom.Backend
