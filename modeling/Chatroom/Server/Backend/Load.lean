import Mathlib.Data.Set.Card
import Chatroom.Server.Backend.Tables

/-!
# The load a backend reports

`StatusReporter::ReportImpl` adds two counts that it takes one after the other, each under the lock of
its table: the sessions in `sess_`, then those in `temp_sess_`. Between the two, sessions come, go, and
move from `temp_sess_` to `sess_`.

A session never goes the other way, and `sess_` is counted first. So no session is counted twice. One
that was in `temp_sess_` before is missed only if it is verified or closed in the meantime.
-/

namespace Chatroom.Backend

open Trace Threads

variable {cfg : Config} {σ σ' σ₁ σ₂ : State} {t : Tid} {a : Act} {new rest : List Act} {l : Label}
  {s : SessId} {uid : Uid}

/-! ## The counts

`size()` of the two maps. There are as many users as there may be, so the counts are cardinalities of
sets of keys, and the sum is one of `uint32_t`. -/

noncomputable def getSessionCount (σ : State) : UInt32 :=
  .ofNat { uid | σ.sess uid ≠ none }.ncard

noncomputable def getTempSessionCount (σ : State) : UInt32 :=
  .ofNat { k | σ.tempSess k ≠ none }.ncard

/-- What `ReportImpl` reports, if it counts `sess_` in one state and `temp_sess_` in another. -/
noncomputable def reportedLoad (σ₁ σ₂ : State) : UInt32 :=
  getSessionCount σ₁ + getTempSessionCount σ₂

/-- The sessions that are counted. -/
def counted (σ₁ σ₂ : State) : Set SessId :=
  { s | ∃ uid, σ₁.sess uid = some s } ∪ { s | σ₂.tempSess s ≠ none }

/-- The sessions that were ever accepted. -/
def accepted (σ : State) : Set SessId := { s | (σ.sessions s).created = true }

/-! ## What the worker does last

With `AddSession` and with a failed `VERIFY` the worker has done with a frame. So it takes a session out
of `temp_sess_` after it has verified or closed it, and stores it in `sess_` after that. -/

/-- `temp_sess_.erase` outside of `Close`. -/
def Act.tidies : Act → Bool
  | .eraseTemp _ false => true
  | _ => false

def Act.isClose : Act → Bool
  | .close _ => true
  | _ => false

/-- `b` may come after `a` in what the worker has to do. -/
def Act.before (a b : Act) : Bool :=
  !(a.spine && b.tidies) && !((a.spine || a.tidies) && b.isClose)

/-- A failed `VERIFY` closes the session first and takes it out of the table last. -/
theorem before_verifyFailed : (verifyFailed s).Pairwise (Act.before · ·) := by
  simp [verifyFailed, removeTempSession, Act.before, Act.spine, Act.tidies, Act.isClose]

/-- A `VERIFY` that succeeds takes the session out of `temp_sess_` and then stores it in `sess_`. -/
theorem before_verified :
    (addSession uid s ++ [Act.updateUserStatus uid, Act.welcome s]).Pairwise (Act.before · ·) := by
  simp [addSession, Act.before, Act.spine, Act.tidies, Act.isClose]

theorem eq_of_mem_verifyFailed {s₀ : SessId} (h : .eraseTemp s false ∈ verifyFailed s₀) : s = s₀ := by
  simpa [verifyFailed, removeTempSession] using h

theorem eq_of_mem_verified {s₀ : SessId}
    (h : .eraseTemp s false ∈ addSession uid s₀ ++ [.updateUserStatus uid, .welcome s₀]) : s = s₀ := by
  simpa [addSession] using h

/-- What an act brings is in this order, and only the spine brings anything that it is about. -/
theorem Exec.before (h : Exec cfg t σ a σ' new) : new.Pairwise (Act.before · ·) ∧
    (a.spine = false → ∀ b ∈ new, (b.spine || b.tidies) = false) := by
  have hplain : new.any (fun b => b.spine || b.tidies) = false → new.Pairwise (Act.before · ·) ∧
      (a.spine = false → ∀ b ∈ new, (b.spine || b.tidies) = false) := by
    intro hany
    have hnone : ∀ b ∈ new, b.spine = false ∧ b.tidies = false := fun b hb => by
      simpa using List.any_eq_false.mp hany b hb
    refine ⟨List.pairwise_of_forall_mem_list fun b hb c _ => ?_, fun _ b hb => ?_⟩
    · simp [Act.before, hnone b hb]
    · simp [hnone b hb]
  cases h with
  | expand he =>
    cases he with
    | dispatch hd =>
      cases hd with
      | nothing | chat => exact hplain rfl
      | refused => exact ⟨before_verifyFailed, fun hspine => by cases hspine⟩
      | verify => exact ⟨by simp, fun hspine => by cases hspine⟩
    | processorFrame =>
      exact ⟨by simp [Act.before, Act.spine, Act.tidies, Act.isClose], fun hspine => by cases hspine⟩
    | setVerifiedAgain => exact ⟨before_verified, fun hspine => by cases hspine⟩
    | _ => exact hplain rfl
  | verifyFailed => exact ⟨before_verifyFailed, fun hspine => by cases hspine⟩
  | verifyOk => exact ⟨by simp, fun hspine => by cases hspine⟩
  | setVerified => exact ⟨before_verified, fun hspine => by cases hspine⟩
  | pushSend hnew => rcases hnew with rfl | rfl <;> exact hplain rfl
  | _ => exact hplain rfl

/-- Where the worker takes a session out of `temp_sess_`, it has verified it, or closes it before. -/
theorem Exec.tidies_new (h : Exec cfg t σ a σ' new) (hmem : .eraseTemp s false ∈ new) :
    (σ'.sessions s).verified = true ∨ .close s ∈ new := by
  have hnone : new.any Act.tidies = false → False := fun hany =>
    absurd rfl (List.any_eq_false.mp hany _ hmem)
  cases h with
  | expand he =>
    cases he with
    | dispatch hd =>
      cases hd with
      | refused => exact .inr (eq_of_mem_verifyFailed hmem ▸ List.mem_cons_self)
      | _ => exact (hnone rfl).elim
    | setVerifiedAgain hv => exact .inl (eq_of_mem_verified hmem ▸ hv)
    | _ => exact (hnone rfl).elim
  | verifyFailed => exact .inr (eq_of_mem_verifyFailed hmem ▸ List.mem_cons_self)
  | setVerified =>
    cases eq_of_mem_verified hmem
    exact .inl (by simp)
  | pushSend hnew => rcases hnew with rfl | rfl <;> exact (hnone rfl).elim
  | _ => exact (hnone rfl).elim

/-- A session that is down stays down. -/
theorem Exec.down_mono (h : Exec cfg t σ a σ' new) (hd : (σ.sessions s).down = true) :
    (σ'.sessions s).down = true := by
  cases h.closeChange s with
  | same _ _ hdown => exact hdown.trans hd
  | begin _ _ hup => exact absurd (hup.symm.trans hd) (by decide)
  | next _ _ hdown => exact hdown.trans hd

/-- After the exchange of `down_`, the session is down. -/
theorem Exec.down_of_close (h : Exec cfg t σ (.close s) σ' new) : (σ'.sessions s).down = true := by
  cases h with
  | close => simp
  | expand he =>
    cases he with
    | closeDown hd => exact hd
  | crash hc => cases hc

/-! The invariant of the worker: what it has to do is in order, and a session that it is about to take
out
of `temp_sess_` is verified, is down, or is closed before. -/

structure TidyOk (σ : State) : Prop where
  order : (σ.code worker).Pairwise (Act.before · ·)
  tidies : ∀ s, .eraseTemp s false ∈ σ.code worker →
    (σ.sessions s).verified = true ∨ (σ.sessions s).down = true ∨ .close s ∈ σ.code worker

/-- The acts that an act brings come before the rest of the frame, and fit in front of it. -/
theorem TidyOk.order_run (h : TidyOk σ) (hcode : σ.code t = a :: rest) (hex : Exec cfg t σ a σ' new) :
    (advance σ.code t new rest worker).Pairwise (Act.before · ·) := by
  by_cases ht : worker = t
  · subst ht
    have horder := h.order
    rw [hcode, List.pairwise_cons] at horder
    rw [advance_self, List.pairwise_append]
    refine ⟨hex.before.1, horder.2, fun b hb c hc => ?_⟩
    cases hspine : a.spine with
    | false =>
      have hb := hex.before.2 hspine b hb
      simp only [Bool.or_eq_false_iff] at hb
      simp [Act.before, hb]
    | true =>
      -- nothing that the order is about comes after an act of the spine
      have hc := horder.1 c hc
      simp only [Act.before, hspine, Bool.true_and, Bool.true_or, Bool.and_eq_true,
        Bool.not_eq_true'] at hc
      simp [Act.before, hc]
  · rw [advance_of_ne ht]
    exact h.order

theorem TidyOk.run (h : TidyOk σ) (hcode : σ.code t = a :: rest) (hex : Exec cfg t σ a σ' new) :
    TidyOk { σ' with code := advance σ.code t new rest } := by
  refine ⟨h.order_run hcode hex, fun s hs => ?_⟩
  rcases mem_advance hcode hs with ⟨rfl, hnew⟩ | hold
  · rcases hex.tidies_new hnew with hv | hclose
    · exact .inl hv
    · refine .inr (.inr ?_)
      show _ ∈ advance σ.code worker new rest worker
      exact mem_advance_new hclose
  · rcases h.tidies s hold with hv | hd | hclose
    · exact .inl (hex.verified_mono hv).1
    · exact .inr (.inl (hex.down_mono hd))
    · by_cases ha : .close s = a
      · subst ha
        exact .inr (.inl hex.down_of_close)
      · exact .inr (.inr (mem_advance_of_mem hcode hclose ha))

/-- Other steps give the worker a new item or do not touch its acts. -/
theorem TidyOk.step (h : TidyOk σ) (hs : Stepped cfg σ l σ') : TidyOk σ' := by
  cases hs with
  | run hcode hex => exact h.run hcode hex
  | wait | take => exact ⟨by simp, by simp⟩
  | leave | redis => exact ⟨h.order, h.tidies⟩
  | @call t e ht hcode _ =>
    have hworker : Function.update σ.code t (e.acts σ) worker = σ.code worker :=
      Function.update_of_ne (Ne.symm ht) ..
    refine ⟨?_, fun s hs => ?_⟩
    · dsimp only
      rw [hworker]
      exact h.order
    · dsimp only at hs ⊢
      rw [hworker] at hs ⊢
      obtain ⟨c, w, hx, -⟩ := e.begin_sessions (σ := σ) s
      simpa [hx] using h.tidies s hs

/-- And the run lemma. -/
theorem tidyOk_of_reach {ok : State → Label → Prop} (h : Reach (step cfg) ok init σ) : TidyOk σ := by
  refine h.invariant ?_ fun _ _ _ hinv _ hs => hinv.step (step_cases hs)
  refine ⟨by simp [init], fun s hs => ?_⟩
  cases eq_lock_of_mem_init hs

/-! ## The tables

Here the direction is settled: a session is taken out of `temp_sess_` before it is stored in `sess_`,
and
nothing puts it back. -/

/-- What is in `sess_` is no longer in `temp_sess_`. -/
def Moved (σ : State) : Prop := ∀ uid s, σ.sess uid = some s → σ.tempSess s = none

/-- Only an accepted session is put into `temp_sess_`, once, at its start. -/
theorem Exec.tempSess_none (h : Exec cfg t σ a σ' new) (hstarted : StartedOk σ) (ha : a ∈ σ.code t)
    (hs : (σ.sessions s).started = true) (hnone : σ.tempSess s = none) : σ'.tempSess s = none := by
  by_contra htemp
  exact (h.tempSess_ne_none hstarted ha hs htemp).1 hnone

/-- An act that stores a session in `sess_` is run by the worker, behind the act that has taken the
session out of `temp_sess_`. -/
theorem Moved.run (h : Moved σ) (hsound : Sound σ) (htemp : TempOk σ) (htidy : TidyOk σ)
    (hcode : σ.code t = a :: rest) (hex : Exec cfg t σ a σ' new) :
    Moved { σ' with code := advance σ.code t new rest } := by
  have ha : a ∈ σ.code t := head_mem hcode
  intro uid s hs
  rcases hex.sess_some hs with hold | ⟨rfl, -⟩
  · exact hex.tempSess_none hsound.started ha (hsound.started.known s (.inl ⟨uid, hold⟩)) (h uid s hold)
  · -- `AddSession` has taken the session out of `temp_sess_` before
    obtain rfl := hsound.worker.eq_worker ha rfl
    have hv := (hsound.worker.emplace uid s ha).1
    have hnone : σ.tempSess s = none := by
      by_contra hsome
      have horder := htidy.order
      rw [hcode, List.pairwise_cons] at horder
      rcases List.mem_cons.mp (hcode ▸ htemp.verified s hv hsome) with heq | hrest
      · cases heq
      · cases horder.1 _ hrest
    exact hex.tempSess_none hsound.started ha
      (hsound.started.known s (.inr (.inr (.inr (.inl hv))))) hnone

/-- In every run the two tables are disjoint. -/
theorem moved_of_reach {ok : State → Label → Prop} (h : Reach (step cfg) ok init σ) : Moved σ := by
  have hknown : ∀ {σ}, Reach (step cfg) ok init σ → (Sound σ ∧ TempOk σ) ∧ TidyOk σ := fun hr =>
    ⟨⟨sound_of_reach hr, tempOk_of_reach hr⟩, tidyOk_of_reach hr⟩
  refine Quiet.invariant hknown (fun _ _ hs => by cases hs)
    (fun hinv hk _ hcode hex => hinv.run hk.1.1 hk.1.2 hk.2 hcode hex) (fun hinv hq uid s hs => ?_) h
  rw [hq.tempSess]
  exact hinv uid s (hq.sess ▸ hs)

/-! ## Sessions accepted

The sum is one of natural numbers only if the sets are finite; they are, since every session in a
table
was accepted at some step of the run. -/

theorem Entry.created_begin {e : Entry} (h : ((e.begin σ).sessions s).created = true) :
    (σ.sessions s).created = true ∨ e = .accept s := by
  cases e with
  | accept s₀ =>
    rcases eq_or_ne s s₀ with rfl | hne
    · exact .inr rfl
    · exact .inl (by simpa [Entry.begin, State.modify_of_ne hne] using h)
  | writeDone s₀ ok =>
    have hsame : ((Entry.begin σ (.writeDone s₀ ok)).sessions s).created = (σ.sessions s).created :=
      keep_of_update (g := SessionState.created) rfl (by rfl) s
    exact .inl (hsame ▸ h)
  | _ => exact .inl h

/-- There are finitely many sessions, and only those that were accepted are in `temp_sess_`. -/
structure AcceptedOk (σ : State) : Prop where
  finite : (accepted σ).Finite
  temp : ∀ s, σ.tempSess s ≠ none → (σ.sessions s).created = true

theorem AcceptedOk.run (h : AcceptedOk σ) (hstarted : StartedOk σ) (hcode : σ.code t = a :: rest)
    (hex : Exec cfg t σ a σ' new) : AcceptedOk { σ' with code := advance σ.code t new rest } := by
  refine ⟨h.finite.subset fun s hs => (hex.started s).1.symm.trans hs, fun s hs => ?_⟩
  show (σ'.sessions s).created = true
  rw [(hex.started s).1]
  rcases hex.tempSess with ⟨heq, -⟩ | ⟨s₀, byClose, rfl, heq⟩ | ⟨s₀, rfl, heq⟩
  · exact h.temp s (heq ▸ hs)
  · dsimp only at hs
    rcases eq_or_ne s s₀ with rfl | hne
    · simp [heq] at hs
    · rw [heq, Function.update_of_ne hne] at hs
      exact h.temp s hs
  · dsimp only at hs
    rcases eq_or_ne s s₀ with rfl | hne
    · exact (hstarted.not_started (head_mem hcode) (.inl rfl)).2.1
    · rw [heq, Function.update_of_ne hne] at hs
      exact h.temp s hs

/-- Each step accepts one session at most. -/
theorem AcceptedOk.step (h : AcceptedOk σ) (hstarted : StartedOk σ) (hs : Stepped cfg σ l σ') :
    AcceptedOk σ' := by
  cases hs with
  | run hcode hex => exact h.run hstarted hcode hex
  | wait | take | leave | redis => exact ⟨h.finite, h.temp⟩
  | @call t e =>
    have htemp : (e.begin σ).tempSess = σ.tempSess := by cases e <;> rfl
    refine ⟨?_, fun s hs => ?_⟩
    · -- an accept adds one session
      have hone : { s | e = .accept s }.Finite := by
        refine Set.Subsingleton.finite fun s hs s' hs' => ?_
        cases hs.symm.trans hs'
        rfl
      exact (h.finite.union hone).subset fun s hs => Entry.created_begin hs
    · obtain ⟨c, w, hx, -, hc⟩ := e.begin_sessions (σ := σ) s
      simpa [hx] using hc (h.temp s (htemp ▸ hs))

theorem acceptedOk_of_reach {ok : State → Label → Prop} (h : Reach (step cfg) ok init σ) :
    AcceptedOk σ := by
  refine h.invariant_of (fun hr => (sound_of_reach hr).started) ?_ fun _ _ _ hk hinv _ hs =>
    hinv.step hk (step_cases hs)
  refine ⟨?_, fun s hs => absurd rfl hs⟩
  have hempty : accepted init = ∅ := by
    ext s
    simp [accepted, init]
  rw [hempty]
  exact Set.finite_empty

/-! ## Between the two counts

`Since` compares a later state with the one of the first count. A session that had left `temp_sess_`
by
then does not come back, so that it cannot be counted again; one that was still there is there now, or
it
is verified or down. -/

/-- What stays true of the sessions from `σ₁` on. -/
structure Since (σ₁ σ : State) : Prop where
  started : ∀ s, (σ₁.sessions s).started = true → (σ.sessions s).started = true
  gone : ∀ s, (σ₁.sessions s).started = true → σ₁.tempSess s = none → σ.tempSess s = none
  kept : ∀ s, σ₁.tempSess s ≠ none →
    σ.tempSess s ≠ none ∨ (σ.sessions s).verified = true ∨ (σ.sessions s).down = true

/-- Who is taken out of `temp_sess_` is verified or down. -/
theorem verified_or_down_of_eraseTemp {byClose : Bool} (hsound : Sound σ) (htidy : TidyOk σ)
    (hcode : σ.code t = .eraseTemp s byClose :: rest) :
    (σ.sessions s).verified = true ∨ (σ.sessions s).down = true := by
  have ha := head_mem hcode
  cases byClose with
  | true =>
    right
    have hstage : (σ.sessions s).stage = .toTemp := by
      simpa using hsound.close.stage_of_closes (s := s) ha (by simp [Act.closes])
    by_contra hup
    rw [hsound.close.up s (by simpa using hup)] at hstage
    cases hstage
  | false =>
    obtain rfl := hsound.worker.eq_worker ha rfl
    rcases htidy.tidies s ha with hv | hd | hclose
    · exact .inl hv
    · exact .inr hd
    · -- the worker has nothing to close after this
      have horder := htidy.order
      rw [hcode, List.pairwise_cons] at horder
      rcases List.mem_cons.mp (hcode ▸ hclose) with heq | hrest
      · cases heq
      · cases horder.1 _ hrest

/-- The acts that touch `temp_sess_` are the one that puts a new session there and the two that take
one out. -/
theorem Since.run (h : Since σ₁ σ) (hsound : Sound σ) (htidy : TidyOk σ)
    (hcode : σ.code t = a :: rest) (hex : Exec cfg t σ a σ' new) :
    Since σ₁ { σ' with code := advance σ.code t new rest } := by
  have ha := head_mem hcode
  refine ⟨fun s hs => hex.started_mono (h.started s hs), fun s hs hnone => ?_, fun s hs => ?_⟩
  · exact hex.tempSess_none hsound.started ha (h.started s hs) (h.gone s hs hnone)
  · have hmono : (σ.sessions s).verified = true ∨ (σ.sessions s).down = true →
        (σ'.sessions s).verified = true ∨ (σ'.sessions s).down = true :=
      Or.imp (fun hv => (hex.verified_mono hv).1) hex.down_mono
    rcases h.kept s hs with htemp | hgone
    · rcases hex.tempSess with ⟨heq, -⟩ | ⟨s₀, byClose, rfl, heq⟩ | ⟨s₀, rfl, heq⟩
      · exact .inl (heq ▸ htemp)
      · rcases eq_or_ne s s₀ with rfl | hne
        · exact .inr (hmono (verified_or_down_of_eraseTemp hsound htidy hcode))
        · refine .inl ?_
          show σ'.tempSess s ≠ none
          rwa [heq, Function.update_of_ne hne]
      · refine .inl ?_
        show σ'.tempSess s ≠ none
        rw [heq]
        rcases eq_or_ne s s₀ with rfl | hne
        · simp
        · rwa [Function.update_of_ne hne]
    · exact .inr (hmono hgone)

theorem Since.step (h : Since σ₁ σ) (hsound : Sound σ) (htidy : TidyOk σ) (hs : Stepped cfg σ l σ') :
    Since σ₁ σ' := by
  cases hs with
  | run hcode hex => exact h.run hsound htidy hcode hex
  | wait | take | leave | redis => exact ⟨h.started, h.gone, h.kept⟩
  | @call t e =>
    have htemp : (e.begin σ).tempSess = σ.tempSess := by cases e <;> rfl
    refine ⟨fun s hs => ?_, fun s hs hnone => ?_, fun s hs => ?_⟩
    · obtain ⟨c, w, hx, -⟩ := e.begin_sessions (σ := σ) s
      simpa [hx] using h.started s hs
    · exact htemp ▸ h.gone s hs hnone
    · obtain ⟨c, w, hx, -⟩ := e.begin_sessions (σ := σ) s
      simpa [hx, htemp] using h.kept s hs

/-- By induction over the run between the two counts. -/
theorem since_of_reach (h₁ : Reach (step cfg) anyStep init σ₁) (h : Reach (step cfg) anyStep σ₁ σ₂) :
    Since σ₁ σ₂ := by
  have hknown : ∀ {σ}, Reach (step cfg) anyStep σ₁ σ → Sound σ ∧ TidyOk σ := fun hr =>
    ⟨sound_of_reach (h₁.trans hr), tidyOk_of_reach (h₁.trans hr)⟩
  refine h.invariant_of hknown ⟨fun _ hs => hs, fun _ _ hnone => hnone, fun _ hs => .inl hs⟩ ?_
  intro σ l σ' hk hinv _ hs
  exact hinv.step hk.1 hk.2 (step_cases hs)

/-! ## The sum -/

/-- The entries of `sess_` are as many as the sessions in it. -/
theorem ncard_sess (h : SessUid σ) :
    { uid | σ.sess uid ≠ none }.ncard = { s | ∃ uid, σ.sess uid = some s }.ncard := by
  refine (Set.ncard_congr (fun s _ => (σ.sessions s).userId) ?_ ?_ ?_).symm
  · rintro s ⟨uid, hs⟩
    show σ.sess (σ.sessions s).userId ≠ none
    rw [(h uid s hs).2, hs]
    exact Option.some_ne_none s
  · rintro s s' ⟨uid, hs⟩ ⟨uid', hs'⟩ heq
    rw [(h uid s hs).2, (h uid' s' hs').2] at heq
    subst heq
    exact Option.some.inj (hs.symm.trans hs')
  · intro uid huid
    obtain ⟨s, hs⟩ := Option.ne_none_iff_exists'.mp huid
    exact ⟨s, ⟨uid, hs⟩, (h uid s hs).2⟩

/-- Only sessions that were accepted are counted. -/
theorem counted_subset (h₂ : Reach (step cfg) anyStep init σ₂) (hsince : Since σ₁ σ₂)
    (hstarted : StartedOk σ₁) : counted σ₁ σ₂ ⊆ accepted σ₂ := by
  rintro s (⟨uid, hs⟩ | hs)
  · exact (sound_of_reach h₂).started.created s
      (hsince.started s (hstarted.known s (.inl ⟨uid, hs⟩)))
  · exact (acceptedOk_of_reach h₂).temp s hs

/-- **The load counts every session once.** Whatever happens between the two counts, the sum is the
number of sessions that are in `sess_` at the first or in `temp_sess_` at the second. A session that was
in `temp_sess_` at the first is among them, unless it is verified or closed by the second. -/
theorem reportedLoad_counts_once (cfg : Config) (σ₁ σ₂ : State)
    (h₁ : Reach (Backend.step cfg) anyStep init σ₁) (h₂ : Reach (Backend.step cfg) anyStep σ₁ σ₂) :
    reportedLoad σ₁ σ₂ = .ofNat (counted σ₁ σ₂).ncard ∧
      (counted σ₁ σ₂ ⊆ accepted σ₂ ∧ (accepted σ₂).Finite) ∧
      ∀ s, σ₁.tempSess s ≠ none → s ∈ counted σ₁ σ₂ ∨ (σ₂.sessions s).verified = true ∨
        (σ₂.sessions s).down = true := by
  have hsince := since_of_reach h₁ h₂
  have hsound := sound_of_reach h₁
  have hsub := counted_subset (h₁.trans h₂) hsince hsound.started
  have hfinite := (acceptedOk_of_reach (h₁.trans h₂)).finite
  have hdisjoint : Disjoint { s | ∃ uid, σ₁.sess uid = some s } { s | σ₂.tempSess s ≠ none } := by
    rw [Set.disjoint_left]
    rintro s ⟨uid, hs⟩ htemp
    exact htemp (hsince.gone s (hsound.started.known s (.inl ⟨uid, hs⟩)) (moved_of_reach h₁ uid s hs))
  refine ⟨?_, ⟨hsub, hfinite⟩, fun s hs => ?_⟩
  · rw [reportedLoad, getSessionCount, getTempSessionCount, ← UInt32.ofNat_add,
      ncard_sess (sessUid_of_reach h₁), counted, Set.ncard_union_eq hdisjoint
        (hfinite.subset (Set.subset_union_left.trans hsub))
        (hfinite.subset (Set.subset_union_right.trans hsub))]
  · exact (hsince.kept s hs).imp_left .inr

/-- A session is in `temp_sess_` at the first count, and verified by the second. -/
theorem reportedLoad_counts_once_verify :
    ∃ σ₁ σ₂, (Reach (Backend.step exampleConfig) anyStep init σ₁ ∧
      Reach (Backend.step exampleConfig) anyStep σ₁ σ₂ ∧ σ₁.tempSess 0 ≠ none ∧
      (σ₂.sessions 0).verified = true) ∧
      reportedLoad σ₁ σ₂ = .ofNat (counted σ₁ σ₂).ncard ∧
      (counted σ₁ σ₂ ⊆ accepted σ₂ ∧ (accepted σ₂).Finite) ∧
      ∀ s, σ₁.tempSess s ≠ none → s ∈ counted σ₁ σ₂ ∨ (σ₂.sessions s).verified = true ∨
        (σ₂.sessions s).down = true := by
  have hrun : ((Trace.run (Backend.step exampleConfig) anyStep init (starting ++ accepting 0)).any
      fun σ₁ => (Trace.run (Backend.step exampleConfig) anyStep σ₁
        (receiving 2 0 verifyFrame ++ waking 22)).any
          fun σ₂ => decide (σ₁.tempSess 0 ≠ none ∧ (σ₂.sessions 0).verified = true)) = true := by
    decide +kernel
  obtain ⟨σ₁, h₁, hrun⟩ := exists_reach_of_run hrun
  obtain ⟨σ₂, h₂, htest⟩ := exists_reach_of_run hrun
  exact ⟨σ₁, σ₂, ⟨h₁, h₂, of_decide_eq_true htest⟩, reportedLoad_counts_once exampleConfig σ₁ σ₂ h₁ h₂⟩

end Chatroom.Backend
