import Chatroom.Server.Backend.Worker

/-!
# The start of a session

The acceptor enters a session into `temp_sess_` and then starts it. Whatever else refers to a
session, a table, the queue or an act, comes after its start. `StartedOk` holds in every run.
-/

namespace Chatroom.Backend

open Trace Threads

variable {cfg : Config} {σ σ' : State} {t : Tid} {a : Act} {new rest : List Act} {l : Label}

/-- The sessions an act is about, the two acts of the acceptor apart. -/
def Act.about : Act → List SessId
  | .enqueue s _ | .close s | .closeTable s | .closeReturn s | .eraseSess s _ | .eraseTemp s _
  | .processor s _ | .dispatch s _ | .verifyUser s _ _ _ | .setVerified s _ | .emplaceSess _ s
  | .welcome s | .chatFind s _ _ | .getUserLocation s _ _ | .sendToMsgQueue _ s _ _
  | .pushSend s _ | .popSend s | .asyncWrite s | .frameRead s _ => [s]
  | .deliver s _ targetSess => [s, targetSess]
  | _ => []

/-- The acts of the acceptor. -/
def Act.accepts : Act → Bool
  | .addTemp _ | .start _ => true
  | _ => false

/-- Something has happened to the session. -/
def Known (σ : State) (s : SessId) : Prop :=
  (∃ uid, σ.sess uid = some s) ∨ (∃ msg, (s, msg) ∈ σ.queue) ∨ 0 < (σ.sessions s).writes ∨
    (σ.sessions s).verified = true ∨ (σ.sessions s).stage ≠ .notClosed

/-- The acceptor is somewhere in `AcceptorFn`, for a session it has not started yet. -/
def Accepting (code : List Act) (sessions : SessId → SessionState) : Prop :=
  ∃ s, code <:+ acceptorFn s ∧
    (code ≠ [] → (sessions s).created = true ∧ (sessions s).started = false)

structure StartedOk (σ : State) : Prop where
  known : ∀ s, Known σ s → (σ.sessions s).started = true
  about : ∀ t, ∀ a ∈ σ.code t, ∀ s ∈ a.about, (σ.sessions s).started = true
  created : ∀ s, (σ.sessions s).started = true → (σ.sessions s).created = true
  accepting : Accepting (σ.code acceptor) σ.sessions
  others : ∀ t, t ≠ acceptor → ∀ a ∈ σ.code t, a.accepts = false

/-! ## What an act does

Acts are about sessions that are started because they come from acts about these, or because a table
led to
the session. The start of a session itself is the last act of the acceptor for it. -/

/-- Nothing but `start` starts a session. -/
theorem Exec.started (h : Exec cfg t σ a σ' new) (s : SessId) :
    (σ'.sessions s).created = (σ.sessions s).created ∧
      ((σ'.sessions s).started = (σ.sessions s).started ∨
        a = .start s ∧ (σ'.sessions s).started = true) := by
  cases h with
  | @start s₀ =>
    refine ⟨keep_of_update (g := SessionState.created) rfl (by rfl) s, ?_⟩
    rcases eq_or_ne s s₀ with rfl | hne
    · exact .inr ⟨rfl, by simp⟩
    · rw [State.modify_of_ne hne]
      exact .inl rfl
  | close | closeToSess | closeToTemp | closeReturn | eraseSess | eraseTempClose | pushSend | popSend
  | asyncWrite | setVerified =>
    exact ⟨keep_of_update (g := SessionState.created) rfl (by rfl) s,
      .inl (keep_of_update (g := SessionState.started) rfl (by rfl) s)⟩
  | _ => exact ⟨rfl, .inl rfl⟩

/-- A started session stays so. -/
theorem Exec.started_mono (h : Exec cfg t σ a σ' new) {s : SessId}
    (hs : (σ.sessions s).started = true) : (σ'.sessions s).started = true := by
  rcases (h.started s).2 with heq | ⟨-, heq⟩
  · exact heq.trans hs
  · exact heq

/-- How an act changes `sess_`. -/
theorem Exec.sess (h : Exec cfg t σ a σ' new) :
    (σ'.sess = σ.sess ∧ ∀ s uid, a ≠ .eraseSess s uid) ∨
      (∃ s uid, a = .eraseSess s uid ∧ σ'.sess = Function.update σ.sess uid none) ∨
      ∃ uid s, a = .emplaceSess uid s ∧ σ.sess uid = none ∧
        σ'.sess = Function.update σ.sess uid (some s) := by
  cases h with
  | eraseSess => exact .inr (.inl ⟨_, _, rfl, rfl⟩)
  | emplace hnone => exact .inr (.inr ⟨_, _, rfl, hnone, rfl⟩)
  | expand he => cases he <;> exact .inl ⟨rfl, nofun⟩
  | crash hc => cases hc <;> exact .inl ⟨rfl, nofun⟩
  | _ => exact .inl ⟨rfl, nofun⟩

/-- What stands in `sess_` stood there before, or is entered just now. -/
theorem Exec.sess_some (h : Exec cfg t σ a σ' new) {uid : Uid} {s : SessId}
    (hs : σ'.sess uid = some s) :
    σ.sess uid = some s ∨ a = .emplaceSess uid s ∧ σ.sess uid = none := by
  rcases h.sess with ⟨heq, -⟩ | ⟨s₀, uid₀, rfl, heq⟩ | ⟨uid₀, s₀, rfl, hnone, heq⟩
  · exact .inl (heq ▸ hs)
  · rw [heq] at hs
    rcases eq_or_ne uid uid₀ with rfl | hne
    · simp at hs
    · rw [Function.update_of_ne hne] at hs
      exact .inl hs
  · rw [heq] at hs
    rcases eq_or_ne uid uid₀ with rfl | hne
    · rw [Function.update_self] at hs
      cases hs
      exact .inr ⟨rfl, hnone⟩
    · rw [Function.update_of_ne hne] at hs
      exact .inl hs

/-- Writes begin in `AsyncWrite` only. -/
theorem Exec.writes (h : Exec cfg t σ a σ' new) (s : SessId) :
    (σ'.sessions s).writes = (σ.sessions s).writes ∨ a = .asyncWrite s := by
  cases h with
  | @asyncWrite s₀ =>
    rcases eq_or_ne s s₀ with rfl | hne
    · exact .inr rfl
    · rw [State.modify_of_ne hne]
      exact .inl rfl
  | close | closeToSess | closeToTemp | closeReturn | eraseSess | eraseTempClose | pushSend | popSend
  | start | setVerified => exact .inl (keep_of_update (g := SessionState.writes) rfl (by rfl) s)
  | _ => exact .inl rfl

theorem Act.about_of_closes {s : SessId} (h : a.closes s = true) : s ∈ a.about := by
  cases a <;> simp_all [Act.closes, Act.about]

/-- What becomes known of a session was so before, or the act is about it. -/
theorem Exec.known (h : Exec cfg t σ a σ' new) {s : SessId} (hs : Known σ' s) :
    Known σ s ∨ s ∈ a.about := by
  rcases hs with ⟨uid, hsess⟩ | ⟨msg, hq⟩ | hw | hv | hstage
  · rcases h.sess_some hsess with hold | ⟨rfl, -⟩
    · exact .inl (.inl ⟨uid, hold⟩)
    · exact .inr (by simp [Act.about])
  · rcases h.queue with heq | ⟨s₀, msg₀, rfl, heq⟩
    · exact .inl (.inr (.inl ⟨msg, heq ▸ hq⟩))
    · rw [heq, List.mem_append, List.mem_singleton] at hq
      rcases hq with hold | hnew
      · exact .inl (.inr (.inl ⟨msg, hold⟩))
      · cases hnew
        exact .inr (by simp [Act.about])
  · rcases h.writes s with heq | rfl
    · exact .inl (.inr (.inr (.inl (heq ▸ hw))))
    · exact .inr (by simp [Act.about])
  · rcases h.verified s with ⟨heq, -⟩ | ⟨uid, rfl, -⟩
    · exact .inl (.inr (.inr (.inr (.inl (heq ▸ hv)))))
    · exact .inr (by simp [Act.about])
  · cases h.closeChange s with
    | same _ _ _ _ heq _ => exact .inl (.inr (.inr (.inr (.inr (heq ▸ hstage)))))
    | begin ha => exact .inr (by simp [ha, Act.about])
    | next ha => exact .inr (Act.about_of_closes ha)

/-- The new acts are about the sessions of the act done, or about one found in `sess_`. -/
theorem Exec.about_new (h : Exec cfg t σ a σ' new) : ∀ b ∈ new, ∀ s ∈ b.about,
    s ∈ a.about ∨ ∃ uid, σ.sess uid = some s := by
  have hsub : (∀ s ∈ new.flatMap Act.about, s ∈ a.about ∨ ∃ uid, σ.sess uid = some s) →
      ∀ b ∈ new, ∀ s ∈ b.about, s ∈ a.about ∨ ∃ uid, σ.sess uid = some s :=
    fun h b hb s hs => h s (List.mem_flatMap.mpr ⟨b, hb, hs⟩)
  apply hsub
  cases h with
  | expand he =>
    cases he with
    | dispatch hd => cases hd <;> simp [Act.about, Backend.verifyFailed, removeTempSession]
    | chatLocal hs => simpa [Act.about] using .inr ⟨_, hs⟩
    | kick hs | mqFind hs | stopFind hs => simpa [Act.about, send] using ⟨_, hs⟩
    | _ => simp [Act.about, send, postMessage, addSession]
  | pushSend hnew => rcases hnew with rfl | rfl <;> simp [Act.about, queueSend]
  | _ =>
    simp [Act.about, postMessage, addSession, closeRemoveSession, closeRemoveTempSession,
      Backend.verifyFailed, removeTempSession]

/-- Acts of the acceptor come from no other act. -/
theorem Exec.accepts_new (h : Exec cfg t σ a σ' new) : new.any Act.accepts = false := by
  cases h with
  | expand he =>
    cases he with
    | dispatch hd => cases hd <;> rfl
    | _ => rfl
  | pushSend hnew => rcases hnew with rfl | rfl <;> rfl
  | _ => rfl

/-- The acceptor does its acts one by one. -/
theorem Exec.new_of_accept {s : SessId} (h : Exec cfg t σ a σ' new)
    (ha : a ∈ acceptorFn s) : new = [] := by
  simp only [acceptorFn, List.mem_cons, List.not_mem_nil, or_false] at ha
  rcases ha with rfl | rfl | rfl | rfl
  all_goals
    cases h with
    | expand he => cases he <;> rfl
    | _ => rfl

/-! ## Steps -/

/-- An act pending for the start is the acceptor's, and what it is about has not started. -/
theorem StartedOk.not_started (h : StartedOk σ) {s : SessId} (ha : a ∈ σ.code t)
    (hs : a = .addTemp s ∨ a = .start s) : t = acceptor ∧
      (σ.sessions s).created = true ∧ (σ.sessions s).started = false := by
  have ht : t = acceptor := by
    by_contra ht
    have hno := h.others t ht a ha
    rcases hs with rfl | rfl <;> cases hno
  subst ht
  obtain ⟨s₀, hsuffix, hsess⟩ := h.accepting
  have heq : s = s₀ := by
    have hmem := hsuffix.subset ha
    rcases hs with rfl | rfl <;> simpa [acceptorFn] using hmem
  subst heq
  exact ⟨rfl, hsess (List.ne_nil_of_mem ha)⟩

/-- What is left of the acts of the acceptor once `start` is done: nothing. -/
theorem rest_of_start {s s₀ : SessId}
    (h : .start s :: rest <:+ acceptorFn s₀) : rest = [] := by
  obtain ⟨done, hdone⟩ := h
  rcases done with _ | ⟨_, _ | ⟨_, _ | ⟨_, _ | ⟨_, _⟩⟩⟩⟩ <;> simp_all [acceptorFn]

/-- The acceptor proceeds in `AcceptorFn`, and nobody else starts its session. -/
theorem StartedOk.accepting_run (h : StartedOk σ) (hcode : σ.code t = a :: rest)
    (hex : Exec cfg t σ a σ' new) :
    Accepting (advance σ.code t new rest acceptor) σ'.sessions := by
  have ha : a ∈ σ.code t := head_mem hcode
  obtain ⟨s, hsuffix, hsess⟩ := h.accepting
  -- unless the act done is its start, the session stays as it is
  have hkeep : a ≠ .start s → σ.code acceptor ≠ [] →
      (σ'.sessions s).created = true ∧ (σ'.sessions s).started = false := by
    intro hne hcode'
    obtain ⟨hcreated, hun⟩ := hsess hcode'
    obtain ⟨hcreated', hstarted⟩ := hex.started s
    exact ⟨hcreated'.trans hcreated, (hstarted.resolve_right fun h => hne h.1).trans hun⟩
  by_cases ht : acceptor = t
  · subst ht
    have hnew : new = [] := hex.new_of_accept (hsuffix.subset ha)
    subst hnew
    rw [hcode] at hsuffix
    rw [advance_self, List.nil_append]
    refine ⟨s, (List.suffix_cons a rest).trans hsuffix, fun hrest => ?_⟩
    refine hkeep ?_ (List.ne_nil_of_mem ha)
    rintro rfl
    exact hrest (rest_of_start hsuffix)
  · rw [advance_of_ne ht]
    refine ⟨s, hsuffix, hkeep ?_⟩
    rintro rfl
    exact ht (h.not_started ha (.inr rfl)).1.symm

theorem StartedOk.run (h : StartedOk σ) (hcode : σ.code t = a :: rest)
    (hex : Exec cfg t σ a σ' new) : StartedOk { σ' with code := advance σ.code t new rest } := by
  have ha : a ∈ σ.code t := head_mem hcode
  have haccepting := h.accepting_run hcode hex
  refine ⟨fun s hs => ?_, fun t' b hb s hs => ?_, fun s hs => ?_, haccepting,
    fun t' ht b hb => ?_⟩
  · rcases hex.known (s := s) hs with hknown | habout
    · exact hex.started_mono (h.known s hknown)
    · exact hex.started_mono (h.about t a ha s habout)
  · apply hex.started_mono
    rcases mem_advance hcode hb with ⟨rfl, hnew⟩ | hold
    · rcases hex.about_new b hnew s hs with habout | hsess
      · exact h.about t' a ha s habout
      · exact h.known s (.inl hsess)
    · exact h.about t' b hold s hs
  · obtain ⟨hcreated, hstarted⟩ := hex.started s
    dsimp only
    rw [hcreated]
    rcases hstarted with heq | ⟨rfl, -⟩
    · exact h.created s (heq ▸ hs)
    · exact (h.not_started ha (.inr rfl)).2.1
  · rcases mem_advance hcode hb with ⟨rfl, hnew⟩ | hold
    · simpa using List.any_eq_false.mp hex.accepts_new b hnew
    · exact h.others t' ht b hold

/-- Other entry points than `accept` are about sessions that have been started. -/
theorem Entry.acts_about {e : Entry} (h : StartedOk σ) (he : e.Enabled cfg σ t) :
    ∀ b ∈ e.acts σ, ∀ s ∈ b.about, (σ.sessions s).started = true := by
  cases e with
  | frame s n => simpa [Entry.acts, Act.about] using he.2.1
  | ioError s => simpa [Entry.acts, Act.about] using he.2
  | writeDone s ok =>
    have hstarted := h.known s (.inr (.inr (.inl he.2)))
    simp only [Entry.acts]
    split
    · split
      · simp
      · simpa [queueSend, Act.about] using hstarted
    · simpa [Act.about] using hstarted
  | _ => simp [Entry.acts, acceptorFn, Act.about]

/-- Only the acceptor accepts. -/
theorem Entry.acts_accepts {e : Entry} (he : e.Enabled cfg σ t) (ht : t ≠ acceptor) :
    ∀ b ∈ e.acts σ, b.accepts = false := by
  cases e with
  | accept s => exact absurd he.1 ht
  | writeDone s ok =>
    simp only [Entry.acts]
    split
    · split <;> simp [queueSend, Act.accepts]
    · simp [Act.accepts]
  | _ => simp [Entry.acts, Act.accepts]

/-- A thread with nothing to do enters one of the entry points. -/
theorem StartedOk.call {e : Entry} (h : StartedOk σ) (hcode : σ.code t = [])
    (he : e.Enabled cfg σ t) :
    StartedOk { e.begin σ with code := Function.update σ.code t (e.acts σ) } := by
  have hsessions := fun s => e.begin_sessions (σ := σ) s
  have hstarted : ∀ s, ((e.begin σ).sessions s).started = (σ.sessions s).started := by
    intro s
    obtain ⟨c, w, hx, -⟩ := hsessions s
    rw [hx]
  refine ⟨fun s hs => ?_, fun t' b hb s hs => ?_, fun s hs => ?_, ?_, fun t' ht b hb => ?_⟩
  · dsimp only
    rw [hstarted]
    obtain ⟨c, w, hx, hw, -⟩ := hsessions s
    -- a completed write only lowers the count of those outstanding
    have htables : (e.begin σ).sess = σ.sess ∧ (e.begin σ).queue = σ.queue := by
      cases e <;> exact ⟨rfl, rfl⟩
    refine h.known s ?_
    simp only [Known, htables, hx] at hs
    exact hs.imp id (.imp id (.imp (lt_of_lt_of_le · hw) id))
  · dsimp only
    rw [hstarted]
    rcases mem_update hb with ⟨rfl, hnew⟩ | hold
    · exact Entry.acts_about h he b hnew s hs
    · exact h.about t' b hold s hs
  · dsimp only at hs ⊢
    rw [hstarted] at hs
    obtain ⟨c, w, hx, -, hc⟩ := hsessions s
    rw [hx]
    exact hc (h.created s hs)
  · show Accepting (Function.update σ.code t (e.acts σ) acceptor) _
    by_cases ht : t = acceptor
    · subst ht
      cases e with
      | accept s =>
        -- the session is new: one that has started has been created before
        rw [Function.update_self]
        refine ⟨s, List.suffix_refl _, fun _ => ⟨by simp [Entry.begin], ?_⟩⟩
        show ((Entry.begin σ (.accept s)).sessions s).started = false
        rw [hstarted, ← Bool.not_eq_true]
        intro hnot
        have hcreated := h.created s hnot
        rw [he.2] at hcreated
        cases hcreated
      | _ => simp [Entry.Enabled] at he
    · rw [Function.update_of_ne (Ne.symm ht)]
      obtain ⟨s, hsuffix, hsess⟩ := h.accepting
      refine ⟨s, hsuffix, fun hne => ?_⟩
      obtain ⟨hcreated, hun⟩ := hsess hne
      obtain ⟨c, w, hx, -, hc⟩ := hsessions s
      dsimp only
      rw [hx]
      exact ⟨hc hcreated, hun⟩
  · rcases mem_update hb with ⟨rfl, hnew⟩ | hold
    · exact Entry.acts_accepts he ht b hnew
    · exact h.others t' ht b hold

/-- The worker goes on with another act. -/
theorem StartedOk.worker (h : StartedOk σ) (hsessions : σ'.sessions = σ.sessions)
    (hknown : ∀ s, Known σ' s → Known σ s) (hcode : σ'.code = Function.update σ.code worker [a])
    (habout : ∀ s ∈ a.about, (σ.sessions s).started = true) (haccepts : a.accepts = false) :
    StartedOk σ' := by
  have hacceptor : σ'.code acceptor = σ.code acceptor := by
    rw [hcode]
    exact Function.update_of_ne (by decide) ..
  refine ⟨fun s hs => ?_, fun t b hb s hs => ?_, ?_, ?_, fun t ht b hb => ?_⟩
  · rw [hsessions]
    exact h.known s (hknown s hs)
  · rw [hcode] at hb
    rw [hsessions]
    rcases mem_update hb with ⟨rfl, hnew⟩ | hold
    · cases List.mem_singleton.mp hnew
      exact habout s hs
    · exact h.about t b hold s hs
  · rw [hsessions]
    exact h.created
  · rw [hacceptor, hsessions]
    exact h.accepting
  · rw [hcode] at hb
    rcases mem_update hb with ⟨rfl, hnew⟩ | hold
    · cases List.mem_singleton.mp hnew
      exact haccepts
    · exact h.others t ht b hold

theorem StartedOk.step (h : StartedOk σ) (hs : Stepped cfg σ l σ') : StartedOk σ' := by
  cases hs with
  | run hcode hex => exact h.run hcode hex
  | wait => exact h.worker rfl (fun _ hs => hs) rfl (fun _ hs => absurd hs List.not_mem_nil) rfl
  | @take s₀ msg q _ _ hq =>
    have hqueue : ∀ x ∈ q, x ∈ σ.queue := fun x hx => by rw [hq]; exact List.mem_cons_of_mem _ hx
    refine h.worker rfl (fun s hs => ?_) rfl (fun s hs => ?_) rfl
    · exact hs.imp id (.imp (fun ⟨m, hm⟩ => ⟨m, hqueue _ hm⟩) id)
    · cases List.mem_singleton.mp hs
      exact h.known s₀ (.inr (.inl ⟨msg, by rw [hq]; exact List.mem_cons_self⟩))
  | leave => exact ⟨h.known, h.about, h.created, h.accepting, h.others⟩
  | call _ hcode he => exact h.call hcode he
  | redis => exact ⟨h.known, h.about, h.created, h.accepting, h.others⟩

/-- At the start there are no sessions. -/
theorem startedOk_init : StartedOk init := by
  refine ⟨fun s hs => ?_, fun t a ha s hs => ?_, fun s hs => ?_, ⟨0, ?_, ?_⟩, fun t _ a ha => ?_⟩
  · simp [Known, init] at hs
  · rw [eq_lock_of_mem_init ha] at hs
    cases hs
  · cases hs
  · exact List.nil_suffix
  · intro hne
    exact absurd rfl hne
  · rw [eq_lock_of_mem_init ha]
    rfl

end Chatroom.Backend
