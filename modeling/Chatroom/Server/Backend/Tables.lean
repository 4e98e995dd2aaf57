import Chatroom.Server.Backend.Accepting

/-!
# The tables of sessions

`temp_sess_` has the sessions not verified yet, `sess_` the verified ones by uid. `Close` chooses the
table to clean by the value of `verified_` at that moment, while a `VERIFY` of the session may still
be queued or in the middle of its processing. Then `AddSession` enters a session that nobody will
remove any more. `RegistersOpen` is the condition on the steps that this does not happen; under it, a
session that has been closed and processed is in neither table.
-/

namespace Chatroom.Backend

open Trace Threads

variable {cfg : Config} {σ σ' : State} {t : Tid} {a : Act} {new rest : List Act} {l : Label}

/-! ## What is known of every run

The invariants of the modules before are collected in `Sound`. Steps other than acts do not touch the
tables (`Quiet`), and so every invariant here needs a proof for acts and one for quiet steps, which is
the
rule `Quiet.invariant`. -/

structure Sound (σ : State) : Prop where
  close : CloseOk σ
  worker : WorkerOk σ
  started : StartedOk σ

theorem Sound.step (h : Sound σ) (hs : Stepped cfg σ l σ') : Sound σ' :=
  ⟨h.close.step hs, h.worker.step hs, h.started.step hs⟩

/-- They hold in every run, whatever the condition on its steps. -/
theorem sound_of_reach {ok : State → Label → Prop} (h : Reach (step cfg) ok init σ) : Sound σ :=
  h.invariant ⟨closeOk_init, workerOk_init, startedOk_init⟩
    fun _ _ _ hsound _ hs => hsound.step (step_cases hs)

/-- A step that is no act leaves the tables and what they go by as they are. -/
structure Quiet (σ σ' : State) : Prop where
  sess : σ'.sess = σ.sess
  tempSess : σ'.tempSess = σ.tempSess
  verified : ∀ s, (σ'.sessions s).verified = (σ.sessions s).verified
  userId : ∀ s, (σ'.sessions s).userId = (σ.sessions s).userId
  stage : ∀ s, (σ'.sessions s).stage = (σ.sessions s).stage
  pending : ∀ a ∈ σ.code worker, a ∈ σ'.code worker
  begun : ∀ a ∈ σ'.code worker, a ∈ σ.code worker ∨ a = .lock .handler ∨ ∃ s msg, a = .processor s msg
  log : ∀ e ∈ σ'.log, e ∈ σ.log ∨ ∃ s msg, e = .taken s msg

/-- A step is an act of a thread, or it is quiet. -/
theorem Stepped.cases_run (hs : Stepped cfg σ l σ') :
    (∃ t a rest σ₁ new, l = .run t ∧ σ.code t = a :: rest ∧ Exec cfg t σ a σ₁ new ∧
        σ' = { σ₁ with code := advance σ.code t new rest }) ∨ Quiet σ σ' := by
  cases hs with
  | run hcode hex => exact .inl ⟨_, _, _, _, _, rfl, hcode, hex, rfl⟩
  | wait _ hcode =>
    refine .inr ⟨rfl, rfl, fun _ => rfl, fun _ => rfl, fun _ => rfl, ?_, ?_, fun _ h => .inl h⟩
    · simp [hcode]
    · simp
  | take _ hcode =>
    refine .inr ⟨rfl, rfl, fun _ => rfl, fun _ => rfl, fun _ => rfl, ?_, ?_, fun e he => ?_⟩
    · simp [hcode]
    · simp
    · rcases List.mem_append.mp he with hold | hnew
      · exact .inl hold
      · exact .inr ⟨_, _, List.mem_singleton.mp hnew⟩
  | leave =>
    exact .inr ⟨rfl, rfl, fun _ => rfl, fun _ => rfl, fun _ => rfl, fun _ h => h,
      fun _ h => .inl h, fun _ h => .inl h⟩
  | @call t e ht =>
    -- a call changes no more of a session than that it is created, and the number of its writes
    have hx := fun s => e.begin_sessions (σ := σ) s
    have hworker : Function.update σ.code t (e.acts σ) worker = σ.code worker :=
      Function.update_of_ne (Ne.symm ht) ..
    have hrest : (e.begin σ).sess = σ.sess ∧ (e.begin σ).tempSess = σ.tempSess ∧
        (e.begin σ).log = σ.log := by cases e <;> exact ⟨rfl, rfl, rfl⟩
    refine .inr ⟨hrest.1, hrest.2.1, fun s => ?_, fun s => ?_, fun s => ?_, ?_, ?_, ?_⟩
    · obtain ⟨c, w, h, -⟩ := hx s
      simp [h]
    · obtain ⟨c, w, h, -⟩ := hx s
      simp [h]
    · obtain ⟨c, w, h, -⟩ := hx s
      simp [h]
    · simp [hworker]
    · intro a ha
      exact .inl (hworker ▸ ha)
    · intro e he
      exact .inl (hrest.2.2 ▸ he)
  | redis =>
    exact .inr ⟨rfl, rfl, fun _ => rfl, fun _ => rfl, fun _ => rfl, fun _ h => h,
      fun _ h => .inl h, fun _ h => .inl h⟩

/-- **The rule for invariants of the tables**: an act of a thread keeps them, and so does a quiet step.
The proof for an act may use the condition on the run and what is known of every state. -/
theorem Quiet.invariant {ok : State → Label → Prop} {known inv : State → Prop}
    (hknown : ∀ {σ}, Reach (step cfg) ok init σ → known σ) (h0 : inv init)
    (hrun : ∀ {σ σ' t a rest new}, inv σ → known σ → ok σ (.run t) → σ.code t = a :: rest →
      Exec cfg t σ a σ' new → inv { σ' with code := advance σ.code t new rest })
    (hquiet : ∀ {σ σ'}, inv σ → Quiet σ σ' → inv σ') {σ : State}
    (h : Reach (step cfg) ok init σ) : inv σ := by
  refine h.invariant_of hknown h0 ?_
  intro σ l σ' hk hinv hok hs
  rcases (step_cases hs).cases_run with ⟨t, a, rest, σ₁, new, rfl, hcode, hex, rfl⟩ | hq
  · exact hrun hinv hk hok hcode hex
  · exact hquiet hinv hq

/-! ## `temp_sess_` -/

/-- A verified session is on its way out of `temp_sess_`, and a closed one is out, if it has not been
verified in the meantime. -/
structure TempOk (σ : State) : Prop where
  self : ∀ k s, σ.tempSess k = some s → s = k
  verified : ∀ s, (σ.sessions s).verified = true → σ.tempSess s ≠ none →
    .eraseTemp s false ∈ σ.code worker
  removed : ∀ s, (σ.sessions s).stage = .removed ∨ (σ.sessions s).stage = .returned →
    (σ.sessions s).verified = true ∨ σ.tempSess s = none

/-- How an act changes `temp_sess_`. -/
theorem Exec.tempSess (h : Exec cfg t σ a σ' new) :
    (σ'.tempSess = σ.tempSess ∧ ∀ s byClose, a ≠ .eraseTemp s byClose) ∨
      (∃ s byClose, a = .eraseTemp s byClose ∧
        σ'.tempSess = Function.update σ.tempSess s none) ∨
      ∃ s, a = .addTemp s ∧ σ'.tempSess = Function.update σ.tempSess s (some s) := by
  cases h with
  | eraseTempClose => exact .inr (.inl ⟨_, _, rfl, rfl⟩)
  | eraseTemp => exact .inr (.inl ⟨_, _, rfl, rfl⟩)
  | addTemp => exact .inr (.inr ⟨_, rfl, rfl⟩)
  | expand he => cases he <;> exact .inl ⟨rfl, nofun⟩
  | crash hc => cases hc <;> exact .inl ⟨rfl, nofun⟩
  | _ => exact .inl ⟨rfl, nofun⟩

/-- An entry of `temp_sess_` is an old one, or of a session not started. -/
theorem Exec.tempSess_ne_none (h : Exec cfg t σ a σ' new) (hstarted : StartedOk σ)
    (ha : a ∈ σ.code t) {s : SessId} (hs : (σ.sessions s).started = true)
    (htemp : σ'.tempSess s ≠ none) :
    σ.tempSess s ≠ none ∧ ∀ byClose, a ≠ .eraseTemp s byClose := by
  rcases h.tempSess with ⟨heq, hne⟩ | ⟨s₀, byClose, rfl, heq⟩ | ⟨s₀, rfl, heq⟩
  · exact ⟨heq ▸ htemp, hne s⟩
  · rw [heq] at htemp
    rcases eq_or_ne s s₀ with rfl | hne
    · simp at htemp
    · rw [Function.update_of_ne hne] at htemp
      exact ⟨htemp, fun _ h => hne (by cases h; rfl)⟩
  · rcases eq_or_ne s s₀ with rfl | hne
    · rw [(hstarted.not_started ha (.inl rfl)).2.2] at hs
      cases hs
    · rw [heq, Function.update_of_ne hne] at htemp
      exact ⟨htemp, nofun⟩

/-- What the worker has to do for a session that it has verified. -/
theorem Exec.setVerified_new {s : SessId} {uid : Uid} (h : Exec cfg t σ (.setVerified s uid) σ' new) :
    new = addSession uid s ++ [.updateUserStatus uid, .welcome s] := by
  cases h with
  | setVerified => rfl
  | expand he => cases he; rfl
  | crash hc => cases hc

/-- An act that verifies a session brings the one that takes it out of `temp_sess_`; that one is run
by the worker alone. -/
theorem TempOk.run (h : TempOk σ) (hsound : Sound σ) (hcode : σ.code t = a :: rest)
    (hex : Exec cfg t σ a σ' new) : TempOk { σ' with code := advance σ.code t new rest } := by
  have ha : a ∈ σ.code t := head_mem hcode
  refine ⟨fun k s hk => ?_, fun s hv htemp => ?_, fun s hstage => ?_⟩
  · dsimp only at hk
    rcases hex.tempSess with ⟨heq, -⟩ | ⟨s₀, byClose, -, heq⟩ | ⟨s₀, -, heq⟩
    · exact h.self k s (heq ▸ hk)
    · rcases eq_or_ne k s₀ with rfl | hne
      · simp [heq] at hk
      · rw [heq, Function.update_of_ne hne] at hk
        exact h.self k s hk
    · rcases eq_or_ne k s₀ with rfl | hne
      · rw [heq, Function.update_self] at hk
        cases hk
        rfl
      · rw [heq, Function.update_of_ne hne] at hk
        exact h.self k s hk
  · show _ ∈ advance σ.code t new rest worker
    -- verified before, or by this act, which puts the removal in front
    rcases hex.verified s with ⟨hsame, -⟩ | ⟨uid, rfl, -⟩
    · have hv₀ : (σ.sessions s).verified = true := hsame ▸ hv
      have hstarted := hsound.started.known s (.inr (.inr (.inr (.inl hv₀))))
      obtain ⟨htemp₀, hne⟩ := hex.tempSess_ne_none hsound.started ha hstarted htemp
      exact mem_advance_of_mem hcode (h.verified s hv₀ htemp₀) fun h => hne false h.symm
    · cases hsound.worker.eq_worker ha rfl
      exact mem_advance_new (by simp [hex.setVerified_new, addSession])
  · show (σ'.sessions s).verified = true ∨ σ'.tempSess s = none
    -- the acceptor enters no session that is known already, so what is out stays out
    have hold : (σ.sessions s).stage = .removed ∨ (σ.sessions s).stage = .returned →
        (σ'.sessions s).verified = true ∨ σ'.tempSess s = none := by
      intro hstage₀
      rcases h.removed s hstage₀ with hv | hnone
      · exact .inl (hex.verified_mono hv).1
      · right
        by_contra htemp
        have hknown : Known σ s := .inr (.inr (.inr (.inr (by rcases hstage₀ with h | h <;> simp [h]))))
        exact (hex.tempSess_ne_none hsound.started ha (hsound.started.known s hknown) htemp).1 hnone
    cases hsound.close.stageChange ha hex s with
    | same _ heq => exact hold (heq ▸ hstage)
    | closing _ heq | toSess _ _ heq | toTemp _ _ heq => simp [heq] at hstage
    | erasedSess _ hv _ => exact .inl (hex.verified_mono hv).1
    | erasedTemp =>
      right
      by_contra htemp
      rcases hex.tempSess with ⟨-, hne⟩ | ⟨s₀, _, heq, hupd⟩ | ⟨s₀, heq, -⟩
      · exact hne s true rfl
      · cases heq
        simp [hupd] at htemp
      · cases heq
    | returned heq _ => exact hold (.inl heq)

/-- A quiet step takes no act from the worker. -/
theorem TempOk.quiet (h : TempOk σ) (hq : Quiet σ σ') : TempOk σ' := by
  refine ⟨fun k s => ?_, fun s => ?_, fun s => ?_⟩
  · rw [hq.tempSess]
    exact h.self k s
  · rw [hq.tempSess, hq.verified]
    intro hv htemp
    exact hq.pending _ (h.verified s hv htemp)
  · rw [hq.stage, hq.verified, hq.tempSess]
    exact h.removed s

theorem tempOk_init : TempOk init := by
  refine ⟨fun k s hk => ?_, fun s hv => ?_, fun s _ => .inr rfl⟩
  · cases hk
  · cases hv

theorem tempOk_of_reach {ok : State → Label → Prop} (h : Reach (step cfg) ok init σ) :
    TempOk σ :=
  Quiet.invariant sound_of_reach tempOk_init
    (fun htemp hsound _ hcode hex => htemp.run hsound hcode hex) TempOk.quiet h

/-! ## `sess_` -/

/-- What is in `sess_` is verified for that uid. -/
def SessUid (σ : State) : Prop :=
  ∀ uid s, σ.sess uid = some s → (σ.sessions s).verified = true ∧ (σ.sessions s).userId = uid

/-- Only `AddSession` puts a session there, under the uid with which it was verified just before. -/
theorem SessUid.run (h : SessUid σ) (hsound : Sound σ) (hcode : σ.code t = a :: rest)
    (hex : Exec cfg t σ a σ' new) : SessUid { σ' with code := advance σ.code t new rest } := by
  have ha : a ∈ σ.code t := head_mem hcode
  intro uid s hs
  have hbefore : (σ.sessions s).verified = true ∧ (σ.sessions s).userId = uid := by
    rcases hex.sess_some hs with hold | ⟨rfl, -⟩
    · exact h uid s hold
    · cases hsound.worker.eq_worker ha rfl
      exact hsound.worker.emplace uid s ha
  obtain ⟨hv, hu⟩ := hex.verified_mono hbefore.1
  exact ⟨hv, hu.trans hbefore.2⟩

theorem SessUid.quiet (h : SessUid σ) (hq : Quiet σ σ') : SessUid σ' := by
  intro uid s
  rw [hq.sess, hq.verified, hq.userId]
  exact h uid s

theorem sessUid_of_reach {ok : State → Label → Prop} (h : Reach (step cfg) ok init σ) :
    SessUid σ :=
  Quiet.invariant sound_of_reach (fun uid s hs => by cases hs)
    (fun hsess hsound _ hcode hex => hsess.run hsound hcode hex) SessUid.quiet h

/-! ## No dead session stays registered

A session leaves `sess_` by its `Close`, if that finds it verified. So a session in `sess_` is
harmless as
long as its `Close` has not come to its choice of a table, or has chosen `sess_`. This is the
invariant
`SessOpen`; the condition `RegistersOpen` says it of the sessions that are entered. -/

/-- `Close` has removed nothing yet, and if it has chosen a table, then `sess_`. -/
def CloseStage.mayRegister : CloseStage → Bool
  | notClosed | closing | toSess => true
  | toTemp | removed | returned => false

/-- `MsgHandler` has an event of `s` to process. -/
def Unprocessed (σ : State) (s : SessId) : Prop :=
  (∃ msg, (s, msg) ∈ σ.queue) ∨ (∃ msg, σ.item = some (s, msg)) ∧ σ.code worker ≠ []

/-- With an empty queue and an idle worker there is nothing to process. -/
theorem not_unprocessed {s : SessId} (hqueue : σ.queue = []) (hcode : σ.code worker = []) :
    ¬ Unprocessed σ s := by
  rintro (⟨msg, hmsg⟩ | ⟨-, hne⟩)
  · rw [hqueue] at hmsg
    cases hmsg
  · exact hne hcode

/-- The session occurs in one of the tables. -/
def Registered (σ : State) (s : SessId) : Prop :=
  (∃ uid, σ.sess uid = some s) ∨ ∃ k, σ.tempSess k = some s

/-- No session whose `Close` has returned and whose events have been processed is registered. -/
def NoDeadSession (σ : State) : Prop :=
  ∀ s, (σ.sessions s).stage = .returned → ¬ Unprocessed σ s → ¬ Registered σ s

/-- When `AddSession` inserts a session, the `Close` of this session has removed nothing yet and has
not chosen `temp_sess_`. -/
def RegistersOpen (σ : State) : Label → Prop
  | .run t =>
    match σ.code t with
    | .emplaceSess uid s :: _ =>
      σ.sess uid = none → (σ.sessions s).stage.mayRegister = true
    | _ => True
  | _ => True

instance (σ : State) (l : Label) : Decidable (RegistersOpen σ l) := by
  obtain t | _ | _ | _ := l
  · dsimp only [RegistersOpen]
    obtain _ | ⟨a, _⟩ := σ.code t
    · exact .isTrue trivial
    · obtain ⟨⟩ := a <;> infer_instance
  all_goals exact .isTrue trivial

/-- What is in `sess_` has its removal still before it. -/
def SessOpen (σ : State) : Prop :=
  ∀ uid s, σ.sess uid = some s → (σ.sessions s).stage.mayRegister = true

/-- A `Close` that goes on to its last stages has taken its session out of `sess_`. -/
theorem SessOpen.run (h : SessOpen σ) (hsound : Sound σ) (huid : SessUid σ)
    (hok : RegistersOpen σ (.run t)) (hcode : σ.code t = a :: rest)
    (hex : Exec cfg t σ a σ' new) : SessOpen { σ' with code := advance σ.code t new rest } := by
  have ha : a ∈ σ.code t := head_mem hcode
  intro uid s hs
  change σ'.sess uid = some s at hs
  show (σ'.sessions s).stage.mayRegister = true
  have hstage := hsound.close.stageChange ha hex s
  rcases hex.sess_some hs with hold | ⟨rfl, hnone⟩
  · obtain ⟨hv, hu⟩ := huid uid s hold
    have hm := h uid s hold
    cases hstage with
    | same _ heq => rw [heq]; exact hm
    | closing _ heq | toSess _ _ heq => rw [heq]; rfl
    | toTemp _ hun _ => rw [hv] at hun; cases hun
    | erasedSess =>
      -- the entry removed is the one under the uid of `s`
      rcases hex.sess with ⟨-, hne⟩ | ⟨s₀, uid₀, heq, hupd⟩ | ⟨_, _, heq, -⟩
      · exact absurd rfl (hne _ _)
      · cases heq
        rw [← hu, hupd, Function.update_self] at hs
        cases hs
      · cases heq
    | erasedTemp heq _ | returned heq _ => rw [heq] at hm; cases hm
  · -- entered by this act: the condition on the step
    simp only [RegistersOpen, hcode] at hok
    cases hstage with
    | same _ heq => exact heq ▸ hok hnone

theorem SessOpen.quiet (h : SessOpen σ) (hq : Quiet σ σ') : SessOpen σ' := by
  intro uid s
  rw [hq.sess, hq.stage]
  exact h uid s

/-- In every run that keeps to the condition. -/
theorem sessOpen_of_reach (h : Reach (step cfg) RegistersOpen init σ) : SessOpen σ := by
  have hknown : ∀ {σ}, Reach (step cfg) RegistersOpen init σ → Sound σ ∧ SessUid σ :=
    fun h => ⟨sound_of_reach h, sessUid_of_reach h⟩
  exact Quiet.invariant hknown (fun uid s hs => by cases hs)
    (fun hopen hk hok hcode hex => hopen.run hk.1 hk.2 hok hcode hex) SessOpen.quiet h

/-- **No dead session stays registered**, as long as none is entered after its `Close` has cleaned
up. -/
theorem noDeadSession_of_registersOpen (cfg : Config) (σ : State)
    (h : Reach (step cfg) RegistersOpen init σ) : NoDeadSession σ := by
  intro s hreturned hprocessed hregistered
  -- a session of `sess_` contradicts `SessOpen`, and one of `temp_sess_` contradicts `TempOk`
  have hsound := sound_of_reach h
  have htemp := tempOk_of_reach h
  rcases hregistered with ⟨uid, hs⟩ | ⟨k, hk⟩
  · have hm := sessOpen_of_reach h uid s hs
    rw [hreturned] at hm
    cases hm
  · cases htemp.self k s hk
    rcases htemp.removed s (.inr hreturned) with hv | hnone
    · -- the worker is still in the processing that verified the session
      have hpending := htemp.verified s hv (by simp [hk])
      have hfits := hsound.worker.fits worker _ hpending
      rw [if_pos rfl] at hfits
      obtain ⟨n, hitem⟩ := hfits
      exact hprocessed (.inr ⟨⟨_, hitem⟩, List.ne_nil_of_mem hpending⟩)
    · rw [hnone] at hk
      cases hk

/-- A session is verified as user 7, closed and processed to the end. -/
theorem noDeadSession_verified :
    ∃ σ, (Reach (step exampleConfig) RegistersOpen init σ ∧ (σ.sessions 0).verified = true ∧
      (σ.sessions 0).stage = .returned ∧ ¬ Unprocessed σ 0) ∧ ¬ Registered σ 0 := by
  have hrun : ((Trace.run (step exampleConfig) RegistersOpen init
      (starting ++ accepting 0 ++ receiving 2 0 verifyFrame ++ waking 22 ++ taking 0 ++
        closing 3 0 ++ waking 9)).any
        fun σ => decide ((σ.sessions 0).verified = true ∧ (σ.sessions 0).stage = .returned ∧
          σ.queue = [] ∧ σ.code worker = [])) = true := by
    decide +kernel
  obtain ⟨σ, hreach, htest⟩ := exists_reach_of_run hrun
  obtain ⟨hverified, hreturned, hqueue, hcode⟩ := of_decide_eq_true htest
  have hprocessed : ¬ Unprocessed σ 0 := not_unprocessed hqueue hcode
  exact ⟨σ, ⟨hreach, hverified, hreturned, hprocessed⟩,
    noDeadSession_of_registersOpen exampleConfig σ hreach 0 hreturned hprocessed⟩

/-- The `VERIFY` of a session is still queued when its connection breaks. `Close` cleans `temp_sess_`,
and then the session is verified and entered into `sess_`, where it stays. -/
theorem not_noDeadSession_queued :
    ∃ σ, Reach (step exampleConfig) anyStep init σ ∧ ¬ NoDeadSession σ := by
  have hrun : ((Trace.run (step exampleConfig) anyStep init
      (starting ++ accepting 0 ++ receiving 2 0 verifyFrame ++ closing 3 0 ++ waking 22 ++
        taking 9)).any
        fun σ => decide (σ.sess 7 = some 0 ∧ (σ.sessions 0).stage = .returned ∧
          σ.queue = [] ∧ σ.code worker = [])) = true := by
    decide +kernel
  obtain ⟨σ, hreach, htest⟩ := exists_reach_of_run hrun
  obtain ⟨hsess, hreturned, hqueue, hcode⟩ := of_decide_eq_true htest
  exact ⟨σ, hreach, fun hno => hno 0 hreturned (not_unprocessed hqueue hcode) (.inl ⟨7, hsess⟩)⟩

end Chatroom.Backend
