import Chatroom.Server.Backend.Tables

/-!
# Sessions under their uid

`AddSession` does not replace an entry of `sess_`, and its result is ignored; `Close` removes from
`sess_` by uid. So where two sessions are verified for one uid, the second one cannot be found, and
its `Close` removes the entry of the first. `VerifiesFresh` is the condition on the steps that this
does not happen: a session is verified for a uid that no session is stored under. Under it, verified
sessions are found under their uid, and `Close` removes no foreign entry.
-/

namespace Chatroom.Backend

open Trace Threads

variable {cfg : Config} {σ σ' : State} {t : Tid} {a : Act} {new rest : List Act} {l : Label}

/-- Every verified session that is not down is the one stored under its uid. -/
def StoredUnderUid (σ : State) : Prop :=
  ∀ s, (σ.sessions s).verified = true → (σ.sessions s).down = false →
    σ.sess (σ.sessions s).userId = some s

/-- Every entry that the `Close` of a session has removed was the session's own. -/
def RemovesOwn (σ : State) : Prop :=
  ∀ s found, .erasedSess s found ∈ σ.log ∨ .erasedTemp s found ∈ σ.log →
    found = none ∨ found = some s

/-- The worker is in the middle of an event. -/
def Processing (σ : State) : Prop := σ.item ≠ none ∧ σ.code worker ≠ []

instance (σ : State) : Decidable (Processing σ) := inferInstanceAs (Decidable (_ ∧ _))

/-- When a session is verified, `sess_` has no entry under its uid. -/
def VerifiesFresh (σ : State) : Label → Prop
  | .run t =>
    match σ.code t with
    | .setVerified _ uid :: _ => σ.sess uid = none
    | _ => True
  | _ => True

instance (σ : State) (l : Label) : Decidable (VerifiesFresh σ l) := by
  obtain t | _ | _ | _ := l
  · dsimp only [VerifiesFresh]
    obtain _ | ⟨a, _⟩ := σ.code t
    · exact .isTrue trivial
    · obtain ⟨⟩ := a <;> infer_instance
  all_goals exact .isTrue trivial

/-- A verified session is stored under its uid from the end of its verification until its own `Close`
removes it; so only one session of a uid has its removal still before it. -/
structure UidsOk (σ : State) : Prop where
  fresh : ∀ uid s, .emplaceSess uid s ∈ σ.code worker → σ.sess uid = none
  stored : ∀ s, (σ.sessions s).verified = true → σ.sess (σ.sessions s).userId = some s ∨
    .emplaceSess (σ.sessions s).userId s ∈ σ.code worker ∨
    (σ.sessions s).stage.mayRegister = false
  single : ∀ s s', (σ.sessions s').verified = true → σ.sess (σ.sessions s').userId = some s →
    s ≠ s' → (σ.sessions s').stage.mayRegister = false

/-! ## Acts

The three parts of the invariant are kept one by one. Each of them has one act that could break it:
the
verification of a session, its entry into `sess_`, and the removal by uid. -/

/-- What has been removed stays so. -/
theorem StageChange.mayRegister_false {s : SessId} {x x' : SessionState} (h : StageChange s x x' a)
    (hm : x.stage.mayRegister = false) : x'.stage.mayRegister = false := by
  cases h with
  | same _ heq => rw [heq]; exact hm
  | closing heq _ | toSess heq _ _ | toTemp heq _ _ | erasedSess heq _ _ => rw [heq] at hm; cases hm
  | erasedTemp _ heq | returned _ heq => rw [heq]; rfl

/-- While the worker enters a session, it has no other to enter. -/
theorem WorkerOk.emplace_eq (h : WorkerOk σ) {uid uid' : Uid} {s s' : SessId}
    (hcode : σ.code worker = .emplaceSess uid s :: rest)
    (hb : .emplaceSess uid' s' ∈ σ.code worker) : uid' = uid ∧ s' = s := by
  have honce := h.once
  rw [hcode, List.countP_cons_of_pos rfl] at honce
  have hnone : rest.countP Act.spine = 0 := by omega
  rw [hcode, List.mem_cons] at hb
  rcases hb with heq | hrest
  · cases heq
    exact ⟨rfl, rfl⟩
  · exact absurd rfl (List.countP_eq_zero.mp hnone _ hrest)

/-- Where nothing is stored under the uid, `AddSession` stores the session. -/
theorem Exec.sess_emplace {uid : Uid} {s : SessId} (h : Exec cfg t σ (.emplaceSess uid s) σ' new)
    (hnone : σ.sess uid = none) : σ'.sess uid = some s := by
  cases h with
  | emplace => exact Function.update_self ..
  | expand he => cases he; contradiction
  | crash hc => cases hc

/-- An entry of another uid than that of the act stays. -/
theorem Exec.sess_none (h : Exec cfg t σ a σ' new) {uid : Uid} (hnone : σ.sess uid = none)
    (hne : ∀ s, a ≠ .emplaceSess uid s) : σ'.sess uid = none := by
  cases hs : σ'.sess uid with
  | none => rfl
  | some s =>
    rcases h.sess_some hs with hold | ⟨heq, -⟩
    · rw [hold] at hnone
      cases hnone
    · exact absurd heq (hne s)

/-- A new entry is announced by the verification, and the condition says that its place is free. -/
theorem UidsOk.fresh_run (h : UidsOk σ) (hsound : Sound σ) (hok : VerifiesFresh σ (.run t))
    (hcode : σ.code t = a :: rest) (hex : Exec cfg t σ a σ' new) (uid : Uid) (s : SessId)
    (hb : .emplaceSess uid s ∈ advance σ.code t new rest worker) : σ'.sess uid = none := by
  have ha : a ∈ σ.code t := head_mem hcode
  by_cases ht : worker = t
  · subst ht
    rw [advance_self, List.mem_append] at hb
    rcases hb with hnew | hold
    · obtain ⟨rfl, -⟩ := hex.emplace_new hnew
      simp only [VerifiesFresh, hcode] at hok
      exact hex.sess_none hok nofun
    · have hmem : .emplaceSess uid s ∈ σ.code worker := by
        rw [hcode]
        exact List.mem_cons_of_mem _ hold
      refine hex.sess_none (h.fresh uid s hmem) ?_
      -- the worker has one session to enter at a time
      rintro s₀ rfl
      have honce := hsound.worker.once
      rw [hcode, List.countP_cons_of_pos rfl] at honce
      have hnone : rest.countP Act.spine = 0 := by omega
      exact List.countP_eq_zero.mp hnone _ hold rfl
  · rw [advance_of_ne ht] at hb
    refine hex.sess_none (h.fresh uid s hb) ?_
    rintro s₀ rfl
    exact ht (hsound.worker.eq_worker ha rfl).symm

/-- An entry goes only by the `Close` of a session with this uid. By `single` it is the session
itself. -/
theorem UidsOk.stored_run (h : UidsOk σ) (hsound : Sound σ) (hcode : σ.code t = a :: rest)
    (hex : Exec cfg t σ a σ' new) (s : SessId) (hv : (σ'.sessions s).verified = true) :
    σ'.sess (σ'.sessions s).userId = some s ∨
      .emplaceSess (σ'.sessions s).userId s ∈ advance σ.code t new rest worker ∨
      (σ'.sessions s).stage.mayRegister = false := by
  have ha : a ∈ σ.code t := head_mem hcode
  have hstage := hsound.close.stageChange ha hex
  -- verified before, or by this act
  rcases hex.verified s with ⟨hsame, huid⟩ | ⟨uid, rfl, -, -, huid⟩
  · rw [huid]
    rcases h.stored s (hsame ▸ hv) with hs | hpending | hgone
    · -- stored, and nobody else removes it
      rcases hex.sess with ⟨heq, -⟩ | ⟨s₀, uid₀, rfl, hupd⟩ | ⟨uid₀, s₀, rfl, hnone, hupd⟩
      · exact .inl (heq ▸ hs)
      · rcases eq_or_ne (σ.sessions s).userId uid₀ with heq | hne
        · -- the uid is removed by the `Close` of a session that has it
          cases hstage s₀ with
          | same hno => simp [Act.closes] at hno
          | erasedSess hto hv₀ hremoved =>
            rcases eq_or_ne s s₀ with rfl | hother
            · exact .inr (.inr (by rw [hremoved]; rfl))
            · have hgone := h.single s s₀ hv₀ (heq ▸ hs) hother
              rw [hto] at hgone
              cases hgone
        · rw [hupd, Function.update_of_ne hne]
          exact .inl hs
      · have hne : (σ.sessions s).userId ≠ uid₀ := by
          rintro rfl
          rw [hnone] at hs
          cases hs
        rw [hupd, Function.update_of_ne hne]
        exact .inl hs
    · -- about to be entered, and nobody takes the uid before
      by_cases heq : a = .emplaceSess (σ.sessions s).userId s
      · subst heq
        exact .inl (hex.sess_emplace (h.fresh _ s hpending))
      · exact .inr (.inl (mem_advance_of_mem hcode hpending (Ne.symm heq)))
    · exact .inr (.inr ((hstage s).mayRegister_false hgone))
  · -- verified just now: the entry into `sess_` is among the next acts
    cases hsound.worker.eq_worker ha rfl
    refine .inr (.inl (mem_advance_new ?_))
    simp [huid, hex.setVerified_new, addSession]

/-- A second session for a uid could come only from a verification, while the place is taken. -/
theorem UidsOk.single_run (h : UidsOk σ) (hsound : Sound σ) (hok : VerifiesFresh σ (.run t))
    (hcode : σ.code t = a :: rest) (hex : Exec cfg t σ a σ' new) (s s' : SessId)
    (hv : (σ'.sessions s').verified = true) (hs : σ'.sess (σ'.sessions s').userId = some s)
    (hne : s ≠ s') : (σ'.sessions s').stage.mayRegister = false := by
  have ha : a ∈ σ.code t := head_mem hcode
  have hstage := hsound.close.stageChange ha hex s'
  rcases hex.verified s' with ⟨hsame, huid⟩ | ⟨uid, rfl, -, -, huid⟩
  · rw [huid] at hs
    have hv₀ : (σ.sessions s').verified = true := hsame ▸ hv
    rcases hex.sess_some hs with hold | ⟨rfl, hnone⟩
    · exact hstage.mayRegister_false (h.single s s' hv₀ hold hne)
    · -- another session is entered: `s'` has been removed, or it would be stored or about to be
      have ht := hsound.worker.eq_worker ha rfl
      subst ht
      rcases h.stored s' hv₀ with hs' | hpending | hgone
      · rw [hnone] at hs'
        cases hs'
      · exact absurd (hsound.worker.emplace_eq hcode hpending).2.symm hne
      · exact hstage.mayRegister_false hgone
  · -- verified by this act, for a uid without an entry
    simp only [VerifiesFresh, hcode] at hok
    rw [huid, hex.sess_none hok nofun] at hs
    cases hs

/-- The three together. -/
theorem UidsOk.run (h : UidsOk σ) (hsound : Sound σ) (hok : VerifiesFresh σ (.run t))
    (hcode : σ.code t = a :: rest) (hex : Exec cfg t σ a σ' new) :
    UidsOk { σ' with code := advance σ.code t new rest } := by
  have hfresh := h.fresh_run hsound hok hcode hex
  have hstored := h.stored_run hsound hcode hex
  have hsingle := h.single_run hsound hok hcode hex
  exact ⟨hfresh, hstored, hsingle⟩

/-- Steps that are no acts leave the tables and the sessions alone. -/
theorem UidsOk.quiet (h : UidsOk σ) (hq : Quiet σ σ') : UidsOk σ' := by
  refine ⟨fun uid s hb => ?_, fun s => ?_, fun s s' => ?_⟩
  · rw [hq.sess]
    rcases hq.begun _ hb with hold | heq | ⟨_, _, heq⟩
    · exact h.fresh uid s hold
    · cases heq
    · cases heq
  · rw [hq.verified, hq.sess, hq.userId, hq.stage]
    intro hv
    exact (h.stored s hv).imp id (.imp (hq.pending _) id)
  · rw [hq.verified, hq.sess, hq.userId, hq.stage]
    exact h.single s s'

theorem uidsOk_init : UidsOk init := by
  refine ⟨fun _ _ _ => rfl, fun s hv => ?_, fun s s' hv => ?_⟩
  · cases hv
  · cases hv

/-- In every run in which sessions are verified for free uids. -/
theorem uidsOk_of_reach (h : Reach (step cfg) VerifiesFresh init σ) : UidsOk σ :=
  Quiet.invariant sound_of_reach uidsOk_init UidsOk.run UidsOk.quiet h

/-! ## What `Close` removes

The history records what each removal has found. From `temp_sess_`, where sessions stand under their
own id,
a session can only remove itself; from `sess_` it does by `UidsOk`. -/

/-- The entry under the uid is the session's own: if it were another's, this `Close` would have
nothing to remove. -/
theorem UidsOk.erasedSess (h : UidsOk σ) (hsound : Sound σ) (ha : a ∈ σ.code t) {s : SessId}
    {found : Option SessId} (hrec : Records t σ a (.erasedSess s found)) :
    found = none ∨ found = some s := by
  cases hrec with
  | @erasedSess _ uid =>
    rcases hsound.close.stage_of_closes (s := s) ha (by simp [Act.closes]) with
      ⟨heq, -⟩ | ⟨heq, -⟩ | ⟨heq, hstage⟩ | ⟨heq, -⟩
    · cases heq
    · cases heq
    · obtain rfl : uid = (σ.sessions s).userId := by cases heq; rfl
      cases hs : σ.sess (σ.sessions s).userId with
      | none => exact .inl rfl
      | some s₁ =>
        right
        by_contra hne
        have hgone := h.single s₁ s (hsound.close.toSess s hstage) hs fun h => hne (h ▸ rfl)
        rw [hstage] at hgone
        cases hgone
    · cases heq

/-- The entries of `temp_sess_` stand under the session itself. -/
theorem TempOk.erasedTemp (h : TempOk σ) {s : SessId} {found : Option SessId}
    (hrec : Records t σ a (.erasedTemp s found)) : found = none ∨ found = some s := by
  cases hrec with
  | erasedTemp =>
    cases hs : σ.tempSess s with
    | none => exact .inl rfl
    | some s₁ => exact .inr (h.self s s₁ hs ▸ rfl)

theorem RemovesOwn.run (h : RemovesOwn σ) (hsound : Sound σ) (htemp : TempOk σ) (huids : UidsOk σ)
    (hcode : σ.code t = a :: rest) (hex : Exec cfg t σ a σ' new) :
    RemovesOwn { σ' with code := advance σ.code t new rest } := by
  rintro s found (hlog | hlog)
  · rcases hex.mem_log hlog with hold | hrec
    · exact h s found (.inl hold)
    · exact huids.erasedSess hsound (head_mem hcode) hrec
  · rcases hex.mem_log hlog with hold | hrec
    · exact h s found (.inr hold)
    · exact htemp.erasedTemp hrec

theorem RemovesOwn.quiet (h : RemovesOwn σ) (hq : Quiet σ σ') : RemovesOwn σ' := by
  rintro s found (hlog | hlog)
  · rcases hq.log _ hlog with hold | ⟨_, _, heq⟩
    · exact h s found (.inl hold)
    · cases heq
  · rcases hq.log _ hlog with hold | ⟨_, _, heq⟩
    · exact h s found (.inr hold)
    · cases heq

theorem removesOwn_init : RemovesOwn init := by
  rintro s found (hlog | hlog) <;> cases hlog

/-- In every run in which sessions are verified for free uids. -/
theorem removesOwn_of_reach (h : Reach (step cfg) VerifiesFresh init σ) : RemovesOwn σ := by
  have hknown : ∀ {σ}, Reach (step cfg) VerifiesFresh init σ → Sound σ ∧ TempOk σ ∧ UidsOk σ :=
    fun h => ⟨sound_of_reach h, tempOk_of_reach h, uidsOk_of_reach h⟩
  exact Quiet.invariant hknown removesOwn_init
    (fun hown hk _ hcode hex => hown.run hk.1 hk.2.1 hk.2.2 hcode hex) RemovesOwn.quiet h

/-- **Verified sessions are stored under their uid, and `Close` removes no foreign entry**, as long as
no session is verified for a uid that is taken. -/
theorem storedUnderUid_of_verifiesFresh (cfg : Config) (σ : State)
    (h : Reach (step cfg) VerifiesFresh init σ) :
    (¬ Processing σ → StoredUnderUid σ) ∧ RemovesOwn σ := by
  refine ⟨fun hidle s hv hup => ?_, removesOwn_of_reach h⟩
  have hsound := sound_of_reach h
  rcases (uidsOk_of_reach h).stored s hv with hs | hpending | hgone
  · exact hs
  · have hfits := hsound.worker.fits worker _ hpending
    rw [if_pos rfl] at hfits
    obtain ⟨n, hitem⟩ := hfits
    exact absurd ⟨by simp [hitem], List.ne_nil_of_mem hpending⟩ hidle
  · rw [hsound.close.up s hup] at hgone
    cases hgone

/-- Two sessions, one after the other, are verified as user 7: the first is closed before the second
presents its token. -/
theorem storedUnderUid_reconnect :
    ∃ σ, (Reach (step exampleConfig) VerifiesFresh init σ ∧ ¬ Processing σ ∧
      (σ.sessions 1).verified = true ∧ (σ.sessions 1).down = false ∧
      .erasedSess 0 (some 0) ∈ σ.log) ∧
      σ.sess (σ.sessions 1).userId = some 1 ∧ RemovesOwn σ := by
  have hrun : ((Trace.run (step exampleConfig) VerifiesFresh init
      (starting ++ accepting 0 ++ accepting 1 ++ receiving 2 0 verifyFrame ++ waking 22 ++
        taking 0 ++ closing 3 0 ++ receiving 2 1 verifyFrame ++ waking 9 ++ taking 22)).any
        fun σ => decide (¬ Processing σ ∧ (σ.sessions 1).verified = true ∧
          (σ.sessions 1).down = false ∧ .erasedSess 0 (some 0) ∈ σ.log)) = true := by
    decide +kernel
  obtain ⟨σ, hreach, htest⟩ := exists_reach_of_run hrun
  obtain ⟨hidle, hv, hup, hlog⟩ := of_decide_eq_true htest
  obtain ⟨hstored, hown⟩ := storedUnderUid_of_verifiesFresh exampleConfig σ hreach
  exact ⟨σ, ⟨hreach, hidle, hv, hup, hlog⟩, hstored hidle 1 hv hup, hown⟩

/-- Session 1 is verified as user 7 while session 0 is stored under this uid: it cannot be found. When
it is closed, the entry of session 0 goes. -/
theorem not_storedUnderUid_sameUser :
    (∃ σ, Reach (step exampleConfig) anyStep init σ ∧ ¬ Processing σ ∧ ¬ StoredUnderUid σ) ∧
      ∃ σ, Reach (step exampleConfig) anyStep init σ ∧ ¬ RemovesOwn σ := by
  have hboth : ((Trace.run (step exampleConfig) anyStep init
      (starting ++ accepting 0 ++ accepting 1 ++ receiving 2 0 verifyFrame ++
        receiving 2 1 verifyFrame ++ waking 22 ++ taking 22)).any
        fun σ => decide (¬ Processing σ ∧ (σ.sessions 1).verified = true ∧
          (σ.sessions 1).down = false ∧ σ.sess (σ.sessions 1).userId = some 0)) = true := by
    decide +kernel
  have hclosed : ((Trace.run (step exampleConfig) anyStep init
      (starting ++ accepting 0 ++ accepting 1 ++ receiving 2 0 verifyFrame ++
        receiving 2 1 verifyFrame ++ waking 22 ++ taking 22 ++ taking 0 ++ closing 3 1)).any
        fun σ => decide (.erasedSess 1 (some 0) ∈ σ.log)) = true := by
    decide +kernel
  obtain ⟨σ, hreach, htest⟩ := exists_reach_of_run hboth
  obtain ⟨hidle, hv, hup, hs⟩ := of_decide_eq_true htest
  obtain ⟨σ₁, hreach₁, htest₁⟩ := exists_reach_of_run hclosed
  refine ⟨⟨σ, hreach, hidle, fun hstored => ?_⟩, σ₁, hreach₁, fun hown => ?_⟩
  · rw [hstored 1 hv hup] at hs
    cases hs
  · rcases hown 1 (some 0) (.inl (of_decide_eq_true htest₁)) with h | h <;> cases h

end Chatroom.Backend
