import Chatroom.Server.Backend.Uploads

/-!
# The notice of a close

`Close` queues one notice that the session is closed, a null message. It is taken from the queue at most
once, and what its processing does is done by the worker, one event at a time. Both hold in every run.
-/

namespace Chatroom.Backend

open Trace Threads

variable {cfg : Config} {σ σ' : State} {t : Tid} {a : Act} {new rest : List Act} {l : Label}
  {s : SessId}

/-! ## Notices in the queue

A notice is counted at three places: with the thread that is to queue it, in the queue, and in the
history
once it was taken. It is at one of them only, from the moment where `Close` sets `down_` on; and
`compare_exchange_strong` lets one `Close` only come to that. -/

/-- The notices that session `s` is closed: thread `t` is to queue it, it is queued, it was taken. -/
def notices (σ : State) (s : SessId) (t : Tid) : ℕ :=
  (σ.code t).count (.enqueue s none) + (σ.queue.count (s, none) + σ.log.count (.taken s none))

structure NoticeOk (σ : State) : Prop where
  once : ∀ s t, notices σ s t ≤ if (σ.sessions s).down = true then 1 else 0
  closer : ∀ s t, (σ.sessions s).closer ≠ some t → (σ.code t).count (.enqueue s none) = 0

def Act.notifies : Act → Bool
  | .enqueue _ none => true
  | _ => false

/-- A notice comes from a `Close` that finds the session up. -/
theorem Exec.enqueue_new (h : Exec cfg t σ a σ' new) (hb : .enqueue s none ∈ new) :
    a = .close s ∧ (σ.sessions s).down = false := by
  have hnone : new.any Act.notifies = false → False := by
    intro hany
    exact List.any_eq_false.mp hany _ hb rfl
  cases h with
  | close hup =>
    simp only [postMessage, List.cons_append, List.nil_append, List.mem_cons, reduceCtorEq,
      Act.enqueue.injEq, and_true, List.not_mem_nil, or_false, false_or] at hb
    subst hb
    exact ⟨rfl, hup⟩
  | expand he =>
    cases he with
    | dispatch hd => cases hd <;> exact (hnone rfl).elim
    | _ => exact (hnone rfl).elim
  | pushSend hnew => rcases hnew with rfl | rfl <;> exact (hnone rfl).elim
  | _ => exact (hnone rfl).elim

/-- An act begins the closing of `s`, or it has nothing to do with it. -/
theorem Exec.notice (h : Exec cfg t σ a σ' new) (s : SessId) :
    (a = .close s ∧ (σ.sessions s).down = false ∧ (σ'.sessions s).down = true ∧
        (σ'.sessions s).closer = some t ∧ new.count (.enqueue s none) = 1) ∨
      (σ'.sessions s).down = (σ.sessions s).down ∧
        (σ'.sessions s).closer = (σ.sessions s).closer ∧ new.count (.enqueue s none) = 0 := by
  by_cases hclose : a = .close s ∧ (σ.sessions s).down = false
  · obtain ⟨rfl, hup⟩ := hclose
    refine .inl ⟨rfl, hup, ?_⟩
    cases h with
    | close => simp [postMessage]
    | expand he =>
      cases he with
      | closeDown hdown =>
        rw [hup] at hdown
        cases hdown
    | crash hc => cases hc
  · have hcount : new.count (.enqueue s none) = 0 :=
      List.count_eq_zero.mpr fun hmem => hclose (h.enqueue_new hmem)
    cases h.closeChange s with
    | same _ _ hdown hcloser => exact .inr ⟨hdown, hcloser, hcount⟩
    | begin ha _ hup => exact absurd ⟨ha, hup⟩ hclose
    | next _ _ hdown hcloser => exact .inr ⟨hdown, hcloser, hcount⟩

/-- Acts take nothing from the queue. -/
theorem Exec.count_taken (h : Exec cfg t σ a σ' new) (s : SessId) :
    σ'.log.count (.taken s none) = σ.log.count (.taken s none) := by
  rcases h.log with heq | ⟨e, hrec, heq⟩
  · rw [heq]
  · have hzero : [e].count (.taken s none) = 0 := by
      refine List.count_eq_zero.mpr ?_
      cases hrec <;> simp
    rw [heq, List.count_append, hzero, Nat.add_zero]

theorem count_advance_le {b : Act} (hcode : σ.code t = a :: rest) (hnew : new.count b = 0) (t' : Tid) :
    (advance σ.code t new rest t').count b ≤ (σ.code t').count b :=
  countP_advance_le hcode (Nat.le_refl _) (Nat.le_trans (Nat.le_of_eq hnew) (Nat.zero_le _))

/-- An act puts a notice in the queue if it is the one to queue it. -/
theorem Exec.count_queue (h : Exec cfg t σ a σ' new) (s : SessId) :
    σ'.queue.count (s, none) = σ.queue.count (s, none) + [a].count (.enqueue s none) := by
  by_cases hact : a = .enqueue s none
  · subst hact
    cases h with
    | enqueueClosed => simp
    | expand he => cases he
    | crash hc => cases hc
  · have hzero : [a].count (.enqueue s none) = 0 :=
      List.count_eq_zero.mpr fun hmem => hact (List.mem_singleton.mp hmem).symm
    rcases h.queue with heq | ⟨s', msg, rfl, heq⟩
    · rw [heq, hzero, Nat.add_zero]
    · have hdiff : (s, none) ∉ [(s', msg)] := by
        intro hmem
        cases List.mem_singleton.mp hmem
        exact hact rfl
      rw [heq, List.count_append, List.count_eq_zero.mpr hdiff, hzero]

/-- A notice is queued by the thread whose `Close` has set `down_`. -/
theorem NoticeOk.eq_closer (h : NoticeOk σ) (hcode : σ.code t = .enqueue s none :: rest) :
    (σ.sessions s).closer = some t := by
  by_contra hother
  have hnone := h.closer s t hother
  rw [hcode, List.count_cons_self] at hnone
  cases hnone

/-- An act passes notices on. What is seen of them with a thread was seen with one before, but for
those that are new. -/
theorem NoticeOk.notices_run (h : NoticeOk σ) (hcode : σ.code t = a :: rest)
    (hex : Exec cfg t σ a σ' new) (s : SessId) (t' : Tid) :
    ∃ t₀, notices { σ' with code := advance σ.code t new rest } s t' ≤
      notices σ s t₀ + new.count (.enqueue s none) := by
  dsimp only [notices]
  rw [hex.count_taken s, hex.count_queue s]
  have hsplit : (σ.code t).count (.enqueue s none) =
      [a].count (.enqueue s none) + rest.count (.enqueue s none) := by
    rw [hcode, ← List.count_append]
    rfl
  by_cases heq : t' = t
  · subst heq
    refine ⟨t', ?_⟩
    rw [advance_self, List.count_append]
    omega
  rw [advance_of_ne heq]
  by_cases hact : a = .enqueue s none
  · -- it is the closer who queues the notice, and nobody else has one to queue
    subst hact
    have hnone := h.closer s t' (by rw [h.eq_closer hcode]; simpa using Ne.symm heq)
    refine ⟨t, ?_⟩
    omega
  · have hzero : [a].count (.enqueue s none) = 0 :=
      List.count_eq_zero.mpr fun hmem => hact (List.mem_singleton.mp hmem).symm
    refine ⟨t', ?_⟩
    omega

/-- There is no notice of a session that is up. -/
theorem NoticeOk.of_up (h : NoticeOk σ) (hup : (σ.sessions s).down = false) (t : Tid) :
    notices σ s t = 0 := by
  have honce := h.once s t
  rw [hup, if_neg Bool.false_ne_true] at honce
  exact Nat.le_zero.mp honce

/-- An act is done: a `Close` that begins, or nothing new. -/
theorem NoticeOk.run (h : NoticeOk σ) (hcode : σ.code t = a :: rest) (hex : Exec cfg t σ a σ' new) :
    NoticeOk { σ' with code := advance σ.code t new rest } := by
  refine ⟨fun s t' => ?_, fun s t' hne => ?_⟩
  · obtain ⟨t₀, hle⟩ := h.notices_run hcode hex s t'
    rcases hex.notice s with ⟨-, hup, hdown, -, hone⟩ | ⟨hdown, -, hzero⟩
    · dsimp only
      rw [hdown, if_pos rfl]
      rwa [h.of_up hup, hone] at hle
    · dsimp only
      rw [hdown]
      rw [hzero] at hle
      exact Nat.le_trans hle (h.once s t₀)
  · dsimp only at hne ⊢
    rcases hex.notice s with ⟨-, hup, -, hcloser, -⟩ | ⟨-, hcloser, hzero⟩
    · have hnone := h.of_up hup t'
      have heq : t' ≠ t := by
        rintro rfl
        exact hne hcloser
      rw [advance_of_ne heq]
      rw [notices] at hnone
      omega
    · rw [hcloser] at hne
      have hle := count_advance_le hcode hzero t'
      have hnone := h.closer s t' hne
      omega

/-- A step that is no act gives nobody a notice to queue. -/
theorem count_enqueue_of_not_run (h : step cfg σ l = some σ') (hl : ∀ t, l ≠ .run t) (s : SessId)
    (t : Tid) : (σ'.code t).count (.enqueue s none) = (σ.code t).count (.enqueue s none) := by
  rw [List.count_eq_length_filter, List.count_eq_length_filter,
    filter_of_not_run h hl (fun b hb => ?_) fun _ _ => rfl]
  rw [eq_of_beq hb]
  rfl

/-- The notices queued and taken, where an event is taken or nothing happens to them. -/
theorem notices_of_not_run (h : step cfg σ l = some σ') (hl : ∀ t, l ≠ .run t) (s : SessId) :
    σ'.queue.count (s, none) + σ'.log.count (.taken s none) =
      σ.queue.count (s, none) + σ.log.count (.taken s none) := by
  cases step_cases h with
  | run => exact absurd rfl (hl _)
  | @take s' msg q _ _ hq =>
    have hsame : [(s', msg)].count (s, none) = [Event.taken s' msg].count (.taken s none) := by
      simp [List.count_singleton]
    have hqueue : σ.queue.count (s, none) = [(s', msg)].count (s, none) + q.count (s, none) := by
      rw [hq, ← List.count_append, List.singleton_append]
    dsimp only
    rw [List.count_append, hqueue, hsame]
    omega
  | @call _ e => cases e <;> rfl
  | _ => rfl

/-- Steps that are no acts leave these fields of a session alone. -/
theorem sessions_of_not_run (h : step cfg σ l = some σ') (hl : ∀ t, l ≠ .run t) (s : SessId) :
    (σ'.sessions s).down = (σ.sessions s).down ∧ (σ'.sessions s).closer = (σ.sessions s).closer ∧
      (σ'.sessions s).verified = (σ.sessions s).verified ∧
      (σ'.sessions s).userId = (σ.sessions s).userId := by
  cases step_cases h with
  | run => exact absurd rfl (hl _)
  | @call _ e =>
    obtain ⟨c, w, hx, -⟩ := e.begin_sessions (σ := σ) s
    simp [hx]
  | _ => exact ⟨rfl, rfl, rfl, rfl⟩

theorem NoticeOk.step (h : NoticeOk σ) (hs : Backend.step cfg σ l = some σ') : NoticeOk σ' := by
  by_cases hl : ∃ t, l = .run t
  · obtain ⟨t, rfl⟩ := hl
    obtain ⟨a, rest, σ₁, new, hcode, hex, rfl⟩ := exec_of_step hs
    exact h.run hcode (exec_cases hex)
  · have hl : ∀ t, l ≠ .run t := fun t ht => hl ⟨t, ht⟩
    refine ⟨fun s t => ?_, fun s t hne => ?_⟩
    · rw [notices, count_enqueue_of_not_run hs hl, notices_of_not_run hs hl,
        (sessions_of_not_run hs hl s).1]
      exact h.once s t
    · rw [(sessions_of_not_run hs hl s).2.1] at hne
      rw [count_enqueue_of_not_run hs hl]
      exact h.closer s t hne

theorem noticeOk_of_reach {ok : State → Label → Prop} (h : Reach (step cfg) ok init σ) :
    NoticeOk σ := by
  have hnone : ∀ s t, (init.code t).count (.enqueue s none) = 0 := by
    intro s t
    refine List.count_eq_zero.mpr fun hmem => ?_
    cases eq_lock_of_mem_init hmem
  refine h.invariant ⟨fun s t => ?_, fun s t _ => hnone s t⟩ fun _ _ _ hinv _ hs => hinv.step hs
  rw [notices, hnone]
  exact Nat.zero_le _

/-- A notice in the queue was not taken before. -/
theorem NoticeOk.not_taken (h : NoticeOk σ) (hq : (s, none) ∈ σ.queue) : .taken s none ∉ σ.log := by
  intro hlog
  have honce := h.once s worker
  have hqueue := List.count_pos_iff.mpr hq
  have htaken := List.count_pos_iff.mpr hlog
  rw [notices] at honce
  split at honce <;> omega

/-- No notice is taken of a session that is up. -/
theorem NoticeOk.not_taken_of_up (h : NoticeOk σ) (hup : (σ.sessions s).down = false) :
    .taken s none ∉ σ.log := by
  intro hlog
  have hnone := h.of_up hup worker
  have htaken := List.count_pos_iff.mpr hlog
  rw [notices] at hnone
  omega

/-! ## The processing of a close

For a notice `Processor` puts the user into `removal_sess_`. Two acts are counted together here, the
begin of
the processing and the removal, since the one makes way for the other. -/

/-- The begin of the processing of an event, and the removal it may lead to. -/
def Act.leaves : Act → Bool
  | .processor _ _ | .removeOnline _ => true
  | _ => false

/-- No entry point begins with one of them. -/
theorem Act.begins_of_leaves (h : a.leaves = true) : a.begins = false := by
  cases a with
  | processor s msg | removeOnline uid => rfl
  | _ => cases h

def LeavesOk (σ : State) : Prop :=
  ∀ t, (σ.code t).countP Act.leaves ≤ if t = worker then 1 else 0

/-- A removal comes from a begin of the processing, and from nothing else. -/
theorem Exec.leaves_le (h : Exec cfg t σ a σ' new) :
    new.countP Act.leaves ≤ [a].countP Act.leaves := by
  cases h with
  | expand he =>
    cases he with
    | dispatch hd => cases hd <;> exact Nat.le_of_ble_eq_true rfl
    | _ => exact Nat.le_of_ble_eq_true rfl
  | crash => exact Nat.zero_le _
  | pushSend hnew => rcases hnew with rfl | rfl <;> exact Nat.le_of_ble_eq_true rfl
  | _ => exact Nat.le_of_ble_eq_true rfl

/-- The worker takes an event only when it has nothing left to do. -/
theorem LeavesOk.step (h : LeavesOk σ) (hs : Backend.step cfg σ l = some σ') : LeavesOk σ' := by
  intro t
  by_cases hl : ∃ t, l = .run t
  · obtain ⟨t₀, rfl⟩ := hl
    obtain ⟨a, rest, σ₁, new, hcode, hex, rfl⟩ := exec_of_step hs
    exact countP_advance_le hcode (h t) (exec_cases hex).leaves_le
  · rcases code_of_not_run hs (fun t ht => hl ⟨t, ht⟩) t with
      hsame | ⟨-, ⟨rfl, s', msg, hproc⟩ | hbegins⟩
    · rw [hsame]
      exact h t
    · rw [hproc, if_pos rfl]
      exact Nat.le_refl _
    · have hnone : (σ'.code t).countP Act.leaves = 0 := by
        rw [List.countP_eq_zero]
        intro b hb hleaves
        have hbegin := List.all_eq_true.mp hbegins b hb
        rw [Act.begins_of_leaves hleaves] at hbegin
        cases hbegin
      rw [hnone]
      exact Nat.zero_le _

theorem leavesOk_of_reach {ok : State → Label → Prop} (h : Reach (step cfg) ok init σ) :
    LeavesOk σ := by
  refine h.invariant (fun t => ?_) fun _ _ _ hinv _ hs => LeavesOk.step hinv hs
  have hnone : (init.code t).countP Act.leaves = 0 := by
    rw [List.countP_eq_zero]
    intro a ha
    rw [eq_lock_of_mem_init ha]
    decide
  rw [hnone]
  exact Nat.zero_le _

/-- While one of the two is pending it is the only one, and with the worker. -/
theorem LeavesOk.alone (h : LeavesOk σ) (hcode : σ.code t = a :: rest) (ha : a.leaves = true) :
    t = worker ∧ ∀ b ∈ rest, b.leaves = false := by
  have ht := h t
  rw [hcode, List.countP_cons_of_pos ha] at ht
  split at ht
  · next heq =>
    refine ⟨heq, fun b hb => ?_⟩
    have hzero : rest.countP Act.leaves = 0 := by omega
    simpa using List.countP_eq_zero.mp hzero b hb
  · omega

end Chatroom.Backend
