import Chatroom.Client.SendWorker

/-!
# What the client sends

The machine of `SendWorker`, with what has been given to `Send` and what has been written to the socket.
Each message is written once and in its turn; only the one whose write fails is lost. `Send` notifies
the worker for the first message of the queue only, and with the lock held, and that is enough: the
worker never sleeps on a message, so it comes to write all of them without any further notification.
-/

namespace Chatroom.SendWorker

open Trace CondVar

variable {α : Type}

/-- The client, and its traffic. -/
structure Traffic (α : Type) where
  client : State α
  /-- What `Send` has been called with, and what has been written completely. -/
  posted : List α
  written : List α

def Label.posts : Label α → List α
  | .send msg => [msg]
  | _ => []

def Label.writes (σ : State α) : Label α → List α
  | .written true => σ.sending.toList
  | _ => []

namespace Traffic

def init : Traffic α := ⟨SendWorker.init, [], []⟩

def step (τ : Traffic α) (l : Label α) : Option (Traffic α) :=
  (SendWorker.step τ.client l).map fun σ => ⟨σ, τ.posted ++ l.posts, τ.written ++ l.writes τ.client⟩

end Traffic

variable {σ σ' : State α} {τ τ' : Traffic α} {l : Label α} {out : List α}

/-! ## Each message once, and in its turn

`Moved` says what a step does with messages, and is all that the rest of this section uses of the
machine. At most one message is out of the queue and not written; where it is depends on the phase of
the
worker (`Out`). -/

/-- The message that is out of the queue and not written: the one that is being written, or one whose
write has failed. -/
def Out (sending : Option α) (out : List α) : Waiter Phase → Prop
  | .awake .writing | .awake .failed => ∃ msg, sending = some msg ∧ out = [msg]
  | .awake .exited => out.length ≤ 1
  | _ => out = []

theorem Out.length_le {sending : Option α} {w : Waiter Phase} {out : List α} (h : Out sending out w) :
    out.length ≤ 1 := by
  unfold Out at h
  split at h
  · obtain ⟨msg, -, rfl⟩ := h
    exact Nat.le_refl 1
  · obtain ⟨msg, -, rfl⟩ := h
    exact Nat.le_refl 1
  · exact h
  · rw [h]
    exact Nat.zero_le 1

/-- What is out before a step is out after it. -/
def KeepsOut (σ σ' : State α) : Prop :=
  ∀ out, Out σ.sending out σ.worker → Out σ'.sending out σ'.worker

/-- What a step does with messages: nothing, or one of them comes into the queue, out of it, or to its
end. -/
inductive Moved (σ σ' : State α) : Label α → Prop
  | rests {l : Label α} : l.posts = [] → l.writes σ = [] → σ'.sendQ = σ.sendQ → KeepsOut σ σ' →
      Moved σ σ' l
  | posts {msg : α} : σ'.sendQ = σ.sendQ ++ [msg] → KeepsOut σ σ' → Moved σ σ' (.send msg)
  | takes {msg : α} : σ.sendQ = msg :: σ'.sendQ → σ.worker = .awake .leaving →
      Out σ'.sending [msg] σ'.worker → Moved σ σ' .leave
  | writes : σ.worker = .awake .writing → σ'.sendQ = σ.sendQ → Out σ'.sending [] σ'.worker →
      Moved σ σ' (.written true)

theorem out_notify {sending : Option α} {w : Waiter Phase} (h : Out sending out w) :
    Out sending out w.notify := by
  cases w with
  | awake p => exact h
  | blocked | notified => exact h

/-- `Send` may wake the worker, which has no message in its hands while it waits. -/
theorem keepsOut_send (msg : α) : KeepsOut σ (send σ msg) := by
  intro out h
  rcases send_worker σ msg with hsame | hnotify
  · rw [hsame]
    exact h
  · rw [hnotify]
    exact out_notify h

theorem keepsOut_close : KeepsOut σ (close σ) := by
  intro out h
  unfold close
  split <;> exact h

/-- The worker goes from one phase to another. -/
theorem keepsOut_goes {w : Waiter Phase} (hw : σ.worker = w) (hsending : σ'.sending = σ.sending)
    (h : ∀ out, Out σ.sending out w → Out σ.sending out σ'.worker) : KeepsOut σ σ' := by
  intro out hout
  rw [hw] at hout
  rw [hsending]
  exact h out hout

/-- When the inner loop is left, the first message is taken, or the worker returns with the queue as
it is. -/
theorem moved_leave (hs : step σ .leave = some σ') : Moved σ σ' .leave := by
  simp only [step] at hs
  split at hs
  · next hphase =>
    split at hs
    · split at hs
      · next msg sendQ hsendQ =>
        cases hs
        exact .takes hsendQ hphase ⟨msg, rfl, rfl⟩
      · cases hs
    · cases hs
      refine .rests rfl rfl rfl (keepsOut_goes hphase rfl fun out hout => ?_)
      cases hout
      exact Nat.zero_le 1
  · cases hs

/-- A write ends well, or the message stays out for good. -/
theorem moved_written {ok : Bool} (hs : step σ (.written ok) = some σ') : Moved σ σ' (.written ok) := by
  obtain ⟨hphase, rfl⟩ := of_guard hs
  cases ok with
  | true => exact .writes hphase rfl rfl
  | false => exact .rests rfl rfl rfl (keepsOut_goes hphase rfl fun _ hout => hout)

/-- Every step of the machine is one of the four. -/
theorem moved_cases (hs : step σ l = some σ') : Moved σ σ' l := by
  cases l with
  | connected | lock | block | resume | spurious =>
    obtain ⟨hphase, rfl⟩ := of_guard hs
    exact .rests rfl rfl rfl (keepsOut_goes hphase rfl fun _ hout => hout)
  | test =>
    obtain ⟨hphase, rfl⟩ := of_guard hs
    refine .rests rfl rfl rfl (keepsOut_goes hphase rfl fun out hout => ?_)
    cases hout
    show Out _ [] (.awake (if _ then _ else _))
    split
    · rfl
    · exact Nat.zero_le 1
  | check =>
    obtain ⟨hphase, rfl⟩ := of_guard hs
    refine .rests rfl rfl rfl (keepsOut_goes hphase rfl fun out hout => ?_)
    show Out _ out (.awake (if _ then _ else _))
    split <;> exact hout
  | send msg =>
    obtain ⟨-, rfl⟩ := of_guard hs
    exact .posts rfl (keepsOut_send msg)
  | close =>
    cases hs
    refine .rests rfl rfl ?_ keepsOut_close
    unfold close
    split <;> rfl
  | notifyAll =>
    obtain ⟨-, rfl⟩ := of_guard hs
    exact .rests rfl rfl rfl fun _ hout => out_notify hout
  | leave => exact moved_leave hs
  | written => exact moved_written hs
  -- the message that could not be written is lost, and no other is taken any more
  | giveUp =>
    obtain ⟨hphase, rfl⟩ := of_guard hs
    refine .rests rfl rfl ?_ (keepsOut_goes hphase ?_ fun out hout => ?_)
    · show (close σ).sendQ = σ.sendQ
      unfold close
      split <;> rfl
    · show (close σ).sending = σ.sending
      unfold close
      split <;> rfl
    · obtain ⟨msg, -, rfl⟩ := hout
      exact Nat.le_refl 1

/-- What has been posted is what has been written, what is out and what is in the queue, in this
order. -/
def InTurn (τ : Traffic α) : Prop :=
  ∃ out, Out τ.client.sending out τ.client.worker ∧ τ.posted = τ.written ++ out ++ τ.client.sendQ

/-- The step lemma: a message goes from the end of the queue to its front, and from there to the
socket. -/
theorem InTurn.step (h : InTurn τ) (hs : Traffic.step τ l = some τ') : InTurn τ' := by
  obtain ⟨σ', hclient, rfl⟩ := Option.map_eq_some_iff.mp hs
  obtain ⟨out, hout, heq⟩ := h
  cases moved_cases hclient with
  | rests hposts hwrites hsendQ hkeeps =>
    refine ⟨out, hkeeps out hout, ?_⟩
    show τ.posted ++ l.posts = τ.written ++ l.writes τ.client ++ out ++ σ'.sendQ
    rw [hposts, hwrites, hsendQ, List.append_nil, List.append_nil, heq]
  | @posts msg hsendQ hkeeps =>
    refine ⟨out, hkeeps out hout, ?_⟩
    show τ.posted ++ [msg] = τ.written ++ [] ++ out ++ σ'.sendQ
    rw [hsendQ, heq, List.append_nil, List.append_assoc _ τ.client.sendQ]
  | @takes msg hsendQ hphase hnew =>
    refine ⟨[msg], hnew, ?_⟩
    rw [hphase] at hout
    cases hout
    show τ.posted ++ [] = τ.written ++ [] ++ [msg] ++ σ'.sendQ
    rw [heq, hsendQ, List.append_nil, List.append_nil, List.append_assoc]
    rfl
  | writes hphase hsendQ hnew =>
    refine ⟨[], hnew, ?_⟩
    rw [hphase] at hout
    obtain ⟨msg, hsending, rfl⟩ := hout
    show τ.posted ++ [] = τ.written ++ τ.client.sending.toList ++ [] ++ σ'.sendQ
    rw [heq, hsending, hsendQ, List.append_nil, List.append_nil]
    rfl

theorem inTurn_of_reach {ok : Traffic α → Label α → Prop}
    (h : Reach Traffic.step ok (Traffic.init : Traffic α) τ) : InTurn τ :=
  h.invariant ⟨[], rfl, rfl⟩ fun _ _ _ hinv _ hs => hinv.step hs

/-- **Each message is written once and in its turn**, in every run of the client: what has been given to
`Send` is what has been written, then at most one message that is being written or whose write has
failed, then the queue. -/
theorem sends_inTurn (τ : Traffic α) (h : Reach Traffic.step anyStep Traffic.init τ) :
    ∃ out, τ.posted = τ.written ++ out ++ τ.client.sendQ ∧ out.length ≤ 1 ∧
      (out ≠ [] → τ.client.worker = .awake .writing ∨ τ.client.worker = .awake .failed ∨
        τ.client.worker = .awake .exited) := by
  obtain ⟨out, hout, heq⟩ := inTurn_of_reach h
  refine ⟨out, heq, hout.length_le, fun hne => ?_⟩
  unfold Out at hout
  split at hout
  · next hw => exact .inl hw
  · next hw => exact .inr (.inl hw)
  · next hw => exact .inr (.inr hw)
  · exact absurd hout hne

/-- Two messages, the first of which wakes the worker. -/
def twoSends : List (Label ℕ) := [.connected, .test, .lock, .check, .block, .send 1, .send 2]

theorem sends_inTurn_two : ∃ τ : Traffic ℕ, Reach Traffic.step anyStep Traffic.init τ ∧
    τ.posted = [1, 2] ∧ ∃ out, τ.posted = τ.written ++ out ++ τ.client.sendQ ∧ out.length ≤ 1 ∧
      (out ≠ [] → τ.client.worker = .awake .writing ∨ τ.client.worker = .awake .failed ∨
        τ.client.worker = .awake .exited) := by
  have hrun : run Traffic.step anyStep (Traffic.init : Traffic ℕ) twoSends = some _ := rfl
  exact ⟨_, reach_of_run hrun, rfl, sends_inTurn _ (reach_of_run hrun)⟩

/-! ## No message is slept on

`Send` notifies only for the first message of an empty queue, since it takes the others to be seen by
a
worker that is awake anyhow. This is right because a worker that waits, or has decided to, has found
the
queue empty under the lock that `Send` needs. -/

/-- The phases of a worker that has been started and has not come to its end. -/
def Phase.live : Phase → Bool
  | .absent | .failed | .exited => false
  | _ => true

structure Attentive (σ : State α) : Prop where
  /-- The worker waits, or is about to, only when the queue is empty. -/
  empty : σ.worker = .awake .deciding ∨ σ.worker = .blocked → σ.sendQ = []
  live : σ.running = true → ∀ p, σ.worker = .awake p → p.live = true

/-- No write fails. -/
def WritesOk (_ : Traffic α) : Label α → Prop
  | .written false => False
  | _ => True

/-- A message for a worker that waits is the first in the queue, and notifies it. -/
theorem attentive_send {msg : α} (h : Attentive σ) (hfree : Free σ) : Attentive (send σ msg) := by
  refine ⟨fun hw => ?_, fun hrun p hp => h.live hrun p (send_worker_eq_awake hp)⟩
  rcases hw with hdeciding | hblocked
  · exact absurd (send_worker_eq_awake hdeciding) hfree.2.1
  · -- the message is the first of the queue, so `Send` notifies the worker
    have hempty := h.empty (.inr (send_worker_eq_blocked hblocked))
    have hnotify : (send σ msg).worker = σ.worker.notify := by
      unfold send
      dsimp only
      rw [hempty]
      exact if_pos rfl
    rw [hnotify] at hblocked
    exact absurd hblocked Waiter.notify_ne_blocked

theorem attentive_goto {p : Phase} (hp : p ≠ .deciding) (hlive : σ.running = true → p.live = true) :
    Attentive (goto σ p) := by
  refine ⟨fun hw => ?_, fun hrun q hq => ?_⟩
  · rcases hw with hdeciding | hblocked
    · cases hdeciding
      exact absurd rfl hp
    · cases hblocked
  · cases hq
    exact hlive hrun

/-- The worker goes to its wait only by way of the test of the queue. -/
theorem Attentive.step (h : Attentive σ) (hok : ∀ ok, l = .written ok → ok = true)
    (hs : SendWorker.step σ l = some σ') : Attentive σ' := by
  cases l with
  | connected =>
    obtain ⟨-, rfl⟩ := of_guard hs
    exact attentive_goto (σ := { σ with running := true }) (by decide) fun _ => rfl
  | send msg =>
    obtain ⟨hfree, rfl⟩ := of_guard hs
    exact attentive_send h hfree
  | close =>
    cases hs
    unfold close
    split
    · exact ⟨h.empty, fun hrun => by cases hrun⟩
    · exact h
  | notifyAll =>
    obtain ⟨-, rfl⟩ := of_guard hs
    -- a notification blocks nobody, and leaves a thread that is awake where it is
    refine ⟨fun hw => ?_, fun hrun p hp => h.live hrun p (Waiter.notify_eq_awake.mp hp)⟩
    rcases hw with hdeciding | hblocked
    · exact h.empty (.inl (Waiter.notify_eq_awake.mp hdeciding))
    · exact absurd hblocked Waiter.notify_ne_blocked
  | test =>
    obtain ⟨-, rfl⟩ := of_guard hs
    refine attentive_goto ?_ fun hrun => ?_
    · split <;> decide
    · rw [if_pos hrun]
      rfl
  | lock | resume | spurious =>
    obtain ⟨-, rfl⟩ := of_guard hs
    exact attentive_goto (by decide) fun _ => rfl
  | check =>
    obtain ⟨-, rfl⟩ := of_guard hs
    -- the decision to wait is made on an empty queue, with the lock in hand
    by_cases htest : σ.running ∧ σ.sendQ = []
    · rw [if_pos htest]
      refine ⟨fun _ => htest.2, fun _ p hp => ?_⟩
      cases hp
      rfl
    · rw [if_neg htest]
      exact attentive_goto (by decide) fun _ => rfl
  | block =>
    obtain ⟨hphase, rfl⟩ := of_guard hs
    -- nobody could push since the decision
    exact ⟨fun _ => h.empty (.inl hphase), fun _ p hp => by cases hp⟩
  | leave =>
    simp only [SendWorker.step] at hs
    split at hs
    · split at hs
      · split at hs
        · cases hs
          exact attentive_goto (σ := { σ with sending := _, sendQ := _ }) (by decide) fun _ => rfl
        · cases hs
      · next hstopped =>
        cases hs
        exact attentive_goto (by decide) fun hrun => absurd hrun hstopped
    · cases hs
  | written ok =>
    obtain ⟨-, rfl⟩ := of_guard hs
    rw [if_pos (hok ok rfl)]
    exact attentive_goto (by decide) fun _ => rfl
  | giveUp =>
    obtain ⟨-, rfl⟩ := of_guard hs
    refine attentive_goto (by decide) fun hrun => ?_
    unfold close at hrun
    split at hrun
    · cases hrun
    · next hstopped => exact absurd hrun hstopped

/-- In every run without a failed write. -/
theorem attentive_of_reach (h : Reach Traffic.step WritesOk (Traffic.init : Traffic α) τ) :
    Attentive τ.client := by
  induction h with
  | refl =>
    refine ⟨fun _ => rfl, fun hrun => ?_⟩
    cases hrun
  | tail _ hok hs ih =>
    obtain ⟨σ', hclient, rfl⟩ := Option.map_eq_some_iff.mp hs
    refine ih.step (fun ok hl => ?_) hclient
    subst hl
    cases ok with
    | true => rfl
    | false => exact hok.elim

/-- The machine of the client runs along. -/
theorem client_of_reach {ok : Traffic α → Label α → Prop}
    (h : Reach Traffic.step ok (Traffic.init : Traffic α) τ) :
    Reach SendWorker.step anyStep SendWorker.init τ.client := by
  induction h with
  | refl => exact .refl
  | tail _ _ hs ih =>
    obtain ⟨σ', hclient, rfl⟩ := Option.map_eq_some_iff.mp hs
    exact ih.tail trivial hclient

/-! ## All messages get written

A measure: six for each message in the queue, and less for each phase that the worker has left until
it
waits. Every step of its own makes this smaller, and only with an empty queue is there none. -/

/-- The steps that the worker takes by itself, with writes that succeed. -/
def Label.own : Label α → Bool
  | .test | .lock | .check | .resume | .leave | .written true => true
  | _ => false

def Phase.rank : Phase → ℕ
  | .writing => 5
  | .testing => 4
  | .locking => 3
  | .checking => 2
  | .leaving => 1
  | _ => 0

/-- What the worker has to do before it waits. -/
def State.work (σ : State α) : ℕ :=
  6 * σ.sendQ.length + match σ.worker with
    | .awake p => p.rank
    | .notified => 3
    | .blocked => 0

theorem work_awake {p : Phase} (h : σ.worker = .awake p) : σ.work = 6 * σ.sendQ.length + p.rank := by
  rw [State.work, h]

theorem work_goto (σ : State α) (p : Phase) : (goto σ p).work = 6 * σ.sendQ.length + p.rank := rfl

/-- A worker that does not wait takes a step of its own, and has less to do then. -/
theorem own_step (h : Attentive σ) (hleaves : LeavesOk σ) (hrun : σ.running = true)
    (hdeciding : σ.worker ≠ .awake .deciding) (hblocked : σ.worker ≠ .blocked) :
    ∃ l σ', l.own = true ∧ SendWorker.step σ l = some σ' ∧ σ'.running = true ∧ σ'.work < σ.work := by
  cases hw : σ.worker with
  | blocked => exact absurd hw hblocked
  | notified =>
    refine ⟨.resume, _, rfl, if_pos hw, hrun, ?_⟩
    rw [work_goto, State.work, hw]
    exact Nat.lt_succ_self _
  | awake p =>
    -- awake: the step of the phase, which leaves less to do
    rw [work_awake hw]
    have hlive := h.live hrun p hw
    cases p with
    | absent | failed | exited => cases hlive
    | deciding => exact absurd hw hdeciding
    | testing =>
      refine ⟨.test, _, rfl, if_pos hw, hrun, ?_⟩
      rw [work_goto, if_pos hrun]
      exact Nat.lt_succ_self _
    | locking => exact ⟨.lock, _, rfl, if_pos hw, hrun, Nat.lt_succ_self _⟩
    | checking =>
      refine ⟨.check, _, rfl, if_pos hw, hrun, ?_⟩
      rw [work_goto]
      split
      · exact Nat.lt_add_of_pos_right (by decide)
      · exact Nat.lt_succ_self _
    -- the queue is not empty here, so a message is taken off it
    | leaving =>
      cases hsendQ : σ.sendQ with
      | nil => exact absurd hsendQ (hleaves hw hrun)
      | cons msg sendQ =>
        refine ⟨.leave, { goto σ .writing with sending := some msg, sendQ }, rfl, ?_, hrun, ?_⟩
        · simp only [SendWorker.step, if_pos hw, hrun, hsendQ, if_true]
        · show 6 * sendQ.length + 5 < 6 * (sendQ.length + 1) + 1
          omega
    | writing => exact ⟨.written true, _, rfl, if_pos hw, hrun, Nat.lt_succ_self _⟩

/-- The worker posts nothing. -/
theorem own_posts (h : l.own = true) : l.posts = [] := by
  cases l with
  | send => cases h
  | _ => rfl

/-- Its own steps are those in which writes succeed. -/
theorem own_writesOk (h : l.own = true) : WritesOk τ l := by
  cases l with
  | written ok =>
    cases ok with
    | true => trivial
    | false => cases h
  | _ => trivial

/-- When the worker waits, everything is written. -/
theorem written_of_waits (h : Reach Traffic.step WritesOk (Traffic.init : Traffic α) τ)
    (hwaits : τ.client.worker = .awake .deciding ∨ τ.client.worker = .blocked) :
    τ.written = τ.posted := by
  obtain ⟨out, hout, heq⟩ := inTurn_of_reach h
  have hnone : out = [] := by
    rcases hwaits with hw | hw
    · rw [hw] at hout
      exact hout
    · rw [hw] at hout
      exact hout
  rw [heq, hnone, (attentive_of_reach h).empty hwaits, List.append_nil, List.append_nil]

/-- By steps of its own the worker comes to the end of the queue. -/
theorem exists_drained (h : Reach Traffic.step WritesOk (Traffic.init : Traffic α) τ)
    (hrun : τ.client.running = true) :
    ∃ ls τ', (∀ l ∈ ls, l.own = true) ∧ run Traffic.step anyStep τ ls = some τ' ∧
      τ'.written = τ.posted := by
  -- on the work that is left; a step of its own keeps the hypotheses
  induction hwork : τ.client.work using Nat.strongRecOn generalizing τ with
  | _ n ih =>
    by_cases hwaits : τ.client.worker = .awake .deciding ∨ τ.client.worker = .blocked
    · exact ⟨[], τ, fun l hl => (by cases hl), rfl, written_of_waits h hwaits⟩
    · obtain ⟨hdeciding, hblocked⟩ := not_or.mp hwaits
      have hleaves : LeavesOk τ.client := (client_of_reach h).invariant (fun hphase => by cases hphase)
        fun _ _ _ hinv _ hs => hinv.step hs
      obtain ⟨l, σ', hown, hclient, hrun', hlt⟩ :=
        own_step (attentive_of_reach h) hleaves hrun hdeciding hblocked
      have hs : Traffic.step τ l = some ⟨σ', τ.posted ++ l.posts, τ.written ++ l.writes τ.client⟩ :=
        Option.map_eq_some_iff.mpr ⟨σ', hclient, rfl⟩
      obtain ⟨ls, τ', hall, hls, hwritten⟩ :=
        ih _ (hwork ▸ hlt) (h.tail (own_writesOk hown) hs) hrun' rfl
      refine ⟨l :: ls, τ', fun l' hl' => ?_, run_cons trivial hs hls, ?_⟩
      · rcases List.mem_cons.mp hl' with rfl | hl'
        · exact hown
        · exact hall l' hl'
      · rw [hwritten, own_posts hown, List.append_nil]

/-- **All messages get written**: as long as the client runs and no write fails, the worker can write
everything that has been given to `Send`, by steps of its own and without any further notification, from
wherever it is. -/
theorem sends_all (τ : Traffic α) (h : Reach Traffic.step WritesOk Traffic.init τ)
    (hrun : τ.client.running = true) :
    ∃ ls τ', (∀ l ∈ ls, l.own = true) ∧ run Traffic.step anyStep τ ls = some τ' ∧
      τ'.written = τ.posted :=
  exists_drained h hrun

instance : ∀ l, Decidable (WritesOk τ l)
  | .written false => .isFalse id
  | .written true | .connected | .send _ | .close | .notifyAll | .test | .lock | .check | .block
  | .resume | .spurious | .leave | .giveUp => .isTrue trivial

theorem sends_all_two : ∃ τ : Traffic ℕ, Reach Traffic.step WritesOk Traffic.init τ ∧
    τ.posted = [1, 2] ∧ ∃ ls τ', (∀ l ∈ ls, l.own = true) ∧
      run Traffic.step anyStep τ ls = some τ' ∧ τ'.written = τ.posted := by
  have hrun : run Traffic.step WritesOk (Traffic.init : Traffic ℕ) twoSends = some _ := rfl
  exact ⟨_, reach_of_run hrun, rfl, sends_all _ (reach_of_run hrun) rfl⟩

end Chatroom.SendWorker
