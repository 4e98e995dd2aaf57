import Chatroom.Lib.Trace
import Chatroom.Common.MsgNode

/-!
# The send queue of a session (`Session::Send`, `Session::QueueSend`)

`Send` pushes a node on `send_q_` and, if the queue was empty, runs `QueueSend`; that takes the
first node into `sending_` and starts an `async_write` of it, whose callback runs `QueueSend` again.
The two critical sections of `send_latch_` are one step each, and so are the start of the write
(which reads `sending_` without the latch), its progress on the socket and its callback. Any number
of threads may be between two of these steps; the state counts them.

A node belongs to the queue, then to `sending_`, and to nobody else: when `sending_` is overwritten
the old node is freed, and a write that is still going on from its buffer sends whatever is there.

The queue is empty as soon as `QueueSend` has taken the last node, while its write goes on. So a
`Send` that finds the queue empty need not find the session idle. What the frames need is less: that
no node is taken before the write of the last one has completed (`TakesDone`).
-/

namespace Chatroom.SendQueue

open ByteSeq Trace

/-- A node in the queue, with the number of its allocation. -/
structure Frame where
  ptr : ℕ
  node : MsgNode
  deriving DecidableEq, Repr

def Frame.bytes (f : Frame) : List UInt8 := f.node.wire

/-- An `async_write` under way: the node it was started on, and how much it has sent. -/
structure Write where
  frame : Frame
  done : ℕ
  deriving DecidableEq, Repr

structure State where
  sendQ : List Frame
  sending : Option Frame
  /-- Threads about to enter `QueueSend`. -/
  starters : ℕ
  /-- Threads behind the critical section of `QueueSend`, about to call `async_write`. -/
  writers : ℕ
  /-- The writes outstanding: started, their callback not yet run. -/
  writes : List Write
  down : Bool
  wire : List UInt8
  /-- History: the nodes pushed, those taken into `sending_`, those whose write has completed. -/
  pushed : List Frame
  taken : List Frame
  completed : List Frame
  deriving DecidableEq, Repr

def init : State where
  sendQ := []
  sending := none
  starters := 0
  writers := 0
  writes := []
  down := false
  wire := []
  pushed := []
  taken := []
  completed := []

inductive Label where
  /-- The critical section of `Send`. -/
  | send (node : MsgNode)
  /-- The critical section of `QueueSend`. -/
  | queueSend
  | asyncWrite
  /-- Write `i` puts `n` more bytes on the wire; `found` is what a freed buffer holds. -/
  | progress (i n : ℕ) (found : ℕ → UInt8)
  /-- The callback of write `i`, without and with an error. -/
  | complete (i : ℕ)
  | fail (i : ℕ)
  /-- `Close` by any other thread: the socket is closed. -/
  | close

def step (s : State) : Label → Option State
  | .send node =>
    let f : Frame := ⟨s.pushed.length, node⟩
    some { s with
      sendQ := s.sendQ ++ [f]
      starters := if s.sendQ = [] then s.starters + 1 else s.starters
      pushed := s.pushed ++ [f] }
  | .queueSend =>
    if s.starters = 0 then none
    else match s.sendQ with
      | [] => some { s with starters := s.starters - 1 }
      | f :: q =>
        some { s with
          starters := s.starters - 1
          sendQ := q
          sending := some f
          writers := s.writers + 1
          taken := s.taken ++ [f] }
  | .asyncWrite =>
    if s.writers = 0 then none
    else s.sending.map fun f =>
      { s with writers := s.writers - 1, writes := s.writes ++ [⟨f, 0⟩] }
  | .progress i n found =>
    match s.writes[i]? with
    | none => none
    | some w =>
      if s.down = false ∧ w.done + n ≤ w.frame.bytes.length then
        let chunk :=
          if s.sending = some w.frame then slice w.frame.bytes w.done n else newChars found n
        some { s with
          wire := s.wire ++ chunk
          writes := s.writes.set i { w with done := w.done + n } }
      else none
  | .complete i =>
    match s.writes[i]? with
    | none => none
    | some w =>
      if w.done = w.frame.bytes.length then
        some { s with
          writes := s.writes.eraseIdx i
          starters := if s.down then s.starters else s.starters + 1
          completed := s.completed ++ [w.frame] }
      else none
  | .fail i =>
    match s.writes[i]? with
    | none => none
    | some w =>
      some { s with
        writes := s.writes.eraseIdx i
        down := true
        completed := s.completed ++ [w.frame] }
  | .close => some { s with down := true }

/-- What outstanding writes have put on the wire. -/
def State.inFlight (s : State) : List UInt8 :=
  s.writes.flatMap fun w => w.frame.bytes.take w.done

/-- The frames go out one at a time, whole and in the order in which they were pushed. -/
structure InOrder (s : State) : Prop where
  /-- At most one `async_write` is outstanding. -/
  oneWrite : s.writes.length ≤ 1
  /-- Its node is the one in `sending_`. -/
  held : ∀ w ∈ s.writes, s.sending = some w.frame
  /-- A node taken into `sending_` stays there until its write has completed. -/
  kept : s.taken = s.completed ∨ ∃ f, s.taken = s.completed ++ [f] ∧ s.sending = some f
  /-- On an open socket: the frames completed, then a part of the one under way. -/
  whole : s.down = false → s.wire = s.completed.flatMap Frame.bytes ++ s.inFlight
  order : s.wire <+: s.pushed.flatMap Frame.bytes

/-- A node is taken from the queue only after the write of the one before it has completed. -/
def TakesDone (s : State) : Label → Prop
  | .queueSend => s.sendQ ≠ [] → s.writers = 0 ∧ s.writes = []
  | _ => True

instance (s : State) (l : Label) : Decidable (TakesDone s l) := by
  unfold TakesDone; split <;> infer_instance

/-- Nobody is sending. -/
def State.Idle (s : State) : Prop := s.starters = 0 ∧ s.writers = 0 ∧ s.writes = []

instance (s : State) : Decidable s.Idle := inferInstanceAs (Decidable (_ ∧ _ ∧ _))

/-- A `Send` that finds the queue empty finds the session idle, as the source takes it to be. -/
def StartsIdle (s : State) : Label → Prop
  | .send _ => s.sendQ = [] → s.Idle
  | _ => True

instance (s : State) (l : Label) : Decidable (StartsIdle s l) := by
  unfold StartsIdle; split <;> infer_instance

/-! ## The invariant

The threads are counted and not named: it does not matter which thread is where, but how many are
between taking
a node and the callback of its write. -/

/-- One thread at most is anywhere between taking a node and the callback of its write. -/
structure Inv (s : State) : Prop where
  one : s.writers + s.writes.length ≤ 1
  queue : s.pushed = s.taken ++ s.sendQ
  /-- The node taken last is in `sending_` as long as its write is to come or under way. -/
  current : 0 < s.writers + s.writes.length →
    ∃ f, s.sending = some f ∧ s.taken = s.completed ++ [f]
  rest : s.writers + s.writes.length = 0 → s.taken = s.completed
  held : ∀ w ∈ s.writes, s.sending = some w.frame
  whole : s.down = false → s.wire = s.completed.flatMap Frame.bytes ++ s.inFlight
  order : s.wire <+: s.pushed.flatMap Frame.bytes

/-- The invariant is what is wanted, and a little more. -/
theorem Inv.inOrder {s : State} (h : Inv s) : InOrder s where
  oneWrite := by have := h.one; omega
  held := h.held
  kept := by
    by_cases hidle : s.writers + s.writes.length = 0
    · exact .inl (h.rest hidle)
    · obtain ⟨f, hf, htaken⟩ := h.current (by omega)
      exact .inr ⟨f, htaken, hf⟩
  whole := h.whole
  order := h.order

/-- With one thread in all, the write a label names is the only one. -/
theorem Inv.writes_eq {s : State} (h : Inv s) {i : ℕ} {w : Write} (hw : s.writes[i]? = some w) :
    s.writes = [w] ∧ i = 0 ∧ s.writers = 0 := by
  have hone := h.one
  have hlt := (List.getElem?_eq_some_iff.mp hw).1
  obtain ⟨v, hv⟩ := List.length_eq_one_iff.mp (show s.writes.length = 1 by omega)
  have hi : i = 0 := by omega
  subst hi
  rw [hv] at hw
  cases hw
  exact ⟨hv, rfl, by omega⟩

theorem init_inv : Inv init := by
  refine ⟨?_, rfl, ?_, ?_, ?_, ?_, ?_⟩ <;> simp [init, State.inFlight]

/-- The node under way is the one taken last. -/
theorem Inv.taken_eq {s : State} (h : Inv s) {w : Write} (hw : s.writes = [w]) :
    s.taken = s.completed ++ [w.frame] := by
  obtain ⟨f, hf, htaken⟩ := h.current (by simp [hw])
  have hheld := h.held w (by simp [hw])
  rw [hf] at hheld
  rw [htaken, Option.some.inj hheld]

/-! ### What each step does to it

Only `QueueSend` has a condition. It is needed too: without it the node in `sending_` is replaced
while it is
being sent, which `InOrder` excludes. -/

variable {s s' : State}

/-- A `Send` adds a node at the end of the queue. -/
theorem Inv.send (h : Inv s) {node : MsgNode} (hs : step s (.send node) = some s') : Inv s' := by
  cases hs
  refine ⟨h.one, by simp [h.queue], h.current, h.rest, h.held, h.whole, ?_⟩
  exact h.order.trans (by simp)

/-- A node is taken when nobody is between taking one and the callback of its write. -/
theorem Inv.queueSend (h : Inv s) (hok : TakesDone s .queueSend)
    (hs : step s .queueSend = some s') : Inv s' := by
  simp only [step] at hs
  split at hs
  · cases hs
  · split at hs
    · cases hs
      exact ⟨h.one, h.queue, h.current, h.rest, h.held, h.whole, h.order⟩
    · next f q hq =>
      obtain ⟨hwriters, hnil⟩ := hok (by rw [hq]; exact List.cons_ne_nil _ _)
      cases hs
      refine ⟨by simp [hwriters, hnil], ?_, fun _ => ⟨f, rfl, ?_⟩, ?_, ?_, h.whole, h.order⟩
      · simp [h.queue, hq]
      · rw [h.rest (by simp [hwriters, hnil])]
      · intro h0; simp at h0
      · simp [hnil]

/-- A node taken too early replaces one whose write has not completed. -/
theorem Inv.not_inOrder (h : Inv s) (hnot : ¬ TakesDone s .queueSend)
    (hs : step s .queueSend = some s') : ¬ InOrder s' := by
  simp only [step] at hs
  split at hs
  · cases hs
  · split at hs
    · next hq => exact absurd (fun hne => absurd hq hne) hnot
    · next f q hq =>
      have hbusy : 0 < s.writers + s.writes.length := by
        by_contra hidle
        refine hnot fun _ => ⟨by omega, List.length_eq_zero_iff.mp (by omega)⟩
      obtain ⟨g, -, htaken⟩ := h.current hbusy
      cases hs
      intro hin
      -- two nodes have been taken since the last write that completed
      rcases hin.kept with hkept | ⟨g', hkept, -⟩
      · have hlen := congrArg List.length hkept
        simp [htaken] at hlen
      · have hlen := congrArg List.length hkept
        simp [htaken] at hlen

/-- The write is started on the node in `sending_`. -/
theorem Inv.asyncWrite (h : Inv s) (hs : step s .asyncWrite = some s') : Inv s' := by
  have hone := h.one
  simp only [step] at hs
  split at hs
  · cases hs
  · next hpos =>
    have hnil : s.writes = [] := List.length_eq_zero_iff.mp (by omega)
    obtain ⟨f, hf, htaken⟩ := h.current (by omega)
    obtain ⟨g, hg, rfl⟩ := Option.map_eq_some_iff.mp hs
    refine ⟨?_, h.queue, fun _ => ⟨f, hf, htaken⟩, ?_, ?_, ?_, h.order⟩
    · simp [hnil]; omega
    · simp
    · simp [hnil, hg]
    · intro hd
      simpa [State.inFlight, hnil] using h.whole hd

/-- The next bytes of the node go out. -/
theorem Inv.progress (h : Inv s) {i n : ℕ} {found : ℕ → UInt8}
    (hs : step s (.progress i n found) = some s') : Inv s' := by
  simp only [step] at hs
  split at hs
  · cases hs
  · next w hw =>
    obtain ⟨hwrites, rfl, -⟩ := h.writes_eq hw
    have hheld : s.sending = some w.frame := h.held w (by simp [hwrites])
    simp only [hheld, if_true] at hs
    split at hs
    · next hcond =>
      cases hs
      -- the node is still there, so the bytes are those of its frame
      have hwire : s.wire ++ slice w.frame.bytes w.done n =
          s.completed.flatMap Frame.bytes ++ w.frame.bytes.take (w.done + n) := by
        rw [h.whole hcond.1, List.append_assoc]
        congr 1
        rw [State.inFlight, hwrites, List.flatMap_singleton, slice, List.take_add]
      refine ⟨?_, h.queue, fun _ => ⟨w.frame, rfl, h.taken_eq hwrites⟩, ?_, ?_, fun _ => ?_, ?_⟩
      · simpa using h.one
      · simp [hwrites]
      · simp [hwrites]
      · rw [hwire]
        simp [State.inFlight, hwrites]
      · rw [hwire, h.queue, h.taken_eq hwrites]
        simp only [List.flatMap_append, List.flatMap_singleton, List.append_assoc]
        exact (List.prefix_append_right_inj _).mpr
          ((List.take_prefix _ _).trans (List.prefix_append _ _))
    · cases hs

/-- The node is done, and its thread will take the next. -/
theorem Inv.complete (h : Inv s) {i : ℕ} (hs : step s (.complete i) = some s') : Inv s' := by
  simp only [step] at hs
  split at hs
  · cases hs
  · next w hw =>
    obtain ⟨hwrites, rfl, hwr⟩ := h.writes_eq hw
    split at hs
    · next hdone =>
      cases hs
      refine ⟨?_, h.queue, ?_, fun _ => h.taken_eq hwrites, ?_, fun hd => ?_, h.order⟩
      · simp [hwrites, hwr]
      · simp [hwrites, hwr]
      · simp [hwrites]
      · simpa [State.inFlight, hwrites, hdone] using h.whole hd
    · cases hs

/-- The session is closed. -/
theorem Inv.fail (h : Inv s) {i : ℕ} (hs : step s (.fail i) = some s') : Inv s' := by
  simp only [step] at hs
  split at hs
  · cases hs
  · next w hw =>
    obtain ⟨hwrites, rfl, hwr⟩ := h.writes_eq hw
    cases hs
    refine ⟨?_, h.queue, ?_, fun _ => h.taken_eq hwrites, ?_, nofun, h.order⟩
    · simp [hwrites, hwr]
    · simp [hwrites, hwr]
    · simp [hwrites]

theorem Inv.step {l : Label} (h : Inv s) (hok : TakesDone s l) (hs : step s l = some s') :
    Inv s' := by
  cases l with
  | send node => exact h.send hs
  | queueSend => exact h.queueSend hok hs
  | asyncWrite => exact h.asyncWrite hs
  | progress i n found => exact h.progress hs
  | complete i => exact h.complete hs
  | fail i => exact h.fail hs
  | close =>
    cases hs
    exact ⟨h.one, h.queue, h.current, h.rest, h.held, (fun hd => by cases hd), h.order⟩

/-- A step from a state in order leads to one in order exactly if it takes no node too early. -/
theorem Inv.step_iff {l : Label} (h : Inv s) (hs : SendQueue.step s l = some s') :
    (InOrder s' → Inv s') ∧ (InOrder s' ↔ TakesDone s l) := by
  by_cases hok : TakesDone s l
  · have hinv := h.step hok hs
    exact ⟨fun _ => hinv, iff_of_true hinv.inOrder hok⟩
  · have hnot : ¬ InOrder s' := by
      cases l with
      | queueSend => exact h.not_inOrder hok hs
      | _ => exact absurd trivial hok
    exact ⟨fun hin => absurd hin hnot, iff_of_false hnot hok⟩

/-! ## What the source takes for granted

`Send` takes an empty queue as a sign that nobody is sending. Where this is so, one thread does
everything in turn,
and the condition on `QueueSend` follows. -/

/-- One thread at most is anywhere between entering `QueueSend` and the callback of its write. -/
def OneThread (s : State) : Prop := s.starters + s.writers + s.writes.length ≤ 1

/-- Only a `Send` on an empty queue brings a thread in; every other step passes the turn on. -/
theorem OneThread.step {l : Label} (h : OneThread s) (hok : StartsIdle s l)
    (hs : step s l = some s') : OneThread s' := by
  unfold OneThread at h ⊢
  cases l with
  | send node =>
    cases hs
    dsimp only
    split
    · next hempty =>
      -- the one place where a thread comes in, and then it is alone
      obtain ⟨h₁, h₂, h₃⟩ := hok hempty
      simp [h₁, h₂, h₃]
    · exact h
  | queueSend =>
    simp only [SendQueue.step] at hs
    split at hs
    · cases hs
    · split at hs
      · cases hs
        dsimp only
        omega
      · cases hs
        dsimp only
        omega
  | asyncWrite =>
    simp only [SendQueue.step] at hs
    split at hs
    · cases hs
    · obtain ⟨f, -, rfl⟩ := Option.map_eq_some_iff.mp hs
      simp only [List.length_append, List.length_singleton]
      omega
  | progress i n found =>
    simp only [SendQueue.step] at hs
    split at hs
    · cases hs
    · split at hs
      · cases hs
        simpa using h
      · cases hs
  | complete i =>
    simp only [SendQueue.step] at hs
    split at hs
    · cases hs
    · next w hw =>
      have hlt := (List.getElem?_eq_some_iff.mp hw).1
      split at hs
      · cases hs
        dsimp only
        -- the callback goes on to `QueueSend`, in the place of the write
        rw [List.length_eraseIdx_of_lt hlt]
        split <;> omega
      · cases hs
  | fail i =>
    simp only [SendQueue.step] at hs
    split at hs
    · cases hs
    · next w hw =>
      have hlt := (List.getElem?_eq_some_iff.mp hw).1
      cases hs
      dsimp only
      rw [List.length_eraseIdx_of_lt hlt]
      omega
  | close =>
    cases hs
    exact h

/-- The thread that enters `QueueSend` is the one there is. -/
theorem OneThread.takesDone {l : Label} (h : OneThread s) (hs : SendQueue.step s l = some s') :
    TakesDone s l := by
  unfold OneThread at h
  cases l with
  | queueSend =>
    simp only [SendQueue.step] at hs
    split at hs
    · cases hs
    · exact fun _ => ⟨by omega, List.length_eq_zero_iff.mp (by omega)⟩
  | _ => exact trivial

/-- **Frames go out one at a time, whole and in order, exactly if no node is taken from the queue
before the write of the last one has completed.** That is so in every run in which a `Send` that finds
the queue empty finds the session idle. -/
theorem inOrder_iff_takesDone {ls : List Label} (hrun : (run step anyStep init ls).isSome) :
    ((∀ pre, pre <+: ls → ∀ s, run step anyStep init pre = some s → InOrder s) ↔
        (run step TakesDone init ls).isSome) ∧
      ((run step StartsIdle init ls).isSome → (run step TakesDone init ls).isSome) := by
  constructor
  · have hstep : ∀ s l s', (InOrder s → Inv s) → InOrder s → step s l = some s' →
        (InOrder s' → Inv s') ∧ (InOrder s' ↔ TakesDone s l) :=
      fun s l s' hinv hin hs => (hinv hin).step_iff hs
    exact run_isSome_iff hstep (fun _ => init_inv) init_inv.inOrder hrun
  · intro hsome
    obtain ⟨s, hs⟩ := Option.isSome_iff_exists.mp hsome
    have hstep : ∀ s l s', OneThread s → StartsIdle s l → step s l = some s' →
        OneThread s' ∧ TakesDone s l :=
      fun _ _ _ hone hok hs => ⟨hone.step hok hs, hone.takesDone hs⟩
    rw [run_mono hstep (show OneThread init from Nat.zero_le 1) hs]
    rfl

def frameA : MsgNode := ⟨[0, 0, 0, 0, 0, 0, 0, 1, 65], 0, 1⟩
def frameB : MsgNode := ⟨[0, 0, 0, 0, 0, 0, 0, 1, 66], 0, 1⟩

/-- Two messages: the second waits for the first. -/
def twoSends : List Label :=
  [.send frameA, .send frameB, .queueSend, .asyncWrite, .progress 0 9 fun _ => 0, .complete 0,
    .queueSend, .asyncWrite, .progress 0 9 fun _ => 0, .complete 0, .queueSend]

/-- A second message that waits for the first is sent behind it. -/
theorem inOrder_two_sends : ∃ s, run step StartsIdle init twoSends = some s ∧
    run step anyStep init twoSends = some s ∧ InOrder s ∧ s.wire = frameA.wire ++ frameB.wire := by
  have hidle : run step StartsIdle init twoSends = some _ := rfl
  have hrun : run step anyStep init twoSends = some _ := rfl
  have hsome : (run step anyStep init twoSends).isSome := rfl
  obtain ⟨hiff, himp⟩ := inOrder_iff_takesDone hsome
  exact ⟨_, hidle, hrun, hiff.mpr (himp rfl) twoSends (List.prefix_refl _) _ hrun, rfl⟩

/-- A second message that is pushed while the first is being written starts a write of its own: two
writes are outstanding, and the node of the first is freed under it. -/
theorem not_inOrder_two_sends :
    ∃ s, Reach step anyStep init s ∧ s.writes.length = 2 ∧
      (∃ w ∈ s.writes, s.sending ≠ some w.frame) ∧ ¬ InOrder s := by
  have hrun : run step anyStep init
      [.send frameA, .queueSend, .asyncWrite, .send frameB, .queueSend, .asyncWrite] = some _ := rfl
  refine ⟨_, reach_of_run hrun, rfl, ⟨⟨⟨0, frameA⟩, 0⟩, by decide, by decide⟩, fun hin => ?_⟩
  have htwo : 2 ≤ 1 := hin.oneWrite
  omega

end Chatroom.SendQueue
