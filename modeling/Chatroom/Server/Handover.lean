import Mathlib.Data.List.Nodup
import Mathlib.Data.List.Perm.Basic
import Chatroom.Server.SendQueue

/-!
# From the send queue to `async_write`

Two questions about a session that stays up. Is there always somebody who will see to a message in
`send_q_`? A `Send` that finds the queue not empty does nothing, so the message relies on a thread
that is about to run `QueueSend`, or is within it, or on a write whose callback will run it. And does
every message get to `async_write`, once? `QueueSend` takes the node into `sending_` under the latch
and hands over what is in `sending_` after it has let the latch go; two threads that are there at once
hand over the same node, and the other one is lost.
-/

namespace Chatroom.SendQueue

open Trace

variable {s s' : State} {l : Label}

/-- No write fails and nobody closes the session. -/
def Undisturbed (_ : State) : Label → Prop
  | .fail _ | .close => False
  | _ => True

instance (s : State) (l : Label) : Decidable (Undisturbed s l) := by
  unfold Undisturbed; split <;> infer_instance

/-- Moreover no node is taken from the queue while another thread is between its critical section
and its `async_write`. -/
def OneAtATime (s : State) : Label → Prop
  | .fail _ | .close => False
  | .queueSend => s.sendQ ≠ [] → s.writers = 0
  | _ => True

instance (s : State) (l : Label) : Decidable (OneAtATime s l) := by
  unfold OneAtATime; split <;> infer_instance

/-- The nodes that `async_write` was called on, so far. -/
def State.handed (s : State) : List Frame := s.completed ++ s.writes.map Write.frame

/-- The session can do nothing by itself. -/
def Stuck (s : State) : Prop := ∀ l, Undisturbed s l → (∀ node, l ≠ .send node) → step s l = none

/-- A write is started. -/
theorem handed_asyncWrite (s : State) (f : Frame) (n : ℕ) :
    ({ s with writers := n, writes := s.writes ++ [⟨f, 0⟩] } : State).handed = s.handed ++ [f] := by
  rw [State.handed, List.map_append, ← List.append_assoc]
  rfl

/-- No write has sent more than its node. -/
def WithinNodes (ws : List Write) : Prop := ∀ w ∈ ws, w.done ≤ w.frame.bytes.length

/-! ## The steps of a write

The progress and the completion of a write move no message. When a write completes its place is taken
by a
thread about to run `QueueSend`, so the number of those who will see to the queue stays the same. -/

/-- No message moves; a write may have given its place to a thread about to enter `QueueSend`. -/
structure SameBooks (s s' : State) : Prop where
  sendQ : s'.sendQ = s.sendQ
  sending : s'.sending = s.sending
  writers : s'.writers = s.writers
  pushed : s'.pushed = s.pushed
  taken : s'.taken = s.taken
  down : s'.down = s.down
  handed : s'.handed.Perm s.handed
  tokens : s'.starters + s'.writes.length = s.starters + s.writes.length
  within : WithinNodes s.writes → WithinNodes s'.writes

/-- A part of a node goes out. -/
theorem progress_sameBooks {i n : ℕ} {found : ℕ → UInt8}
    (hs : step s (.progress i n found) = some s') : SameBooks s s' := by
  simp only [step] at hs
  split at hs
  · cases hs
  · next w hw =>
    split at hs
    · next hcond =>
      cases hs
      refine ⟨rfl, rfl, rfl, rfl, rfl, rfl, ?_, ?_, fun hwithin v hv => ?_⟩
      · have hframes : (s.writes.set i { w with done := w.done + n }).map Write.frame =
            s.writes.map Write.frame := by
          rw [List.map_set]
          apply List.ext_getElem?
          intro k
          rw [List.getElem?_set]
          split
          · next hk =>
            subst hk
            rw [List.getElem?_map, hw, List.length_map, if_pos (List.getElem?_eq_some_iff.mp hw).1]
            rfl
          · rfl
        rw [State.handed, hframes]
        exact .refl _
      · rw [List.length_set]
      · rcases List.mem_or_eq_of_mem_set hv with hold | rfl
        · exact hwithin v hold
        · exact hcond.2
    · cases hs

/-- A write ends, and its callback will run `QueueSend`. -/
theorem complete_sameBooks (hup : s.down = false) {i : ℕ} (hs : step s (.complete i) = some s') :
    SameBooks s s' := by
  simp only [step] at hs
  split at hs
  · cases hs
  · next w hw =>
    obtain ⟨hlt, hi⟩ := List.getElem?_eq_some_iff.mp hw
    split at hs
    · cases hs
      refine ⟨rfl, rfl, rfl, rfl, rfl, rfl, ?_, ?_,
        fun hwithin v hv => hwithin v (List.mem_of_mem_eraseIdx hv)⟩
      · -- the node of the write goes from the outstanding ones to the completed ones
        have hperm : (w :: s.writes.eraseIdx i).Perm s.writes := by
          rw [← hi]
          exact List.getElem_cons_eraseIdx_perm hlt
        show (s.completed ++ [w.frame] ++ (s.writes.eraseIdx i).map Write.frame).Perm _
        rw [List.append_assoc]
        exact (hperm.map Write.frame).append_left s.completed
      · rw [hup, List.length_eraseIdx_of_lt hlt]
        simp only [Bool.false_eq_true, if_false]
        omega
    · cases hs

/-! ## Somebody will see to it

`Books` counts who is there: threads before `QueueSend`, threads within it, and writes. A `Send` that
finds
the queue empty becomes a starter; one that finds it not empty relies on the others. The only way to
lose one
of them is a `QueueSend` that finds nothing to take. -/

/-- What holds in every run of a session that stays up. -/
structure Books (s : State) : Prop where
  up : s.down = false
  queue : s.pushed = s.taken ++ s.sendQ
  numbered : ∀ f ∈ s.pushed, f.ptr < s.pushed.length
  nodup : s.pushed.Nodup
  /-- There is somebody to see to the queue. -/
  busy : s.sendQ ≠ [] → 0 < s.starters + s.writers + s.writes.length
  holds : 0 < s.writers → s.sending.isSome
  within : WithinNodes s.writes

theorem init_books : Books init := by
  refine ⟨rfl, rfl, ?_, List.nodup_nil, ?_, ?_, ?_⟩ <;> simp [init, WithinNodes]

/-- For the steps of a write. -/
theorem Books.same (h : Books s) (hsame : SameBooks s s') : Books s' := by
  have htokens := hsame.tokens
  have hwriters := hsame.writers
  refine ⟨hsame.down.trans h.up, ?_, ?_, ?_, ?_, ?_, hsame.within h.within⟩
  · rw [hsame.pushed, hsame.taken, hsame.sendQ]
    exact h.queue
  · rw [hsame.pushed]
    exact h.numbered
  · rw [hsame.pushed]
    exact h.nodup
  · rw [hsame.sendQ]
    intro hne
    have := h.busy hne
    omega
  · rw [hwriters, hsame.sending]
    exact h.holds

/-- The message is new: its number is the number of messages before it. -/
theorem Books.send (h : Books s) {node : MsgNode} (hs : step s (.send node) = some s') :
    Books s' := by
  cases hs
  refine ⟨h.up, ?_, ?_, ?_, ?_, h.holds, h.within⟩
  · show s.pushed ++ _ = s.taken ++ (s.sendQ ++ _)
    rw [h.queue, List.append_assoc]
  · intro f hf
    rw [List.length_append]
    rcases List.mem_append.mp hf with hold | hnew
    · have := h.numbered f hold
      omega
    · rw [List.mem_singleton.mp hnew]
      simp
  · -- the number of the new node is one that no node has yet
    show (s.pushed ++ [_]).Nodup
    rw [← List.concat_eq_append]
    refine h.nodup.concat fun hmem => ?_
    exact absurd (h.numbered _ hmem) (Nat.lt_irrefl _)
  · intro _
    dsimp only
    split
    · omega
    · next hne => exact h.busy hne

/-- A thread takes a node and goes on to write it, or leaves an empty queue. -/
theorem Books.queueSend (h : Books s) (hs : step s .queueSend = some s') : Books s' := by
  simp only [step] at hs
  split at hs
  · cases hs
  · next hpos =>
    split at hs
    · next hnil =>
      cases hs
      exact ⟨h.up, h.queue, h.numbered, h.nodup, fun hne => absurd hnil hne, h.holds,
        h.within⟩
    · next f q hq =>
      cases hs
      refine ⟨h.up, ?_, h.numbered, h.nodup, fun _ => ?_, fun _ => rfl, h.within⟩
      · rw [h.queue, hq, List.append_assoc]
        rfl
      · dsimp only
        omega

/-- A thread within `QueueSend` becomes a write. -/
theorem Books.asyncWrite (h : Books s) (hs : step s .asyncWrite = some s') : Books s' := by
  simp only [step] at hs
  split at hs
  · cases hs
  · next hpos =>
    obtain ⟨f, hf, rfl⟩ := Option.map_eq_some_iff.mp hs
    refine ⟨h.up, h.queue, h.numbered, h.nodup, fun _ => ?_, fun _ => by rw [hf]; rfl, ?_⟩
    · simp only [List.length_append, List.length_singleton]
      omega
    · intro w hw
      rcases List.mem_append.mp hw with hold | hnew
      · exact h.within w hold
      · rw [List.mem_singleton.mp hnew]
        exact Nat.zero_le _

theorem Books.step (h : Books s) (hok : Undisturbed s l) (hs : step s l = some s') : Books s' := by
  cases l with
  | send node => exact h.send hs
  | queueSend => exact h.queueSend hs
  | asyncWrite => exact h.asyncWrite hs
  | progress i n found => exact h.same (progress_sameBooks hs)
  | complete i => exact h.same (complete_sameBooks h.up hs)
  | fail i => cases hok
  | close => cases hok

/-- A session that can do nothing is idle, and its queue is empty. -/
theorem Books.idle (h : Books s) (hstuck : Stuck s) : s.Idle ∧ s.sendQ = [] := by
  have hstarters : s.starters = 0 := by
    by_contra hpos
    have hnone := hstuck .queueSend trivial (fun node hl => by cases hl)
    simp only [SendQueue.step, if_neg hpos] at hnone
    split at hnone <;> cases hnone
  have hwriters : s.writers = 0 := by
    by_contra hpos
    have hnone := hstuck .asyncWrite trivial (fun node hl => by cases hl)
    simp only [SendQueue.step, if_neg hpos, Option.map_eq_none_iff] at hnone
    have hsome := h.holds (by omega)
    rw [hnone] at hsome
    cases hsome
  have hwrites : s.writes = [] := by
    cases hw : s.writes with
    | nil => rfl
    | cons w rest =>
      -- a write may always send nothing more for a while
      have hnone := hstuck (.progress 0 0 fun _ => 0) trivial (fun node hl => by cases hl)
      have hcond : s.down = false ∧ w.done + 0 ≤ w.frame.bytes.length :=
        ⟨h.up, h.within w (by rw [hw]; exact List.mem_cons_self)⟩
      simp only [SendQueue.step, hw, List.getElem?_cons_zero, if_pos hcond] at hnone
      cases hnone
  refine ⟨⟨hstarters, hwriters, hwrites⟩, ?_⟩
  by_contra hne
  have := h.busy hne
  rw [hstarters, hwriters, hwrites] at this
  exact absurd this (Nat.lt_irrefl _)

/-! ## Handed over once

Two states of affairs that exclude each other. Either every node taken has been handed over, or is in
`sending_` with one thread about to hand it over; or a node is lost for good. A step keeps the first
and tells
by its condition whether it leads to the second, which no step leaves. -/

/-- Every node taken from the queue has been handed over once, or is in `sending_` and about to be. -/
def Accounted (s : State) : Prop :=
  s.writers = 0 ∧ s.handed.Perm s.taken ∨
    s.writers = 1 ∧ ∃ f, s.sending = some f ∧ (f :: s.handed).Perm s.taken

/-- A node was taken from the queue and can no longer be handed over. -/
def Lost (s : State) : Prop := ∃ f ∈ s.taken, f ∉ s.handed ∧ s.sending ≠ some f

theorem Accounted.same (h : Accounted s) (hsame : SameBooks s s') : Accounted s' := by
  unfold Accounted at h ⊢
  rw [hsame.writers, hsame.taken, hsame.sending]
  rcases h with ⟨hw, hperm⟩ | ⟨hw, f, hf, hperm⟩
  · exact .inl ⟨hw, hsame.handed.trans hperm⟩
  · exact .inr ⟨hw, f, hf, (hsame.handed.cons f).trans hperm⟩

theorem Lost.same (h : Lost s) (hsame : SameBooks s s') : Lost s' := by
  obtain ⟨f, htaken, hnot, hother⟩ := h
  refine ⟨f, ?_, ?_, ?_⟩
  · rwa [hsame.taken]
  · rwa [hsame.handed.mem_iff]
  · rwa [hsame.sending]

/-- **A node is taken**: if no other is on its way it is accounted for, and else that one is lost. -/
theorem Accounted.queueSend (hb : Books s) (h : Accounted s)
    (hs : step s .queueSend = some s') :
    OneAtATime s .queueSend ∧ Accounted s' ∨ ¬ OneAtATime s .queueSend ∧ Lost s' := by
  simp only [SendQueue.step] at hs
  split at hs
  · cases hs
  · split at hs
    · next hnil =>
      cases hs
      exact .inl ⟨fun hne => absurd hnil hne, h⟩
    · next f q hq =>
      cases hs
      rcases h with ⟨hw, hperm⟩ | ⟨hw, g, hg, hperm⟩
      · refine .inl ⟨fun _ => hw, .inr ⟨by dsimp only; omega, f, rfl, ?_⟩⟩
        exact (List.perm_append_singleton f s.handed).symm.trans (hperm.append_right [f])
      · have hnodup := hb.nodup
        rw [hb.queue, hq] at hnodup
        have hgtaken : g ∈ s.taken := hperm.mem_iff.mp List.mem_cons_self
        have hcons : (g :: s.handed).Nodup := hperm.nodup_iff.mpr hnodup.of_append_left
        refine .inr ⟨fun hok => ?_, g, List.mem_append_left _ hgtaken, (List.nodup_cons.mp hcons).1,
          ?_⟩
        · have := hok (by rw [hq]; exact List.cons_ne_nil _ _)
          omega
        · intro heq
          cases heq
          exact List.disjoint_of_nodup_append hnodup hgtaken List.mem_cons_self

/-- The thread hands over what is in `sending_`. -/
theorem Accounted.asyncWrite (h : Accounted s) (hs : step s .asyncWrite = some s') :
    Accounted s' := by
  simp only [SendQueue.step] at hs
  split at hs
  · cases hs
  · next hpos =>
    obtain ⟨f, hf, rfl⟩ := Option.map_eq_some_iff.mp hs
    rcases h with ⟨hw, -⟩ | ⟨hw, g, hg, hperm⟩
    · exact absurd hw hpos
    · rw [hf, Option.some.injEq] at hg
      subst hg
      refine .inl ⟨by dsimp only; omega, ?_⟩
      rw [handed_asyncWrite]
      exact (List.perm_append_singleton f s.handed).trans hperm

/-- One step, either way. -/
theorem Accounted.step (hb : Books s) (h : Accounted s) (hok : Undisturbed s l)
    (hs : step s l = some s') :
    OneAtATime s l ∧ Accounted s' ∨ ¬ OneAtATime s l ∧ Lost s' := by
  cases l with
  | send node =>
    cases hs
    exact .inl ⟨trivial, h⟩
  | queueSend => exact h.queueSend hb hs
  | asyncWrite => exact .inl ⟨trivial, h.asyncWrite hs⟩
  | progress i n found => exact .inl ⟨trivial, h.same (progress_sameBooks hs)⟩
  | complete i => exact .inl ⟨trivial, h.same (complete_sameBooks hb.up hs)⟩
  | fail i => cases hok
  | close => cases hok

/-- What is lost stays lost. -/
theorem Lost.step (hb : Books s) (h : Lost s) (hok : Undisturbed s l) (hs : step s l = some s') :
    Lost s' := by
  cases l with
  | send node =>
    cases hs
    exact h
  | queueSend =>
    obtain ⟨f, htaken, hnot, hother⟩ := h
    simp only [SendQueue.step] at hs
    split at hs
    · cases hs
    · split at hs
      · cases hs
        exact ⟨f, htaken, hnot, hother⟩
      · next g q hq =>
        cases hs
        refine ⟨f, List.mem_append_left _ htaken, hnot, ?_⟩
        -- the node taken now is a new one: nodes in the queue were never taken
        intro heq
        cases heq
        have hnodup := hb.nodup
        rw [hb.queue, hq] at hnodup
        exact List.disjoint_of_nodup_append hnodup htaken List.mem_cons_self
  | asyncWrite =>
    obtain ⟨f, htaken, hnot, hother⟩ := h
    simp only [SendQueue.step] at hs
    split at hs
    · cases hs
    · obtain ⟨g, hg, rfl⟩ := Option.map_eq_some_iff.mp hs
      refine ⟨f, htaken, ?_, hother⟩
      rw [handed_asyncWrite]
      intro hmem
      rcases List.mem_append.mp hmem with hold | hnew
      · exact hnot hold
      · rw [List.mem_singleton.mp hnew] at hother
        exact hother hg
  | progress i n found => exact h.same (progress_sameBooks hs)
  | complete i => exact h.same (complete_sameBooks hb.up hs)
  | fail i => cases hok
  | close => cases hok

/-! ## Whole runs

By induction over the steps of the run, once for each state of affairs. -/

/-- A lost node stays lost to the end of the run. -/
theorem lost_run : ∀ {ls : List Label} {s : State}, Books s → Lost s →
    run step Undisturbed s ls = some s' → Books s' ∧ Lost s'
  | [], s, hb, h, hrun => by
    cases hrun
    exact ⟨hb, h⟩
  | l :: ls, s, hb, h, hrun => by
    rw [run] at hrun
    split at hrun
    · next hok =>
      obtain ⟨s₁, hs, hrest⟩ := Option.bind_eq_some_iff.mp hrun
      exact lost_run (hb.step hok hs) (h.step hb hok hs) hrest
    · cases hrun

/-- A run either takes one node at a time and accounts for all, or it loses one. -/
theorem accounted_run : ∀ {ls : List Label} {s : State}, Books s → Accounted s →
    run step Undisturbed s ls = some s' → Books s' ∧
      (run step OneAtATime s ls = some s' ∧ Accounted s' ∨
        run step OneAtATime s ls = none ∧ Lost s')
  | [], s, hb, h, hrun => by
    cases hrun
    exact ⟨hb, .inl ⟨rfl, h⟩⟩
  | l :: ls, s, hb, h, hrun => by
    rw [run] at hrun ⊢
    split at hrun
    · next hok =>
      obtain ⟨s₁, hs, hrest⟩ := Option.bind_eq_some_iff.mp hrun
      have hb₁ := hb.step hok hs
      rcases h.step hb hok hs with ⟨hone, hacc⟩ | ⟨hnot, hlost⟩
      · rw [if_pos hone, hs]
        exact accounted_run hb₁ hacc hrest
      · obtain ⟨hb', hlost'⟩ := lost_run hb₁ hlost hrest
        rw [if_neg hnot]
        exact ⟨hb', .inr ⟨rfl, hlost'⟩⟩
    · cases hrun

/-- **No message is stranded, and each is handed to `async_write` once exactly if nodes are taken one
at a time.** While the queue is not empty there is a write outstanding or a thread about to run
`QueueSend` or within it; when the session can do nothing more the queue is empty. -/
theorem handed_once_iff {ls : List Label} (hrun : run step Undisturbed init ls = some s) :
    (s.sendQ ≠ [] → s.writes ≠ [] ∨ 0 < s.starters ∨ 0 < s.writers) ∧
      (Stuck s → s.sendQ = [] ∧
        (s.handed.Perm s.pushed ↔ run step OneAtATime init ls = some s)) := by
  obtain ⟨hb, hcases⟩ := accounted_run init_books (.inl ⟨rfl, .refl _⟩) hrun
  refine ⟨fun hne => ?_, fun hstuck => ?_⟩
  · have hbusy := hb.busy hne
    rcases Nat.eq_zero_or_pos s.writes.length with hnil | hpos
    · right
      omega
    · exact .inl (List.length_pos_iff.mp hpos)
  · obtain ⟨⟨-, hwriters, -⟩, hempty⟩ := hb.idle hstuck
    have hpushed : s.pushed = s.taken := by rw [hb.queue, hempty, List.append_nil]
    refine ⟨hempty, ?_⟩
    rw [hpushed]
    rcases hcases with ⟨hone, hacc⟩ | ⟨hnone, f, htaken, hnot, -⟩
    · refine ⟨fun _ => hone, fun _ => ?_⟩
      rcases hacc with ⟨-, hperm⟩ | ⟨hw, -⟩
      · exact hperm
      · omega
    · rw [hnone]
      refine ⟨fun hperm => absurd (hperm.mem_iff.mpr htaken) hnot, fun hcontra => ?_⟩
      cases hcontra

/-- Where no thread is sending, no step is left but a further `Send`. -/
theorem stuck_of_idle (hidle : s.Idle) : Stuck s := by
  obtain ⟨hstarters, hwriters, hwrites⟩ := hidle
  intro l hok hsend
  cases l with
  | send node => exact absurd rfl (hsend node)
  | queueSend => simp [SendQueue.step, hstarters]
  | asyncWrite => simp [SendQueue.step, hwriters]
  | progress i n found => simp [SendQueue.step, hwrites]
  | complete i => simp [SendQueue.step, hwrites]
  | fail i => cases hok
  | close => cases hok

/-- Two messages, the second waiting for the first: while it waits a thread is on its way, and at the
end both have been handed over. -/
theorem handed_once_two_sends :
    (∃ s, run step Undisturbed init (twoSends.take 3) = some s ∧ s.sendQ = [⟨1, frameB⟩] ∧
      (s.writes ≠ [] ∨ 0 < s.starters ∨ 0 < s.writers)) ∧
    ∃ s, run step Undisturbed init twoSends = some s ∧ Stuck s ∧ s.sendQ = [] ∧
      s.pushed = [⟨0, frameA⟩, ⟨1, frameB⟩] ∧ s.handed.Perm s.pushed := by
  constructor
  · have hrun : run step Undisturbed init (twoSends.take 3) = some _ := rfl
    exact ⟨_, hrun, rfl, (handed_once_iff hrun).1 (by decide)⟩
  · have hrun : run step Undisturbed init twoSends = some _ := rfl
    have hone : run step OneAtATime init twoSends = some _ := rfl
    have hstuck := stuck_of_idle (s := (run step Undisturbed init twoSends).get rfl) (by decide)
    obtain ⟨hempty, hiff⟩ := (handed_once_iff hrun).2 hstuck
    exact ⟨_, hrun, hstuck, hempty, rfl, hiff.mpr hone⟩

/-- The thread that has taken the first node is overtaken before its `async_write`: the second node
is handed over twice and the first one never. -/
theorem not_handed_once_overtaken : ∃ s, run step Undisturbed init
    [.send frameA, .queueSend, .send frameB, .queueSend, .asyncWrite, .asyncWrite,
      .progress 0 9 fun _ => 0, .progress 1 9 fun _ => 0, .complete 0, .complete 0, .queueSend,
      .queueSend] = some s ∧
      Stuck s ∧ s.pushed = [⟨0, frameA⟩, ⟨1, frameB⟩] ∧ s.handed = [⟨1, frameB⟩, ⟨1, frameB⟩] := by
  exact ⟨_, rfl, stuck_of_idle (by decide), rfl, rfl⟩

end Chatroom.SendQueue
