import Chatroom.Server.Backend.Exec

/-!
# The locks of a backend

Which mutexes a thread holds at each point of its code is written down act by act (`after`), as a
type system for lists of acts: an act is well typed under the mutexes held if what it locks, itself
or in the body it expands to, ranks above them. The ranks are the order in which the code nests the
mutexes: `MsgHandler::lck_`, `SessionManager::lck_`, `temp_lck_`, and inside any of these a send latch
or the mutex of the uploader.

There is one exception. `Close` of a session that is still up posts an event, which takes
`MsgHandler::lck_`, and then takes a mutex of `SessionManager`. It is called by the worker (a failed
`VERIFY`) and by `StopSession` with a mutex of that rank in hand.
-/

namespace Chatroom.Backend

open Trace Threads

/-- `t` is at an act that takes `m`. -/
def WaitsAt (σ : State) (t : Tid) (m : Mutex) : Prop := (σ.code t).head? = some (.lock m)

def Owns (σ : State) (t : Tid) (m : Mutex) : Prop := σ.owner m = some t

instance (σ : State) (t : Tid) (m : Mutex) : Decidable (WaitsAt σ t m) :=
  inferInstanceAs (Decidable (_ = _))

instance (σ : State) (t : Tid) (m : Mutex) : Decidable (Owns σ t m) :=
  inferInstanceAs (Decidable (_ = _))

/-- No thread tries to take a mutex it holds, and no threads wait for each other in a circle. -/
def DeadlockFree (σ : State) : Prop :=
  (∀ t m, WaitsAt σ t m → ¬ Owns σ t m) ∧
    ∀ t, ¬ Relation.TransGen (WaitsFor (WaitsAt σ) (Owns σ)) t t

/-- A thread that holds `MsgHandler::lck_` or `SessionManager::lck_` calls `Close` only on sessions
that are down already. -/
def ClosesUnlocked (σ : State) : Label → Prop
  | .run t =>
    match σ.code t with
    | .close s :: _ =>
      (σ.sessions s).down = true ∨ (σ.owner .handler ≠ some t ∧ σ.owner .mgr ≠ some t)
    | _ => True
  | _ => True

instance (σ : State) (l : Label) : Decidable (ClosesUnlocked σ l) := by
  obtain t | _ | _ | _ := l
  · dsimp only [ClosesUnlocked]
    obtain _ | ⟨a, _⟩ := σ.code t
    · exact .isTrue trivial
    · obtain ⟨⟩ := a <;> infer_instance
  all_goals exact .isTrue trivial

/-! ## Acts under locks

`after` is a function, so that the check of a list of acts is a computation: the mutexes held are a
list, the
last taken first, and an act maps the list before it to the list after it. An act that expands to a
body
counts with its whole body, also where the body releases what a caller has taken (as `chatFind`, which
is
called with the lock of the session table and comes back without it). -/

def Mutex.rank : Mutex → ℕ
  | handler => 0
  | mgr => 1
  | temp => 2
  | uploader => 3
  | latch _ => 3

/-- Every mutex of `H` ranks below `m`. -/
def Below (H : List Mutex) (m : Mutex) : Prop := ∀ h ∈ H, h.rank < m.rank

instance (H : List Mutex) (m : Mutex) : Decidable (Below H m) :=
  inferInstanceAs (Decidable (∀ h ∈ H, _))

/-- `m` is the mutex taken last, above all others. -/
def pop (m : Mutex) : List Mutex → Option (List Mutex)
  | [] => none
  | h :: H => if h = m ∧ Below H m then some H else none

def exactly (H₀ H : List Mutex) (H' : List Mutex) : Option (List Mutex) :=
  if H = H₀ then some H' else none

/-- The mutexes held after an act and all it expands to, if it is well typed under `H`. -/
def after (H : List Mutex) : Act → Option (List Mutex)
  | .lock m => if Below H m then some (m :: H) else none
  | .unlock m => pop m H
  | .close _ => if H = [] ∨ .handler ∈ H ∨ .mgr ∈ H then some H else none
  | .closeTable _ => exactly [] H []
  | .eraseSess _ _ => pop .mgr H
  | .eraseTemp _ _ => pop .temp H
  | .processor _ _ => exactly [.handler] H [.handler]
  | .dispatch _ _ => exactly [.handler] H [.handler]
  | .verifyUser _ _ _ _ => exactly [.handler] H [.handler]
  | .setVerified _ _ => exactly [.handler] H [.handler]
  | .welcome _ => exactly [.handler] H [.handler]
  | .chatFind _ _ _ => exactly [.mgr, .handler] H [.handler]
  | .deliver _ _ _ => exactly [.handler] H [.handler]
  | .pushSend s _ => pop (.latch s) H
  | .popSend s => pop (.latch s) H
  | .uploadImpl => if Below H .uploader then some H else none
  | .uploadSwap => pop .uploader H
  | .frameRead _ _ => exactly [] H []
  | .ctrlMsg _ => exactly [] H []
  | .kickFind _ => exactly [.mgr] H []
  | .mqMsg _ _ => exactly [] H []
  | .mqFind _ _ => exactly [.mgr] H []
  | .stopFind _ => exactly [.mgr] H []
  | .stopRunning => exactly [.handler] H []
  | .enqueue _ _ | .closeReturn _ | .emplaceSess _ _ | .updateUserStatus _ | .getUserLocation _ _ _
  | .sendToMsgQueue _ _ _ _ | .asyncWrite _ | .addOnline _ | .removeOnline _ | .uploadExec _
  | .addTemp _ | .start _ | .join => some H

def afterAll : List Mutex → List Act → Option (List Mutex)
  | H, [] => some H
  | H, a :: as => (after H a).bind fun H' => afterAll H' as

/-- A body in front of the rest. -/
theorem afterAll_append {H : List Mutex} : ∀ {as bs : List Act},
    afterAll H (as ++ bs) = (afterAll H as).bind fun H' => afterAll H' bs := by
  intro as
  induction as generalizing H with
  | nil => intro bs; rfl
  | cons a as ih =>
    intro bs
    simp only [List.cons_append, afterAll]
    cases after H a with
    | none => rfl
    | some H' => exact ih

theorem pop_eq_some {m : Mutex} {H H' : List Mutex} :
    pop m H = some H' ↔ H = m :: H' ∧ Below H' m := by
  cases H with
  | nil => simp [pop]
  | cons h H =>
    simp only [pop, Option.ite_none_right_eq_some, Option.some.injEq, List.cons.injEq]
    constructor
    · rintro ⟨⟨rfl, hbelow⟩, rfl⟩
      exact ⟨⟨rfl, rfl⟩, hbelow⟩
    · rintro ⟨⟨rfl, rfl⟩, hbelow⟩
      exact ⟨⟨rfl, hbelow⟩, rfl⟩

theorem exactly_eq_some {H₀ H H₁ H' : List Mutex} :
    exactly H₀ H H₁ = some H' ↔ H = H₀ ∧ H₁ = H' := by
  simp [exactly]

/-! ## One act

Typing is preserved: what takes the place of an act leads from the same mutexes to the same mutexes.
The cases
of `Expands` are evaluated, each for its own body. -/

variable {cfg : Config} {σ σ' : State} {t : Tid} {a : Act} {new : List Act} {H H' : List Mutex}

/-- The body an act expands to is well typed where the act is. -/
theorem Expands.typed (h : Expands cfg σ a new) (hafter : after H a = some H') :
    afterAll H new = some H' := by
  cases h with
  | dispatch hd =>
    obtain ⟨rfl, rfl⟩ := exactly_eq_some.mp hafter
    cases hd <;> rfl
  | closeDown =>
    simp only [after, Option.ite_none_right_eq_some, Option.some.injEq] at hafter
    simp [afterAll, hafter.2]
  | popEmpty | uploadBusy =>
    simp_all [after, afterAll]
  | setVerifiedAgain | processorClosed | processorNothing | processorFrame | welcome
  | chatLocal | chatRemote | deliver | frameDown | frameRead | ctrlMsg | kick | kickMissing
  | mqMsg | mqFind | mqMissing | stopFind | stopMissing | stopped =>
    obtain ⟨rfl, rfl⟩ := exactly_eq_some.mp hafter
    simp [afterAll, after, pop, exactly, Below, Mutex.rank, send, postMessage, addSession]
  | emplaceRefused | located | offline | addTempRefused | join => exact hafter

/-- What an act does to the mutexes: it takes one, it releases one, or it leaves them alone and what
it expands to is well typed. `Close` is the exception: of a session that is up, it has to be called
with no mutex in hand. -/
theorem Exec.typed (h : Exec cfg t σ a σ' new) (hafter : after H a = some H')
    (hclose : ∀ s, a = .close s → (σ.sessions s).down = true ∨ H = []) :
    (∃ m, a = .lock m ∧ new = [] ∧ σ.owner m = none ∧
        σ'.owner = Function.update σ.owner m (some t)) ∨
      (∃ m, a = .unlock m ∧ new = [] ∧ σ'.owner = Function.update σ.owner m none) ∨
      (afterAll H new = some H' ∧ σ'.owner = σ.owner) := by
  cases h with
  | expand he => exact .inr (.inr ⟨he.typed hafter, rfl⟩)
  | lock hfree => exact .inl ⟨_, rfl, rfl, hfree, rfl⟩
  | unlock => exact .inr (.inl ⟨_, rfl, rfl, rfl⟩)
  | close hup =>
    -- the event it posts takes `MsgHandler::lck_`, which ranks lowest
    refine .inr (.inr ⟨?_, rfl⟩)
    rcases hclose _ rfl with hdown | rfl
    · rw [hup] at hdown
      cases hdown
    · cases hafter
      rfl
  | crash hc =>
    refine .inr (.inr ⟨?_, rfl⟩)
    cases hc with
    | negativeLength => exact hafter
    | welcome | ctrlMsg | mqMsg =>
      obtain ⟨rfl, rfl⟩ := exactly_eq_some.mp hafter
      rfl
  | verifyFailed | verifyCrash | verifyOk | setVerified | closeToSess | closeToTemp | stopRunning =>
    refine .inr (.inr ⟨?_, rfl⟩)
    obtain ⟨rfl, rfl⟩ := exactly_eq_some.mp hafter
    rfl
  | eraseSess | eraseTempClose | eraseTemp | popSend | uploadSwap =>
    refine .inr (.inr ⟨?_, rfl⟩)
    obtain ⟨rfl, hbelow⟩ := pop_eq_some.mp hafter
    simp [afterAll, after, pop, hbelow]
  | pushSend hnew =>
    refine .inr (.inr ⟨?_, rfl⟩)
    obtain ⟨rfl, hbelow⟩ := pop_eq_some.mp hafter
    rcases hnew with rfl | rfl <;> simp [afterAll, after, pop, hbelow, queueSend]
  | uploadImpl =>
    refine .inr (.inr ⟨?_, rfl⟩)
    simp only [after, Option.ite_none_right_eq_some, Option.some.injEq] at hafter
    obtain ⟨hbelow, rfl⟩ := hafter
    simp [afterAll, after, pop, hbelow]
  | enqueueFrame | enqueueClosed | closeReturn | emplace | updateUserStatus | sendToMsgQueue
  | asyncWrite | addOnline | removeOnline | uploadExec | addTemp | start =>
    exact .inr (.inr ⟨hafter, rfl⟩)

/-! ## Runs

The list of mutexes of each thread is not part of the state; it is what the invariant claims to exist.
A
circle of waiting threads would have ranks that go up all the way round, which is the general argument
of
`Threads`. -/

/-- The mutexes a thread holds when it has nothing left to do. -/
def atRest (σ : State) (t : Tid) : List Mutex :=
  if t = worker ∧ σ.looping = true then [.handler] else []

/-- What each thread holds, in the order taken: the owners say the same, the ranks go up, and what
is left to do is well typed. -/
structure Holds (σ : State) (held : Tid → List Mutex) : Prop where
  owner : ∀ t m, σ.owner m = some t ↔ m ∈ held t
  sorted : ∀ t, (held t).Pairwise fun m m' => m'.rank < m.rank
  typed : ∀ t, afterAll (held t) (σ.code t) = some (atRest σ t)

/-- The invariant: there is such an account of who holds what. -/
def LocksOrdered (σ : State) : Prop := ∃ held, Holds σ held

/-- Whoever waits for a mutex holds only lower ones. -/
theorem Holds.below_of_waitsAt {held : Tid → List Mutex} (hh : Holds σ held) {m : Mutex}
    (hw : WaitsAt σ t m) : Below (held t) m := by
  obtain ⟨rest, hcode⟩ : ∃ rest, σ.code t = .lock m :: rest := List.head?_eq_some_iff.mp hw
  have htyped := hh.typed t
  rw [hcode, afterAll] at htyped
  obtain ⟨H', hlock, -⟩ := Option.bind_eq_some_iff.mp htyped
  simp only [after, Option.ite_none_right_eq_some] at hlock
  exact hlock.1

/-- **Threads that hold their mutexes in order do not deadlock.** -/
theorem LocksOrdered.deadlockFree (h : LocksOrdered σ) : DeadlockFree σ := by
  obtain ⟨held, hh⟩ := h
  have hrank : ∀ t m m', WaitsAt σ t m → Owns σ t m' → m'.rank < m.rank := by
    intro t m m' hw hown
    exact hh.below_of_waitsAt hw m' ((hh.owner t m').mp hown)
  constructor
  · intro t m hw hown
    exact Nat.lt_irrefl _ (hrank t m m hw hown)
  · exact no_cycle_of_rank hrank

/-- One thread's mutexes change, and everybody else's stay. -/
theorem Holds.update {held : Tid → List Mutex} (hh : Holds σ held) {code : List Act}
    (hcode : σ'.code = Function.update σ.code t code)
    (hrest : ∀ t', t' ≠ t → atRest σ' t' = atRest σ t')
    (howner : ∀ t' m, σ'.owner m = some t' ↔ m ∈ Function.update held t H t')
    (hsorted : H.Pairwise fun m m' => m'.rank < m.rank)
    (htyped : afterAll H code = some (atRest σ' t)) :
    Holds σ' (Function.update held t H) := by
  refine ⟨howner, fun t' => ?_, fun t' => ?_⟩
  all_goals
    by_cases ht : t' = t
    · subst ht
      simpa [hcode] using by assumption
  · simpa [ht] using hh.sorted t'
  · simpa [ht, hcode, hrest t' ht] using hh.typed t'

/-- A free mutex is taken. -/
theorem Holds.owner_of_taken {held : Tid → List Mutex} (hh : Holds σ held) {m : Mutex}
    (hfree : σ.owner m = none) (t' : Tid) (m' : Mutex) :
    Function.update σ.owner m (some t) m' = some t' ↔
      m' ∈ Function.update held t (m :: held t) t' := by
  have hother : ∀ t₁, m ∉ held t₁ := by
    intro t₁ hmem
    rw [(hh.owner t₁ m).mpr hmem] at hfree
    cases hfree
  by_cases hm : m' = m
  · subst hm
    by_cases ht : t' = t
    · subst ht
      simp
    · simp [ht, hother t', Ne.symm ht]
  · by_cases ht : t' = t
    · subst ht
      simp [hm, hh.owner]
    · simp [hm, ht, hh.owner]

/-- The last one taken is released. It is not held twice, since the ranks go up strictly. -/
theorem Holds.owner_of_released {held : Tid → List Mutex} (hh : Holds σ held) {m : Mutex}
    (hheld : held t = m :: H) (t' : Tid) (m' : Mutex) :
    Function.update σ.owner m none m' = some t' ↔ m' ∈ Function.update held t H t' := by
  have hsorted := hh.sorted t
  rw [hheld, List.pairwise_cons] at hsorted
  have hgone : m ∉ H := fun hmem => Nat.lt_irrefl _ (hsorted.1 m hmem)
  have howner : σ.owner m = some t := (hh.owner t m).mpr (by simp [hheld])
  by_cases hm : m' = m
  · subst hm
    by_cases ht : t' = t
    · subst ht
      simp [hgone]
    · have hother : m' ∉ held t' := by
        intro hmem
        rw [(hh.owner t' m').mpr hmem] at howner
        exact ht (Option.some.inj howner)
      simp [ht, hother]
  · by_cases ht : t' = t
    · subst ht
      simp [hm, hh.owner, hheld]
    · simp [hm, ht, hh.owner]

theorem Holds.owner_of_kept {held : Tid → List Mutex} (hh : Holds σ held) (t' : Tid) (m' : Mutex) :
    σ.owner m' = some t' ↔ m' ∈ Function.update held t (held t) t' := by
  rw [Function.update_eq_self]
  exact hh.owner t' m'

theorem atRest_congr (h : σ'.looping = σ.looping) (t : Tid) : atRest σ' t = atRest σ t := by
  rw [atRest, atRest, h]

/-- A thread does one act. -/
theorem LocksOrdered.run {rest : List Act} (hl : LocksOrdered σ) (hok : ClosesUnlocked σ (.run t))
    (hcode : σ.code t = a :: rest) (hex : Exec cfg t σ a σ' new) :
    LocksOrdered { σ' with code := advance σ.code t new rest } := by
  obtain ⟨held, hh⟩ := hl
  have htyped := hh.typed t
  rw [hcode, afterAll] at htyped
  obtain ⟨H', hafter, hrest⟩ := Option.bind_eq_some_iff.mp htyped
  have hlooping := atRest_congr hex.looping
  -- a session that is up is closed with no mutex in hand, by the condition on the step
  have hclose : ∀ s, a = .close s → (σ.sessions s).down = true ∨ held t = [] := by
    rintro s rfl
    simp only [ClosesUnlocked, hcode] at hok
    refine hok.imp id fun ⟨hhandler, hmgr⟩ => ?_
    rw [Ne, hh.owner] at hhandler hmgr
    simp only [after, Option.ite_none_right_eq_some] at hafter
    rcases hafter.1 with hnil | hmem | hmem
    · exact hnil
    · exact absurd hmem hhandler
    · exact absurd hmem hmgr
  -- a mutex is taken, is released, or the mutexes stay with their owners
  rcases hex.typed hafter hclose with ⟨m, rfl, rfl, hfree, howner⟩ | ⟨m, rfl, rfl, howner⟩ |
    ⟨hnew, howner⟩
  · simp only [after, Option.ite_none_right_eq_some, Option.some.injEq] at hafter
    obtain ⟨hbelow, rfl⟩ := hafter
    refine ⟨_, hh.update rfl (fun t' _ => hlooping t') ?_ ?_ ((hlooping t).symm ▸ hrest)⟩
    · rw [howner]
      exact hh.owner_of_taken hfree
    · exact List.pairwise_cons.mpr ⟨hbelow, hh.sorted t⟩
  · obtain ⟨hheld, hbelow⟩ := pop_eq_some.mp hafter
    refine ⟨_, hh.update rfl (fun t' _ => hlooping t') ?_ ?_ ((hlooping t).symm ▸ hrest)⟩
    · rw [howner]
      exact hh.owner_of_released hheld
    · have hsorted := hh.sorted t
      rw [hheld] at hsorted
      exact (List.pairwise_cons.mp hsorted).2
  · refine ⟨_, hh.update rfl (fun t' _ => hlooping t') ?_ (hh.sorted t) ?_⟩
    · rw [howner]
      exact hh.owner_of_kept
    · rw [afterAll_append, hnew]
      exact (hlooping t).symm ▸ hrest

/-- Each entry point takes and releases its mutexes in order. -/
theorem Entry.acts_typed (e : Entry) : afterAll [] (e.acts σ) = some [] := by
  cases e with
  | writeDone s ok =>
    simp only [Entry.acts]
    split
    · split
      · rfl
      · simp [queueSend, afterAll, after, pop, Below]
    · rfl
  | _ => rfl

/-- A thread between two acts holds what it is to hold at rest. -/
theorem Holds.atRest {held : Tid → List Mutex} (hh : Holds σ held) (hcode : σ.code t = []) :
    held t = Backend.atRest σ t := by
  have htyped := hh.typed t
  rw [hcode] at htyped
  exact Option.some.inj htyped

/-- In its loop the worker holds the mutex of the queue. -/
theorem Holds.worker {held : Tid → List Mutex} (hh : Holds σ held) (hcode : σ.code worker = [])
    (hloop : σ.looping = true) : held worker = [.handler] := by
  rw [hh.atRest hcode]
  simp [Backend.atRest, hloop]

/-- The step lemma. While the worker waits it has released the mutex of the queue, and takes it again.
-/
theorem LocksOrdered.step {l : Label} (hl : LocksOrdered σ) (hok : ClosesUnlocked σ l)
    (hs : Stepped cfg σ l σ') : LocksOrdered σ' := by
  cases hs with
  | run hcode hex => exact hl.run hok hcode hex
  | wait hloop hcode hq =>
    obtain ⟨held, hh⟩ := hl
    have hheld := hh.worker hcode hloop
    -- the wait releases the mutex, and its end is an act that takes it
    refine ⟨_, hh.update rfl (fun _ _ => rfl) (hh.owner_of_released hheld) .nil ?_⟩
    simp [afterAll, after, Below, atRest, hloop]
  | take hloop hcode hq =>
    obtain ⟨held, hh⟩ := hl
    have hheld := hh.worker hcode hloop
    refine ⟨_, hh.update rfl (fun _ _ => rfl) hh.owner_of_kept (hh.sorted worker) ?_⟩
    simp [afterAll, after, exactly, atRest, hheld, hloop]
  | leave hloop hcode =>
    obtain ⟨held, hh⟩ := hl
    have hheld := hh.worker hcode hloop
    refine ⟨_, hh.update (Function.update_eq_self worker _).symm (fun t' ht => ?_)
      (hh.owner_of_released hheld) .nil ?_⟩
    · simp [atRest, ht]
    · simp [afterAll, atRest, hcode]
  | @call t e ht hcode _ =>
    obtain ⟨held, hh⟩ := hl
    have hheld : held t = [] := by
      rw [hh.atRest hcode]
      simp [atRest, ht]
    have hbegin : (e.begin σ).owner = σ.owner ∧ (e.begin σ).looping = σ.looping := by
      cases e <;> exact ⟨rfl, rfl⟩
    refine ⟨_, hh.update rfl (fun t' _ => atRest_congr hbegin.2 t') ?_ (hh.sorted t) ?_⟩
    · rw [hbegin.1]
      exact hh.owner_of_kept
    · rw [hheld, Entry.acts_typed]
      simp [atRest, ht]
  | redis =>
    obtain ⟨held, hh⟩ := hl
    exact ⟨held, hh.owner, hh.sorted, hh.typed⟩

/-- At the start nobody holds anything. -/
theorem locksOrdered_init : LocksOrdered init := by
  refine ⟨fun _ => [], ?_, fun _ => .nil, fun t => ?_⟩
  · intro t m
    simp [init]
  · by_cases ht : t = worker
    · subst ht
      rfl
    · simp [init, ht, afterAll, atRest]

/-- **No deadlock as long as sessions are closed without a lock in hand.** -/
theorem deadlockFree_of_closesUnlocked (cfg : Config) (σ : State)
    (h : Reach (step cfg) ClosesUnlocked init σ) : DeadlockFree σ := by
  refine LocksOrdered.deadlockFree (h.invariant locksOrdered_init ?_)
  intro σ l σ' hl hok hs
  exact hl.step hok (step_cases hs)

/-- A session is accepted and disconnects: the closing thread takes `MsgHandler::lck_` and then
`temp_lck_`, while the worker waits. -/
theorem deadlockFree_disconnect :
    ∃ σ, (Reach (step exampleConfig) ClosesUnlocked init σ ∧ WaitsAt σ 2 .temp) ∧
      DeadlockFree σ := by
  have hrun : ((Trace.run (step exampleConfig) ClosesUnlocked init
      (starting ++ accepting 0 ++
        .call 2 (.ioError 0) :: List.replicate 5 (.run 2))).any
        fun σ => decide (WaitsAt σ 2 .temp)) = true := by
    decide +kernel
  obtain ⟨σ, hreach, htest⟩ := exists_reach_of_run hrun
  exact ⟨σ, ⟨hreach, of_decide_eq_true htest⟩,
    deadlockFree_of_closesUnlocked exampleConfig σ hreach⟩

/-- A session that is up is closed by a thread that holds `MsgHandler::lck_`: its next act is to take
this mutex again. -/
theorem not_deadlockFree_of_close {s : SessId} {rest : List Act} (hcode : σ.code t = .close s :: rest)
    (hup : (σ.sessions s).down = false) (howns : Owns σ t .handler) (hfault : σ.fault = none) :
    ∃ σ', step cfg σ (.run t) = some σ' ∧ ¬ DeadlockFree σ' := by
  have hstep : step cfg σ (.run t) = some
      { σ.modify s fun x => { x with down := true, closer := some t, stage := .closing } with
        code := advance σ.code t (postMessage s none ++ [.closeTable s]) rest } := by
    simp [step, hfault, hcode, exec, hup]
  refine ⟨_, hstep, ?_⟩
  rintro ⟨hself, -⟩
  apply hself t .handler _ howns
  simp [WaitsAt, postMessage]

/-- A `VERIFY` whose content is no JSON: the worker is stuck for good, and every other thread with it. -/
theorem not_deadlockFree_verify :
    ∃ σ, Reach (step exampleConfig) anyStep init σ ∧ ¬ DeadlockFree σ := by
  have hrun : ((Trace.run (step exampleConfig) anyStep init
      (starting ++ accepting 0 ++
        receiving 2 0 (received [] ⟨TagType.verify.val, []⟩) ++ waking 6)).any
        fun σ => decide (WaitsAt σ worker .handler ∧ Owns σ worker .handler)) = true := by
    decide +kernel
  obtain ⟨σ, hreach, htest⟩ := exists_reach_of_run hrun
  obtain ⟨hwait, howns⟩ := of_decide_eq_true htest
  exact ⟨σ, hreach, fun ⟨hself, _⟩ => hself worker .handler hwait howns⟩

end Chatroom.Backend
