import Mathlib.Data.List.Basic

/-!
# A database connection (`DBConn`)

`Connect` opens a session with the server and prepares three statements on it; a connection that was
valid before is closed first. `Close` does something only if `valid_` is set. The outcomes of the
operations on the server are arguments.

If a statement cannot be prepared, `ReconnectImpl` calls `Close` with `valid_` not set, which does
nothing, and goes on to set `valid_`. So `Connect` returns true, and the pool takes the connection for
a good one.
-/

namespace Chatroom.Gateway.DBConn

/-- A session with the server, by the number of its creation. -/
abbrev Session := ℕ

structure State where
  valid : Bool
  /-- The session `conn_` has open. -/
  conn : Option Session
  /-- The sessions on which the statements have last been prepared. -/
  loginCheckStmt : Option Session
  registerStmt : Option Session
  existCheckStmt : Option Session
  /-- The next session. -/
  next : Session
  deriving DecidableEq, Repr

def init : State where
  valid := false
  conn := none
  loginCheckStmt := none
  registerStmt := none
  existCheckStmt := none
  next := 0

/-- `CloseImpl`. The statements are closed with the session, whether closing them throws or not, and
the session is over, even if its end is reported with an error. -/
def closeImpl (s : State) : State := { s with conn := none, valid := false }

/-- `Close`; `closed` is what `conn_.close` reports. -/
def close (s : State) (closed : Bool) : Bool × State :=
  if s.valid then (closed, closeImpl s) else (true, s)

/-- The outcomes of the operations of a `Connect`: of closing the earlier session, of connecting, and
of preparing the statements, in this order. -/
structure Outcome where
  closed : Bool
  connected : Bool
  loginCheck : Bool
  existCheck : Bool
  register : Bool
  deriving DecidableEq, Repr

/-- The `try` block of `ReconnectImpl`: whether it ends without an exception, and what it leaves. -/
def initStmt (s : State) (o : Outcome) : Bool × State :=
  if o.loginCheck then
    let s := { s with loginCheckStmt := s.conn }
    if o.existCheck then
      let s := { s with existCheckStmt := s.conn }
      if o.register then (true, { s with registerStmt := s.conn }) else (false, s)
    else (false, s)
  else (false, s)

/-- `ReconnectImpl`, with whether `err` is unset at its end. -/
def reconnectImpl (s : State) (o : Outcome) : Bool × State :=
  let s := if s.valid then (close s o.closed).2 else s
  if o.connected then
    let s := { s with conn := some s.next, next := s.next + 1 }
    let (prepared, s) := initStmt s o
    -- the handler closes the connection, but `valid_` is not set yet
    let s := if prepared then s else (close s o.closed).2
    (true, { s with valid := true })
  else (false, { s with valid := false })

inductive Call where
  | connect (o : Outcome)
  | close (closed : Bool)
  deriving DecidableEq, Repr

/-- What a call returns, and the state it leaves. -/
def call (s : State) : Call → Bool × State
  | .connect o => reconnectImpl s o
  | .close closed => close s closed

/-- A call that has returned. -/
structure Returned where
  call : Call
  result : Bool
  state : State
  deriving DecidableEq, Repr

def calls (s : State) : List Call → List Returned
  | [] => []
  | c :: cs => ⟨c, (call s c).1, (call s c).2⟩ :: calls (call s c).2 cs

/-! ## What `valid_` and the result of `Connect` should say

The sessions are numbered, so a statement that was prepared on an earlier session can be told from one
on the
session that is open. `Right` is the expectation; `Inv` is what holds in any case, and is enough to
say when the
expectation is met. -/

/-- The connection is open, with all three statements prepared on it. -/
def State.Ready (s : State) : Prop :=
  s.conn ≠ none ∧ s.loginCheckStmt = s.conn ∧ s.existCheckStmt = s.conn ∧ s.registerStmt = s.conn

instance (s : State) : Decidable s.Ready := inferInstanceAs (Decidable (_ ∧ _))

/-- What is expected after a call. -/
structure Returned.Right (r : Returned) : Prop where
  valid : r.state.valid = true ↔ r.state.Ready
  result : ∀ o, r.call = .connect o → (r.result = true ↔ r.state.valid = true ∧ r.state.Ready)
  closed : ∀ o, r.call = .connect o → r.result = false → r.state.conn = none

/-- No statement fails to be prepared after a connect that succeeds. -/
def Call.Prepares : Call → Prop
  | .connect o => o.connected = true →
      o.loginCheck = true ∧ o.existCheck = true ∧ o.register = true
  | .close _ => True

/-- What holds in every state: `valid_` says that the connection is open, and the statements are from
sessions there have been. -/
structure Inv (s : State) : Prop where
  isOpen : s.valid = true ↔ s.conn ≠ none
  loginCheck : ∀ k ∈ s.loginCheckStmt, k < s.next
  existCheck : ∀ k ∈ s.existCheckStmt, k < s.next
  register : ∀ k ∈ s.registerStmt, k < s.next

variable {s s' : State} {o : Outcome} {c : Call}

/-- A connection that is not valid has nothing to close. -/
theorem closeImpl_of_not_valid (h : Inv s) (hvalid : s.valid = false) : closeImpl s = s := by
  have hconn : s.conn = none := by
    by_contra hne
    rw [h.isOpen.mpr hne] at hvalid
    cases hvalid
  unfold closeImpl
  rw [← hconn, ← hvalid]

/-- Whatever state a `Connect` finds, it begins with a closed connection. -/
theorem closed_first (h : Inv s) (closed : Bool) :
    (if s.valid then (close s closed).2 else s) = closeImpl s := by
  unfold close
  split
  · rfl
  · next hvalid => exact (closeImpl_of_not_valid h (by simpa using hvalid)).symm

/-- A `Close` closes, whatever it finds and whatever it reports. -/
theorem close_state (h : Inv s) (closed : Bool) : (close s closed).2 = closeImpl s := by
  rw [← closed_first h closed]
  unfold close
  split <;> rfl

/-- A session has been opened, and the statements `l`, `e` and `r` are there. -/
def opened (s : State) (l e r : Option Session) : State where
  valid := true
  conn := some s.next
  loginCheckStmt := l
  existCheckStmt := e
  registerStmt := r
  next := s.next + 1

/-- The outcomes of a `Connect`: no session, all statements prepared, or some statement left as it
was. -/
inductive Connected (s : State) (o : Outcome) : Bool → State → Prop
  | failed : o.connected = false → Connected s o false (closeImpl s)
  | prepared : o.connected = true → o.loginCheck = true → o.existCheck = true → o.register = true →
      Connected s o true (opened s (some s.next) (some s.next) (some s.next))
  | noLoginCheck : o.connected = true → o.loginCheck = false →
      Connected s o true (opened s s.loginCheckStmt s.existCheckStmt s.registerStmt)
  | noExistCheck : o.connected = true → o.existCheck = false →
      Connected s o true (opened s (some s.next) s.existCheckStmt s.registerStmt)
  | noRegister : o.connected = true → o.register = false →
      Connected s o true (opened s (some s.next) (some s.next) s.registerStmt)

/-- The ways through `ReconnectImpl`, by the first statement that cannot be prepared. -/
theorem connected_reconnectImpl (h : Inv s) (o : Outcome) :
    Connected s o (reconnectImpl s o).1 (reconnectImpl s o).2 := by
  unfold reconnectImpl initStmt
  rw [closed_first h]
  obtain ⟨closed, connected, loginCheck, existCheck, register⟩ := o
  cases connected with
  | false => exact .failed rfl
  | true =>
    cases loginCheck with
    | false => exact .noLoginCheck rfl rfl
    | true =>
      cases existCheck with
      | false => exact .noExistCheck rfl rfl
      | true =>
        cases register with
        | false => exact .noRegister rfl rfl
        | true => exact .prepared rfl rfl rfl rfl

theorem inv_closeImpl (h : Inv s) : Inv (closeImpl s) where
  isOpen := ⟨fun hvalid => (by cases hvalid), fun hne => absurd rfl hne⟩
  loginCheck := h.loginCheck
  existCheck := h.existCheck
  register := h.register

/-- Statements from sessions there have been, or from the new one. -/
theorem inv_opened {l e r : Option Session} (hl : ∀ k ∈ l, k < s.next + 1)
    (he : ∀ k ∈ e, k < s.next + 1) (hr : ∀ k ∈ r, k < s.next + 1) : Inv (opened s l e r) where
  isOpen := ⟨fun _ hnone => (by cases hnone), fun _ => rfl⟩
  loginCheck := hl
  existCheck := he
  register := hr

/-- A new session has a new number. -/
theorem Inv.connected {b : Bool} (h : Inv s) (hs : Connected s o b s') : Inv s' := by
  have hnew : ∀ k ∈ some s.next, k < s.next + 1 := fun k hk => by
    cases hk
    exact Nat.lt_succ_self _
  have hold : ∀ {stmt : Option Session}, (∀ k ∈ stmt, k < s.next) → ∀ k ∈ stmt, k < s.next + 1 :=
    fun hstmt k hk => Nat.lt_succ_of_lt (hstmt k hk)
  cases hs with
  | failed => exact inv_closeImpl h
  | prepared => exact inv_opened hnew hnew hnew
  | noLoginCheck => exact inv_opened (hold h.loginCheck) (hold h.existCheck) (hold h.register)
  | noExistCheck => exact inv_opened hnew (hold h.existCheck) (hold h.register)
  | noRegister => exact inv_opened hnew hnew (hold h.register)

/-- Every call keeps the invariant. -/
theorem Inv.call (h : Inv s) (c : Call) : Inv (call s c).2 := by
  cases c with
  | connect o => exact h.connected (connected_reconnectImpl h o)
  | close closed =>
    show Inv (close s closed).2
    rw [close_state h]
    exact inv_closeImpl h

/-! ## When the calls do what is expected

By cases on the outcome of the last call. After a statement that could not be prepared the connection
has a
statement of an earlier session, or none, in its place. -/

/-- A closed connection is right after a `Close`, and after a `Connect` that says so. -/
theorem right_closeImpl {b : Bool} (hb : ∀ o, c = .connect o → b = false) :
    Returned.Right ⟨c, b, closeImpl s⟩ where
  valid := ⟨fun hvalid => (by cases hvalid), fun hready => absurd rfl hready.1⟩
  result := fun o ho => by
    rw [hb o ho]
    exact ⟨fun h => (by cases h), fun h => (by cases h.1)⟩
  closed := fun _ _ _ => rfl

/-- All three statements are on the new session. -/
theorem right_prepared :
    Returned.Right ⟨c, true, opened s (some s.next) (some s.next) (some s.next)⟩ := by
  have hready : (opened s (some s.next) (some s.next) (some s.next)).Ready :=
    ⟨fun hnone => (by cases hnone), rfl, rfl, rfl⟩
  exact ⟨⟨fun _ => hready, fun _ => rfl⟩, fun _ _ => ⟨fun _ => ⟨rfl, hready⟩, fun _ => rfl⟩,
    fun _ _ h => (by cases h)⟩

/-- A statement from an earlier session is not one on the new session. -/
theorem ne_next {stmt : Option Session} (h : ∀ k ∈ stmt, k < s.next) : stmt ≠ some s.next := by
  intro heq
  exact absurd (h s.next heq) (Nat.lt_irrefl _)

/-- A session with a statement missing is not right: `valid_` is set. -/
theorem not_right_opened {b : Bool} {l e r : Option Session}
    (h : ¬ (opened s l e r).Ready) : ¬ Returned.Right ⟨c, b, opened s l e r⟩ :=
  fun hright => h (hright.valid.mp rfl)

/-- A `Connect`. -/
theorem right_connected_iff {b : Bool} (h : Inv s) (hs : Connected s o b s') :
    Returned.Right ⟨.connect o, b, s'⟩ ↔ (Call.connect o).Prepares := by
  cases hs with
  | failed hconn =>
    refine iff_of_true (right_closeImpl fun _ _ => rfl) fun hconn' => ?_
    rw [hconn] at hconn'
    cases hconn'
  | prepared _ hlogin hexist hregister =>
    exact iff_of_true right_prepared fun _ => ⟨hlogin, hexist, hregister⟩
  | noLoginCheck hconn hlogin =>
    refine iff_of_false (not_right_opened fun hready => ne_next h.loginCheck hready.2.1) fun hp => ?_
    rw [(hp hconn).1] at hlogin
    cases hlogin
  | noExistCheck hconn hexist =>
    refine iff_of_false (not_right_opened fun hready => ne_next h.existCheck hready.2.2.1) fun hp => ?_
    rw [(hp hconn).2.1] at hexist
    cases hexist
  | noRegister hconn hregister =>
    refine iff_of_false (not_right_opened fun hready => ne_next h.register hready.2.2.2) fun hp => ?_
    rw [(hp hconn).2.2] at hregister
    cases hregister

/-- Any call from a state that the earlier calls have left. -/
theorem right_call_iff (h : Inv s) (c : Call) :
    Returned.Right ⟨c, (call s c).1, (call s c).2⟩ ↔ c.Prepares := by
  cases c with
  | connect o => exact right_connected_iff h (connected_reconnectImpl h o)
  | close closed =>
    refine iff_of_true ?_ trivial
    show Returned.Right ⟨.close closed, (close s closed).1, (close s closed).2⟩
    rw [close_state h]
    exact right_closeImpl fun _ ho => by cases ho

/-- By induction over the calls, with the invariant. -/
theorem right_calls_iff (h : Inv s) {cs : List Call} {r : Returned} (hr : r ∈ calls s cs) :
    r.Right ↔ r.call.Prepares := by
  induction cs generalizing s with
  | nil => cases hr
  | cons c cs ih =>
    rcases List.mem_cons.mp hr with rfl | hr
    · exact right_call_iff h c
    · exact ih (h.call c) hr

theorem inv_init : Inv init where
  isOpen := ⟨fun hvalid => (by cases hvalid), fun hne => absurd rfl hne⟩
  loginCheck := fun _ hk => by cases hk
  existCheck := fun _ hk => by cases hk
  register := fun _ hk => by cases hk

/-- **When `valid_` and the result of `Connect` can be trusted**: after every call of every sequence,
whatever fails in it, they are right if and only if no statement failed to be prepared in this call. -/
theorem connection_right_iff_prepares (cs : List Call) {r : Returned} (hr : r ∈ calls init cs) :
    r.Right ↔ r.call.Prepares := right_calls_iff inv_init hr

/-- The first `Connect` fails, the second succeeds. -/
def secondTry : List Call :=
  [.connect ⟨true, false, true, true, true⟩, .connect ⟨true, true, true, true, true⟩]

theorem connection_right_secondTry : ∃ r ∈ calls init secondTry,
    r.Right ∧ r.result = true ∧ r.state.valid = true ∧ r.state.conn = some 0 := by
  have hr : _ ∈ calls init secondTry := .tail _ (.head _)
  exact ⟨_, hr, (connection_right_iff_prepares secondTry hr).mpr fun _ => ⟨rfl, rfl, rfl⟩, rfl, rfl,
    rfl⟩

/-- The session is opened, and the first statement cannot be prepared: `Connect` returns true and sets
`valid_`, and the session stays open without any statement. -/
theorem connection_wrong_unprepared : ∃ r ∈ calls init [.connect ⟨true, true, false, false, false⟩],
    ¬ r.Right ∧ r.result = true ∧ r.state.valid = true ∧ r.state.conn = some 0 ∧
      r.state.loginCheckStmt = none ∧ r.state.existCheckStmt = none ∧ r.state.registerStmt = none := by
  refine ⟨_, .head _, fun hright => ?_, rfl, rfl, rfl, rfl, rfl, rfl⟩
  have hready := hright.valid.mp rfl
  exact absurd hready.2.1 (by decide)

end Chatroom.Gateway.DBConn
