import Mathlib.Data.List.Basic
import Mathlib.Data.List.Perm.Basic
import Mathlib.Logic.Function.Basic

/-!
# Streams with a consumer group

A stream of Redis, read through one consumer group without acknowledgements. `XADD` with the id `*` puts
an entry at the end, under an id greater than all before it; where it is given a maximal length it may
also drop the oldest entries, read or not. `XREADGROUP` with `>` hands out the next entries behind the
last id delivered to the group, at most so many, and moves that id: an entry is handed out once, whether
or not the reply arrives.

A channel is a stream together with what its reader has fetched and not dealt with yet. A tap keeps what
was added to each of a family of channels, what was taken by the reader and what was lost on the way.
Whatever the moves, what was taken and what is still waiting is a part of what was added, in the order in
which it was added, and what is missing is what was lost.
-/

namespace Streams

open scoped List

/-! ## Streams

The fields that are proofs say that ids grow along the stream and that the group is not ahead of it,
which
is what the operations need: an entry that was handed out stands before one that was not. -/

/-- A stream and the last id delivered to its group. -/
structure Stream (α : Type) where
  /-- The entries with their ids, the oldest first. -/
  entries : List (ℕ × α)
  lastId : ℕ
  delivered : ℕ
  ascending : entries.Pairwise fun e e' => e.1 < e'.1
  bounded : ∀ e ∈ entries, e.1 ≤ lastId
  behind : delivered ≤ lastId

namespace Stream

variable {α : Type}

/-- A new stream, whose group was created at `0`. -/
def empty : Stream α := ⟨[], 0, 0, .nil, by simp, Nat.le_refl 0⟩

/-- The entries that were not handed out yet. -/
def fresh (s : Stream α) : List (ℕ × α) := s.entries.filter fun e => s.delivered < e.1

def unread (s : Stream α) : List α := s.fresh.map Prod.snd

/-- `XADD key *`. Ids are compared only, so the next one will do for any greater one. -/
def xadd (s : Stream α) (a : α) : Stream α where
  entries := s.entries ++ [(s.lastId + 1, a)]
  lastId := s.lastId + 1
  delivered := s.delivered
  ascending := by
    refine List.pairwise_append.mpr ⟨s.ascending, List.pairwise_singleton _ _, fun e he e' he' => ?_⟩
    rw [List.mem_singleton.mp he']
    exact Nat.lt_succ_of_le (s.bounded e he)
  bounded := by
    intro e he
    rcases List.mem_append.mp he with hold | hnew
    · exact Nat.le_succ_of_le (s.bounded e hold)
    · cases List.mem_singleton.mp hnew
      exact Nat.le_refl _
  behind := Nat.le_succ_of_le s.behind

/-- The oldest `n` entries are dropped. -/
def trim (s : Stream α) (n : ℕ) : Stream α where
  entries := s.entries.drop n
  lastId := s.lastId
  delivered := s.delivered
  ascending := s.ascending.sublist (List.drop_sublist n _)
  bounded := fun e he => s.bounded e (List.mem_of_mem_drop he)
  behind := s.behind

/-- The id of the last entry of a reply; without an entry it stays. -/
def lastDelivered (s : Stream α) (reply : List (ℕ × α)) : ℕ :=
  (reply.getLast?.map Prod.fst).getD s.delivered

/-- The group never gets ahead of the stream. -/
theorem lastDelivered_le (s : Stream α) {reply : List (ℕ × α)} (h : ∀ e ∈ reply, e ∈ s.entries) :
    s.lastDelivered reply ≤ s.lastId := by
  unfold lastDelivered
  cases hlast : reply.getLast? with
  | none => exact s.behind
  | some e => exact s.bounded e (h e (List.mem_of_getLast? hlast))

/-- `XREADGROUP` with `COUNT n`, `NOACK` and `>`: the next `n` unread entries are handed out. -/
def xreadgroup (s : Stream α) (n : ℕ) : Stream α where
  entries := s.entries
  lastId := s.lastId
  delivered := s.lastDelivered (s.fresh.take n)
  ascending := s.ascending
  bounded := s.bounded
  behind := s.lastDelivered_le fun _ he => List.mem_of_mem_filter (List.mem_of_mem_take he)

/-! ### What is unread

Each operation is described by what it does to the list of the unread entries: `XADD` appends to it,
`XREADGROUP` takes from its front, and so does the trimming, as far as it goes beyond the entries that
were
handed out. -/

/-- Behind an entry stand the greater ones. -/
theorem filter_lt_append {xs ys : List (ℕ × α)} {e : ℕ × α}
    (h : (xs ++ e :: ys).Pairwise fun e e' => e.1 < e'.1) :
    (xs ++ e :: ys).filter (fun e' => e.1 < e'.1) = ys := by
  obtain ⟨-, hys, hxs⟩ := List.pairwise_append.mp h
  have hnone : xs.filter (fun e' => e.1 < e'.1) = [] := by
    refine List.filter_eq_nil_iff.mpr fun e' he' => ?_
    have hlt := hxs e' he' e List.mem_cons_self
    rw [decide_eq_true_iff]
    omega
  have hall : ys.filter (fun e' => e.1 < e'.1) = ys :=
    List.filter_eq_self.mpr fun e' he' => decide_eq_true ((List.pairwise_cons.mp hys).1 e' he')
  rw [List.filter_append, hnone, List.nil_append, List.filter_cons_of_neg (by simp), hall]

/-- What was handed out stands before what was not. -/
theorem filter_append_filter (d : ℕ) : ∀ {es : List (ℕ × α)}, es.Pairwise (fun e e' => e.1 < e'.1) →
    es.filter (fun e => e.1 ≤ d) ++ es.filter (fun e => d < e.1) = es
  | [], _ => rfl
  | e :: es, h => by
    obtain ⟨hhead, htail⟩ := List.pairwise_cons.mp h
    by_cases he : e.1 ≤ d
    · rw [List.filter_cons_of_pos (by simpa using he), List.filter_cons_of_neg (by simpa using he),
        List.cons_append, filter_append_filter d htail]
    · -- all that follow are greater still
      have hlt : ∀ e' ∈ es, d < e'.1 := by
        intro e' he'
        have := hhead e' he'
        omega
      have hnone : es.filter (fun e => e.1 ≤ d) = [] := by
        refine List.filter_eq_nil_iff.mpr fun e' he' => ?_
        rw [decide_eq_true_iff]
        exact Nat.not_le.mpr (hlt e' he')
      have hall : es.filter (fun e => d < e.1) = es :=
        List.filter_eq_self.mpr fun e' he' => decide_eq_true (hlt e' he')
      rw [List.filter_cons_of_neg (by simpa using he), List.filter_cons_of_pos (by simpa using he),
        hnone, hall, List.nil_append]

/-- The entries that were handed out and are still there. -/
def old (s : Stream α) : List (ℕ × α) := s.entries.filter fun e => e.1 ≤ s.delivered

theorem old_append_fresh (s : Stream α) : s.old ++ s.fresh = s.entries :=
  filter_append_filter s.delivered s.ascending

/-- A new entry is unread: its id is greater than all that were delivered. -/
theorem unread_xadd (s : Stream α) (a : α) : (s.xadd a).unread = s.unread ++ [a] := by
  have hnew : s.delivered < s.lastId + 1 := Nat.lt_succ_of_le s.behind
  show List.map Prod.snd (List.filter (fun e => s.delivered < e.1) (s.entries ++ _)) = _
  rw [List.filter_append, List.filter_cons_of_pos (by simpa using hnew), List.filter_nil,
    List.map_append]
  rfl

/-- The oldest to be dropped are those that were handed out. -/
theorem unread_trim (s : Stream α) (n : ℕ) :
    (s.trim n).unread = s.unread.drop (n - s.old.length) := by
  have hold : (s.old.drop n).filter (fun e => s.delivered < e.1) = [] := by
    refine List.filter_eq_nil_iff.mpr fun e he => ?_
    have hle := of_decide_eq_true (List.mem_filter.mp (List.mem_of_mem_drop he)).2
    rw [decide_eq_true_iff]
    exact Nat.not_lt.mpr hle
  have hnew : (s.fresh.drop (n - s.old.length)).filter (fun e => s.delivered < e.1) =
      s.fresh.drop (n - s.old.length) :=
    List.filter_eq_self.mpr fun e he => (List.mem_filter.mp (List.mem_of_mem_drop he)).2
  show ((s.entries.drop n).filter fun e => s.delivered < e.1).map Prod.snd = _
  rw [← s.old_append_fresh, List.drop_append, List.filter_append, hold, hnew, List.nil_append,
    List.map_drop, unread]

/-- What is handed out is no longer unread. -/
theorem unread_xreadgroup (s : Stream α) (n : ℕ) : (s.xreadgroup n).unread = s.unread.drop n := by
  have hfresh : (s.xreadgroup n).fresh = s.fresh.drop n := by
    show s.entries.filter (fun e => s.lastDelivered (s.fresh.take n) < e.1) = _
    have happend := List.take_append_drop n s.fresh
    rcases List.eq_nil_or_concat (s.fresh.take n) with hnil | ⟨init, e, hconcat⟩
    · -- an empty reply
      rw [hnil, List.nil_append] at happend
      rw [hnil, happend]
      rfl
    · rw [hconcat, List.concat_eq_append] at happend ⊢
      have hlast : s.lastDelivered (init ++ [e]) = e.1 := by
        rw [lastDelivered, List.getLast?_concat]
        rfl
      have hentries : s.entries = s.old ++ init ++ e :: s.fresh.drop n := by
        rw [← s.old_append_fresh]
        nth_rewrite 1 [← happend]
        simp only [List.append_assoc, List.singleton_append]
      have hasc := s.ascending
      rw [hentries] at hasc
      rw [hlast, hentries]
      exact filter_lt_append hasc
  rw [unread, hfresh, List.map_drop, unread]

end Stream

/-! ## Channels

The reader gets entries in replies of several and deals with them one by one. What it has yet to deal
with
does not change when it fetches a reply; it does when a reply is lost. -/

/-- A stream, and what its reader has fetched and not dealt with yet. -/
structure Channel (α : Type) where
  stream : Stream α
  inbox : List α

namespace Channel

variable {α : Type}

def empty : Channel α := ⟨.empty, []⟩

/-- What the reader has yet to deal with: what it has fetched, then what it has not. -/
def waiting (c : Channel α) : List α := c.inbox ++ c.stream.unread

def add (c : Channel α) (a : α) : Channel α := { c with stream := c.stream.xadd a }

/-- The reader fetches the next `n` entries. -/
def fetch (c : Channel α) (n : ℕ) : Channel α :=
  ⟨c.stream.xreadgroup n, c.inbox ++ c.stream.unread.take n⟩

/-- The next `n` entries are handed out, and the reply does not arrive. -/
def miss (c : Channel α) (n : ℕ) : Channel α := { c with stream := c.stream.xreadgroup n }

/-- The reader has dealt with the first entry it has. -/
def next (c : Channel α) : Channel α := { c with inbox := c.inbox.tail }

def trim (c : Channel α) (n : ℕ) : Channel α := { c with stream := c.stream.trim n }

theorem waiting_add (c : Channel α) (a : α) : (c.add a).waiting = c.waiting ++ [a] := by
  rw [waiting, add, Stream.unread_xadd, ← List.append_assoc, waiting]

/-- Fetching loses nothing. -/
theorem waiting_fetch (c : Channel α) (n : ℕ) : (c.fetch n).waiting = c.waiting := by
  rw [waiting, fetch, Stream.unread_xreadgroup, List.append_assoc, List.take_append_drop, waiting]

/-- What was handed out in a reply that does not arrive will not be handed out again. -/
theorem waiting_miss (c : Channel α) (n : ℕ) :
    (c.miss n).waiting = c.inbox ++ c.stream.unread.drop n := by
  rw [waiting, miss, Stream.unread_xreadgroup]

/-- What was fetched is not touched by trimming. -/
theorem waiting_trim (c : Channel α) (n : ℕ) :
    (c.trim n).waiting = c.inbox ++ c.stream.unread.drop (n - c.stream.old.length) := by
  rw [waiting, trim, Stream.unread_trim]

theorem cons_waiting_next {c : Channel α} {a : α} (h : c.inbox.head? = some a) :
    a :: c.next.waiting = c.waiting := by
  rw [waiting, next, ← List.cons_append, List.cons_head?_tail h, waiting]

end Channel

/-! ## What happens to a channel

Each action is described by what it adds, takes and loses. Then two facts hold of all of them, one
about
the order and one about the amounts, and nothing else is used below. -/

inductive Action (α : Type) where
  | adds (a : α)
  | fetches (n : ℕ)
  | misses (n : ℕ)
  | takes (a : α)
  | trims (n : ℕ)

namespace Action

variable {α : Type} {c : Channel α} {x : Action α}

def apply (c : Channel α) : Action α → Channel α
  | .adds a => c.add a
  | .fetches n => c.fetch n
  | .misses n => c.miss n
  | .takes _ => c.next
  | .trims n => c.trim n

/-- What is taken is the first that was fetched. -/
def Fits (c : Channel α) : Action α → Prop
  | .takes a => c.inbox.head? = some a
  | _ => True

def added : Action α → List α
  | .adds a => [a]
  | _ => []

def taken : Action α → List α
  | .takes a => [a]
  | _ => []

/-- What is handed out in a reply that does not arrive, or dropped before it was handed out. -/
def lost (c : Channel α) : Action α → List α
  | .misses n => c.stream.unread.take n
  | .trims n => c.stream.unread.take (n - c.stream.old.length)
  | _ => []

/-- What is taken and what is left is what was there and what is added, in order. -/
theorem taken_append_sublist (hfits : x.Fits c) :
    x.taken ++ (x.apply c).waiting <+ c.waiting ++ x.added := by
  cases x with
  | adds a =>
    show (c.add a).waiting <+ c.waiting ++ [a]
    rw [Channel.waiting_add]
  | fetches n =>
    show (c.fetch n).waiting <+ c.waiting ++ []
    rw [Channel.waiting_fetch, List.append_nil]
  | misses n =>
    show (c.miss n).waiting <+ c.waiting ++ []
    rw [Channel.waiting_miss, List.append_nil]
    exact (List.Sublist.refl _).append (List.drop_sublist _ _)
  | takes a =>
    show a :: c.next.waiting <+ c.waiting ++ []
    rw [Channel.cons_waiting_next hfits, List.append_nil]
  | trims n =>
    show (c.trim n).waiting <+ c.waiting ++ []
    rw [Channel.waiting_trim, List.append_nil]
    exact (List.Sublist.refl _).append (List.drop_sublist _ _)

/-- A piece that is cut out of the second of two lists and put in front. -/
theorem take_append_drop_perm (u v : List α) (n : ℕ) : (v.take n ++ (u ++ v.drop n)).Perm (u ++ v) := by
  rw [← List.append_assoc]
  refine (List.perm_append_comm.append_right _).trans ?_
  rw [List.append_assoc, List.take_append_drop]

/-- What is missing is what is lost. -/
theorem taken_append_perm (hfits : x.Fits c) :
    (x.taken ++ (x.lost c ++ (x.apply c).waiting)).Perm (c.waiting ++ x.added) := by
  cases x with
  | adds a =>
    show (c.add a).waiting.Perm (c.waiting ++ [a])
    rw [Channel.waiting_add]
  | fetches n =>
    show (c.fetch n).waiting.Perm (c.waiting ++ [])
    rw [Channel.waiting_fetch, List.append_nil]
  | misses n =>
    show (c.stream.unread.take n ++ (c.miss n).waiting).Perm (c.waiting ++ [])
    rw [Channel.waiting_miss, List.append_nil]
    exact take_append_drop_perm _ _ n
  | takes a =>
    show (a :: c.next.waiting).Perm (c.waiting ++ [])
    rw [Channel.cons_waiting_next hfits, List.append_nil]
  | trims n =>
    show (c.stream.unread.take _ ++ (c.trim n).waiting).Perm (c.waiting ++ [])
    rw [Channel.waiting_trim, List.append_nil]
    exact take_append_drop_perm _ _ _

end Action

/-! ## Channels by key

A step of a system touches one channel at most. `Move` names it, and the tap records by key. -/

variable {κ α : Type} [DecidableEq κ]

/-- Something happens to one channel, or nothing happens. -/
abbrev Move (κ α : Type) := Option (κ × Action α)

namespace Move

/-- What happens to the channel `k`. -/
def actAt (m : Move κ α) (k : κ) : Option (Action α) :=
  m.bind fun x => if x.1 = k then some x.2 else none

def apply (q : κ → Channel α) (m : Move κ α) (k : κ) : Channel α :=
  (m.actAt k).elim (q k) (Action.apply (q k))

def Fits (q : κ → Channel α) (m : Move κ α) : Prop := ∀ k x, m.actAt k = some x → x.Fits (q k)

def added (m : Move κ α) (k : κ) : List α := (m.actAt k).elim [] Action.added

def taken (m : Move κ α) (k : κ) : List α := (m.actAt k).elim [] Action.taken

def lost (q : κ → Channel α) (m : Move κ α) (k : κ) : List α := (m.actAt k).elim [] (Action.lost (q k))

end Move

/-- What was added, taken and lost. -/
structure Tap (κ α : Type) where
  added : κ → List α
  taken : κ → List α
  lost : κ → List α

def Tap.init : Tap κ α := ⟨fun _ => [], fun _ => [], fun _ => []⟩

def Tap.record (tap : Tap κ α) (q : κ → Channel α) (m : Move κ α) : Tap κ α where
  added := fun k => tap.added k ++ m.added k
  taken := fun k => tap.taken k ++ m.taken k
  lost := fun k => tap.lost k ++ m.lost q k

/-- What was taken and what is waiting is a part of what was added, in order, and the rest is what was
lost. -/
structure InOrder (tap : Tap κ α) (q : κ → Channel α) (k : κ) : Prop where
  part : tap.taken k ++ (q k).waiting <+ tap.added k
  all : (tap.taken k ++ (tap.lost k ++ (q k).waiting)).Perm (tap.added k)

variable {tap : Tap κ α} {q : κ → Channel α} {m : Move κ α} {k : κ}

/-- The order, at a channel that the move may or may not be about. -/
theorem Move.taken_append_sublist (hfits : m.Fits q) (k : κ) :
    m.taken k ++ (m.apply q k).waiting <+ (q k).waiting ++ m.added k := by
  unfold Move.taken Move.apply Move.added
  cases hx : m.actAt k with
  | none =>
    show (q k).waiting <+ (q k).waiting ++ []
    rw [List.append_nil]
  | some x => exact Action.taken_append_sublist (hfits k x hx)

/-- The amounts. -/
theorem Move.taken_append_perm (hfits : m.Fits q) (k : κ) :
    (m.taken k ++ (m.lost q k ++ (m.apply q k).waiting)).Perm ((q k).waiting ++ m.added k) := by
  unfold Move.taken Move.lost Move.apply Move.added
  cases hx : m.actAt k with
  | none =>
    show (q k).waiting.Perm ((q k).waiting ++ [])
    rw [List.append_nil]
  | some x => exact Action.taken_append_perm (hfits k x hx)

/-- A channel whose move adds nothing has no entry that it did not have before. -/
theorem Move.mem_waiting (hfits : m.Fits q) (hadded : m.added k = []) {a : α}
    (h : a ∈ (m.apply q k).waiting) : a ∈ (q k).waiting := by
  have hsub := Move.taken_append_sublist hfits k
  rw [hadded, List.append_nil] at hsub
  exact hsub.subset (List.mem_append_right _ h)

/-- Only the channel that is named changes. -/
theorem Move.apply_some (q : κ → Channel α) (k : κ) (x : Action α) :
    Move.apply q (some (k, x)) = Function.update q k (x.apply (q k)) := by
  funext k'
  unfold Move.apply Move.actAt
  by_cases hk : k = k'
  · subst hk
    rw [Function.update_self, Option.bind_some, if_pos rfl]
    rfl
  · rw [Function.update_of_ne (Ne.symm hk), Option.bind_some, if_neg hk]
    rfl

theorem Move.added_some (k k' : κ) (x : Action α) :
    Move.added (some (k, x)) k' = if k = k' then x.added else [] := by
  unfold Move.added Move.actAt
  rw [Option.bind_some]
  split <;> rfl

theorem Move.taken_some (k k' : κ) (x : Action α) :
    Move.taken (some (k, x)) k' = if k = k' then x.taken else [] := by
  unfold Move.taken Move.actAt
  rw [Option.bind_some]
  split <;> rfl

/-- An action that adds nothing adds nothing anywhere. -/
theorem Move.added_eq_nil {x : Action α} (h : x.added = []) (k k' : κ) :
    Move.added (some (k, x)) k' = [] := by
  rw [Move.added_some, h, ite_self]

/-- To fit is to fit the channel that is named. -/
theorem Move.fits_some {x : Action α} (h : x.Fits (q k)) : Move.Fits q (some (k, x)) := by
  intro k' x' hx'
  unfold Move.actAt at hx'
  rw [Option.bind_some] at hx'
  split at hx'
  · next hk =>
    cases hx'
    cases hk
    exact h
  · cases hx'

theorem Move.fits_none : Move.Fits q none := by
  intro k x hx
  cases hx

/-- **Every move keeps the order.** -/
theorem InOrder.record (h : InOrder tap q k) (hfits : m.Fits q) :
    InOrder (tap.record q m) (m.apply q) k := by
  -- first the order and then the amounts, each from the fact about one move
  constructor
  · show tap.taken k ++ m.taken k ++ (m.apply q k).waiting <+ tap.added k ++ m.added k
    rw [List.append_assoc]
    refine ((List.Sublist.refl (tap.taken k)).append (Move.taken_append_sublist hfits k)).trans ?_
    rw [← List.append_assoc]
    exact h.part.append (List.Sublist.refl _)
  · show (tap.taken k ++ m.taken k ++ (tap.lost k ++ m.lost q k ++ (m.apply q k).waiting)).Perm
      (tap.added k ++ m.added k)
    -- what is lost now is put behind what is taken now
    have hswap : (m.taken k ++ (tap.lost k ++ m.lost q k ++ (m.apply q k).waiting)).Perm
        (tap.lost k ++ (m.taken k ++ (m.lost q k ++ (m.apply q k).waiting))) := by
      rw [List.append_assoc, ← List.append_assoc, ← List.append_assoc (tap.lost k)]
      exact List.perm_append_comm.append_right _
    have hmove := (Move.taken_append_perm hfits k).append_left (tap.lost k)
    rw [List.append_assoc]
    refine ((hswap.trans hmove).append_left (tap.taken k)).trans ?_
    rw [← List.append_assoc (tap.lost k), ← List.append_assoc]
    exact h.all.append_right _

end Streams
