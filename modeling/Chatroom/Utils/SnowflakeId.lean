import Mathlib.Data.List.Chain
import Mathlib.Data.List.Nodup
import Mathlib.Data.UInt
import Mathlib.Tactic.NormNum

/-!
# Ids from the clock (`utils/snowflake_id.hpp`)

A `UIDGenerator` makes a uid from the milliseconds since its epoch, its worker id and a sequence
number within the millisecond. It remembers the last timestamp and the last sequence number, no more;
`system_clock` may be set back at any time. The readings of the clock are a list, and every call takes
from it what it reads: one reading, or as many as it needs to get past a millisecond whose 4096
numbers are used up. `Generate` holds the mutex, so the calls follow one another.
-/

namespace Chatroom

/-- The epoch is left out: the readings are relative to it. -/
structure UIDGenerator where
  workerId : UInt16
  seq : UInt16
  lastTs : UInt64
  deriving DecidableEq, Repr

namespace UIDGenerator

def new (workerId : UInt16) : UIDGenerator := ⟨workerId &&& 0x3FF, 0, 0⟩

/-- `(ts << 22) | (worker_id_ << 12) | seq_`; the 16-bit fields are promoted to `int` first. -/
def pack (ts : UInt64) (workerId seq : UInt16) : UInt64 :=
  (ts <<< 22) ||| (workerId.toUInt32 <<< 12).toUInt64 ||| seq.toUInt64

/-- The loop `while (ts <= last_ts_)`: read the clock until it is past `lastTs`. -/
def waitPast (lastTs : UInt64) : List UInt64 → Option (UInt64 × List UInt64)
  | [] => none
  | ts :: clock => if ts ≤ lastTs then waitPast lastTs clock else some (ts, clock)

/-- `Generate()`. There is no result if the readings end before the call does. -/
def generate (g : UIDGenerator) : List UInt64 → Option ((UInt64 × UIDGenerator) × List UInt64)
  | [] => none
  | now :: clock => do
    let (ts, seq, clock) ←
      if now = g.lastTs then
        let seq := (g.seq + 1) &&& 0xFFF
        if seq = 0 then do
          let (ts, clock) ← waitPast g.lastTs clock
          pure (ts, seq, clock)
        else pure (now, seq, clock)
      else pure (now, 0, clock)
    return ((pack ts g.workerId seq, { g with seq := seq, lastTs := ts }), clock)

/-- What `n` calls return, each with the generator it leaves. -/
def calls : ℕ → UIDGenerator → List UInt64 → List (UInt64 × UIDGenerator)
  | 0, _, _ => []
  | n + 1, g, clock =>
    match g.generate clock with
    | none => []
    | some (call, clock) => call :: calls n call.2 clock

/-- The uids that `n` calls return. -/
def uids (n : ℕ) (g : UIDGenerator) (clock : List UInt64) : List UInt64 :=
  (calls n g clock).map Prod.fst

/-- The generators that they leave. -/
def states (n : ℕ) (g : UIDGenerator) (clock : List UInt64) : List UIDGenerator :=
  (calls n g clock).map Prod.snd

/-- The timestamps that they take. -/
def times (n : ℕ) (g : UIDGenerator) (clock : List UInt64) : List UInt64 :=
  (states n g clock).map lastTs

/-! ## The fields of a uid

42 bits for the milliseconds, 10 for the worker, 12 for the number. As long as the fields fit, the
shifts
and ors are a sum of multiples of powers of two, and the fields can be read back from it. -/

/-- The fields fit into 42, 10 and 12 bits, and side by side they are the uid. -/
def Fields (uid ts workerId seq : ℕ) : Prop :=
  ts < 2 ^ 42 ∧ workerId < 2 ^ 10 ∧ seq < 2 ^ 12 ∧ uid = ts * 2 ^ 22 + workerId * 2 ^ 12 + seq

/-- A uid has one set of fields. -/
theorem Fields.unique {uid ts ts' workerId workerId' seq seq' : ℕ} (h : Fields uid ts workerId seq)
    (h' : Fields uid ts' workerId' seq') : ts' = ts ∧ workerId' = workerId ∧ seq' = seq := by
  obtain ⟨hts, hw, hq, heq⟩ := h
  obtain ⟨hts', hw', hq', heq'⟩ := h'
  omega

/-- The masked worker id shifted into its place, in 32 bits and without loss. -/
theorem toNat_workerField {workerId : UInt16} (hw : workerId.toNat < 2 ^ 10) :
    ((workerId.toUInt32 <<< 12).toUInt64).toNat = workerId.toNat * 2 ^ 12 := by
  rw [UInt32.toNat_toUInt64, UInt32.toNat_shiftLeft, UInt16.toNat_toUInt32, UInt32.toNat_ofNat,
    Nat.shiftLeft_eq]
  norm_num
  omega

/-- Nothing of a timestamp below 2⁴² is shifted out. -/
theorem toNat_tsField {ts : UInt64} (hts : ts.toNat < 2 ^ 42) :
    (ts <<< 22).toNat = ts.toNat <<< 22 := by
  rw [UInt64.toNat_shiftLeft, UInt64.toNat_ofNat, Nat.shiftLeft_eq]
  norm_num
  omega

/-- **The shifted fields do not overlap.** -/
theorem pack_fields {ts : UInt64} {workerId seq : UInt16} (hts : ts.toNat < 2 ^ 42)
    (hw : workerId.toNat < 2 ^ 10) (hq : seq.toNat < 2 ^ 12) :
    Fields (pack ts workerId seq).toNat ts.toNat workerId.toNat seq.toNat := by
  refine ⟨hts, hw, hq, ?_⟩
  have hlow : workerId.toNat * 2 ^ 12 ||| seq.toNat = workerId.toNat * 2 ^ 12 + seq.toNat := by
    rw [← Nat.shiftLeft_eq, Nat.shiftLeft_add_eq_or_of_lt hq]
  have hlt : workerId.toNat * 2 ^ 12 + seq.toNat < 2 ^ 22 := by omega
  rw [pack, UInt64.toNat_or, UInt64.toNat_or, toNat_tsField hts, toNat_workerField hw,
    UInt16.toNat_toUInt64, Nat.or_assoc, hlow, ← Nat.shiftLeft_add_eq_or_of_lt hlt, Nat.shiftLeft_eq,
    Nat.add_assoc]

/-! ## One call

Whatever branch a call takes, it ends with a timestamp that is its last reading of the clock, and with
a
number: 0, if the timestamp is a new one, and else the next number (`Takes`). A timestamp whose
numbers are
used up is left by waiting. -/

/-- The masked worker id and the sequence number fit their fields. -/
structure Valid (g : UIDGenerator) : Prop where
  workerId : g.workerId.toNat < 2 ^ 10
  seq : g.seq.toNat < 2 ^ 12

theorem toNat_mask_worker (workerId : UInt16) :
    (workerId &&& 0x3FF).toNat = workerId.toNat % 2 ^ 10 := by
  rw [UInt16.toNat_and]
  exact Nat.and_two_pow_sub_one_eq_mod workerId.toNat 10

/-- The constructor masks the worker id. -/
theorem new_valid (workerId : UInt16) : (new workerId).Valid := by
  refine ⟨?_, ?_⟩
  · show (workerId &&& 0x3FF).toNat < _
    rw [toNat_mask_worker]
    exact Nat.mod_lt _ (by norm_num)
  · show (0 : UInt16).toNat < _
    norm_num

/-- A generator takes a timestamp: the next number of the same millisecond, or the first one of
another. -/
def Takes (g g' : UIDGenerator) : Prop :=
  g'.lastTs = g.lastTs ∧ g'.seq.toNat = g.seq.toNat + 1 ∨ g'.lastTs ≠ g.lastTs ∧ g'.seq = 0

/-- The mask makes the number 0 after 4095. -/
theorem toNat_nextSeq (seq : UInt16) :
    ((seq + 1) &&& 0xFFF).toNat = (seq.toNat + 1) % 2 ^ 12 := by
  have hmask : (seq + 1).toNat &&& 0xFFF = (seq + 1).toNat % 2 ^ 12 :=
    Nat.and_two_pow_sub_one_eq_mod (seq + 1).toNat 12
  rw [UInt16.toNat_and, show (0xFFF : UInt16).toNat = 0xFFF from rfl, hmask, UInt16.toNat_add,
    show (1 : UInt16).toNat = 1 from rfl]
  omega

theorem nextSeq_lt (seq : UInt16) : ((seq + 1) &&& 0xFFF).toNat < 2 ^ 12 := by
  rw [toNat_nextSeq]
  exact Nat.mod_lt _ (by norm_num)

/-- The wait skips readings until one is past the last timestamp. -/
theorem waitPast_eq_some {lastTs ts : UInt64} : ∀ {clock rest : List UInt64},
    waitPast lastTs clock = some (ts, rest) → lastTs < ts ∧ ∃ skipped, clock = skipped ++ ts :: rest
  | [], _, h => by cases h
  | now :: clock, rest, h => by
    rw [waitPast] at h
    split at h
    · obtain ⟨hlt, skipped, hclock⟩ := waitPast_eq_some h
      exact ⟨hlt, now :: skipped, by rw [hclock]; rfl⟩
    · next hle =>
      cases h
      exact ⟨UInt64.not_le.mp hle, [], rfl⟩

/-- The wait ends as soon as the clock has moved on. -/
theorem waitPast_isSome {lastTs ts : UInt64} (hlt : lastTs < ts) : ∀ {clock : List UInt64},
    ts ∈ clock → (waitPast lastTs clock).isSome
  | now :: clock, hmem => by
    rw [waitPast]
    split
    · next hle =>
      rcases List.mem_cons.mp hmem with rfl | htail
      · exact absurd hlt (UInt64.not_lt.mpr hle)
      · exact waitPast_isSome hlt htail
    · rfl

/-- What one call does. -/
structure Called (g : UIDGenerator) (clock : List UInt64) (uid : UInt64) (g' : UIDGenerator)
    (rest : List UInt64) : Prop where
  uid_eq : uid = pack g'.lastTs g'.workerId g'.seq
  worker : g'.workerId = g.workerId
  valid : g'.Valid
  takes : g.Takes g'
  read : ∃ skipped, clock = skipped ++ g'.lastTs :: rest

/-- **A call that returns takes a number of its timestamp, and that is its last reading.** -/
theorem generate_called {g g' : UIDGenerator} {clock rest : List UInt64} {uid : UInt64}
    (hg : g.Valid) (h : g.generate clock = some ((uid, g'), rest)) : g.Called clock uid g' rest := by
  cases clock with
  | nil => cases h
  | cons now clock =>
    simp only [generate] at h
    split at h
    · next hnow =>
      split at h
      · next hzero =>
        -- the numbers of the millisecond are used up
        cases hwait : waitPast g.lastTs clock with
        | none =>
          rw [hwait] at h
          cases h
        | some r =>
          rw [hwait] at h
          cases h
          obtain ⟨hlt, skipped, hclock⟩ := waitPast_eq_some hwait
          refine ⟨rfl, rfl, ⟨hg.workerId, nextSeq_lt g.seq⟩, .inr ⟨?_, hzero⟩, now :: skipped, ?_⟩
          · exact (UInt64.ne_of_lt hlt).symm
          · rw [hclock]
            rfl
      · next hne =>
        cases h
        have hnext := toNat_nextSeq g.seq
        have hseq : (g.seq.toNat + 1) % 2 ^ 12 ≠ 0 := by
          rw [← hnext]
          exact fun h0 => hne (UInt16.toNat_inj.mp h0)
        have hlt := hg.seq
        refine ⟨rfl, rfl, ⟨hg.workerId, nextSeq_lt g.seq⟩, .inl ⟨hnow, ?_⟩, [], rfl⟩
        show ((g.seq + 1) &&& 0xFFF).toNat = _
        rw [hnext]
        omega
    · next hnow =>
      cases h
      exact ⟨rfl, rfl, ⟨hg.workerId, by norm_num⟩, .inr ⟨hnow, rfl⟩, [], rfl⟩

/-- A call returns at the latest when the clock has moved past the last timestamp. -/
theorem generate_isSome (g : UIDGenerator) {clock : List UInt64} {ts : UInt64}
    (hmem : ts ∈ clock) (hlt : g.lastTs < ts) : (g.generate clock).isSome := by
  cases clock with
  | nil => cases hmem
  | cons now clock =>
    simp only [generate]
    split
    · next hnow =>
      split
      · have htail : ts ∈ clock := by
          rcases List.mem_cons.mp hmem with rfl | htail
          · exact absurd hnow (UInt64.ne_of_lt hlt).symm
          · exact htail
        obtain ⟨r, hr⟩ := Option.isSome_iff_exists.mp (waitPast_isSome hlt htail)
        rw [hr]
        rfl
      · rfl
    · rfl

/-! ## Sequences of calls -/

/-- Each call finds the generator that the one before it has left. -/
theorem states_chain : ∀ (n : ℕ) {g : UIDGenerator} (clock : List UInt64), g.Valid →
    List.IsChain Takes (g :: states n g clock)
  | 0, _, _, _ => .singleton _
  | n + 1, g, clock, hg => by
    rw [states, calls]
    cases hgen : g.generate clock with
    | none => exact .singleton g
    | some r =>
      have hcalled := generate_called hg hgen
      exact .cons_cons hcalled.takes (states_chain n r.2 hcalled.valid)

/-- What each call returns is made from the generator it leaves, with a reading of the clock. -/
theorem calls_mem : ∀ {n : ℕ} {g : UIDGenerator} {clock : List UInt64}, g.Valid →
    ∀ call ∈ calls n g clock, call.1 = pack call.2.lastTs call.2.workerId call.2.seq ∧
      call.2.workerId = g.workerId ∧ call.2.Valid ∧ call.2.lastTs ∈ clock
  | n + 1, g, clock, hg, call, hmem => by
    rw [calls] at hmem
    cases hgen : g.generate clock with
    | none =>
      rw [hgen] at hmem
      cases hmem
    | some r =>
      rw [hgen] at hmem
      have hcalled := generate_called hg hgen
      obtain ⟨skipped, hread⟩ := hcalled.read
      rw [hread]
      rcases List.mem_cons.mp hmem with rfl | hmem
      · exact ⟨hcalled.uid_eq, hcalled.worker, hcalled.valid,
          List.mem_append_right _ List.mem_cons_self⟩
      · obtain ⟨huid, hworker, hvalid, htime⟩ := calls_mem hcalled.valid call hmem
        exact ⟨huid, hworker.trans hcalled.worker, hvalid,
          List.mem_append_right _ (List.mem_cons_of_mem _ htime)⟩

/-- The fields of a uid are those that the call has left in the generator. -/
theorem call_fields {n : ℕ} {workerId : UInt16} {clock : List UInt64}
    (hclock : ∀ t ∈ clock, t.toNat < 2 ^ 42) {call : UInt64 × UIDGenerator}
    (hcall : call ∈ calls n (new workerId) clock) :
    Fields call.1.toNat call.2.lastTs.toNat (workerId.toNat % 2 ^ 10) call.2.seq.toNat := by
  obtain ⟨huid, hworker, hvalid, htime⟩ := calls_mem (new_valid workerId) call hcall
  have hmask : call.2.workerId.toNat = workerId.toNat % 2 ^ 10 := by
    rw [hworker]
    exact toNat_mask_worker workerId
  rw [huid, ← hmask]
  exact pack_fields (hclock _ htime) hvalid.workerId hvalid.seq

/-! ## Uniqueness

Two calls return the same uid exactly if they took the same timestamp and the same number. Within one
visit to a timestamp the numbers count up (`seq_add`), so two calls clash only if they belong to two
visits;
and every visit but one to the initial `last_ts_` starts with the number 0 (`visit_start`), so two
visits
do clash. -/

/-- The calls take no timestamp again that they have left. -/
def NeverBack (times : List UInt64) : Prop :=
  ∀ (i j k : ℕ) (t : UInt64), i < j → j < k → times[i]? = some t → times[k]? = some t → times[j]? = some t

/-- Between two calls with one timestamp all calls have it. -/
theorem NeverBack.between {times : List UInt64} (h : NeverBack times) {i j k : ℕ} {t : UInt64}
    (hi : times[i]? = some t) (hk : times[k]? = some t) (hij : i ≤ j) (hjk : j ≤ k) :
    times[j]? = some t := by
  rcases Nat.eq_or_lt_of_le hij with rfl | hij
  · exact hi
  · rcases Nat.eq_or_lt_of_le hjk with rfl | hjk
    · exact hk
    · exact h i j k t hij hjk hi hk

section Visits

variable {g a b : UIDGenerator} {l : List UIDGenerator} {i k : ℕ}

/-- Two calls in a row. -/
theorem takes_of_chain (hchain : List.IsChain Takes l) (ha : l[k]? = some a)
    (hb : l[k + 1]? = some b) : a.Takes b := by
  obtain ⟨hk, rfl⟩ := List.getElem?_eq_some_iff.mp ha
  obtain ⟨hk', rfl⟩ := List.getElem?_eq_some_iff.mp hb
  exact List.isChain_iff_getElem.mp hchain k hk'

/-- As long as the timestamp stays, every call takes the next number. -/
theorem seq_add (hchain : List.IsChain Takes l) (ha : l[i]? = some a) :
    ∀ {d : ℕ} {b : UIDGenerator}, l[i + d]? = some b →
      (∀ k c, i ≤ k → k ≤ i + d → l[k]? = some c → c.lastTs = a.lastTs) →
        b.seq.toNat = a.seq.toNat + d
  | 0, b, hb, _ => by
    rw [Nat.add_zero, ha, Option.some.injEq] at hb
    rw [hb, Nat.add_zero]
  | d + 1, b, hb, hsame => by
    have hlt := (List.getElem?_eq_some_iff.mp hb).1
    have hc : l[i + d]? = some _ := List.getElem?_eq_getElem (by omega)
    have hseq := seq_add hchain ha hc fun k c hk hkd => hsame k c hk (by omega)
    rcases takes_of_chain hchain hc hb with ⟨-, hnext⟩ | ⟨hne, -⟩
    · omega
    · have hts := hsame (i + d) _ (by omega) (by omega) hc
      exact absurd ((hsame _ b (by omega) (by omega) hb).trans hts.symm) hne

/-- A timestamp other than the first `last_ts_` is entered with the number 0. -/
theorem visit_start (hchain : List.IsChain Takes (g :: l)) : ∀ {i : ℕ} {a : UIDGenerator},
    l[i]? = some a → a.lastTs ≠ g.lastTs → ∃ j c, j ≤ i ∧ l[j]? = some c ∧ c.seq = 0 ∧
      ∀ k d, j ≤ k → k ≤ i → l[k]? = some d → d.lastTs = a.lastTs
  | 0, a, ha, hne => by
    have htakes : g.Takes a := takes_of_chain (k := 0) hchain rfl ha
    rcases htakes with ⟨heq, -⟩ | ⟨-, hzero⟩
    · exact absurd heq hne
    · refine ⟨0, a, Nat.le_refl _, ha, hzero, fun k d _ hk hd => ?_⟩
      obtain rfl : k = 0 := by omega
      rw [ha, Option.some.injEq] at hd
      rw [hd]
  | i + 1, a, ha, hne => by
    have hlt := (List.getElem?_eq_some_iff.mp ha).1
    have hb : l[i]? = some _ := List.getElem?_eq_getElem (by omega)
    rcases takes_of_chain hchain.tail hb ha with ⟨heq, -⟩ | ⟨-, hzero⟩
    · -- the visit began before
      obtain ⟨j, c, hj, hc, hzero, hsame⟩ := visit_start hchain hb (by rwa [← heq])
      refine ⟨j, c, by omega, hc, hzero, fun k d hjk hk hd => ?_⟩
      rcases Nat.lt_or_ge k (i + 1) with hki | hki
      · exact (hsame k d hjk (by omega) hd).trans heq.symm
      · obtain rfl : k = i + 1 := by omega
        rw [ha, Option.some.injEq] at hd
        rw [hd]
    · refine ⟨i + 1, a, Nat.le_refl _, ha, hzero, fun k d hk hk' hd => ?_⟩
      obtain rfl : k = i + 1 := by omega
      rw [ha, Option.some.injEq] at hd
      rw [hd]

end Visits

/-- Calls with the same uid have the same timestamp and the same number. -/
theorem same_fields {n : ℕ} {workerId : UInt16} {clock : List UInt64}
    (hclock : ∀ t ∈ clock, t.toNat < 2 ^ 42) {call call' : UInt64 × UIDGenerator}
    (hcall : call ∈ calls n (new workerId) clock) (hcall' : call' ∈ calls n (new workerId) clock) :
    call.1 = call'.1 ↔ call.2.lastTs = call'.2.lastTs ∧ call.2.seq = call'.2.seq := by
  have hf := call_fields hclock hcall
  have hf' := call_fields hclock hcall'
  constructor
  · intro heq
    rw [← heq] at hf'
    obtain ⟨hts, -, hseq⟩ := hf.unique hf'
    exact ⟨UInt64.toNat_inj.mp hts.symm, UInt16.toNat_inj.mp hseq.symm⟩
  · rintro ⟨hts, hseq⟩
    rw [← UInt64.toNat_inj, hf.2.2.2, hf'.2.2.2, hts, hseq]

/-- The uids in two places are the same if and only if timestamp and number are. -/
theorem uids_getElem?_eq {n : ℕ} {workerId : UInt16} {clock : List UInt64}
    (hclock : ∀ t ∈ clock, t.toNat < 2 ^ 42) {i j : ℕ} {a b : UIDGenerator}
    (ha : (states n (new workerId) clock)[i]? = some a)
    (hb : (states n (new workerId) clock)[j]? = some b) :
    (uids n (new workerId) clock)[i]? = (uids n (new workerId) clock)[j]? ↔
      a.lastTs = b.lastTs ∧ a.seq = b.seq := by
  rw [states, List.getElem?_map, Option.map_eq_some_iff] at ha hb
  obtain ⟨call, hcall, rfl⟩ := ha
  obtain ⟨call', hcall', rfl⟩ := hb
  rw [uids, List.getElem?_map, List.getElem?_map, hcall, hcall', Option.map_some, Option.map_some,
    Option.some.injEq]
  exact same_fields hclock (List.mem_of_getElem? hcall) (List.mem_of_getElem? hcall')

theorem length_uids (n : ℕ) (g : UIDGenerator) (clock : List UInt64) :
    (uids n g clock).length = (states n g clock).length := by
  rw [uids, states, List.length_map, List.length_map]

theorem times_of_state {n : ℕ} {g a : UIDGenerator} {clock : List UInt64} {k : ℕ}
    (ha : (states n g clock)[k]? = some a) : (times n g clock)[k]? = some a.lastTs := by
  rw [times, List.getElem?_map, ha, Option.map_some]

/-- With one visit to each timestamp all numbers of a timestamp differ. -/
theorem uids_nodup_of_neverBack {n : ℕ} {workerId : UInt16} {clock : List UInt64}
    (hclock : ∀ t ∈ clock, t.toNat < 2 ^ 42) (hnever : NeverBack (times n (new workerId) clock)) :
    (uids n (new workerId) clock).Nodup := by
  have hchain : List.IsChain Takes (states n (new workerId) clock) :=
    (states_chain n clock (new_valid workerId)).tail
  rw [List.nodup_iff_getElem?_ne_getElem?]
  intro i j hij hj heq
  rw [length_uids] at hj
  have ha : (states n (new workerId) clock)[i]? = some _ := List.getElem?_eq_getElem (by omega)
  have hb : (states n (new workerId) clock)[j]? = some _ := List.getElem?_eq_getElem hj
  obtain ⟨hts, hseq⟩ := (uids_getElem?_eq hclock ha hb).mp heq
  obtain ⟨d, rfl⟩ : ∃ d, j = i + (d + 1) := ⟨j - i - 1, by omega⟩
  -- the two calls take one timestamp, hence so do all between them, with growing numbers
  have hadd := seq_add hchain ha hb fun k c hik hki hc => by
    have htj := times_of_state hb
    rw [← hts] at htj
    have htk := hnever.between (times_of_state ha) htj hik hki
    rw [times_of_state hc, Option.some.injEq] at htk
    exact htk
  rw [hseq] at hadd
  omega

/-- A timestamp that was left and is taken again is entered twice with the number 0. -/
theorem neverBack_of_uids_nodup {n : ℕ} {workerId : UInt16} {clock : List UInt64}
    (hclock : ∀ t ∈ clock, t.toNat < 2 ^ 42) (hpos : 0 ∉ clock)
    (hnodup : (uids n (new workerId) clock).Nodup) : NeverBack (times n (new workerId) clock) := by
  have hchain := states_chain n clock (new_valid workerId)
  have hne : ∀ a ∈ states n (new workerId) clock, a.lastTs ≠ (new workerId).lastTs := by
    intro a ha hzero
    obtain ⟨call, hcall, rfl⟩ := List.mem_map.mp ha
    obtain ⟨-, -, -, htime⟩ := calls_mem (new_valid workerId) call hcall
    rw [hzero] at htime
    exact hpos htime
  rw [List.nodup_iff_getElem?_ne_getElem?] at hnodup
  intro i j k t hij hjk hi hk
  rw [times, List.getElem?_map, Option.map_eq_some_iff] at hi hk
  obtain ⟨a, ha, rfl⟩ := hi
  obtain ⟨b, hb, hts⟩ := hk
  obtain ⟨i', a', hi', ha', hzero, hsame⟩ := visit_start hchain ha (hne a (List.mem_of_getElem? ha))
  obtain ⟨k', b', hk', hb', hzero', hsame'⟩ := visit_start hchain hb (hne b (List.mem_of_getElem? hb))
  have hlt := (List.getElem?_eq_some_iff.mp hb').1
  -- the two visits begin in one place, or else there are two equal uids
  have hbegin : k' ≤ i' := by
    by_contra hlate
    refine hnodup i' k' (by omega) (by rwa [length_uids]) ?_
    rw [uids_getElem?_eq hclock ha' hb', hsame i' a' (Nat.le_refl _) hi' ha',
      hsame' k' b' (Nat.le_refl _) hk' hb', hts, hzero, hzero']
    exact ⟨rfl, rfl⟩
  have hlast := (List.getElem?_eq_some_iff.mp hb).1
  have hc : (states n (new workerId) clock)[j]? = some _ := List.getElem?_eq_getElem (by omega)
  rw [times_of_state hc, hsame' j _ (by omega) (by omega) hc, hts]

/-- **The uids of a generator differ from each other as long as the clock never shows a millisecond
again that was left.** Nothing less is enough, unless the clock shows the first millisecond of the
epoch: that one alone is entered with the number 1 at first. -/
theorem uids_nodup_iff (workerId : UInt16) (n : ℕ) (clock : List UInt64)
    (hclock : ∀ t ∈ clock, t.toNat < 2 ^ 42) :
    (NeverBack (times n (new workerId) clock) → (uids n (new workerId) clock).Nodup) ∧
      (0 ∉ clock → (uids n (new workerId) clock).Nodup →
        NeverBack (times n (new workerId) clock)) :=
  ⟨uids_nodup_of_neverBack hclock, neverBack_of_uids_nodup hclock⟩

theorem uids_nodup_iff_standing : (uids 3 (new 0) [5, 5, 6]).Nodup := by
  refine (uids_nodup_iff 0 3 [5, 5, 6] (by simp)).1 ?_
  have htimes : times 3 (new 0) [5, 5, 6] = [5, 5, 6] := by decide +kernel
  rw [htimes]
  intro i j k t hij hjk hi hk
  have hlt := (List.getElem?_eq_some_iff.mp hk).1
  simp only [List.length_cons, List.length_nil] at hlt
  obtain ⟨rfl, rfl, rfl⟩ : i = 0 ∧ j = 1 ∧ k = 2 := by omega
  rw [← hi] at hk
  exact absurd hk (by decide)

/-- The clock is set back by a millisecond between the second call and the third. -/
theorem uids_repeat_after_set_back :
    uids 3 (new 0) [5, 6, 5] = [5 * 2 ^ 22, 6 * 2 ^ 22, 5 * 2 ^ 22] ∧
      ¬ (uids 3 (new 0) [5, 6, 5]).Nodup := by
  decide

/-! ## Order

A clock that does not go back gives later calls a later timestamp, or the same one and a greater
number;
with the timestamp in the highest bits this is the order of the uids. -/

/-- An earlier timestamp, or the same one with a lesser number. -/
def Before (g g' : UIDGenerator) : Prop :=
  g.lastTs < g'.lastTs ∨ g.lastTs = g'.lastTs ∧ g.seq.toNat < g'.seq.toNat

instance : Trans Before Before Before where
  trans := by
    rintro a b c (hab | ⟨hab, hseq⟩) (hbc | ⟨hbc, hseq'⟩)
    · exact .inl (UInt64.lt_trans hab hbc)
    · exact .inl (hbc ▸ hab)
    · exact .inl (hab ▸ hbc)
    · exact .inr ⟨hab.trans hbc, hseq.trans hseq'⟩

/-- A clock that does not go back takes the generator forward. -/
theorem Takes.before {g g' : UIDGenerator} (h : g.Takes g') (hle : g.lastTs ≤ g'.lastTs) :
    g.Before g' := by
  rcases h with ⟨hts, hseq⟩ | ⟨hts, -⟩
  · exact .inr ⟨hts.symm, by omega⟩
  · exact .inl (UInt64.lt_of_le_of_ne hle hts.symm)

/-- By induction over the calls: each takes a reading that is not before the last timestamp. -/
theorem states_before : ∀ (n : ℕ) {g : UIDGenerator} {clock : List UInt64}, g.Valid →
    (g.lastTs :: clock).Pairwise (· ≤ ·) → List.IsChain Before (g :: states n g clock)
  | 0, _, _, _, _ => .singleton _
  | n + 1, g, clock, hg, hmono => by
    rw [states, calls]
    cases hgen : g.generate clock with
    | none => exact .singleton g
    | some r =>
      have hcalled := generate_called hg hgen
      obtain ⟨skipped, hread⟩ := hcalled.read
      rw [hread] at hmono
      obtain ⟨hle, htail⟩ := List.pairwise_cons.mp hmono
      refine .cons_cons (hcalled.takes.before (hle _ ?_)) (states_before n hcalled.valid ?_)
      · exact List.mem_append_right _ List.mem_cons_self
      · exact (List.pairwise_append.mp htail).2.1

/-- What is before in time is less as a number. -/
theorem Fields.lt {uid uid' workerId : ℕ} {g g' : UIDGenerator} (hbefore : g.Before g')
    (h : Fields uid g.lastTs.toNat workerId g.seq.toNat)
    (h' : Fields uid' g'.lastTs.toNat workerId g'.seq.toNat) : uid < uid' := by
  obtain ⟨-, hw, hq, rfl⟩ := h
  obtain ⟨-, -, -, rfl⟩ := h'
  rcases hbefore with hlt | ⟨heq, hlt⟩
  · have := UInt64.lt_iff_toNat_lt.mp hlt
    omega
  · rw [heq]
    omega

/-- Pairwise, since to be before is transitive. -/
theorem uids_increasing {n : ℕ} {workerId : UInt16} {clock : List UInt64}
    (hclock : ∀ t ∈ clock, t.toNat < 2 ^ 42) (hmono : clock.Pairwise (· ≤ ·)) :
    (uids n (new workerId) clock).Pairwise (· < ·) := by
  have hstart : ((new workerId).lastTs :: clock).Pairwise (· ≤ ·) :=
    List.pairwise_cons.mpr ⟨fun _ _ => UInt64.zero_le, hmono⟩
  have hchain := List.isChain_iff_pairwise.mp (states_before n (new_valid workerId) hstart).tail
  rw [uids, List.pairwise_map]
  rw [List.tail_cons, states, List.pairwise_map] at hchain
  refine hchain.imp_of_mem fun hcall hcall' hbefore => ?_
  exact UInt64.lt_iff_toNat_lt.mpr
    ((call_fields hclock hcall).lt hbefore (call_fields hclock hcall'))

/-- **With a clock that does not go back the uids of a generator increase.** Each has the fields of
its call and no others: the reading, the masked worker id and the number. Generators whose masked
worker ids differ share no uid. However many numbers of a millisecond are used up, the call returns
once the clock has moved on. -/
theorem uids_ordered (workerId : UInt16) (n : ℕ) (clock : List UInt64)
    (hclock : ∀ t ∈ clock, t.toNat < 2 ^ 42) (hmono : clock.Pairwise (· ≤ ·)) :
    (uids n (new workerId) clock).Pairwise (· < ·) ∧
      (∀ call ∈ calls n (new workerId) clock, call.2.lastTs ∈ clock ∧
        ∀ ts w seq, Fields call.1.toNat ts w seq ↔
          ts = call.2.lastTs.toNat ∧ w = (workerId &&& 0x3FF).toNat ∧ seq = call.2.seq.toNat) ∧
      (∀ (workerId' : UInt16) (n' : ℕ) (clock' : List UInt64), (∀ t ∈ clock', t.toNat < 2 ^ 42) →
        workerId &&& 0x3FF ≠ workerId' &&& 0x3FF →
          ∀ uid ∈ uids n (new workerId) clock, uid ∉ uids n' (new workerId') clock') ∧
      ∀ (g : UIDGenerator) (clock' : List UInt64) (ts : UInt64), ts ∈ clock' → g.lastTs < ts →
        (g.generate clock').isSome := by
  refine ⟨uids_increasing hclock hmono, ?_, ?_, fun g clock' ts => generate_isSome g⟩
  · intro call hcall
    have hfields := call_fields hclock hcall
    refine ⟨(calls_mem (new_valid workerId) call hcall).2.2.2, fun ts w seq => ⟨fun h => ?_, ?_⟩⟩
    · rw [toNat_mask_worker]
      exact hfields.unique h
    · rw [toNat_mask_worker]
      rintro ⟨rfl, rfl, rfl⟩
      exact hfields
  · intro workerId' n' clock' hclock' hne uid huid huid'
    obtain ⟨call, hcall, rfl⟩ := List.mem_map.mp huid
    obtain ⟨call', hcall', heq⟩ := List.mem_map.mp huid'
    have hfields' := call_fields hclock' hcall'
    rw [heq] at hfields'
    obtain ⟨-, hw, -⟩ := (call_fields hclock hcall).unique hfields'
    rw [← toNat_mask_worker, ← toNat_mask_worker, UInt16.toNat_inj] at hw
    exact hne hw.symm

theorem uids_ordered_standing : (uids 3 (new 0x405) [0, 0, 6]).Pairwise (· < ·) :=
  (uids_ordered 0x405 3 [0, 0, 6] (by simp) (by simp)).1

end UIDGenerator

end Chatroom
