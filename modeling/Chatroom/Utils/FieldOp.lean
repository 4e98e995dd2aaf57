import Chatroom.Lib.ByteSeq

/-!
# Network fields (`utils/field_op.hpp`)

Every integer that crosses the wire (the tag and the length of a frame, a uid inside a chat
message) is written and read by `WriteNetField*` and `ReadNetField*`: convert between host and
network order, then `memcpy` the object's bytes. What those bytes are depends on the host, so the
byte order is a parameter of the model; the results say that it does not matter.
-/

namespace Chatroom

open ByteSeq

/-- `__BYTE_ORDER` of the host. -/
inductive ByteOrder where
  | little
  | big
  deriving DecidableEq, Repr

namespace ByteOrder

/-- The bytes in memory of an integer object of `w` bytes. -/
def store (host : ByteOrder) (w v : ℕ) : List UInt8 :=
  match host with
  | little => leBytes w v
  | big => beBytes w v

/-- The value of an integer object with these bytes in memory. -/
def load (host : ByteOrder) (bs : List UInt8) : ℕ :=
  match host with
  | little => leValue bs
  | big => beValue bs

@[simp] theorem store_length (host : ByteOrder) (w v : ℕ) : (host.store w v).length = w := by
  cases host <;> simp [store]

end ByteOrder

/-! ## Host and network order

On a big-endian host the conversions do nothing, and the `memcpy` gives network order by itself; on a
little-endian one they turn the bytes around, and so does the `memcpy`. `htonll` is written out in the
header, over `htonl`; the others are those of the C library. -/

/-- The number whose bytes are those of `v` in the opposite order. -/
def swapBytes (w v : ℕ) : ℕ := beValue (leBytes w v)

def htons (host : ByteOrder) (v : UInt16) : UInt16 :=
  match host with
  | .little => UInt16.ofNat (swapBytes 2 v.toNat)
  | .big => v

def ntohs (host : ByteOrder) (v : UInt16) : UInt16 := htons host v

def htonl (host : ByteOrder) (v : UInt32) : UInt32 :=
  match host with
  | .little => UInt32.ofNat (swapBytes 4 v.toNat)
  | .big => v

def ntohl (host : ByteOrder) (v : UInt32) : UInt32 := htonl host v

/-- Two `htonl` of the halves, exchanged. The argument `value >> 32` is narrowed to 32 bits by the
call. -/
def htonll (host : ByteOrder) (value : UInt64) : UInt64 :=
  match host with
  | .little =>
      ((htonl .little (value &&& 0xFFFFFFFF).toUInt32).toUInt64 <<< 32) |||
        (htonl .little (value >>> 32).toUInt32).toUInt64
  | .big => value

def ntohll (host : ByteOrder) (value : UInt64) : UInt64 :=
  match host with
  | .little =>
      ((ntohl .little (value &&& 0xFFFFFFFF).toUInt32).toUInt64 <<< 32) |||
        (ntohl .little (value >>> 32).toUInt32).toUInt64
  | .big => value

/-! ## The fields -/

def writeNetField16 (host : ByteOrder) (buf : List UInt8) (dst : ℕ) (val : UInt16) : List UInt8 :=
  splice buf dst (host.store 2 (htons host val).toNat)

def readNetField16 (host : ByteOrder) (buf : List UInt8) (beg : ℕ) : UInt16 :=
  ntohs host (UInt16.ofNat (host.load (slice buf beg 2)))

def writeNetField32 (host : ByteOrder) (buf : List UInt8) (dst : ℕ) (val : UInt32) : List UInt8 :=
  splice buf dst (host.store 4 (htonl host val).toNat)

def readNetField32 (host : ByteOrder) (buf : List UInt8) (beg : ℕ) : UInt32 :=
  ntohl host (UInt32.ofNat (host.load (slice buf beg 4)))

def writeNetField64 (host : ByteOrder) (buf : List UInt8) (dst : ℕ) (val : UInt64) : List UInt8 :=
  splice buf dst (host.store 8 (htonll host val).toNat)

def readNetField64 (host : ByteOrder) (buf : List UInt8) (beg : ℕ) : UInt64 :=
  ntohll host (UInt64.ofNat (host.load (slice buf beg 8)))

/-! ## The byte order of the host does not matter

Two facts for each width: storing a converted value gives its big-endian bytes (`htons_store`,
`htonl_store`, `htonll_store`), and converting a loaded value gives the big-endian value of the bytes
(`ntohs_load`, `ntohl_load`, `ntohll_load`). The big-endian host is `rfl` in each; the little-endian
one
rests on `leBytes_swapBytes` and `swapBytes_leValue`. -/

theorem swapBytes_lt (w v : ℕ) : swapBytes w v < 256 ^ w := by
  simpa [swapBytes] using beValue_lt (leBytes w v)

theorem swapBytes_four_lt (v : ℕ) : swapBytes 4 v < 2 ^ 32 :=
  lt_of_lt_of_eq (swapBytes_lt 4 v) (by norm_num)

/-- A number with its bytes turned around, stored from its low end, is stored from its high end. -/
theorem leBytes_swapBytes (w v : ℕ) : leBytes w (swapBytes w v) = beBytes w v := by
  have h := leBytes_leValue (leBytes w v).reverse
  rwa [List.length_reverse, leBytes_length] at h

/-- And read from its low end, with the bytes turned around, it is read from its high end. -/
theorem swapBytes_leValue (bs : List UInt8) : swapBytes bs.length (leValue bs) = beValue bs := by
  rw [swapBytes, leBytes_leValue]

/-- What `WriteNetField32` copies to the buffer. -/
theorem htonl_store (host : ByteOrder) (v : UInt32) :
    host.store 4 (htonl host v).toNat = beBytes 4 v.toNat := by
  cases host with
  | big => rfl
  | little =>
      rw [ByteOrder.store, htonl, UInt32.toNat_ofNat_of_lt' (swapBytes_four_lt _),
        leBytes_swapBytes]

/-- What `ReadNetField32` makes of four bytes. -/
theorem ntohl_load (host : ByteOrder) {bs : List UInt8} (h : bs.length = 4) :
    ntohl host (UInt32.ofNat (host.load bs)) = UInt32.ofNat (beValue bs) := by
  cases host with
  | big => rfl
  | little =>
      have hlt : leValue bs < 2 ^ 32 := by simpa [h] using leValue_lt bs
      rw [ByteOrder.load, ntohl, htonl, UInt32.toNat_ofNat_of_lt' hlt]
      rw [show (4 : ℕ) = bs.length from h.symm, swapBytes_leValue]

theorem htons_store (host : ByteOrder) (v : UInt16) :
    host.store 2 (htons host v).toNat = beBytes 2 v.toNat := by
  cases host with
  | big => rfl
  | little =>
      rw [ByteOrder.store, htons, UInt16.toNat_ofNat_of_lt' (swapBytes_lt 2 _), leBytes_swapBytes]

theorem ntohs_load (host : ByteOrder) {bs : List UInt8} (h : bs.length = 2) :
    ntohs host (UInt16.ofNat (host.load bs)) = UInt16.ofNat (beValue bs) := by
  cases host with
  | big => rfl
  | little =>
      have hlt : leValue bs < 2 ^ 16 := by simpa [h] using leValue_lt bs
      rw [ByteOrder.load, ntohs, htons, UInt16.toNat_ofNat_of_lt' hlt]
      rw [show (2 : ℕ) = bs.length from h.symm, swapBytes_leValue]

/-- **A 32-bit field is stored big-endian**, whatever the host. -/
theorem writeNetField32_eq (host : ByteOrder) (buf : List UInt8) (dst : ℕ) (val : UInt32) :
    writeNetField32 host buf dst val = splice buf dst (beBytes 4 val.toNat) := by
  rw [writeNetField32, htonl_store]

theorem le_writeNetField32_length (host : ByteOrder) (buf : List UInt8) (dst : ℕ) (val : UInt32) :
    buf.length ≤ (writeNetField32 host buf dst val).length :=
  le_splice_length ..

/-- **A 32-bit field is read big-endian**, whatever the host. -/
theorem readNetField32_eq (host : ByteOrder) {buf : List UInt8} {beg : ℕ}
    (h : beg + 4 ≤ buf.length) :
    readNetField32 host buf beg = UInt32.ofNat (beValue (slice buf beg 4)) :=
  ntohl_load host (slice_length h)

/-! ### The 64-bit fields

`htonll` is built from two 32-bit halves. On the halves `hi` and `lo` of a value it gives the
number `swap lo * 2 ^ 32 + swap hi`, whose little-endian bytes are those of `swap hi`, then those
of `swap lo`: the big-endian bytes of `hi`, then of `lo`. -/

theorem toNat_htonl_little (v : UInt32) : (htonl .little v).toNat = swapBytes 4 v.toNat := by
  rw [htonl, UInt32.toNat_ofNat_of_lt' (swapBytes_four_lt _)]

/-- Two 32-bit halves put together by a shift and an or. -/
theorem toNat_joinHalves (hi lo : UInt32) :
    ((hi.toUInt64 <<< 32) ||| lo.toUInt64).toNat = hi.toNat * 2 ^ 32 + lo.toNat := by
  have hhi : hi.toNat < 2 ^ 32 := hi.toNat_lt
  have hlo : lo.toNat < 2 ^ 32 := lo.toNat_lt
  have hshift : (hi.toUInt64 <<< 32).toNat = hi.toNat <<< 32 := by
    rw [UInt64.toNat_shiftLeft, UInt32.toNat_toUInt64, UInt64.toNat_ofNat, Nat.shiftLeft_eq]
    norm_num
    omega
  rw [UInt64.toNat_or, hshift, UInt32.toNat_toUInt64, ← Nat.shiftLeft_add_eq_or_of_lt hlo,
    Nat.shiftLeft_eq]

theorem toNat_lowHalf (value : UInt64) :
    ((value &&& 0xFFFFFFFF).toUInt32).toNat = value.toNat % 2 ^ 32 := by
  have hmask : value.toNat &&& 0xFFFFFFFF = value.toNat % 2 ^ 32 :=
    Nat.and_two_pow_sub_one_eq_mod value.toNat 32
  rw [UInt64.toNat_toUInt32, UInt64.toNat_and, UInt64.toNat_ofNat]
  norm_num at hmask ⊢
  omega

theorem toNat_highHalf (value : UInt64) :
    ((value >>> 32).toUInt32).toNat = value.toNat / 2 ^ 32 := by
  have hv : value.toNat < 2 ^ 64 := value.toNat_lt
  rw [UInt64.toNat_toUInt32, UInt64.toNat_shiftRight, UInt64.toNat_ofNat,
    Nat.shiftRight_eq_div_pow]
  norm_num
  omega

/-- The halves are exchanged and each is turned around. -/
theorem toNat_htonll_little (value : UInt64) :
    (htonll .little value).toNat =
      swapBytes 4 (value.toNat % 2 ^ 32) * 2 ^ 32 + swapBytes 4 (value.toNat / 2 ^ 32) := by
  rw [htonll, toNat_joinHalves, toNat_htonl_little, toNat_htonl_little, toNat_lowHalf,
    toNat_highHalf]

/-- The low half comes first in memory. -/
theorem leBytes_joinHalves {lo : ℕ} (hi : ℕ) (h : lo < 2 ^ 32) :
    leBytes 8 (hi * 2 ^ 32 + lo) = leBytes 4 lo ++ leBytes 4 hi := by
  have hlow : (hi * 2 ^ 32 + lo) % 256 ^ 4 = lo := by omega
  have hhigh : (hi * 2 ^ 32 + lo) / 256 ^ 4 = hi := by omega
  rw [show (8 : ℕ) = 4 + 4 from rfl, leBytes_add, hhigh, ← leBytes_mod, hlow]

/-- The high half comes first on the wire. -/
theorem beBytes_halves (v : ℕ) :
    beBytes 8 v = beBytes 4 (v / 2 ^ 32) ++ beBytes 4 (v % 2 ^ 32) := by
  have hlt : v % 2 ^ 32 < 2 ^ 32 := Nat.mod_lt _ (by norm_num)
  have h := leBytes_joinHalves (v / 2 ^ 32) hlt
  rw [Nat.div_add_mod'] at h
  rw [beBytes, h, List.reverse_append, ← beBytes, ← beBytes]

/-- What `WriteNetField64` copies to the buffer. -/
theorem htonll_store (host : ByteOrder) (v : UInt64) :
    host.store 8 (htonll host v).toNat = beBytes 8 v.toNat := by
  cases host with
  | big => rfl
  | little =>
      rw [ByteOrder.store, toNat_htonll_little, leBytes_joinHalves _ (swapBytes_four_lt _),
        leBytes_swapBytes, leBytes_swapBytes, beBytes_halves]

/-- `ntohll` undoes on the loaded value what `htonll` did to the stored one. -/
theorem ntohll_eq_htonll (host : ByteOrder) (v : UInt64) : ntohll host v = htonll host v := by
  cases host <;> rfl

/-- What `ReadNetField64` makes of eight bytes. -/
theorem ntohll_load (host : ByteOrder) {bs : List UInt8} (h : bs.length = 8) :
    ntohll host (UInt64.ofNat (host.load bs)) = UInt64.ofNat (beValue bs) := by
  cases host with
  | big => rfl
  | little =>
      -- The little-endian bytes of the result are the big-endian ones of the loaded value.
      have hlt : leValue bs < 2 ^ 64 :=
        lt_of_lt_of_eq (leValue_lt bs) (by rw [h]; norm_num)
      have hbe : beValue bs < 2 ^ 64 :=
        lt_of_lt_of_eq (beValue_lt bs) (by rw [h]; norm_num)
      have hstore := htonll_store .little (UInt64.ofNat (leValue bs))
      rw [UInt64.toNat_ofNat_of_lt' hlt] at hstore
      have hval := congrArg leValue hstore
      have hres : (htonll .little (UInt64.ofNat (leValue bs))).toNat < 2 ^ 64 :=
        UInt64.toNat_lt _
      rw [ByteOrder.store, leValue_leBytes, Nat.mod_eq_of_lt (by simpa using hres), beBytes,
        ← h, leBytes_leValue, ← beValue] at hval
      rw [ntohll_eq_htonll, ByteOrder.load]
      apply UInt64.toNat_inj.mp
      rw [hval, UInt64.toNat_ofNat_of_lt' hbe]

/-- **A 64-bit field is stored big-endian**, whatever the host. -/
theorem writeNetField64_eq (host : ByteOrder) (buf : List UInt8) (dst : ℕ) (val : UInt64) :
    writeNetField64 host buf dst val = splice buf dst (beBytes 8 val.toNat) := by
  rw [writeNetField64, htonll_store]

theorem le_writeNetField64_length (host : ByteOrder) (buf : List UInt8) (dst : ℕ) (val : UInt64) :
    buf.length ≤ (writeNetField64 host buf dst val).length :=
  le_splice_length ..

/-- **A 64-bit field is read big-endian**, whatever the host. -/
theorem readNetField64_eq (host : ByteOrder) {buf : List UInt8} {beg : ℕ}
    (h : beg + 8 ≤ buf.length) :
    readNetField64 host buf beg = UInt64.ofNat (beValue (slice buf beg 8)) :=
  ntohll_load host (slice_length h)

/-! ## The codec

One statement for all widths. `NetField` says what is stored and what is read in terms of big-endian
bytes, where the host that reads may differ from the one that wrote; the two round trips follow from
this alone (`NetField.of_bytes`), so the width enters only through the six facts above. -/

/-- What is expected of a pair of functions for a field of `w` bytes. The host that reads need not be
the one that has written. -/
structure NetField (w : ℕ) {α : Type} (toNat : α → ℕ)
    (write : ByteOrder → List UInt8 → ℕ → α → List UInt8)
    (read : ByteOrder → List UInt8 → ℕ → α) : Prop where
  /-- A write puts the big-endian bytes of the value there and touches nothing else. -/
  stores : ∀ host buf dst v, write host buf dst v = splice buf dst (beBytes w (toNat v))
  /-- A read returns the big-endian value of whatever bytes are there. -/
  reads : ∀ host buf beg, beg + w ≤ buf.length →
    toNat (read host buf beg) = beValue (slice buf beg w)
  read_write : ∀ host host' buf pos v, pos + w ≤ buf.length →
    read host' (write host buf pos v) pos = v
  write_read : ∀ host host' buf pos, pos + w ≤ buf.length →
    write host' buf pos (read host buf pos) = buf

/-- The round trips follow from what is stored and what is read. -/
theorem NetField.of_bytes {w : ℕ} {α : Type} {toNat : α → ℕ}
    {write : ByteOrder → List UInt8 → ℕ → α → List UInt8} {read : ByteOrder → List UInt8 → ℕ → α}
    (hinj : ∀ v v', toNat v = toNat v' → v = v') (hlt : ∀ v, toNat v < 256 ^ w)
    (hstores : ∀ host buf dst v, write host buf dst v = splice buf dst (beBytes w (toNat v)))
    (hreads : ∀ host buf beg, beg + w ≤ buf.length →
      toNat (read host buf beg) = beValue (slice buf beg w)) : NetField w toNat write read := by
  refine ⟨hstores, hreads, fun host host' buf pos v hpos => hinj _ _ ?_,
    fun host host' buf pos hpos => ?_⟩
  · have hslice : slice (splice buf pos (beBytes w (toNat v))) pos w = beBytes w (toNat v) := by
      have hself : slice (splice buf pos (beBytes w (toNat v))) pos (beBytes w (toNat v)).length =
          beBytes w (toNat v) := slice_splice_self (by omega)
      rwa [beBytes_length] at hself
    have hlen : (splice buf pos (beBytes w (toNat v))).length = buf.length :=
      splice_length (by rwa [beBytes_length])
    rw [hstores, hreads _ _ _ (by omega), hslice, beValue_beBytes, Nat.mod_eq_of_lt (hlt v)]
  · have hbytes := beBytes_beValue (slice buf pos w)
    rw [slice_length hpos] at hbytes
    rw [hstores, hreads _ _ _ hpos, hbytes, splice_slice hpos]

theorem netField16 : NetField 2 UInt16.toNat writeNetField16 readNetField16 := by
  refine .of_bytes (fun v v' => UInt16.toNat_inj.mp) UInt16.toNat_lt (fun host buf dst v => ?_)
    fun host buf beg hbeg => ?_
  · rw [writeNetField16, htons_store]
  · have hlen : (slice buf beg 2).length = 2 := slice_length hbeg
    have hlt : beValue (slice buf beg 2) < 2 ^ 16 := by simpa [hlen] using beValue_lt (slice buf beg 2)
    rw [readNetField16, ntohs_load host hlen, UInt16.toNat_ofNat_of_lt' hlt]

/-- The tag and the length of a frame. -/
theorem netField32 : NetField 4 UInt32.toNat writeNetField32 readNetField32 := by
  refine .of_bytes (fun v v' => UInt32.toNat_inj.mp) UInt32.toNat_lt writeNetField32_eq
    fun host buf beg hbeg => ?_
  have hlen : (slice buf beg 4).length = 4 := slice_length hbeg
  have hlt : beValue (slice buf beg 4) < 2 ^ 32 := by simpa [hlen] using beValue_lt (slice buf beg 4)
  rw [readNetField32_eq host hbeg, UInt32.toNat_ofNat_of_lt' hlt]

/-- The uid in a chat message. -/
theorem netField64 : NetField 8 UInt64.toNat writeNetField64 readNetField64 := by
  refine .of_bytes (fun v v' => UInt64.toNat_inj.mp) UInt64.toNat_lt writeNetField64_eq
    fun host buf beg hbeg => ?_
  have hlen : (slice buf beg 8).length = 8 := slice_length hbeg
  have hlt : beValue (slice buf beg 8) < 2 ^ 64 := by simpa [hlen] using beValue_lt (slice buf beg 8)
  rw [readNetField64_eq host hbeg, UInt64.toNat_ofNat_of_lt' hlt]

/-- `htonll` is its own inverse: it turns the eight bytes around, and does so twice. -/
theorem htonll_htonll (host : ByteOrder) (v : UInt64) : htonll host (htonll host v) = v := by
  cases host with
  | big => rfl
  | little =>
      have hstore : ∀ v, leBytes 8 (htonll .little v).toNat = (leBytes 8 v.toNat).reverse :=
        htonll_store .little
      have hbytes : leBytes 8 (htonll .little (htonll .little v)).toNat = leBytes 8 v.toNat := by
        rw [hstore, hstore, List.reverse_reverse]
      have hmod : ∀ v : UInt64, v.toNat % 256 ^ 8 = v.toNat := fun v => Nat.mod_eq_of_lt v.toNat_lt
      have hvalue := congrArg leValue hbytes
      rw [leValue_leBytes, leValue_leBytes, hmod, hmod] at hvalue
      exact UInt64.toNat_inj.mp hvalue

/-- **The fields of all widths are big-endian on every host**, hosts of either byte order understand
each other, and `htonll` and `ntohll` are inverse to each other. -/
theorem netFields_bigEndian :
    NetField 2 UInt16.toNat writeNetField16 readNetField16 ∧
    NetField 4 UInt32.toNat writeNetField32 readNetField32 ∧
    NetField 8 UInt64.toNat writeNetField64 readNetField64 ∧
    ∀ host v, ntohll host (htonll host v) = v ∧ htonll host (ntohll host v) = v := by
  refine ⟨netField16, netField32, netField64, fun host v => ?_⟩
  rw [ntohll_eq_htonll, ntohll_eq_htonll, htonll_htonll]
  exact ⟨rfl, rfl⟩

end Chatroom
