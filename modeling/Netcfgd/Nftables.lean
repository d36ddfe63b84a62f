import Mathlib.Data.Nat.Bits
import Mathlib.Data.Nat.Bitwise
import Mathlib.Tactic.Common
import Mathlib.Tactic.IntervalCases

/-!
# nftables expressions

What the kernel does with a rule : a list of expressions over a register, the first comparison
that fails ending it (`run`). A load puts some bytes of the packet or of what is known about it
in the register, a mask and a swap change them, a comparison reads them, and a verdict ends the
rule. Numbers the kernel keeps in its own byte order are loaded in it, so everything here is
for either order (`Endian`).

`Tests` is the rule for putting expressions together : a group that passes exactly the packets
of which `P` holds, whatever stood in the register before. The groups of a rule are tests of
their own (`Tests.append`), and the rule gives its verdict where all of them pass
(`Tests.run_eq`).
-/

namespace Nftables

/-! ## Bytes -/

abbrev Bytes := List UInt8

/-- A number in `width` bytes, in network order. -/
def networkOrder : ℕ → ℕ → Bytes
  | 0, _ => []
  | width + 1, n => UInt8.ofNat (n / 256 ^ width) :: networkOrder width (n % 256 ^ width)

inductive Endian
  | little
  | big
  deriving DecidableEq, Repr

/-- A number in `width` bytes, in the machine's order. -/
def hostOrder (e : Endian) (width n : ℕ) : Bytes :=
  match e with
  | .little => (networkOrder width n).reverse
  | .big => networkOrder width n

/-- What a swap to network order makes of bytes in the machine's order. -/
def swap (e : Endian) (bytes : Bytes) : Bytes :=
  match e with
  | .little => bytes.reverse
  | .big => bytes

/-- `memcmp`, as an order. -/
def memcmpLe : Bytes → Bytes → Bool
  | [], _ => true
  | _ :: _, [] => false
  | a :: as, b :: bs => a < b || a = b && memcmpLe as bs

/-- The `i`-th bit, from the left. -/
def bitAt (bytes : Bytes) (i : ℕ) : Bool :=
  (bytes.getD (i / 8) 0).toNat.testBit (7 - i % 8)

/-- The first `count` bits agree. -/
def SamePrefix (count : ℕ) (a b : Bytes) : Prop :=
  ∀ i < count, bitAt a i = bitAt b i

/-- `width` bytes of which the first `count` bits are set, one after the other. -/
def prefixMask (width count : ℕ) : Bytes :=
  (List.range count).foldl (fun mask bit =>
    mask.modify (bit / 8) (· ||| (0x80 >>> UInt8.ofNat (bit % 8)))) (List.replicate width 0)

/-! ## Packets -/

/-- `NFPROTO_IPV4` and `NFPROTO_IPV6`, the two families an `inet` table sees. -/
inductive Family
  | ipv4
  | ipv6
  deriving DecidableEq, Repr

def Family.number : Family → UInt8
  | .ipv4 => 2
  | .ipv6 => 10

def Family.width : Family → ℕ
  | .ipv4 => 4
  | .ipv6 => 16

def Family.sourceOffset : Family → ℕ
  | .ipv4 => 12
  | .ipv6 => 8

def Family.destinationOffset : Family → ℕ
  | .ipv4 => 16
  | .ipv6 => 24

/-- What connection tracking says of a packet. -/
inductive CtState
  | new
  | established
  | related
  | invalid
  | untracked
  deriving DecidableEq, Repr

/-- `NF_CT_STATE_BIT`, and the two bits beside it. -/
def CtState.bit : CtState → ℕ
  | .invalid => 1
  | .established => 2
  | .related => 4
  | .new => 8
  | .untracked => 64

/-- A device's name as the kernel holds one : it fits in 16 bytes with its NUL. -/
structure DeviceName where
  bytes : Bytes
  fits : bytes.length < 16
  noNul : 0 ∉ bytes

/-- A packet as rules see one. -/
structure Packet where
  family : Family
  protocol : UInt8
  network : ℕ → UInt8
  /-- The transport header, which a later fragment does not have. -/
  transport : Option (ℕ → UInt8)
  /-- The link header, which a packet this host sends does not have yet. -/
  link : Option (ℕ → UInt8)
  iiftype : UInt16
  iifname : DeviceName
  oifname : DeviceName
  state : CtState
  status : UInt32
  /-- The time it is seen, in UTC, 0 for Sunday. -/
  day : Fin 7
  second : Fin 86400

/-! ## Expressions -/

/-- The `meta` keys. -/
inductive MetaKey
  | nfproto
  | l4proto
  | iifname
  | oifname
  | iiftype
  | timeHour
  | timeDay
  deriving DecidableEq, Repr

inductive CtKey
  | state
  | status
  deriving DecidableEq, Repr

inductive Header
  | link
  | network
  | transport
  deriving DecidableEq, Repr

inductive CmpOp
  | eq
  | neq
  deriving DecidableEq, Repr

inductive Verdict
  | accept
  | drop
  | reject
  deriving DecidableEq, Repr

/-- An expression. Register 1 is the one that is compared. -/
inductive Expr
  | load (key : MetaKey)
  | payload (header : Header) (offset length : ℕ)
  | ct (key : CtKey)
  | bitwise (mask xor : Bytes)
  | byteorder
  | cmp (op : CmpOp) (bytes : Bytes)
  | range (first last : Bytes)
  | verdict (accept : Bool)
  | reject
  | immediate (register : ℕ) (bytes : Bytes)
  | nat (family : Family)
  | masq
  deriving DecidableEq, Repr

/-- What a `meta` load puts in the register. -/
def Packet.metaBytes (e : Endian) (p : Packet) : MetaKey → Bytes
  | .nfproto => [p.family.number]
  | .l4proto => [p.protocol]
  | .iifname => p.iifname.bytes ++ List.replicate (16 - p.iifname.bytes.length) 0
  | .oifname => p.oifname.bytes ++ List.replicate (16 - p.oifname.bytes.length) 0
  | .iiftype => hostOrder e 2 p.iiftype.toNat
  | .timeHour => hostOrder e 4 p.second
  | .timeDay => [UInt8.ofNat p.day]

/-- What a `ct` load puts in the register. -/
def Packet.ctBytes (e : Endian) (p : Packet) : CtKey → Bytes
  | .state => hostOrder e 4 p.state.bit
  | .status => hostOrder e 4 p.status.toNat

def Packet.header (p : Packet) : Header → Option (ℕ → UInt8)
  | .link => p.link
  | .network => some p.network
  | .transport => p.transport

/-- `length` bytes of a header, from `offset` on. -/
def slice (header : ℕ → UInt8) (offset length : ℕ) : Bytes :=
  (List.range length).map fun i => header (offset + i)

/-- Run the expressions of a rule over a packet : its verdict, or none where a comparison fails
or a header is missing. -/
def run (e : Endian) (p : Packet) : Bytes → List Expr → Option Verdict
  | _, [] => none
  | _, .load key :: es => run e p (p.metaBytes e key) es
  | _, .payload header offset length :: es =>
    match p.header header with
    | some bytes => run e p (slice bytes offset length) es
    | none => none
  | _, .ct key :: es => run e p (p.ctBytes e key) es
  | r, .bitwise mask xor :: es =>
    run e p (List.zipWith (· ^^^ ·) (List.zipWith (· &&& ·) r mask) xor) es
  | r, .byteorder :: es => run e p (swap e r) es
  | r, .cmp .eq bytes :: es => if r.take bytes.length = bytes then run e p r es else none
  | r, .cmp .neq bytes :: es => if r.take bytes.length ≠ bytes then run e p r es else none
  | r, .range first last :: es =>
    if memcmpLe first (r.take first.length) ∧ memcmpLe (r.take last.length) last then
      run e p r es else none
  | _, .verdict accept :: _ => some (if accept then .accept else .drop)
  | _, .reject :: _ => some .reject
  | r, .immediate register bytes :: es => run e p (if register = 1 then bytes else r) es
  | _, .nat _ :: _ => some .accept
  | _, .masq :: _ => some .accept

/-! ## Putting expressions together -/

section Tests

variable {e : Endian} {p : Packet} {g h : List Expr} {P Q : Prop}

/-- A group of expressions passes the packet exactly where `P` holds, whatever was in the
register. -/
def Tests (e : Endian) (p : Packet) (g : List Expr) (P : Prop) : Prop :=
  ∀ (r : Bytes) (rest : List Expr),
    (P ∧ ∃ r', run e p r (g ++ rest) = run e p r' rest) ∨ ¬P ∧ run e p r (g ++ rest) = none

theorem Tests.nil : Tests e p [] True :=
  fun r _ => .inl ⟨trivial, r, rfl⟩

theorem Tests.append (hg : Tests e p g P) (hh : Tests e p h Q) : Tests e p (g ++ h) (P ∧ Q) := by
  intro r rest
  rw [List.append_assoc]
  rcases hg r (h ++ rest) with ⟨hP, r', hr⟩ | ⟨hP, hr⟩
  · rw [hr]
    rcases hh r' rest with ⟨hQ, r'', hr'⟩ | ⟨hQ, hr'⟩
    · exact .inl ⟨⟨hP, hQ⟩, r'', hr'⟩
    · exact .inr ⟨fun h => hQ h.2, hr'⟩
  · exact .inr ⟨fun h => hP h.1, hr⟩

theorem Tests.congr (hg : Tests e p g P) (hPQ : P ↔ Q) : Tests e p g Q := by
  rwa [← propext hPQ]

theorem Tests.run_eq [Decidable P] (hg : Tests e p g P) {last : Expr} {v : Verdict}
    (hlast : ∀ r, run e p r [last] = some v) (r : Bytes) :
    run e p r (g ++ [last]) = if P then some v else none := by
  rcases hg r [last] with ⟨hP, r', hr⟩ | ⟨hP, hr⟩
  · rw [hr, hlast, if_pos hP]
  · rw [hr, if_neg hP]

theorem tests_load_cmp (key : MetaKey) (bytes : Bytes) :
    Tests e p [.load key, .cmp .eq bytes] ((p.metaBytes e key).take bytes.length = bytes) := by
  intro r rest
  simp only [List.cons_append, List.nil_append, run]
  split_ifs with hc
  · exact .inl ⟨hc, _, rfl⟩
  · exact .inr ⟨hc, rfl⟩

theorem tests_payload_cmp (header : Header) (offset : ℕ) (bytes : Bytes) :
    Tests e p [.payload header offset bytes.length, .cmp .eq bytes]
      (∃ h ∈ p.header header, slice h offset bytes.length = bytes) := by
  intro r rest
  simp only [List.cons_append, List.nil_append, run]
  cases p.header header with
  | none => exact .inr ⟨by simp, rfl⟩
  | some h =>
    have hlen : (slice h offset bytes.length).length = bytes.length := by simp [slice]
    dsimp only
    rw [List.take_of_length_le hlen.le]
    split_ifs with hc
    · exact .inl ⟨⟨h, rfl, hc⟩, _, rfl⟩
    · refine .inr ⟨?_, rfl⟩
      rintro ⟨h', hh', hc'⟩
      obtain rfl := Option.mem_some_iff.1 hh'
      exact hc hc'

end Tests

/-! ## Numbers in bytes -/

@[simp] theorem length_networkOrder :
    ∀ width n : ℕ, (networkOrder width n).length = width
  | 0, _ => rfl
  | width + 1, n => by rw [networkOrder, List.length_cons, length_networkOrder width]

@[simp] theorem length_hostOrder (e : Endian) (width n : ℕ) :
    (hostOrder e width n).length = width := by
  cases e <;> simp [hostOrder]

theorem ofNat_inj {m n : ℕ} (hm : m < 256) (hn : n < 256) :
    UInt8.ofNat m = UInt8.ofNat n ↔ m = n := by
  constructor
  · intro h
    have := congrArg UInt8.toNat h
    rwa [UInt8.toNat_ofNat_of_lt' hm, UInt8.toNat_ofNat_of_lt' hn] at this
  · rintro rfl
    rfl

theorem networkOrder_inj :
    ∀ {width m n : ℕ}, m < 256 ^ width → n < 256 ^ width →
      (networkOrder width m = networkOrder width n ↔ m = n)
  | 0, m, n, hm, hn => by
    simp only [Nat.pow_zero, Nat.lt_one_iff] at hm hn
    simp [hm, hn]
  | width + 1, m, n, hm, hn => by
    have hpos : 0 < 256 ^ width := Nat.pow_pos (by decide)
    rw [Nat.pow_succ] at hm hn
    have hm' : m / 256 ^ width < 256 := Nat.div_lt_of_lt_mul hm
    have hn' : n / 256 ^ width < 256 := Nat.div_lt_of_lt_mul hn
    rw [networkOrder, networkOrder, List.cons.injEq, ofNat_inj hm' hn',
      networkOrder_inj (Nat.mod_lt _ hpos) (Nat.mod_lt _ hpos)]
    constructor
    · rintro ⟨hd, hr⟩
      rw [← Nat.div_add_mod m (256 ^ width), hd, hr, Nat.div_add_mod]
    · rintro rfl
      exact ⟨rfl, rfl⟩

theorem memcmpLe_networkOrder :
    ∀ {width m n : ℕ}, m < 256 ^ width → n < 256 ^ width →
      (memcmpLe (networkOrder width m) (networkOrder width n) = true ↔ m ≤ n)
  | 0, m, n, hm, hn => by
    simp only [Nat.pow_zero, Nat.lt_one_iff] at hm hn
    simp [networkOrder, memcmpLe, hm, hn]
  | width + 1, m, n, hm, hn => by
    have hpos : 0 < 256 ^ width := Nat.pow_pos (by decide)
    rw [Nat.pow_succ] at hm hn
    have hm' : m / 256 ^ width < 256 := Nat.div_lt_of_lt_mul hm
    have hn' : n / 256 ^ width < 256 := Nat.div_lt_of_lt_mul hn
    have hlt : UInt8.ofNat (m / 256 ^ width) < UInt8.ofNat (n / 256 ^ width) ↔
        m / 256 ^ width < n / 256 ^ width := by
      rw [UInt8.lt_iff_toNat_lt, UInt8.toNat_ofNat_of_lt' hm', UInt8.toNat_ofNat_of_lt' hn']
    have hrest := @memcmpLe_networkOrder width _ _ (Nat.mod_lt m hpos) (Nat.mod_lt n hpos)
    simp only [networkOrder, memcmpLe, Bool.or_eq_true, decide_eq_true_eq, Bool.and_eq_true, hlt,
      ofNat_inj hm' hn', hrest]
    have hm'' := Nat.div_add_mod m (256 ^ width)
    have hn'' := Nat.div_add_mod n (256 ^ width)
    have hmlt := Nat.mod_lt m hpos
    have hnlt := Nat.mod_lt n hpos
    constructor
    · rintro (hd | ⟨hd, hr⟩)
      · exact (Nat.lt_of_div_lt_div hd).le
      · rw [← hm'', ← hn'', hd]
        omega
    · intro hle
      rcases (Nat.div_le_div_right hle (c := 256 ^ width)).lt_or_eq with hd | hd
      · exact .inl hd
      · refine .inr ⟨hd, ?_⟩
        rw [hd] at hm''
        omega

theorem hostOrder_inj {e : Endian} {width m n : ℕ} (hm : m < 256 ^ width) (hn : n < 256 ^ width) :
    hostOrder e width m = hostOrder e width n ↔ m = n := by
  cases e with
  | little => rw [hostOrder, hostOrder, List.reverse_inj, networkOrder_inj hm hn]
  | big => exact networkOrder_inj hm hn

@[simp] theorem swap_hostOrder (e : Endian) (width n : ℕ) :
    swap e (hostOrder e width n) = networkOrder width n := by
  cases e <;> simp [swap, hostOrder]

/-! ## Masks -/

theorem ext_bitAt {a b : Bytes} (hlen : a.length = b.length)
    (h : ∀ i < 8 * a.length, bitAt a i = bitAt b i) : a = b := by
  refine List.ext_getElem hlen fun k ha hb => ?_
  refine UInt8.toNat_inj.1 (Nat.eq_of_testBit_eq fun j => ?_)
  rcases Nat.lt_or_ge j 8 with hj | hj
  · have hbit := h (8 * k + (7 - j)) (by omega)
    have hdiv : (8 * k + (7 - j)) / 8 = k := by omega
    have hmod : 7 - (8 * k + (7 - j)) % 8 = j := by omega
    unfold bitAt at hbit
    rwa [hdiv, hmod, List.getD_eq_getElem _ _ ha, List.getD_eq_getElem _ _ hb] at hbit
  · have hpow : 2 ^ 8 ≤ 2 ^ j := Nat.pow_le_pow_right (by decide) hj
    have h1 := UInt8.toNat_lt a[k]
    have h2 := UInt8.toNat_lt b[k]
    rw [Nat.testBit_lt_two_pow (by omega), Nat.testBit_lt_two_pow (by omega)]

theorem bitAt_zipWith_and {a b : Bytes} (hlen : a.length = b.length) (i : ℕ) :
    bitAt (List.zipWith (· &&& ·) a b) i = (bitAt a i && bitAt b i) := by
  unfold bitAt
  rw [← Nat.testBit_and, ← UInt8.toNat_and]
  congr 2
  simp only [List.getD_eq_getElem?_getD, List.getElem?_zipWith]
  rcases Nat.lt_or_ge (i / 8) a.length with hk | hk
  · simp [List.getElem?_eq_getElem hk, List.getElem?_eq_getElem (hlen ▸ hk : i / 8 < b.length)]
  · simp [List.getElem?_eq_none hk, List.getElem?_eq_none (hlen ▸ hk : b.length ≤ i / 8)]

@[simp] theorem zipWith_xor_zero {a : Bytes} {n : ℕ} (h : a.length = n) :
    List.zipWith (· ^^^ ·) a (List.replicate n 0) = a := by
  subst h
  induction a with
  | nil => rfl
  | cons x xs ih => simp [List.replicate_succ, ih]

theorem testBit_single {k j : ℕ} (hk : k < 8) (hj : j < 8) :
    ((0x80 >>> UInt8.ofNat k : UInt8)).toNat.testBit (7 - j) = decide (j = k) := by
  have : ∀ k < 8, ∀ j < 8, ((0x80 >>> UInt8.ofNat k : UInt8)).toNat.testBit (7 - j) =
      decide (j = k) := by decide
  exact this k hk j hj

theorem prefixMask_succ (width count : ℕ) :
    prefixMask width (count + 1) = (prefixMask width count).modify (count / 8)
      (· ||| (0x80 >>> UInt8.ofNat (count % 8))) := by
  simp [prefixMask, List.range_succ]

@[simp] theorem length_prefixMask (width : ℕ) :
    ∀ count : ℕ, (prefixMask width count).length = width
  | 0 => by simp [prefixMask]
  | count + 1 => by rw [prefixMask_succ, List.length_modify, length_prefixMask width count]

theorem bitAt_prefixMask {width : ℕ} :
    ∀ {count : ℕ}, count ≤ 8 * width → ∀ i < 8 * width,
      bitAt (prefixMask width count) i = decide (i < count)
  | 0, _, i, hi => by
    have hk : i / 8 < width := by omega
    simp [bitAt, prefixMask, hk]
  | count + 1, hc, i, hi => by
    have ih := bitAt_prefixMask (by omega : count ≤ 8 * width) i hi
    rw [prefixMask_succ]
    unfold bitAt at ih ⊢
    have hlen : i / 8 < (prefixMask width count).length := by
      rw [length_prefixMask]
      omega
    rw [List.getD_eq_getElem _ _ hlen] at ih
    rw [List.getD_eq_getElem _ _ (by rwa [List.length_modify]), List.getElem_modify]
    split_ifs with hk
    · rw [UInt8.toNat_or, Nat.testBit_or, ih, testBit_single (by omega) (by omega),
        ← Bool.decide_or]
      refine decide_eq_decide.2 ?_
      omega
    · rw [ih]
      refine decide_eq_decide.2 ?_
      omega

theorem and_prefixMask_eq_iff {a b : Bytes} {width count : ℕ} (ha : a.length = width)
    (hb : b.length = width) (hc : count ≤ 8 * width) :
    List.zipWith (· &&& ·) a (prefixMask width count) =
      List.zipWith (· &&& ·) b (prefixMask width count) ↔ SamePrefix count a b := by
  have hma : a.length = (prefixMask width count).length := by rw [ha, length_prefixMask]
  have hmb : b.length = (prefixMask width count).length := by rw [hb, length_prefixMask]
  constructor
  · intro h i hi
    have hbit := congrArg (bitAt · i) h
    simpa [bitAt_zipWith_and hma, bitAt_zipWith_and hmb,
      bitAt_prefixMask hc i (by omega), hi] using hbit
  · intro h
    refine ext_bitAt (by simp [ha, hb]) fun i hi => ?_
    rw [bitAt_zipWith_and hma, bitAt_zipWith_and hmb]
    rcases Nat.lt_or_ge i count with hlt | hge
    · rw [h i hlt]
    · have hi' : i < 8 * width := by simpa [ha] using hi
      have hoff : bitAt (prefixMask width count) i = false := by
        rw [bitAt_prefixMask hc i hi']
        simpa using hge
      rw [hoff, Bool.and_false, Bool.and_false]

theorem samePrefix_all {a b : Bytes} {width : ℕ} (ha : a.length = width) (hb : b.length = width) :
    SamePrefix (8 * width) a b ↔ a = b := by
  constructor
  · intro h
    exact ext_bitAt (ha.trans hb.symm) (by rwa [ha])
  · rintro rfl i _
    rfl

theorem and_prefixMask_all {a : Bytes} {width : ℕ} (ha : a.length = width) :
    List.zipWith (· &&& ·) a (prefixMask width (8 * width)) = a := by
  have hm : a.length = (prefixMask width (8 * width)).length := by rw [ha, length_prefixMask]
  refine ext_bitAt (by simp [ha]) fun i hi => ?_
  have hi' : i < 8 * width := by simpa [ha] using hi
  rw [bitAt_zipWith_and hm, bitAt_prefixMask le_rfl i hi']
  simp [hi']

/-! ## Matches -/

section Matches

variable {e : Endian} {p : Packet}

def Packet.source (p : Packet) : Bytes := slice p.network p.family.sourceOffset p.family.width

def Packet.destination (p : Packet) : Bytes :=
  slice p.network p.family.destinationOffset p.family.width

def Packet.destinationPort (p : Packet) : Option ℕ :=
  p.transport.map fun header => (header 2).toNat * 256 + (header 3).toNat

/-- The sending station, of a packet that came in by an Ethernet device. -/
def Packet.station (p : Packet) : Option Bytes :=
  if p.iiftype = 1 then p.link.map fun header => slice header 6 6 else none

@[simp] theorem length_slice (header : ℕ → UInt8) (offset length : ℕ) :
    (slice header offset length).length = length := by
  simp [slice]

theorem tests_family (family : Family) :
    Tests e p [.load .nfproto, .cmp .eq [family.number]] (p.family = family) := by
  refine (tests_load_cmp .nfproto [family.number]).congr ?_
  cases family <;> cases h : p.family <;> simp [Packet.metaBytes, h, Family.number]

theorem tests_protocol (number : UInt8) :
    Tests e p [.load .l4proto, .cmp .eq [number]] (p.protocol = number) :=
  (tests_load_cmp .l4proto [number]).congr (by simp [Packet.metaBytes])

theorem tests_port {port : ℕ} (h : port < 65536) :
    Tests e p [.payload .transport 2 2, .cmp .eq (networkOrder 2 port)]
      (p.destinationPort = some port) := by
  have htest := tests_payload_cmp (e := e) (p := p) .transport 2 (networkOrder 2 port)
  rw [length_networkOrder] at htest
  refine htest.congr ?_
  have hslice : ∀ header : ℕ → UInt8, slice header 2 2 =
      networkOrder 2 ((header 2).toNat * 256 + (header 3).toNat) := by
    intro header
    have h2 := UInt8.toNat_lt (header 2)
    have h3 := UInt8.toNat_lt (header 3)
    have hd : ((header 2).toNat * 256 + (header 3).toNat) / 256 = (header 2).toNat := by omega
    have hm : ((header 2).toNat * 256 + (header 3).toNat) % 256 = (header 3).toNat := by omega
    simp [slice, networkOrder, List.range_succ, hd, hm]
  cases htr : p.transport with
  | none => simp [Packet.header, Packet.destinationPort, htr]
  | some header =>
    have h2 := UInt8.toNat_lt (header 2)
    have h3 := UInt8.toNat_lt (header 3)
    simp only [Packet.header, Packet.destinationPort, htr, Option.mem_def, Option.some.injEq,
      exists_eq_left', hslice, Option.map_some]
    exact networkOrder_inj (by omega) (by omega)

theorem take_nul_eq_iff :
    ∀ {a name : Bytes} {n : ℕ}, 0 ∉ a → 0 ∉ name →
      ((a ++ List.replicate (n + 1) 0).take (name.length + 1) = name ++ [0] ↔ a = name)
  | [], [], n, _, _ => by simp [List.replicate_succ]
  | [], b :: bs, n, _, hb => by
    have : (0 : UInt8) ≠ b := fun h => hb (h ▸ List.mem_cons_self)
    simp [List.replicate_succ, this]
  | x :: xs, [], n, ha, _ => by
    have : x ≠ 0 := fun h => ha (h ▸ List.mem_cons_self)
    simp [this]
  | x :: xs, b :: bs, n, ha, hb => by
    have ih := @take_nul_eq_iff xs bs n (fun h => ha (List.mem_cons_of_mem _ h))
      fun h => hb (List.mem_cons_of_mem _ h)
    simp only [List.cons_append, List.length_cons, List.take_succ_cons, List.cons.injEq, ih]

theorem name_eq_iff (d : DeviceName) {name : Bytes} (hname : 0 ∉ name) :
    (d.bytes ++ List.replicate (16 - d.bytes.length) 0).take (name ++ [0]).length = name ++ [0] ↔
      d.bytes = name := by
  obtain ⟨n, hn⟩ : ∃ n, 16 - d.bytes.length = n + 1 :=
    ⟨16 - d.bytes.length - 1, by have := d.fits; omega⟩
  rw [hn, List.length_append, List.length_singleton]
  exact take_nul_eq_iff d.noNul hname

theorem tests_iifname {name : Bytes} (h : 0 ∉ name) :
    Tests e p [.load .iifname, .cmp .eq (name ++ [0])] (p.iifname.bytes = name) :=
  (tests_load_cmp .iifname (name ++ [0])).congr (name_eq_iff p.iifname h)

theorem tests_oifname {name : Bytes} (h : 0 ∉ name) :
    Tests e p [.load .oifname, .cmp .eq (name ++ [0])] (p.oifname.bytes = name) :=
  (tests_load_cmp .oifname (name ++ [0])).congr (name_eq_iff p.oifname h)

def addressExprs (offset width count : ℕ) (address : Bytes) : List Expr :=
  [Expr.payload .network offset width] ++
    (if count < 8 * width then [Expr.bitwise (prefixMask width count) (List.replicate width 0)]
      else []) ++
    [Expr.cmp .eq (List.zipWith (· &&& ·) address (prefixMask width count))]

theorem tests_address {offset width count : ℕ} {address : Bytes} (ha : address.length = width)
    (hc : count ≤ 8 * width) :
    Tests e p (addressExprs offset width count address)
      (SamePrefix count (slice p.network offset width) address) := by
  intro r rest
  have hlen : (List.zipWith (· &&& ·) address (prefixMask width count)).length = width := by
    simp [ha]
  have hslice : (slice p.network offset width).length = width := length_slice ..
  unfold addressExprs
  by_cases hshort : count < 8 * width
  · have hmasked : (List.zipWith (· &&& ·) (slice p.network offset width)
        (prefixMask width count)).length = width := by simp
    simp only [hshort, if_true, List.cons_append, List.nil_append, run, Packet.header,
      zipWith_xor_zero hmasked, hlen, List.take_of_length_le hmasked.le]
    split_ifs with heq
    · exact .inl ⟨(and_prefixMask_eq_iff hslice ha hc).1 heq, _, rfl⟩
    · exact .inr ⟨fun h => heq ((and_prefixMask_eq_iff hslice ha hc).2 h), rfl⟩
  · obtain rfl : count = 8 * width := by omega
    simp only [hshort, if_false, List.cons_append, List.nil_append, run, Packet.header, ha,
      List.take_of_length_le hslice.le, and_prefixMask_all ha]
    split_ifs with heq
    · exact .inl ⟨(samePrefix_all hslice ha).2 heq, _, rfl⟩
    · exact .inr ⟨fun h => heq ((samePrefix_all hslice ha).1 h), rfl⟩

theorem hostOrder_zero (e : Endian) (width : ℕ) : hostOrder e width 0 = List.replicate width 0 := by
  have hzero : ∀ width, networkOrder width 0 = List.replicate width 0 := by
    intro width
    induction width with
    | zero => rfl
    | succ width ih => simp [networkOrder, List.replicate_succ, ih]
  cases e <;> simp [hostOrder, hzero]

theorem zipWith_and_networkOrder :
    ∀ {width m n : ℕ}, List.zipWith (· &&& ·) (networkOrder width m) (networkOrder width n) =
      networkOrder width (m &&& n)
  | 0, _, _ => rfl
  | width + 1, m, n => by
    have hdiv : ∀ k : ℕ, k / 256 ^ width = k >>> (8 * width) := by
      intro k
      rw [Nat.shiftRight_eq_div_pow, show (256 : ℕ) = 2 ^ 8 by rfl, ← Nat.pow_mul]
    have hmod : ∀ k : ℕ, k % 256 ^ width = k % 2 ^ (8 * width) := by
      intro k
      rw [show (256 : ℕ) = 2 ^ 8 by rfl, ← Nat.pow_mul]
    simp only [networkOrder, List.zipWith_cons_cons, zipWith_and_networkOrder, List.cons.injEq]
    constructor
    · rw [hdiv, hdiv, hdiv, Nat.shiftRight_and_distrib, UInt8.ofNat_and]
    · rw [hmod, hmod, hmod, Nat.and_mod_two_pow]

theorem zipWith_and_hostOrder {width m n : ℕ} :
    List.zipWith (· &&& ·) (hostOrder e width m) (hostOrder e width n) =
      hostOrder e width (m &&& n) := by
  cases e with
  | little =>
    rw [hostOrder, hostOrder, hostOrder, ← zipWith_and_networkOrder, List.reverse_zipWith (by simp)]
  | big => exact zipWith_and_networkOrder

theorem tests_ct {key : CtKey} {value bits : ℕ} (hkey : p.ctBytes e key = hostOrder e 4 value)
    (hb : bits < 2 ^ 32) :
    Tests e p [.ct key, .bitwise (hostOrder e 4 bits) (List.replicate 4 0),
      .cmp .neq (List.replicate 4 0)] (value &&& bits ≠ 0) := by
  intro r rest
  have hlen : (hostOrder e 4 (value &&& bits)).length = 4 := length_hostOrder ..
  have hand : value &&& bits < 256 ^ 4 := (Nat.and_lt_two_pow value hb)
  have hzero : hostOrder e 4 (value &&& bits) = List.replicate 4 0 ↔ value &&& bits = 0 := by
    rw [← hostOrder_zero e, hostOrder_inj hand (by decide)]
  simp only [List.cons_append, List.nil_append, run, hkey, zipWith_and_hostOrder,
    zipWith_xor_zero hlen, List.length_replicate, List.take_of_length_le hlen.le, ne_eq, hzero]
  split_ifs with h
  · exact .inr ⟨fun hne => hne h, rfl⟩
  · exact .inl ⟨h, _, rfl⟩

def stationExprs (e : Endian) (octets : Bytes) : List Expr :=
  ([.load .iiftype, .cmp .eq (hostOrder e 2 1), .payload .link 6 6] : List Expr) ++
    (if octets.length < 6 then
      [Expr.bitwise (List.replicate octets.length 0xff ++ List.replicate (6 - octets.length) 0)
        (List.replicate 6 0)]
    else []) ++
    [Expr.cmp .eq (octets ++ List.replicate (6 - octets.length) 0)]

theorem zipWith_and_ones :
    ∀ (octets bytes : Bytes) {n : ℕ}, bytes.length = octets.length + n →
      (List.zipWith (· &&& ·) bytes (List.replicate octets.length 0xff ++ List.replicate n 0) =
        octets ++ List.replicate n 0 ↔ bytes.take octets.length = octets)
  | [], bytes, n, h => by
    simp only [List.length_nil, Nat.zero_add] at h
    have : List.zipWith (· &&& ·) bytes (List.replicate n 0) = List.replicate n 0 := by
      subst h
      induction bytes with
      | nil => rfl
      | cons x xs ih => simp [List.replicate_succ, ih]
    simpa using this
  | o :: os, [], n, h => by simp at h; omega
  | o :: os, x :: xs, n, h => by
    have ih := zipWith_and_ones os xs (by simp at h; omega : xs.length = os.length + n)
    have hx : x &&& 0xff = x := by
      refine UInt8.toNat_inj.1 ?_
      rw [UInt8.toNat_and]
      have := UInt8.toNat_lt x
      exact Nat.and_two_pow_sub_one_of_lt_two_pow this
    simp only [List.length_cons, List.replicate_succ, List.cons_append, List.zipWith_cons_cons,
      List.cons.injEq, ih, List.take_succ_cons, hx]

theorem tests_station {octets : Bytes} (h : octets.length ≤ 6) :
    Tests e p (stationExprs e octets) (∃ s ∈ p.station, s.take octets.length = octets) := by
  intro r rest
  have htype : hostOrder e 2 p.iiftype.toNat = hostOrder e 2 1 ↔ p.iiftype = 1 := by
    have hlt := UInt16.toNat_lt p.iiftype
    rw [hostOrder_inj (by omega) (by decide), ← UInt16.toNat_inj]
    rfl
  unfold stationExprs
  simp only [List.cons_append, List.append_assoc, List.nil_append, run, Packet.metaBytes,
    length_hostOrder, List.take_of_length_le (length_hostOrder e 2 p.iiftype.toNat).le, htype,
    Packet.header, Packet.station]
  by_cases hether : p.iiftype = 1
  · simp only [hether, if_true]
    cases p.link with
    | none => exact .inr ⟨by simp, rfl⟩
    | some header =>
      have hslice : (slice header 6 6).length = 6 := length_slice ..
      have hlen : (octets ++ List.replicate (6 - octets.length) 0).length = 6 := by
        simp
        omega
      simp only [Option.map_some, Option.mem_def, Option.some.injEq, exists_eq_left']
      by_cases hshort : octets.length < 6
      · have hmask :
          (List.zipWith (· &&& ·) (slice header 6 6) (List.replicate octets.length 0xff ++
            List.replicate (6 - octets.length) 0)).length = 6 := by
          simp
          omega
        simp only [hshort, if_true, List.cons_append, List.nil_append, run, zipWith_xor_zero hmask,
          hlen, List.take_of_length_le hmask.le, zipWith_and_ones octets (slice header 6 6)
            (by rw [hslice]; omega :
              (slice header 6 6).length = octets.length + (6 - octets.length))]
        split_ifs with heq
        · exact .inl ⟨heq, _, rfl⟩
        · exact .inr ⟨heq, rfl⟩
      · have hfull : octets.length = 6 := by omega
        simp only [hfull, Nat.lt_irrefl, if_false, List.nil_append, run, Nat.sub_self,
          List.replicate_zero, List.append_nil, List.take_of_length_le hslice.le]
        split_ifs with heq
        · exact .inl ⟨heq, _, rfl⟩
        · exact .inr ⟨heq, rfl⟩
  · simp only [hether, if_false]
    exact .inr ⟨by simp, trivial⟩

theorem tests_hour {first last : ℕ} (hf : first < 86400) (hl : last < 86400) :
    Tests e p [.load .timeHour, .byteorder, .range (networkOrder 4 first) (networkOrder 4 last)]
      (first ≤ p.second ∧ p.second ≤ last) := by
  intro r rest
  have hs := p.second.isLt
  have h1 := @memcmpLe_networkOrder 4 first p.second (by omega) (by omega)
  have h2 := @memcmpLe_networkOrder 4 p.second last (by omega) (by omega)
  have hlen : (networkOrder 4 (p.second : ℕ)).length = 4 := length_networkOrder ..
  simp only [List.cons_append, List.nil_append, run, Packet.metaBytes, swap_hostOrder,
    length_networkOrder, List.take_of_length_le hlen.le, h1, h2]
  split_ifs with h
  · exact .inl ⟨h, _, rfl⟩
  · exact .inr ⟨h, rfl⟩

theorem tests_day {day : ℕ} (h : day < 7) :
    Tests e p [.load .timeDay, .cmp .eq [UInt8.ofNat day]] (p.day = day) := by
  refine (tests_load_cmp .timeDay [UInt8.ofNat day]).congr ?_
  have hd := p.day.isLt
  simp only [Packet.metaBytes, List.length_singleton, List.take_succ_cons, List.take_zero,
    List.cons.injEq, and_true]
  exact ofNat_inj (by omega) (by omega)

end Matches

end Nftables
