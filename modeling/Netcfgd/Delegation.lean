import Netcfgd.Address
import Netcfgd.Nftables

/-!
# Addresses out of a delegation

`ncfg_address_from_delegation` octet by octet, as `value.c` writes them : the delegation's top bits
are kept, the selector is set bit by bit above the suffix's prefix length, and what the suffix sets
below it is copied (`fromDelegationOctets`). `setBit` is a write that knows of the sixteen octets,
so a write outside of them would be seen. It gives what the planner's codec gives
(`toOption_fromDelegationOctets`), and `delegation_exact` says which bits of the address come from
where.
-/

namespace Netcfgd.Delegation

open Inet Nftables

/-! ## The octets -/

def octetsOf (value : ℕ) : Bytes :=
  (List.range 16).map fun i => UInt8.ofNat (value / 256 ^ (15 - i))

def numberOf (bytes : Bytes) : ℕ := bytes.foldl (fun n o => n * 256 + o.toNat) 0

/-- A bit of an address. -/
def bit (words : Groups 8 65536) (i : ℕ) : Bool := bitAt (octetsOf (Address.valueOf words)) i

inductive Refusal
  | notPrefix | notSuffix | shorter | selector | doesNotFit
  /-- The selector has a bit above the sub-prefix's length. -/
  | guarded
  | outside
  deriving DecidableEq

/-- `bytes[i / 8] & ~(0x80 >> i % 8)`. -/
def clearBit (bytes : Bytes) (i : ℕ) : Bytes :=
  bytes.modify (i / 8) (· &&& ~~~(0x80 >>> UInt8.ofNat (i % 8)))

/-- `bytes[i / 8] | 0x80 >> i % 8`. -/
def setBit (bytes : Bytes) (i : ℕ) : Except Refusal Bytes :=
  if i / 8 < bytes.length then .ok (bytes.modify (i / 8) (· ||| (0x80 >>> UInt8.ofNat (i % 8))))
  else .error .outside

/-- `keep_top_bits`. -/
def keepTopBits (bytes : Bytes) (length : ℕ) : Bytes :=
  (List.range 128).foldl (fun b i => if length ≤ i then clearBit b i else b) bytes

def putSelector (length subnet : ℕ) (bytes : Bytes) : Except Refusal Bytes :=
  (List.range 16).foldlM (fun b i =>
    if (subnet >>> i) % 2 = 0 then .ok b
    else if length < i + 1 then .error .guarded
    else setBit b (length - 1 - i)) bytes

def putHost (length : ℕ) (host bytes : Bytes) : Except Refusal Bytes :=
  (List.range' length (128 - length)).foldlM (fun b i =>
    if bitAt host i then setBit b i else .ok b) bytes

/-- The octets that are derived : the delegation's, the selector's and the suffix's. -/
def carved (blockLength length subnet : ℕ) (block host : Bytes) : Except Refusal Bytes := do
  let derived ← putSelector length subnet (keepTopBits block blockLength)
  putHost length host derived

/-- `ncfg_address_from_delegation`. -/
def fromDelegationOctets (delegation : String) (subnet : ℤ) (suffix : String) :
    Except Refusal String :=
  match Address.parse delegation with
  | some ⟨.v6 block, some blockLength, _⟩ =>
    match Address.parse suffix with
    | some ⟨.v6 host, some hostLength, hle⟩ =>
      if hostLength < blockLength then .error .shorter
      else if subnet < 0 ∨ 0xffff < subnet then .error .selector
      else if hostLength - blockLength < 16 ∧ 2 ^ (hostLength - blockLength) ≤ subnet then
        .error .doesNotFit
      else
        (carved blockLength hostLength subnet.toNat (octetsOf (Address.valueOf block))
          (octetsOf (Address.valueOf host))).map fun derived =>
            Address.render ⟨.v6 (Address.wordsOf (numberOf derived)), some hostLength, hle⟩
    | _ => .error .notSuffix
  | _ => .error .notPrefix

/-- The address of a selector in a block of one length with a host part of another. -/
structure Carved (block host result : Groups 8 65536) (blockLength length subnet : ℕ) : Prop where
  lengths : blockLength ≤ length ∧ length ≤ 128
  fits : subnet < 2 ^ (length - blockLength)
  inside : ∀ i < blockLength, bit result i = bit block i
  selected : ∀ i, blockLength ≤ i → i < length → bit result i = subnet.testBit (length - 1 - i)
  below : ∀ i, length ≤ i → i < 128 → bit result i = bit host i

/-! ## One bit -/

theorem length_octetsOf (value : ℕ) : (octetsOf value).length = 16 := by simp [octetsOf]

theorem bitAt_octetsOf (value : ℕ) {i : ℕ} (hi : i < 128) :
    bitAt (octetsOf value) i = value.testBit (127 - i) := by
  have hk : i / 8 < 16 := by omega
  have hget : (octetsOf value).getD (i / 8) 0 = UInt8.ofNat (value / 2 ^ (8 * (15 - i / 8))) := by
    rw [List.getD_eq_getElem _ _ (by rwa [length_octetsOf])]
    simp [octetsOf, pow_mul]
  rw [bitAt, hget, UInt8.toNat_ofNat', Nat.testBit_mod_two_pow, Nat.testBit_div_two_pow]
  have h7 : 7 - i % 8 < 8 := by omega
  have hsum : 7 - i % 8 + 8 * (15 - i / 8) = 127 - i := by omega
  simp [h7, hsum]

theorem testBit_numberOf (bytes : Bytes) : ∀ k < 8 * bytes.length,
    (numberOf bytes).testBit k = bitAt bytes (8 * bytes.length - 1 - k) := by
  induction bytes using List.reverseRecOn with
  | nil => simp
  | append_singleton bytes o ih =>
    intro k hk
    have hnum : numberOf (bytes ++ [o]) = 2 ^ 8 * numberOf bytes + o.toNat := by
      simp [numberOf, Nat.mul_comm]
    simp only [List.length_append, List.length_singleton] at hk ⊢
    rw [hnum, Nat.testBit_two_pow_mul_add _ o.toNat_lt, bitAt]
    split_ifs with h8
    · have hdiv : (8 * (bytes.length + 1) - 1 - k) / 8 = bytes.length := by omega
      have hmod : 7 - (8 * (bytes.length + 1) - 1 - k) % 8 = k := by omega
      simp [hdiv, hmod]
    · have hdiv : (8 * (bytes.length + 1) - 1 - k) / 8 < bytes.length := by omega
      have hsub : 8 * (bytes.length + 1) - 1 - k = 8 * bytes.length - 1 - (k - 8) := by omega
      rw [ih (k - 8) (by omega), bitAt, ← hsub]
      simp [List.getElem?_append_left hdiv]

theorem numberOf_lt : ∀ bytes : Bytes, numberOf bytes < 2 ^ (8 * bytes.length) := by
  intro bytes
  induction bytes using List.reverseRecOn with
  | nil => simp [numberOf]
  | append_singleton bytes o ih =>
    have ho := o.toNat_lt
    have hnum : numberOf (bytes ++ [o]) = numberOf bytes * 256 + o.toNat := by simp [numberOf]
    rw [hnum, List.length_append, List.length_singleton, Nat.mul_add, Nat.pow_add]
    omega

theorem bitAt_modify {bytes : Bytes} {f : UInt8 → UInt8} {g : Bool → Bool} {i j : ℕ}
    (hj : j < 8 * bytes.length)
    (hf : ∀ o : UInt8, ∀ k < 8, (f o).toNat.testBit (7 - k) =
      if k = i % 8 then g (o.toNat.testBit (7 - k)) else o.toNat.testBit (7 - k)) :
    bitAt (bytes.modify (i / 8) f) j = if j = i then g (bitAt bytes j) else bitAt bytes j := by
  have hk : j / 8 < bytes.length := by omega
  unfold bitAt
  rw [List.getD_eq_getElem _ _ (by rwa [List.length_modify]), List.getElem_modify,
    List.getD_eq_getElem _ _ hk]
  by_cases hq : i / 8 = j / 8
  · rw [if_pos hq, hf _ _ (Nat.mod_lt _ (by decide))]
    have : j % 8 = i % 8 ↔ j = i := by omega
    simp only [this]
  · rw [if_neg hq, if_neg (by rintro rfl; exact hq rfl)]

theorem bitAt_clearBit {bytes : Bytes} {i j : ℕ} (hj : j < 8 * bytes.length) :
    bitAt (clearBit bytes i) j = (bitAt bytes j && decide (j ≠ i)) := by
  have hone : ∀ r < 8, ∀ k < 8, (~~~(0x80 >>> UInt8.ofNat r : UInt8)).toNat.testBit (7 - k) =
      decide (k ≠ r) := by decide
  rw [clearBit, bitAt_modify (g := fun _ => false) hj fun o k hk => ?_]
  · by_cases h : j = i <;> simp [h]
  · rw [UInt8.toNat_and, Nat.testBit_and, hone _ (Nat.mod_lt _ (by decide)) k hk]
    by_cases h : k = i % 8 <;> simp [h]

theorem setBit_ok {bytes : Bytes} {i : ℕ} (hi : i < 8 * bytes.length) :
    ∃ after, setBit bytes i = .ok after ∧ after.length = bytes.length ∧
      ∀ j < 8 * bytes.length, bitAt after j = (bitAt bytes j || decide (j = i)) := by
  refine ⟨_, if_pos (by omega), by simp, fun j hj => ?_⟩
  rw [bitAt_modify (g := fun _ => true) hj fun o k hk => ?_]
  · by_cases h : j = i <;> simp [h]
  · rw [UInt8.toNat_or, Nat.testBit_or, testBit_single (Nat.mod_lt _ (by decide)) hk]
    by_cases h : k = i % 8 <;> simp [h]

/-! ## The loops -/

theorem keepTopBits_spec {bytes : Bytes} (hlen : bytes.length = 16) (length : ℕ) :
    (keepTopBits bytes length).length = 16 ∧
      ∀ j < 128, bitAt (keepTopBits bytes length) j = (bitAt bytes j && decide (j < length)) := by
  have hloop : ∀ n ≤ 128, ∀ b, b = (List.range n).foldl
      (fun b i => if length ≤ i then clearBit b i else b) bytes → b.length = 16 ∧
        ∀ j < 128, bitAt b j = (bitAt bytes j && decide (j < length ∨ n ≤ j)) := by
    intro n
    induction n with
    | zero =>
      rintro - b rfl
      exact ⟨hlen, fun j hj => by simp⟩
    | succ n ih =>
      rintro hn b rfl
      obtain ⟨hb, hbits⟩ := ih (by omega) _ rfl
      rw [List.range_succ, List.foldl_append, List.foldl_cons, List.foldl_nil]
      split_ifs with hle
      · refine ⟨by simpa [clearBit] using hb, fun j hj => ?_⟩
        rw [bitAt_clearBit (by omega), hbits j hj, Bool.and_assoc, ← Bool.decide_and]
        congr 1
        exact decide_eq_decide.2 (by omega)
      · refine ⟨hb, fun j hj => ?_⟩
        rw [hbits j hj]
        congr 1
        exact decide_eq_decide.2 (by omega)
  obtain ⟨hb, hbits⟩ := hloop 128 le_rfl _ rfl
  refine ⟨hb, fun j hj => ?_⟩
  rw [keepTopBits, hbits j hj]
  congr 1
  exact decide_eq_decide.2 (by omega)

theorem foldlM_setBit (step : Bytes → ℕ → Except Refusal Bytes) (asks : ℕ → Bool) (place : ℕ → ℕ) :
    ∀ {l : List ℕ} {bytes : Bytes}, bytes.length = 16 → (∀ i ∈ l, asks i → place i < 128) →
      (∀ i ∈ l, ∀ b, step b i = if asks i then setBit b (place i) else .ok b) →
      ∃ after, l.foldlM step bytes = .ok after ∧ after.length = 16 ∧
        ∀ j < 128, bitAt after j = (bitAt bytes j || l.any fun i => asks i && decide (j = place i))
  | [], bytes, hlen, _, _ => ⟨bytes, rfl, hlen, by simp⟩
  | i :: l, bytes, hlen, hin, hstep => by
    have hrest := fun k hk => hin k (List.mem_cons_of_mem _ hk)
    have hsteps := fun k hk => hstep k (List.mem_cons_of_mem _ hk)
    rw [List.foldlM_cons, hstep i List.mem_cons_self]
    by_cases hi : asks i
    · obtain ⟨mid, hmid, hmlen, hmbits⟩ :=
        @setBit_ok bytes (place i) (by have := hin i List.mem_cons_self hi; omega)
      obtain ⟨after, hafter, halen, habits⟩ :=
        foldlM_setBit step asks place (hmlen.trans hlen) hrest hsteps
      refine ⟨after, by simp [hi, hmid, hafter, bind, Except.bind], halen, fun j hj => ?_⟩
      rw [habits j hj, hmbits j (by omega), List.any_cons, hi, Bool.true_and, Bool.or_assoc]
    · obtain ⟨after, hafter, halen, habits⟩ := foldlM_setBit step asks place hlen hrest hsteps
      refine ⟨after, by simp [hi, hafter, bind, Except.bind], halen, fun j hj => ?_⟩
      rw [habits j hj, List.any_cons]
      simp [hi]

section Carving

variable {blockLength length subnet : ℕ}

theorem testBit_ge (hs : subnet < 2 ^ (length - blockLength)) {k : ℕ}
    (hk : length - blockLength ≤ k) : subnet.testBit k = false :=
  Nat.testBit_lt_two_pow (hs.trans_le (Nat.pow_le_pow_right (by decide) hk))

theorem carved_spec {block : Bytes} (host : Bytes) (hb : block.length = 16)
    (hle : blockLength ≤ length)
    (hlen : length ≤ 128) (hs : subnet < 2 ^ (length - blockLength)) (hs16 : subnet < 2 ^ 16) :
    ∃ after, carved blockLength length subnet block host = .ok after ∧ after.length = 16 ∧
      ∀ j < 128, bitAt after j = if j < blockLength then bitAt block j
        else if j < length then subnet.testBit (length - 1 - j) else bitAt host j := by
  obtain ⟨hklen, hkbits⟩ := keepTopBits_spec hb blockLength
  have hbit : ∀ i, subnet.testBit i → i < length := fun i hi => by
    by_contra hge
    rw [testBit_ge hs (by omega)] at hi
    cases hi
  obtain ⟨mid, hmid, hmlen, hmbits⟩ := foldlM_setBit (l := List.range 16)
    (fun b i => if (subnet >>> i) % 2 = 0 then .ok b
      else if length < i + 1 then .error .guarded else setBit b (length - 1 - i))
    subnet.testBit (fun i => length - 1 - i) hklen (fun i _ hi => by omega)
    (fun i _ b => by
      have htest : subnet.testBit i = decide ((subnet >>> i) % 2 = 1) := by
        rw [Nat.testBit_eq_decide_div_mod_eq, Nat.shiftRight_eq_div_pow]
      by_cases hi : subnet.testBit i
      · have := hbit i hi
        have htrue := hi
        rw [htest, decide_eq_true_eq] at hi
        rw [if_neg (by omega), if_neg (by omega), if_pos htrue]
      · have hzero : (subnet >>> i) % 2 = 0 := by
          rw [htest, decide_eq_true_eq] at hi
          omega
        rw [if_pos hzero, if_neg hi])
  obtain ⟨after, hafter, halen, habits⟩ := foldlM_setBit (l := List.range' length (128 - length))
    (fun b i => if bitAt host i then setBit b i else .ok b) (bitAt host) id hmlen
    (fun i hi _ => by have := List.mem_range'_1.1 hi; simp only [id]; omega)
    (fun _ _ _ => rfl)
  refine ⟨after, ?_, halen, fun j hj => ?_⟩
  · simp only [carved, putSelector, putHost, hmid, bind, Except.bind]
    exact hafter
  · have hsel : ((List.range 16).any fun i => subnet.testBit i && decide (j = length - 1 - i)) =
        (decide (j < length) && subnet.testBit (length - 1 - j)) := by
      rw [Bool.eq_iff_iff]
      simp only [List.any_eq_true, List.mem_range, Bool.and_eq_true, decide_eq_true_eq]
      constructor
      · rintro ⟨i, -, hi, rfl⟩
        have := hbit i hi
        refine ⟨by omega, ?_⟩
        rwa [show length - 1 - (length - 1 - i) = i by omega]
      · rintro ⟨hjl, ht⟩
        refine ⟨length - 1 - j, ?_, ht, by omega⟩
        by_contra hge
        rw [Nat.testBit_lt_two_pow (hs16.trans_le (Nat.pow_le_pow_right (by decide) (by omega)))]
          at ht
        cases ht
    have hhost : ((List.range' length (128 - length)).any fun i =>
        bitAt host i && decide (j = id i)) = (decide (length ≤ j) && bitAt host j) := by
      rw [Bool.eq_iff_iff]
      simp only [List.any_eq_true, List.mem_range'_1, Bool.and_eq_true, decide_eq_true_eq, id]
      constructor
      · rintro ⟨i, hi, ht, rfl⟩
        exact ⟨hi.1, ht⟩
      · rintro ⟨hjl, ht⟩
        exact ⟨j, by omega, ht, rfl⟩
    rw [habits j hj, hmbits j hj, hkbits j hj, hsel, hhost]
    by_cases hd : j < blockLength
    · have hz := testBit_ge hs (k := length - 1 - j) (by omega)
      simp [hd, hz, show ¬length ≤ j by omega]
    · by_cases hl : j < length
      · simp [hd, hl, show ¬length ≤ j by omega]
      · simp [hd, hl, show length ≤ j by omega]

end Carving

/-! ## Words and numbers -/

theorem valueOf_lt (words : Groups 8 65536) : Address.valueOf words < 2 ^ 128 := by
  have hfold : ∀ (l : List ℕ) (n : ℕ), (∀ w ∈ l, w < 65536) →
      l.foldl (fun n w => n * 65536 + w) n < (n + 1) * 65536 ^ l.length := by
    intro l
    induction l with
    | nil => simp
    | cons w l ih =>
      intro n hl
      have hw := hl w List.mem_cons_self
      have hn : n * 65536 + w + 1 ≤ (n + 1) * 65536 := by omega
      calc (w :: l).foldl (fun n w => n * 65536 + w) n
          < (n * 65536 + w + 1) * 65536 ^ l.length :=
            ih _ fun x hx => hl x (List.mem_cons_of_mem _ hx)
        _ ≤ (n + 1) * 65536 * 65536 ^ l.length := Nat.mul_le_mul_right _ hn
        _ = (n + 1) * 65536 ^ (w :: l).length := by rw [List.length_cons, pow_succ]; ring
  have := hfold words.list 0 words.lt
  rw [words.length_eq] at this
  simpa [Address.valueOf] using this

theorem valueOf_wordsOf {value : ℕ} (h : value < 2 ^ 128) :
    Address.valueOf (Address.wordsOf value) = value := by
  simp only [Address.valueOf, Address.wordsOf, List.range, List.range.loop, List.map_cons,
    List.map_nil, List.foldl_cons, List.foldl_nil]
  norm_num
  omega

theorem bit_wordsOf {bytes : Bytes} (hlen : bytes.length = 16) {i : ℕ} (hi : i < 128) :
    bit (Address.wordsOf (numberOf bytes)) i = bitAt bytes i := by
  have hlt := numberOf_lt bytes
  rw [hlen] at hlt
  rw [bit, valueOf_wordsOf hlt, bitAt_octetsOf _ hi, testBit_numberOf _ _ (by omega), hlen]
  congr 1
  omega

theorem numberOf_carved {blockLength length subnet : ℕ} {block host : Groups 8 65536}
    {after : Bytes} (hle : blockLength ≤ length) (hlen : length ≤ 128)
    (hs : subnet < 2 ^ (length - blockLength)) (halen : after.length = 16)
    (hbits : ∀ j < 128, bitAt after j = if j < blockLength then bit block j
      else if j < length then subnet.testBit (length - 1 - j) else bit host j) :
    numberOf after = (Address.valueOf block / 2 ^ (128 - blockLength) * 2 ^ (128 - blockLength) |||
      subnet <<< (128 - length) ||| Address.valueOf host % 2 ^ (128 - length)) := by
  refine Nat.eq_of_testBit_eq fun k => ?_
  have hv : ∀ words : Groups 8 65536, ∀ m, 128 ≤ m → (Address.valueOf words).testBit m = false :=
    fun words m hm => Nat.testBit_lt_two_pow ((valueOf_lt words).trans_le
      (Nat.pow_le_pow_right (by decide) hm))
  simp only [Nat.testBit_or, Nat.testBit_mul_two_pow, Nat.testBit_div_two_pow,
    Nat.testBit_shiftLeft, Nat.testBit_mod_two_pow]
  by_cases hk : k < 128
  · rw [testBit_numberOf _ _ (by omega), halen, show 8 * 16 - 1 - k = 127 - k by omega,
      hbits _ (by omega), bit, bit, bitAt_octetsOf _ (by omega), bitAt_octetsOf _ (by omega),
      show 127 - (127 - k) = k by omega, show length - 1 - (127 - k) = k - (128 - length) by omega]
    by_cases hd : 127 - k < blockLength
    · have hz := testBit_ge hs (k := k - (128 - length)) (by omega)
      simp [hd, hz, show 128 - blockLength ≤ k by omega, show ¬k < 128 - length by omega,
        show k - (128 - blockLength) + (128 - blockLength) = k by omega]
    · by_cases hl : 127 - k < length
      · simp [hd, hl, show ¬128 - blockLength ≤ k by omega, show 128 - length ≤ k by omega,
          show ¬k < 128 - length by omega]
      · simp [hd, hl, show ¬128 - blockLength ≤ k by omega, show ¬128 - length ≤ k by omega,
          show k < 128 - length by omega]
  · have hlt : (numberOf after).testBit k = false := by
      have := numberOf_lt after
      rw [halen] at this
      exact Nat.testBit_lt_two_pow (this.trans_le (Nat.pow_le_pow_right (by decide) (by omega)))
    have hz := testBit_ge hs (k := k - (128 - length)) (by omega)
    simp [hlt, hz, hv block (k - (128 - blockLength) + (128 - blockLength)) (by omega),
      show ¬k < 128 - length by omega]

/-! ## What is derived -/

/-- A text as a prefix of IPv6. -/
def prefix6 (text : String) : Option (Groups 8 65536 × ℕ) :=
  match Address.parse text with
  | some ⟨.v6 words, some length, _⟩ => some (words, length)
  | _ => none

/-- Every outcome : a refusal both codecs share, or a carved address. -/
theorem fromDelegationOctets_cases (delegation suffix : String) (subnet : ℤ) :
    (∃ why, fromDelegationOctets delegation subnet suffix = .error why ∧ why ≠ .guarded ∧
      why ≠ .outside ∧ Address.fromDelegation delegation subnet suffix = none) ∨
    ∃ block host result blockLength length, prefix6 delegation = some (block, blockLength) ∧
      prefix6 suffix = some (host, length) ∧ 0 ≤ subnet ∧
      Carved block host result blockLength length subnet.toNat ∧
      ∃ derived, prefix6 derived = some (result, length) ∧
        fromDelegationOctets delegation subnet suffix = .ok derived ∧
        Address.fromDelegation delegation subnet suffix = some derived := by
  unfold fromDelegationOctets Address.fromDelegation
  cases hd : Address.parse delegation with
  | none => exact .inl ⟨_, rfl, by decide, by decide, rfl⟩
  | some d =>
    obtain ⟨_ | block, _ | blockLength, hbl⟩ := d
    · exact .inl ⟨_, rfl, by decide, by decide, rfl⟩
    · exact .inl ⟨_, rfl, by decide, by decide, rfl⟩
    · exact .inl ⟨_, rfl, by decide, by decide, rfl⟩
    cases hx : Address.parse suffix with
    | none => exact .inl ⟨_, rfl, by decide, by decide, rfl⟩
    | some x =>
      obtain ⟨_ | host, _ | length, hl⟩ := x
      · exact .inl ⟨_, rfl, by decide, by decide, rfl⟩
      · exact .inl ⟨_, rfl, by decide, by decide, rfl⟩
      · exact .inl ⟨_, rfl, by decide, by decide, rfl⟩
      dsimp only
      by_cases hshort : length < blockLength
      · exact .inl ⟨_, if_pos hshort, by decide, by decide, if_pos hshort⟩
      rw [if_neg hshort, if_neg hshort]
      by_cases hsel : subnet < 0 ∨ 0xffff < subnet
      · exact .inl ⟨_, if_pos hsel, by decide, by decide, if_pos hsel⟩
      rw [if_neg hsel, if_neg hsel]
      by_cases hfit : length - blockLength < 16 ∧ (2 : ℤ) ^ (length - blockLength) ≤ subnet
      · exact .inl ⟨_, if_pos hfit, by decide, by decide, if_pos hfit⟩
      rw [if_neg hfit, if_neg hfit]
      have hlen : length ≤ 128 := hl length rfl
      have hs16 : subnet.toNat < 2 ^ 16 := by omega
      have hs : subnet.toNat < 2 ^ (length - blockLength) := by
        by_cases h16 : length - blockLength < 16
        · have hlt : subnet < 2 ^ (length - blockLength) := by
            by_contra hge
            exact hfit ⟨h16, by omega⟩
          have hcast : ((2 ^ (length - blockLength) : ℕ) : ℤ) = 2 ^ (length - blockLength) := by
            norm_cast
          omega
        · exact hs16.trans_le (Nat.pow_le_pow_right (by decide) (by omega))
      obtain ⟨after, hafter, halen, hbits⟩ := carved_spec
        (octetsOf (Address.valueOf host)) (length_octetsOf (Address.valueOf block))
        (by omega) hlen hs hs16
      have hnum := numberOf_carved (by omega) hlen hs halen hbits
      have hbit := fun i (hi : i < 128) => (bit_wordsOf halen hi).trans (hbits i hi)
      refine .inr ⟨block, host, Address.wordsOf (numberOf after), blockLength, length,
        by simp [prefix6, hd], by simp [prefix6, hx], by omega,
        ⟨⟨by omega, hlen⟩, hs, fun i hi => ?_, fun i hlo hhi => ?_, fun i hlo hhi => ?_⟩,
        Address.render ⟨.v6 (Address.wordsOf (numberOf after)), some length, hl⟩, ?_, ?_, ?_⟩
      · rw [hbit i (by omega), if_pos hi]
        rfl
      · rw [hbit i (by omega), if_neg (by omega), if_pos hhi]
      · rw [hbit i hhi, if_neg (by omega), if_neg (by omega)]
        rfl
      · simp [prefix6, Address.parse_render]
      · rw [hafter]
        rfl
      · rw [hnum]

/-- The octet loops give what the arithmetic codec gives. -/
theorem toOption_fromDelegationOctets (delegation suffix : String) (subnet : ℤ) :
    (fromDelegationOctets delegation subnet suffix).toOption =
      Address.fromDelegation delegation subnet suffix := by
  rcases fromDelegationOctets_cases delegation suffix subnet with
    ⟨why, h, -, -, hnone⟩ | ⟨_, _, _, _, _, -, -, -, -, derived, -, h, hsome⟩
  · rw [h, hnone]
    rfl
  · rw [h, hsome]
    rfl

/-- Sub-prefixes of different selectors differ in a bit. -/
theorem apart_of_ne {block host result result' : Groups 8 65536} {blockLength length s s' : ℕ}
    (h : Carved block host result blockLength length s)
    (h' : Carved block host result' blockLength length s') (hne : s ≠ s') :
    ∃ i < length, bit result i ≠ bit result' i := by
  by_contra hsame
  push Not at hsame
  refine hne (Nat.eq_of_testBit_eq fun k => ?_)
  by_cases hk : k < length - blockLength
  · have hi := hsame (length - 1 - k) (by omega)
    rw [h.selected _ (by omega) (by omega), h'.selected _ (by omega) (by omega)] at hi
    rwa [show length - 1 - (length - 1 - k) = k by omega] at hi
  · rw [testBit_ge h.fits (by omega), testBit_ge h'.fits (by omega)]

/-- An address of a delegation is the delegation's bits, then the selector's, then the suffix's ;
selectors that differ have no address in common ; and the code writes no bit outside of the octets,
and never takes its guard against it. -/
theorem delegation_exact (delegation suffix : String) :
    (∀ subnet, fromDelegationOctets delegation subnet suffix ≠ .error .outside ∧
      fromDelegationOctets delegation subnet suffix ≠ .error .guarded) ∧
    (∀ subnet derived, fromDelegationOctets delegation subnet suffix = .ok derived →
      ∃ block host result blockLength length, prefix6 delegation = some (block, blockLength) ∧
        prefix6 suffix = some (host, length) ∧ prefix6 derived = some (result, length) ∧
        0 ≤ subnet ∧ Carved block host result blockLength length subnet.toNat) ∧
    ∀ subnet subnet' derived derived' result result' length length',
      fromDelegationOctets delegation subnet suffix = .ok derived →
      fromDelegationOctets delegation subnet' suffix = .ok derived' → subnet ≠ subnet' →
      prefix6 derived = some (result, length) → prefix6 derived' = some (result', length') →
      ¬∃ address, (∀ i < length, bit address i = bit result i) ∧
        ∀ i < length', bit address i = bit result' i := by
  have hok : ∀ subnet derived, fromDelegationOctets delegation subnet suffix = .ok derived →
      ∃ block host result blockLength length, prefix6 delegation = some (block, blockLength) ∧
        prefix6 suffix = some (host, length) ∧ prefix6 derived = some (result, length) ∧
        0 ≤ subnet ∧ Carved block host result blockLength length subnet.toNat := by
    intro subnet derived h
    rcases fromDelegationOctets_cases delegation suffix subnet with
      ⟨why, herr, -⟩ | ⟨block, host, result, n, m, hb, hx, h0, hc, derived', hr, hd, -⟩
    · rw [h] at herr
      cases herr
    · obtain rfl := Except.ok.inj (h.symm.trans hd)
      exact ⟨block, host, result, n, m, hb, hx, hr, h0, hc⟩
  refine ⟨fun subnet => ?_, hok, ?_⟩
  · rcases fromDelegationOctets_cases delegation suffix subnet with
      ⟨why, herr, hg, ho, -⟩ | ⟨_, _, _, _, _, -, -, -, -, _, -, hd, -⟩
    · rw [herr]
      exact ⟨fun h => ho (Except.error.inj h), fun h => hg (Except.error.inj h)⟩
    · rw [hd]
      exact ⟨nofun, nofun⟩
  · rintro subnet subnet' derived derived' result result' length length' h h' hne hr hr'
      ⟨address, hin, hin'⟩
    obtain ⟨block, host, r, n, m, hb, hx, hd, h0, hc⟩ := hok _ _ h
    obtain ⟨block', host', r', n', m', hb', hx', hd', h0', hc'⟩ := hok _ _ h'
    obtain ⟨rfl, rfl⟩ := Prod.mk.inj (Option.some.inj (hb.symm.trans hb'))
    obtain ⟨rfl, rfl⟩ := Prod.mk.inj (Option.some.inj (hx.symm.trans hx'))
    obtain ⟨rfl, rfl⟩ := Prod.mk.inj (Option.some.inj (hr.symm.trans hd))
    obtain ⟨rfl, rfl⟩ := Prod.mk.inj (Option.some.inj (hr'.symm.trans hd'))
    obtain ⟨i, hi, hdiff⟩ := apart_of_ne hc hc' (by omega)
    exact hdiff ((hin i hi).symm.trans (hin' i hi))

/-- Two networks of one delegation. -/
theorem two_networks :
    fromDelegationOctets "2001:db8:100::/48" 1 "::1/64" = .ok "2001:db8:100:1::1/64" ∧
      fromDelegationOctets "2001:db8:100::/48" 0xab "::1/64" = .ok "2001:db8:100:ab::1/64" ∧
      (∃ block host result, Carved block host result 48 64 0xab) ∧
      ∀ one other length length', prefix6 "2001:db8:100:1::1/64" = some (one, length) →
        prefix6 "2001:db8:100:ab::1/64" = some (other, length') →
        ¬∃ address, (∀ i < length, bit address i = bit one i) ∧
          ∀ i < length', bit address i = bit other i := by
  obtain ⟨-, hcarved, hapart⟩ := delegation_exact "2001:db8:100::/48" "::1/64"
  have hone : fromDelegationOctets "2001:db8:100::/48" 1 "::1/64" = .ok "2001:db8:100:1::1/64" := by
    decide +kernel
  have hother : fromDelegationOctets "2001:db8:100::/48" 0xab "::1/64" =
      .ok "2001:db8:100:ab::1/64" := by
    decide +kernel
  refine ⟨hone, hother, ?_, fun one other length length' h h' =>
    hapart _ _ _ _ one other length length' hone hother (by decide) h h'⟩
  obtain ⟨block, host, result, n, m, hblock, hhost, -, -, hbits⟩ := hcarved _ _ hother
  have hn : (prefix6 "2001:db8:100::/48").map Prod.snd = some 48 := by decide +kernel
  have hm : (prefix6 "::1/64").map Prod.snd = some 64 := by decide +kernel
  rw [hblock] at hn
  rw [hhost] at hm
  obtain rfl := Option.some.inj hn
  obtain rfl := Option.some.inj hm
  exact ⟨block, host, result, hbits⟩

end Netcfgd.Delegation
