import Mathlib.Data.List.TakeWhile
import Netcfgd.Inet
import Netcfgd.PlanAddress

/-!
# Addresses as values

`ncfg_address_t` of `value.c` : an internet address, with a prefix length or without
(`Address`, whose length is in range). `Address.parse` and `Address.render` are
`ncfg_address_parse` and `ncfg_address_render`, and `canonical`, `networkOf` and
`fromDelegation` are what the compiler and the planner make of a text through them.

A rendered address parses to itself (`parse_render`), so the canonical spelling of a text is a
fixed point (`canonical_canonical`), and so is a network with its host bits cleared
(`masked_masked`). `valueCodec` is the codec of the planner's passes.
-/

namespace Netcfgd

open Inet

inductive Ip
  | v4 (octets : Groups 4 256)
  | v6 (words : Groups 8 65536)
  deriving DecidableEq

namespace Ip

def bits : Ip → ℕ
  | v4 _ => 32
  | v6 _ => 128

/-- `inet_ntop`. -/
def text : Ip → List Char
  | v4 octets => ntop4 octets
  | v6 words => ntop6 words

/-- `inet_pton`, on the family a colon decides. -/
def read (text : List Char) : Option Ip :=
  if ':' ∈ text then (pton6 text).map v6 else (pton4 text).map v4

theorem read_text (ip : Ip) : read ip.text = some ip := by
  cases ip with
  | v4 octets => simp [read, text, (ntop4_shape octets).1, pton4_ntop4]
  | v6 words => simp [read, text, (ntop6_shape words).1, pton6_ntop6]

theorem text_shape (ip : Ip) : '/' ∉ ip.text ∧ ip.text ≠ [] ∧ ip.text.length < 46 := by
  cases ip with
  | v4 octets =>
    obtain ⟨-, hslash, hlen, hne⟩ := ntop4_shape octets
    exact ⟨hslash, hne, by simp only [text]; omega⟩
  | v6 words =>
    obtain ⟨hcolon, hslash, hlen⟩ := ntop6_shape words
    exact ⟨hslash, List.ne_nil_of_mem hcolon, hlen⟩

end Ip

/-- `ncfg_address_t`. -/
structure Address where
  ip : Ip
  length : Option ℕ
  length_le : ∀ n ∈ length, n ≤ ip.bits
  deriving DecidableEq

def dropZeros : List Char → List Char
  | '0' :: c :: cs => dropZeros (c :: cs)
  | cs => cs

/-- A prefix length : up to three digits after the leading zeros. -/
def lengthOf (digits : List Char) : Option ℕ :=
  let digits := dropZeros digits
  if digits = [] ∨ 3 < digits.length then none
  else digits.foldl (fun n c => n.bind fun n => (decimalOf c).map (n * 10 + ·)) (some 0)

namespace Address

/-- `ncfg_address_parse`. -/
def parse (text : String) : Option Address :=
  let plain := text.toList.takeWhile (· ≠ '/')
  if plain = [] ∨ 46 ≤ plain.length then none
  else
    (Ip.read plain).bind fun ip =>
      match text.toList.dropWhile (· ≠ '/') with
      | [] => some ⟨ip, none, by simp⟩
      | _ :: digits =>
        (lengthOf digits).bind fun n =>
          if h : n ≤ ip.bits then some ⟨ip, some n, by simpa using h⟩ else none

/-- `ncfg_address_render`. -/
def render (a : Address) : String :=
  String.ofList (a.ip.text ++ (a.length.map fun n => '/' :: digits 10 3 n).getD [])

/-- `ncfg_address_canonical`. -/
def canonical (text : String) : Option String :=
  (parse text).map render

theorem lengthOf_digits {n : ℕ} (hn : n ≤ 128) : lengthOf (digits 10 3 n) = some n := by
  interval_cases n <;> decide

theorem parse_render (a : Address) : parse a.render = some a := by
  obtain ⟨ip, length, hle⟩ := a
  obtain ⟨hslash, hne, hlen⟩ := ip.text_shape
  have hplain : ∀ c ∈ ip.text, decide (c ≠ '/') = true := fun c hc => by
    have : c ≠ '/' := fun h => hslash (h ▸ hc)
    simpa using this
  cases length with
  | none =>
    simp only [render, parse, Option.map_none, Option.getD_none, List.append_nil,
      String.toList_ofList]
    rw [List.takeWhile_eq_self_iff.2 hplain, List.dropWhile_eq_nil_iff.2 hplain]
    simp [hne, hlen, ip.read_text]
  | some n =>
    have hn : n ≤ ip.bits := hle n rfl
    have hbits : ip.bits ≤ 128 := by cases ip <;> simp [Ip.bits]
    have hread : lengthOf (digits 10 3 n) = some n := lengthOf_digits (by omega)
    simp only [render, parse, Option.map_some, Option.getD_some, String.toList_ofList]
    rw [List.takeWhile_append_of_pos hplain, List.dropWhile_append_of_pos hplain]
    simp [hne, hlen, ip.read_text, hread, hn]

theorem canonical_canonical {text c : String} (h : canonical text = some c) :
    canonical c = some c := by
  obtain ⟨a, -, rfl⟩ := Option.map_eq_some_iff.1 h
  rw [canonical, parse_render, Option.map_some]

end Address

/-! ## The characters of a text that parses -/

theorem mem_dropZeros : ∀ {text : List Char} {c : Char}, c ∈ text → c = '0' ∨ c ∈ dropZeros text
  | '0' :: x :: xs, c, h => by
    rw [dropZeros]
    rcases List.mem_cons.1 h with rfl | h
    · exact .inl rfl
    · exact mem_dropZeros h
  | [], _, h => by cases h
  | [x], c, h => by
    rw [dropZeros]
    · exact .inr h
    · simp
  | x :: y :: xs, c, h => by
    by_cases hx : x = '0'
    · subst hx
      rw [dropZeros]
      rcases List.mem_cons.1 h with rfl | h
      · exact .inl rfl
      · exact mem_dropZeros h
    · rw [dropZeros]
      · exact .inr h
      · simp [hx]

theorem foldl_digits_none : ∀ digits : List Char,
    digits.foldl (fun n c => n.bind fun n => (Inet.decimalOf c).map (n * 10 + ·))
      (none : Option ℕ) = none
  | [] => rfl
  | _ :: digits => foldl_digits_none digits

theorem lt_of_foldl_digits : ∀ {digits : List Char} {start : Option ℕ} {n : ℕ},
    digits.foldl (fun n c => n.bind fun n => (Inet.decimalOf c).map (n * 10 + ·)) start = some n →
      ∀ c ∈ digits, '-' < c
  | [], _, _, _ => by simp
  | c :: digits, start, n, h => by
    rw [List.foldl_cons] at h
    refine List.forall_mem_cons.2 ⟨?_, lt_of_foldl_digits h⟩
    cases hc : Inet.decimalOf c with
    | some d => exact Inet.lt_of_decimalOf hc
    | none =>
      have hstuck : (start.bind fun n => (Inet.decimalOf c).map (n * 10 + ·)) = none := by
        cases start <;> simp [hc]
      rw [hstuck, foldl_digits_none] at h
      cases h

theorem lt_of_lengthOf {digits : List Char} {n : ℕ} (h : lengthOf digits = some n) :
    ∀ c ∈ digits, '-' < c := by
  intro c hc
  rcases mem_dropZeros hc with rfl | hc
  · decide
  · unfold lengthOf at h
    dsimp only at h
    split_ifs at h
    exact lt_of_foldl_digits h c hc

theorem Address.dash_lt_of_parse {text : String} {a : Address} (h : Address.parse text = some a) :
    text.toList ≠ [] ∧ ∀ c ∈ text.toList, '-' < c := by
  unfold Address.parse at h
  dsimp only at h
  split_ifs at h with hplain
  obtain ⟨ip, hip, hrest⟩ := Option.bind_eq_some_iff.1 h
  have hfront : ∀ c ∈ text.toList.takeWhile (· ≠ '/'), '-' < c := by
    unfold Ip.read at hip
    split_ifs at hip
    · obtain ⟨words, hwords, -⟩ := Option.map_eq_some_iff.1 hip
      exact Inet.lt_of_pton6 hwords
    · obtain ⟨octets, hoctets, -⟩ := Option.map_eq_some_iff.1 hip
      exact Inet.lt_of_pton4 hoctets
  have hback : ∀ c ∈ text.toList.dropWhile (· ≠ '/'), '-' < c := by
    have hhead := List.head?_dropWhile_not (fun c : Char => decide (c ≠ '/')) text.toList
    cases hdrop : text.toList.dropWhile (· ≠ '/') with
    | nil => simp
    | cons slash digits =>
      rw [hdrop] at hrest hhead
      obtain ⟨n, hn, -⟩ := Option.bind_eq_some_iff.1 hrest
      have hslash : slash = '/' := by simpa using hhead
      exact List.forall_mem_cons.2 ⟨hslash ▸ (by decide : '-' < '/'), lt_of_lengthOf hn⟩
  refine ⟨fun hnil => ?_, fun c hc => ?_⟩
  · rw [hnil] at hplain
    simp at hplain
  · rw [← List.takeWhile_append_dropWhile (p := fun c : Char => decide (c ≠ '/'))
      (l := text.toList)] at hc
    rcases List.mem_append.1 hc with hc | hc
    · exact hfront c hc
    · exact hback c hc

theorem Address.lt_of_parse {text : String} {a : Address} (h : Address.parse text = some a) :
    text.toList ≠ [] ∧ ∀ c ∈ text.toList, ' ' < c :=
  ⟨(dash_lt_of_parse h).1, fun c hc =>
    UInt32.lt_trans (by decide : ' '.val < '-'.val) ((dash_lt_of_parse h).2 c hc)⟩

/-! ## Host bits -/

/-- The top bits of a group of `width` bits that starts at bit `start`, of a prefix of `n`. -/
def keepTop (width n start g : ℕ) : ℕ :=
  if start + width ≤ n then g
  else if n ≤ start then 0
  else g / 2 ^ (width - (n - start)) * 2 ^ (width - (n - start))

theorem keepTop_le (width n start g : ℕ) : keepTop width n start g ≤ g := by
  unfold keepTop
  split_ifs
  · exact le_rfl
  · exact Nat.zero_le g
  · exact Nat.div_mul_le_self _ _

theorem keepTop_keepTop (width n start g : ℕ) :
    keepTop width n start (keepTop width n start g) = keepTop width n start g := by
  unfold keepTop
  split_ifs
  · rfl
  · rfl
  · rw [Nat.mul_div_cancel _ (by positivity)]

/-- The groups with everything below a prefix of `n` bits cleared. -/
def keepGroups {count bound : ℕ} (width n : ℕ) (g : Groups count bound) : Groups count bound where
  list := g.list.mapIdx fun i x => keepTop width n (i * width) x
  length_eq := by rw [List.length_mapIdx, g.length_eq]
  lt x hx := by
    obtain ⟨i, hi, rfl⟩ := List.mem_mapIdx.1 hx
    exact lt_of_le_of_lt (keepTop_le _ _ _ _) (g.lt _ (List.getElem_mem hi))

theorem keepGroups_keepGroups {count bound : ℕ} (width n : ℕ) (g : Groups count bound) :
    keepGroups width n (keepGroups width n g) = keepGroups width n g := by
  simp only [keepGroups, Groups.mk.injEq, List.mapIdx_mapIdx]
  refine List.mapIdx_eq_mapIdx_iff.2 fun i hi => ?_
  exact keepTop_keepTop _ _ _ _

namespace Ip

/-- The address with everything below a prefix of `n` bits cleared. -/
def network (n : ℕ) : Ip → Ip
  | v4 octets => v4 (keepGroups 8 n octets)
  | v6 words => v6 (keepGroups 16 n words)

@[simp] theorem bits_network (n : ℕ) (ip : Ip) : (ip.network n).bits = ip.bits := by
  cases ip <;> rfl

theorem network_network (n : ℕ) (ip : Ip) : (ip.network n).network n = ip.network n := by
  cases ip <;> simp [network, keepGroups_keepGroups]

end Ip

namespace Address

/-- The address with its host bits cleared. One with no length is all prefix. -/
def masked (a : Address) : Address where
  ip := a.ip.network (a.length.getD a.ip.bits)
  length := a.length
  length_le := by simpa using a.length_le

theorem masked_masked (a : Address) : a.masked.masked = a.masked := by
  simp [masked, Ip.network_network]

def withLength (text : String) : Option String :=
  (parse text).bind fun a => if a.length.isSome then some a.render else none

/-! ## Delegations -/

def valueOf (words : Groups 8 65536) : ℕ :=
  words.list.foldl (fun n w => n * 65536 + w) 0

def wordsOf (value : ℕ) : Groups 8 65536 where
  list := (List.range 8).map fun i => value / 65536 ^ (7 - i) % 65536
  length_eq := by simp
  lt := by
    simp only [List.mem_map]
    rintro _ ⟨i, -, rfl⟩
    exact Nat.mod_lt _ (by omega)

/-- `ncfg_address_from_delegation` : the delegated prefix, the subnet just above the suffix's
length, and the suffix's host part below it. -/
def fromDelegation (delegation : String) (subnet : ℤ) (suffix : String) : Option String :=
  match parse delegation, parse suffix with
  | some ⟨.v6 block, some blockLength, _⟩, some ⟨.v6 host, some hostLength, hle⟩ =>
    if hostLength < blockLength then none
    else if subnet < 0 ∨ 0xffff < subnet then none
    else if hostLength - blockLength < 16 ∧ 2 ^ (hostLength - blockLength) ≤ subnet then none
    else
      let value := valueOf block / 2 ^ (128 - blockLength) * 2 ^ (128 - blockLength) |||
        subnet.toNat <<< (128 - hostLength) ||| valueOf host % 2 ^ (128 - hostLength)
      some (render ⟨.v6 (wordsOf value), some hostLength, hle⟩)
  | _, _ => none

theorem canonical_fromDelegation {delegation suffix derived : String} {subnet : ℤ}
    (h : fromDelegation delegation subnet suffix = some derived) :
    canonical derived = some derived := by
  unfold fromDelegation at h
  split at h
  · split_ifs at h
    obtain rfl := Option.some_inj.1 h
    rw [canonical, parse_render, Option.map_some]
  · cases h

end Address

/-- The codec as the octet loops have it. -/
def valueCodec : AddressCodec where
  canonical := Address.canonical
  network := Address.withLength
  fromDelegation := Address.fromDelegation

end Netcfgd
