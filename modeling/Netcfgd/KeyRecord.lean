import Mathlib.Data.List.DropRight
import Netcfgd.Separated
import Netcfgd.Sha256
import Netcfgd.Wireguard

/-!
# The record of the keys in use

`src/apply/kernel_genl.c` and `src/observe/wireguard.c` : what `wg.set_device` and `wg.set_peers`
leave under the run directory, the digest of the private key and a line for each peer that was
given a preshared key, and how the observer reads the two files.

A digest is of the octets a text stands for (`octetsOf`), so one key has one digest however it is
spelled (`wgDigest_of_keyOf`). A record that was written is read back line by line
(`presetDigest_record`), where the reader takes a file of its size.
-/

namespace Netcfgd.KeyRecord

open Netcfgd.Json (ascii asciis)
open Netcfgd.Pages (Bytes)
open Netcfgd.Sha256
open Netcfgd.Wireguard
open Compile

/-! ## Keys and their text -/

theorem keys_ne_zero : NeZero (2 ^ 256) := inferInstance

attribute [local instance] keys_ne_zero

/-- `base64_value`, of an octet. -/
def digitOf (c : UInt8) : Option ℕ := base64Value (Char.ofNat c.toNat)

/-- `ncfg_key_parse`, of octets. -/
def keyOf (text : Bytes) : Option Key :=
  if text.length ≠ 44 ∨ text.getLast? ≠ some (ascii '=') then none
  else (text.dropLast.mapM digitOf).map fun digits =>
    Fin.ofNat _ (digits.foldl (· * 64 + ·) 0 / 4)

def keyOctets (key : Key) : Bytes :=
  (List.range 32).map fun i => UInt8.ofNat (key.val / 256 ^ (31 - i))

/-- `ncfg_observe_wg_digest_key`. -/
def digestKey (key : Key) : Bytes := sha256Hex (keyOctets key)

def trimmed (text : Bytes) : Bytes := (text.dropWhile (· ≤ ascii ' ')).rdropWhile (· ≤ ascii ' ')

/-- What a text stands for : the octets of the key it spells, and else itself. -/
def octetsOf (text : Bytes) : Bytes :=
  match keyOf (trimmed text) with
  | some key => keyOctets key
  | none => trimmed text

/-- `ncfg_observe_wg_digest`. -/
def wgDigest (text : Bytes) : Bytes := sha256Hex (octetsOf text)

/-! ## What the executor hands over and records -/

/-- What the secret store answers for a reference, `ncfg_secret_resolve`. -/
abbrev Store := SecretRef → Option Bytes

/-- `key_of`. -/
def keyFrom (store : Store) (reference : SecretRef) : Option Key := (store reference).bind keyOf

/-- What the kernel was given : the private key, and for each peer its preshared key. -/
structure Given where
  privateKey : Key
  presets : List (WgPeer × Option Key)

/-- `material_build`, for one peer : no preshared key where the peer has none. -/
def material (store : Store) (p : WgPeer) : Option (WgPeer × Option Key) :=
  match p.presharedKey with
  | none => some (p, none)
  | some reference => (keyFrom store reference).map fun key => (p, some key)

def presetLine (publicKey preset : Key) : Bytes :=
  asciis (keyRender publicKey) ++ ascii ' ' :: digestKey preset

/-- `record_peer`. -/
def recordPeer (given : WgPeer × Option Key) : Option Bytes :=
  given.2.map (presetLine given.1.publicKey)

def bufferMax : ℕ := 16 * 1024 * 1024

/-- `ncfg_kernel_wg_write_record` : a record that outgrew its buffer leaves the file as it was,
and an empty one removes it. -/
def writeRecord (file : Option Bytes) (record : Bytes) : Option Bytes :=
  if bufferMax < record.length then file else if record = [] then none else some record

structure Records where
  key : Option Bytes
  presets : Option Bytes

def presetRecord (presets : List (WgPeer × Option Key)) : Bytes :=
  Separated.ended (ascii '\n') (presets.filterMap recordPeer)

/-- `wg.set_device` and then `wg.set_peers`, the kernel accepting both. Nothing where a key could
not be had. -/
def carryOut (store : Store) (config : WireguardConfig) (before : Records) :
    Option (Given × Records) := do
  let privateKey ← keyFrom store config.privateKey
  let presets ← config.peers.mapM (material store)
  some (⟨privateKey, presets⟩,
    ⟨writeRecord before.key (digestKey privateKey ++ [ascii '\n']),
      writeRecord before.presets (presetRecord presets)⟩)

/-! ## What the observer reads -/

/-- `WG_RECORD_MAX`. -/
def recordMax : ℕ := 262144

/-- `read_record` : up to a NUL, and nothing of a file that does not end below the ceiling. -/
def readRecord (file : Option Bytes) : Option Bytes :=
  (file.filter fun body => body.length < recordMax).map fun body => body.takeWhile (· ≠ 0)

/-- A line of the record : the key before its first space, and the digest after it. -/
def readLine (line : Bytes) : Option (Key × Bytes) :=
  if ascii ' ' ∈ line then
    (keyOf (line.takeWhile (· ≠ ascii ' '))).map fun key =>
      (key, (((line.dropWhile (· ≠ ascii ' ')).dropWhile (· ≤ ascii ' ')).takeWhile
        (ascii ' ' < ·)).take 64)
  else none

/-- `preset_digest` : what the first line with the key says. -/
def presetDigest (record : Bytes) (key : Key) : Option Bytes :=
  ((((record.splitOn (ascii '\n')).filterMap readLine).find? fun line => line.1 = key).map
    Prod.snd).filter (· ≠ [])

/-! ## Digits -/

theorem foldl_digits {b : ℕ} (hb : 0 < b) : ∀ (places n : ℕ),
    ((List.range places).map fun i => n / b ^ (places - 1 - i) % b).foldl (· * b + ·) 0 =
      n % b ^ places
  | 0, n => by simp [Nat.mod_one]
  | places + 1, n => by
    have hfirst : (List.range places).map (fun i => n / b ^ (places + 1 - 1 - i) % b) =
        (List.range places).map fun i => n / b / b ^ (places - 1 - i) % b := by
      refine List.map_congr_left fun i hi => ?_
      have hlt := List.mem_range.1 hi
      rw [show places + 1 - 1 - i =
        (places - 1 - i) + 1 by omega, pow_succ', Nat.div_div_eq_div_mul]
    rw [List.range_succ, List.map_append, List.foldl_append, hfirst, foldl_digits hb places (n / b)]
    simp only [List.map_cons, List.map_nil, List.foldl_cons, List.foldl_nil]
    rw [show places + 1 - 1 - places = 0 by omega, pow_zero, Nat.div_one, pow_succ', Nat.mod_mul]
    ring

theorem base64_codes : (base64Alphabet.map Char.toNat).Nodup ∧ base64Alphabet.length = 64 ∧
    ∀ n ∈ base64Alphabet.map Char.toNat, 32 < n ∧ n < 256 := by
  unfold base64Alphabet
  rw [String.toList_ofList]
  decide

theorem base64_digit (n : ℕ) (h : n < 64) :
    ((base64Alphabet[n]?).map fun c => digitOf (ascii c)) = some (some n) := by
  obtain ⟨hnodup, hlength, hbounds⟩ := base64_codes
  have hn : n < base64Alphabet.length := by rw [hlength]; exact h
  have hmem : base64Alphabet[n] ∈ base64Alphabet := List.getElem_mem hn
  have hcode := (hbounds _ (List.mem_map_of_mem hmem)).2
  have hback : Char.ofNat (ascii base64Alphabet[n]).toNat = base64Alphabet[n] := by
    have hoctet : (ascii base64Alphabet[n]).toNat = base64Alphabet[n].toNat % 256 :=
      UInt32.toNat_toUInt8 _
    rw [hoctet, Nat.mod_eq_of_lt hcode, Char.ofNat_toNat]
  rw [List.getElem?_eq_getElem hn, Option.map_some, digitOf, hback, base64Value, if_pos hmem,
    hnodup.of_map.idxOf_getElem n hn]

def keyDigits (key : Key) : List ℕ := (List.range 43).map fun i => key.val * 4 / 64 ^ (42 - i) % 64

theorem mapM_digitOf : ∀ digits : List ℕ, (∀ n ∈ digits, n < 64) →
    ((digits.filterMap (base64Alphabet[·]?)).map ascii).mapM digitOf = some digits ∧
      (digits.filterMap (base64Alphabet[·]?)).length = digits.length
  | [], _ => ⟨rfl, rfl⟩
  | n :: digits, h => by
    obtain ⟨hread, hlength⟩ := mapM_digitOf digits fun m hm => h m (List.mem_cons_of_mem _ hm)
    obtain ⟨c, hc, hdigit⟩ := Option.map_eq_some_iff.1 (base64_digit n (h n List.mem_cons_self))
    rw [List.filterMap_cons_some hc]
    refine ⟨?_, congrArg (· + 1) hlength⟩
    rw [List.map_cons, List.mapM_cons, hdigit, hread]
    rfl

theorem keyDigits_lt (key : Key) : ∀ n ∈ keyDigits key, n < 64 := by
  intro n hn
  obtain ⟨i, -, rfl⟩ := List.mem_map.1 hn
  exact Nat.mod_lt _ (by decide)

theorem asciis_keyRender (key : Key) :
    asciis (keyRender key) =
      ((keyDigits key).filterMap (base64Alphabet[·]?)).map ascii ++ [ascii '='] := by
  rw [asciis, keyRender, String.toList_ofList, List.map_append]
  rfl

@[simp] theorem length_keyRender (key : Key) : (asciis (keyRender key)).length = 44 := by
  rw [asciis_keyRender, List.length_append, List.length_map,
    (mapM_digitOf _ (keyDigits_lt key)).2, keyDigits, List.length_map, List.length_range]
  rfl

theorem keyOf_keyRender (key : Key) : keyOf (asciis (keyRender key)) = some key := by
  have hkey : key.val * 4 < 64 ^ 43 := by
    have h := key.isLt
    have hpow : (64 : ℕ) ^ 43 = 2 ^ 256 * 4 := by norm_num
    omega
  have hlast : (asciis (keyRender key)).getLast? = some (ascii '=') := by
    rw [asciis_keyRender, List.getLast?_concat]
  rw [keyOf, if_neg (by rw [length_keyRender, hlast]; simp), asciis_keyRender,
    List.dropLast_concat, (mapM_digitOf _ (keyDigits_lt key)).1, Option.map_some]
  have hfold := foldl_digits (b := 64) (by decide) 43 (key.val * 4)
  rw [show (43 : ℕ) - 1 = 42 from rfl, Nat.mod_eq_of_lt hkey] at hfold
  rw [keyDigits, hfold, Nat.mul_div_cancel _ (by decide)]
  exact congrArg some (Fin.ext (Nat.mod_eq_of_lt key.isLt))

theorem keyOctets_injective : Function.Injective keyOctets := by
  intro key key' h
  have hval : ∀ k : Key, ((keyOctets k).map UInt8.toNat).foldl (· * 256 + ·) 0 = k.val := by
    intro k
    have hfold := foldl_digits (b := 256) (by decide) 32 k.val
    rw [show (32 : ℕ) - 1 = 31 from rfl,
      Nat.mod_eq_of_lt (show k.val < 256 ^ 32 by
        have h := k.isLt
        have hpow : (256 : ℕ) ^ 32 = 2 ^ 256 := by norm_num
        omega)] at hfold
    have hdigits : (keyOctets k).map UInt8.toNat =
        (List.range 32).map fun i => k.val / 256 ^ (31 - i) % 256 := by
      rw [keyOctets, List.map_map]
      exact List.map_congr_left fun i _ => UInt8.toNat_ofNat'
    rw [hdigits, hfold]
  exact Fin.ext (by rw [← hval key, h, hval key'])

/-! ## Texts -/

theorem blank_lt_of_digitOf (c : UInt8) (h : (digitOf c).isSome = true) : ascii ' ' < c := by
  have hmem : Char.ofNat c.toNat ∈ base64Alphabet := by
    by_contra hno
    rw [digitOf, base64Value, if_neg hno] at h
    cases h
  have hcode := (base64_codes.2.2 _ (List.mem_map_of_mem hmem)).1
  have hblank : ∀ n < 33, (Char.ofNat n).toNat ≤ 32 := by decide
  refine UInt8.lt_iff_toNat_lt.2 (Nat.lt_of_not_le fun hle => ?_)
  exact absurd hcode (Nat.not_lt.2 (hblank c.toNat (Nat.lt_succ_of_le hle)))

theorem blank_of_mapM_digitOf : ∀ {text : Bytes} {digits : List ℕ},
    text.mapM digitOf = some digits → ∀ c ∈ text, ascii ' ' < c
  | [], _, _ => fun _ hc => (List.not_mem_nil hc).elim
  | a :: text, digits, h => by
    rw [List.mapM_cons] at h
    obtain ⟨n, hn, h⟩ := Option.bind_eq_some_iff.1 h
    obtain ⟨rest, hrest, -⟩ := Option.bind_eq_some_iff.1 h
    intro c hc
    rcases List.mem_cons.1 hc with rfl | hc
    · exact blank_lt_of_digitOf c (by rw [hn]; rfl)
    · exact blank_of_mapM_digitOf hrest c hc

theorem blank_of_keyOf {text : Bytes} {key : Key} (h : keyOf text = some key) :
    ∀ c ∈ text, ascii ' ' < c := by
  rw [keyOf] at h
  split_ifs at h with hshape
  rw [not_or, not_not, not_not] at hshape
  obtain ⟨digits, hdigits, -⟩ := Option.map_eq_some_iff.1 h
  rw [← List.dropLast_append_getLast? _ hshape.2]
  intro c hc
  rcases List.mem_append.1 hc with hc | hc
  · exact blank_of_mapM_digitOf hdigits c hc
  · obtain rfl := List.mem_singleton.1 hc
    decide

theorem trimmed_of_blank {text : Bytes} (h : ∀ c ∈ text, ascii ' ' < c) : trimmed text = text := by
  have hall : ∀ c ∈ text, ¬decide (c ≤ ascii ' ') = true := fun c hc => by
    simpa using h c hc
  have hfront : text.dropWhile (· ≤ ascii ' ') = text := by
    cases text with
    | nil => rfl
    | cons c rest => exact List.dropWhile_cons_of_neg (hall c List.mem_cons_self)
  rw [trimmed, hfront, List.rdropWhile_eq_self_iff]
  exact fun hne => hall _ (List.getLast_mem hne)

theorem trimmed_append_newline {text : Bytes} (h : ∀ c ∈ text, ascii ' ' < c) (hne : text ≠ []) :
    trimmed (text ++ [ascii '\n']) = text := by
  cases text with
  | nil => exact (hne rfl).elim
  | cons c rest =>
    have hc : ¬decide (c ≤ ascii ' ') = true := by simpa using h c List.mem_cons_self
    have hfront : (c :: (rest ++ [ascii '\n'])).dropWhile (· ≤ ascii ' ') =
        c :: rest ++ [ascii '\n'] := List.dropWhile_cons_of_neg hc
    rw [trimmed, List.cons_append, hfront, List.rdropWhile_concat_pos _ _ _ (by decide),
      List.rdropWhile_eq_self_iff]
    exact fun hne => by simpa using h _ (List.getLast_mem hne)

theorem octetsOf_of_keyOf {text : Bytes} {key : Key} (h : keyOf text = some key) :
    octetsOf text = keyOctets key := by
  rw [octetsOf, trimmed_of_blank (blank_of_keyOf h), h]

theorem wgDigest_of_keyOf {text : Bytes} {key : Key} (h : keyOf text = some key) :
    wgDigest text = digestKey key := by
  rw [wgDigest, octetsOf_of_keyOf h, digestKey]

/-! ## Reading a record back -/

@[simp] theorem length_digestKey (key : Key) : (digestKey key).length = 64 := length_sha256Hex _

theorem blank_of_mem_digestKey (key : Key) : ∀ c ∈ digestKey key, ascii ' ' < c :=
  blank_of_mem_sha256Hex _

theorem length_presetLine (publicKey preset : Key) :
    (presetLine publicKey preset).length = 109 := by
  simp [presetLine]

theorem length_recordPeer {given : WgPeer × Option Key} {line : Bytes}
    (h : recordPeer given = some line) : line.length = 109 := by
  obtain ⟨key, -, rfl⟩ := Option.map_eq_some_iff.1 h
  exact length_presetLine _ _

theorem length_presetRecord : ∀ presets : List (WgPeer × Option Key),
    (presetRecord presets).length = 110 * presets.countP (·.2.isSome)
  | [] => rfl
  | given :: presets => by
    have ih := length_presetRecord presets
    rw [presetRecord] at ih ⊢
    rcases hline : recordPeer given with _ | line
    · have hnone : given.2 = none := Option.map_eq_none_iff.1 hline
      rw [List.filterMap_cons_none hline, ih, List.countP_cons_of_neg (by rw [hnone]; decide)]
    · have hsome : given.2.isSome = true := by
        obtain ⟨key, hkey, -⟩ := Option.map_eq_some_iff.1 hline
        rw [hkey, Option.isSome_some]
      rw [List.filterMap_cons_some hline, Separated.ended_cons, List.length_append,
        List.length_cons, ih, length_recordPeer hline, List.countP_cons_of_pos (by exact hsome)]
      ring

theorem blank_of_mem_keyRender (key : Key) : ∀ c ∈ asciis (keyRender key), ascii ' ' < c :=
  blank_of_keyOf (keyOf_keyRender key)

theorem readLine_presetLine (publicKey preset : Key) :
    readLine (presetLine publicKey preset) = some (publicKey, digestKey preset) := by
  have hne : ∀ c ∈ asciis (keyRender publicKey), decide (c ≠ ascii ' ') = true := fun c hc =>
    decide_eq_true (fun heq => absurd (heq ▸ blank_of_mem_keyRender publicKey c hc) (by decide))
  have hgt : ∀ c ∈ digestKey preset, decide (ascii ' ' < c) = true := fun c hc =>
    decide_eq_true (blank_of_mem_digestKey preset c hc)
  have htake : (presetLine publicKey preset).takeWhile (· ≠ ascii ' ') =
      asciis (keyRender publicKey) := by
    rw [presetLine, List.takeWhile_append_of_pos hne, List.takeWhile_cons_of_neg (by simp),
      List.append_nil]
  have hdrop : (presetLine publicKey preset).dropWhile (· ≠ ascii ' ') =
      ascii ' ' :: digestKey preset := by
    rw [presetLine, List.dropWhile_append_of_pos hne, List.dropWhile_cons_of_neg (by simp)]
  have hblanks : (ascii ' ' :: digestKey preset).dropWhile (· ≤ ascii ' ') = digestKey preset := by
    rw [List.dropWhile_cons_of_pos (by decide)]
    rcases hd : digestKey preset with _ | ⟨c, rest⟩
    · rfl
    · refine List.dropWhile_cons_of_neg ?_
      simpa using blank_of_mem_digestKey preset c (by rw [hd]; exact List.mem_cons_self)
  have hwhole : ((digestKey preset).takeWhile (ascii ' ' < ·)).take 64 = digestKey preset := by
    rw [List.takeWhile_eq_self_iff.2 hgt, List.take_of_length_le (by simp)]
  rw [readLine, if_pos (by simp [presetLine]), htake, hdrop, hblanks, hwhole, keyOf_keyRender]
  rfl

theorem newline_not_mem_presetLine (publicKey preset : Key) :
    ascii '\n' ∉ presetLine publicKey preset := by
  intro hmem
  have hgt : ∀ c, ascii ' ' < c → c ≠ ascii '\n' := by
    rintro c hc rfl
    exact absurd hc (by decide)
  rw [presetLine, List.mem_append, List.mem_cons] at hmem
  rcases hmem with hmem | hmem | hmem
  · exact hgt _ (blank_of_mem_keyRender publicKey _ hmem) rfl
  · exact absurd hmem (by decide)
  · exact hgt _ (blank_of_mem_digestKey preset _ hmem) rfl

theorem readLine_record (presets : List (WgPeer × Option Key)) :
    ((presetRecord presets).splitOn (ascii '\n')).filterMap readLine =
      presets.filterMap fun given =>
        given.2.map fun key => (given.1.publicKey, digestKey key) := by
  have hclean : ∀ w ∈ presets.filterMap recordPeer, ascii '\n' ∉ w := by
    intro w hw
    obtain ⟨given, -, hline⟩ := List.mem_filterMap.1 hw
    obtain ⟨key, -, rfl⟩ := Option.map_eq_some_iff.1 hline
    exact newline_not_mem_presetLine _ _
  rw [presetRecord, Separated.splitOn_ended hclean, List.filterMap_append, List.filterMap_filterMap]
  have hnil : List.filterMap readLine [[]] = [] := rfl
  rw [hnil, List.append_nil]
  refine List.filterMap_congr fun given _ => ?_
  rw [recordPeer, Option.bind_map]
  cases given.2 with
  | none => rfl
  | some key =>
    rw [Option.bind_some, Function.comp_apply, readLine_presetLine, Option.map_some]

theorem presetDigest_record {presets : List (WgPeer × Option Key)} {p : WgPeer}
    {preset : Option Key} (hnodup : (presets.map fun given => given.1.publicKey).Nodup)
    (hmem : (p, preset) ∈ presets) :
    presetDigest (presetRecord presets) p.publicKey = preset.map digestKey := by
  have hfind : ∀ presets : List (WgPeer × Option Key),
      (presets.map fun given => given.1.publicKey).Nodup → (p, preset) ∈ presets →
      (presets.filterMap fun given => given.2.map fun key =>
        (given.1.publicKey, digestKey key)).find? (fun line => line.1 = p.publicKey) =
          preset.map fun key => (p.publicKey, digestKey key) := by
    intro presets
    induction presets with
    | nil => exact fun _ h => (List.not_mem_nil h).elim
    | cons given presets ih =>
      intro hnodup hmem
      rw [List.map_cons, List.nodup_cons] at hnodup
      rcases List.mem_cons.1 hmem with rfl | hmem
      · cases preset with
        | some key =>
          exact List.find?_cons_of_pos (by simp)
        | none =>
          rw [List.filterMap_cons_none rfl, Option.map_none, List.find?_eq_none]
          intro line hline heq
          obtain ⟨other, hother, hsome⟩ := List.mem_filterMap.1 hline
          obtain ⟨key, -, rfl⟩ := Option.map_eq_some_iff.1 hsome
          exact hnodup.1 (List.mem_map.2 ⟨other, hother, by simpa using heq⟩)
      · have hne : given.1.publicKey ≠ p.publicKey := fun heq =>
          hnodup.1 (heq ▸ List.mem_map_of_mem (f := fun given => given.1.publicKey) hmem)
        rw [List.filterMap_cons]
        rcases given.2 with _ | key
        · exact ih hnodup.2 hmem
        · exact (List.find?_cons_of_neg (by simpa using hne)).trans (ih hnodup.2 hmem)
  rw [presetDigest, readLine_record, hfind presets hnodup hmem]
  cases preset with
  | none => rfl
  | some key =>
    rw [Option.map_some, Option.map_some, Option.filter_some, if_pos]
    · rfl
    · have hlength := length_digestKey key
      refine decide_eq_true fun hnil => ?_
      rw [show digestKey key = [] from hnil] at hlength
      cases hlength

end Netcfgd.KeyRecord
