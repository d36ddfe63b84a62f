import Netcfgd.KeyRecord

/-!
# A rotated key is noticed

`ncfg_observe_wireguard_currency` of `src/observe/wireguard.c` compares what the secret store holds
now with the record of what was handed to the kernel, and `ncfg_plan_wireguard` plans by its
answer. The store a device was configured from and the one of the next pass are any two.

A rotation is noticed exactly where `Noticeable` holds (`rotation_noticed_iff`). The reader takes
no record from 262144 octets on, which is one with 2384 lines, so from there a rotated preshared
key is never noticed (`hub_not_noticed`); and the kernel reports a preshared key of 32 zero octets
as none, so a peer that was given one is configured again on every pass.
-/

namespace Netcfgd.KeyRecord

open Netcfgd.Json (ascii asciis)
open Netcfgd.Pages (Bytes)
open Netcfgd.Wireguard
open Compile

attribute [local instance] keys_ne_zero

/-! ## The observer's answer -/

/-- `currency_of` : nothing where there is no record, or the store does not answer. -/
def currencyOf (store : Store) (reference : Option SecretRef) (recorded : Bytes) : Option Bool :=
  if recorded = [] then none
  else (reference.bind store).map fun text => wgDigest text == recorded

/-- `peer_preshared`. -/
def peerPreshared (config : WireguardConfig) (publicKey : Key) : Option SecretRef :=
  (config.peers.find? fun p => p.publicKey = publicKey).bind WgPeer.presharedKey

/-- `preset_currency`, for a peer with the record : one that has no preshared key, or no line,
stays as it was. -/
def presetMatches (store : Store) (config : WireguardConfig) (record : Bytes)
    (o : ObservedWgPeer) : ObservedWgPeer :=
  if o.presharedKey then
    match presetDigest record o.publicKey with
    | none => o
    | some digest =>
      { o with presharedMatches :=
          currencyOf store (peerPreshared config o.publicKey) digest }
  else o

/-- `preset_currency`. -/
def presetCurrency (store : Store) (config : WireguardConfig) (file : Option Bytes)
    (o : ObservedWgPeer) : ObservedWgPeer :=
  match readRecord file with
  | none => o
  | some record => presetMatches store config record o

@[simp] theorem presetCurrency_comparable (store : Store) (config : WireguardConfig)
    (file : Option Bytes) (o : ObservedWgPeer) :
    (presetCurrency store config file o).comparable = o.comparable := by
  unfold presetCurrency presetMatches
  split
  · rfl
  · split_ifs
    · split <;> rfl
    · rfl

@[simp] theorem presetCurrency_publicKey (store : Store) (config : WireguardConfig)
    (file : Option Bytes) (o : ObservedWgPeer) :
    (presetCurrency store config file o).publicKey = o.publicKey :=
  congrArg WgComparable.publicKey (presetCurrency_comparable store config file o)

/-- `ncfg_observe_wireguard_currency`, for a device of the document. Without a record of the
private key the peers are not looked at either. -/
def currency (store : Store) (config : WireguardConfig) (files : Records)
    (o : ObservedWireguard) : ObservedWireguard :=
  match readRecord files.key with
  | none => o
  | some record =>
    { o with
      keyMatches := currencyOf store (some config.privateKey) (trimmed record)
      peers := o.peers.map (presetCurrency store config files.presets)
      keys := by
        rw [List.map_map]
        simpa only [Function.comp_def, presetCurrency_publicKey] using o.keys }

/-! ## What the kernel holds -/

/-- The kernel reports a preshared key of 32 zero octets as none. -/
def reported (preset : Option Key) : Bool := preset.any (· ≠ 0)

/-- A peer as the kernel reports it, agreeing in public key, prefixes and keepalive. -/
structure ReportedAs (given : WgPeer × Option Key) (o : ObservedWgPeer) : Prop where
  publicKey : o.publicKey = given.1.publicKey
  presharedKey : o.presharedKey = reported given.2
  presharedMatches : o.presharedMatches = none
  keepalive : o.keepalive = withoutZero given.1.keepalive
  allowedIps : fillPrefixes (given.1.allowedIps.map AllowedIp.text) = fillPrefixes o.allowedIps

/-- A device that holds what it was given, nobody else having changed it. -/
structure HeldFrom (config : WireguardConfig) (given : Given) (o : ObservedWireguard) : Prop where
  listenPort : deviceDiffers (withoutZero config.listenPort) o.listenPort = false
  fwmark : deviceDiffers (withoutZero config.fwmark) o.fwmark = false
  keyMatches : o.keyMatches = none
  held : ∀ g ∈ given.presets, ∃ p ∈ o.peers, ReportedAs g p
  peers : ∀ p ∈ o.peers, ∃ g ∈ given.presets, ReportedAs g p

/-! ## What is to be noticed -/

section Stores

variable (before now : Store)

/-- A secret whose octets have changed. -/
def Rotated (reference : SecretRef) : Prop :=
  ∃ was ∈ before reference, ∃ text ∈ now reference, octetsOf text ≠ octetsOf was

/-- A reference resolves to octets of another digest than before. -/
def Differs (reference : SecretRef) : Prop :=
  ∃ was ∈ before reference, ∃ text ∈ now reference, wgDigest text ≠ wgDigest was

variable (name : String) (config : WireguardConfig)

/-- Some peer's preshared key is such a secret. -/
def SomePreset (R : SecretRef → Prop) : Prop :=
  ∃ p ∈ config.peers, ∃ reference ∈ p.presharedKey, R reference

/-- The plan sets the device where its private key was rotated, and the peers where a preshared
key of theirs was, and nowhere else. -/
structure Notices (actions : List Op) : Prop where
  device : Op.wgSetDevice name config.privateKey.name config.listenPort config.fwmark ∈ actions ↔
    Rotated before now config.privateKey
  peers : Op.wgSetPeers name ∈ actions ↔ SomePreset config (Rotated before now)

/-- How many peers have a preshared key. -/
def presetCount : ℕ := config.peers.countP fun p => p.presharedKey.isSome

/-- Some preshared key was all zeros. -/
def ZeroPreset : Prop :=
  SomePreset config fun reference => ∃ text ∈ before reference, keyOf text = some 0

/-- An earlier record names a digest for a peer that its key does not have now. -/
def Stale (file : Option Bytes) : Prop :=
  ∃ record ∈ readRecord file, ∃ p ∈ config.peers, ∃ reference ∈ p.presharedKey,
    ∃ digest ∈ presetDigest record p.publicKey, ∃ text ∈ now reference, wgDigest text ≠ digest

/-- The kinds of stores, records and peers for which a rotation is noticed. A record of 2383 lines
is read, and one of 152520 lines is written. -/
structure Noticeable (file : Option Bytes) : Prop where
  device : Rotated before now config.privateKey → Differs before now config.privateKey
  rotated : SomePreset config (Rotated before now) → ZeroPreset before config ∨
    presetCount config ≤ 2383 ∧ SomePreset config (Differs before now) ∨
      152520 < presetCount config ∧ Stale now config file
  unrotated : ¬SomePreset config (Rotated before now) → ¬ZeroPreset before config ∧
    ¬(152520 < presetCount config ∧ Stale now config file)

end Stores

/-! ## What was carried out -/

section Carried

variable {store : Store} {config : WireguardConfig} {files after : Records} {given : Given}

theorem peerPreshared_eq {p : WgPeer} (hp : p ∈ config.peers) :
    peerPreshared config p.publicKey = p.presharedKey := by
  have hfind : config.peers.find? (fun q => q.publicKey = p.publicKey) = some p := by
    cases hfound : config.peers.find? (fun q => q.publicKey = p.publicKey) with
    | none => exact absurd (List.find?_eq_none.1 hfound p hp) (by simp)
    | some q =>
      have hkey : q.publicKey = p.publicKey := by simpa using List.find?_some hfound
      rw [List.inj_on_of_nodup_map config.keys (List.mem_of_find?_eq_some hfound) hp hkey]
  rw [peerPreshared, hfind, Option.bind_some]

theorem mapM_material : ∀ {peers : List WgPeer} {presets : List (WgPeer × Option Key)},
    peers.mapM (material store) = some presets →
      presets.map Prod.fst = peers ∧ ∀ g ∈ presets, material store g.1 = some g
  | [], presets, h => by
    obtain rfl : [] = presets := Option.some.inj h
    exact ⟨rfl, fun g hg => (List.not_mem_nil hg).elim⟩
  | p :: peers, presets, h => by
    rw [List.mapM_cons] at h
    obtain ⟨g, hg, h⟩ := Option.bind_eq_some_iff.1 h
    obtain ⟨rest, hrest, h⟩ := Option.bind_eq_some_iff.1 h
    obtain rfl : g :: rest = presets := Option.some.inj h
    obtain ⟨hfst, hall⟩ := mapM_material hrest
    have hp : g.1 = p := by
      rw [material] at hg
      split at hg
      · rw [← Option.some.inj hg]
      · obtain ⟨key, -, rfl⟩ := Option.map_eq_some_iff.1 hg
        rfl
    refine ⟨by rw [List.map_cons, hp, hfst], fun g' hg' => ?_⟩
    rcases List.mem_cons.1 hg' with rfl | hg'
    · rw [hp, hg]
    · exact hall g' hg'

/-- What was given and recorded, where the two actions were carried out. -/
structure Carried (store : Store) (config : WireguardConfig) (files : Records) (given : Given)
    (after : Records) : Prop where
  privateKey : keyFrom store config.privateKey = some given.privateKey
  peers : given.presets.map Prod.fst = config.peers
  material : ∀ g ∈ given.presets, material store g.1 = some g
  key : after.key = writeRecord files.key (digestKey given.privateKey ++ [ascii '\n'])
  presets : after.presets = writeRecord files.presets (presetRecord given.presets)

/-- What is carried out leaves the records of what was given. -/
theorem carried_of_carryOut (h : carryOut store config files = some (given, after)) :
    Carried store config files given after := by
  obtain ⟨privateKey, hkey, h⟩ := Option.bind_eq_some_iff.1 h
  obtain ⟨presets, hpresets, h⟩ := Option.bind_eq_some_iff.1 h
  obtain ⟨rfl, rfl⟩ := Prod.mk.inj (Option.some.inj h)
  obtain ⟨hfst, hall⟩ := mapM_material hpresets
  exact ⟨hkey, hfst, hall, by dsimp only, by dsimp only⟩

namespace Carried

variable (h : Carried store config files given after)
include h

theorem mem_peers {g : WgPeer × Option Key} (hg : g ∈ given.presets) : g.1 ∈ config.peers := by
  rw [← h.peers]
  exact List.mem_map_of_mem hg

theorem exists_given {p : WgPeer} (hp : p ∈ config.peers) : ∃ key, (p, key) ∈ given.presets := by
  rw [← h.peers] at hp
  obtain ⟨⟨p, key⟩, hg, rfl⟩ := List.mem_map.1 hp
  exact ⟨key, hg⟩

theorem nodup : (given.presets.map fun g => g.1.publicKey).Nodup := by
  have hkeys := config.keys
  rwa [← h.peers, List.map_map] at hkeys

theorem preset_eq {p : WgPeer} {key : Option Key} (hg : (p, key) ∈ given.presets) :
    key.isSome = p.presharedKey.isSome ∧
      ∀ reference ∈ p.presharedKey, keyFrom store reference = key := by
  have hm := h.material _ hg
  rw [KeyRecord.material] at hm
  split at hm
  · rename_i hnone
    rw [← (Prod.mk.inj (Option.some.inj hm)).2, hnone]
    exact ⟨rfl, fun r hr => nomatch hr⟩
  · rename_i reference hsome
    obtain ⟨k, hk, heq⟩ := Option.map_eq_some_iff.1 hm
    rw [← (Prod.mk.inj heq).2, hsome]
    refine ⟨rfl, fun r hr => ?_⟩
    rw [← Option.some.inj hr, hk]

theorem digest_of_given {p : WgPeer} {key : Key} {reference : SecretRef}
    (hg : (p, some key) ∈ given.presets) (hr : reference ∈ p.presharedKey) :
    ∃ was ∈ store reference, keyOf was = some key ∧ wgDigest was = digestKey key := by
  have hkey := (h.preset_eq hg).2 reference hr
  obtain ⟨was, hwas, hparse⟩ := Option.bind_eq_some_iff.1 hkey
  exact ⟨was, hwas, hparse, wgDigest_of_keyOf hparse⟩

theorem countP_presets : given.presets.countP (·.2.isSome) = presetCount config := by
  rw [presetCount, ← h.peers, List.countP_map]
  refine List.countP_congr fun g hg => ?_
  obtain ⟨p, key⟩ := g
  rw [(h.preset_eq hg).1]
  rfl

end Carried

end Carried

/-! ## What is read of what was recorded -/

section Reading

variable {before now : Store} {config : WireguardConfig} {files after : Records} {given : Given}

/-- A secret that reads differently is rotated. -/
theorem Differs.rotated {reference : SecretRef} (h : Differs before now reference) :
    Rotated before now reference := by
  obtain ⟨was, hwas, text, htext, hne⟩ := h
  exact ⟨was, hwas, text, htext, fun heq => hne (congrArg Sha256.sha256Hex heq)⟩

theorem SomePreset.imp {R R' : SecretRef → Prop} (h : SomePreset config R)
    (himp : ∀ r, R r → R' r) : SomePreset config R' := by
  obtain ⟨p, hp, r, hr, hR⟩ := h
  exact ⟨p, hp, r, hr, himp r hR⟩

theorem readRecord_some {body : Bytes} (hlength : body.length < recordMax) (hnul : 0 ∉ body) :
    readRecord (some body) = some body := by
  have htake : body.takeWhile (· ≠ 0) = body :=
    List.takeWhile_eq_self_iff.2 fun c hc => decide_eq_true fun heq => hnul (heq ▸ hc)
  rw [readRecord, Option.filter_some, if_pos (decide_eq_true hlength), Option.map_some, htake]

theorem readRecord_of_long {body : Bytes} (hlength : recordMax ≤ body.length) :
    readRecord (some body) = none := by
  rw [readRecord, Option.filter_some, if_neg (by simpa using hlength), Option.map_none]

theorem ne_zero_of_blank {c : UInt8} (h : ascii ' ' < c) : c ≠ 0 := by
  rintro rfl
  exact absurd h (by decide)

theorem zero_not_mem_presetRecord (presets : List (WgPeer × Option Key)) :
    0 ∉ presetRecord presets := by
  intro hmem
  obtain ⟨line, hline, hc⟩ := List.mem_flatMap.1 hmem
  obtain ⟨g, -, hg⟩ := List.mem_filterMap.1 hline
  obtain ⟨key, -, rfl⟩ := Option.map_eq_some_iff.1 hg
  rw [List.mem_append, presetLine, List.mem_append, List.mem_cons, List.mem_singleton] at hc
  rcases hc with (hc | hc | hc) | hc
  · exact ne_zero_of_blank (blank_of_mem_keyRender _ _ hc) rfl
  · exact absurd hc (by decide)
  · exact ne_zero_of_blank (blank_of_mem_digestKey _ _ hc) rfl
  · exact absurd hc (by decide)

theorem currencyOf_eq_false {reference : Option SecretRef} {recorded : Bytes}
    (hne : recorded ≠ []) :
    currencyOf now reference recorded = some false ↔
      ∃ r ∈ reference, ∃ text ∈ now r, wgDigest text ≠ recorded := by
  rw [currencyOf, if_neg hne]
  cases reference with
  | none => simp
  | some r =>
    cases htext : now r with
    | none => simp [htext]
    | some text => simp [htext]

namespace Carried

variable (h : Carried before config files given after)
include h

theorem read_key : ∃ record, readRecord after.key = some record ∧
    trimmed record = digestKey given.privateKey := by
  have hblank := blank_of_mem_digestKey given.privateKey
  have hnul : 0 ∉ digestKey given.privateKey ++ [ascii '\n'] := by
    intro hmem
    rcases List.mem_append.1 hmem with hmem | hmem
    · exact ne_zero_of_blank (hblank _ hmem) rfl
    · exact absurd (List.mem_singleton.1 hmem) (by decide)
  have hlength : (digestKey given.privateKey ++ [ascii '\n']).length = 65 := by simp
  refine ⟨digestKey given.privateKey ++ [ascii '\n'], ?_, trimmed_append_newline hblank ?_⟩
  · rw [h.key, writeRecord, if_neg (by rw [hlength]; decide), if_neg (by simp),
      readRecord_some (by rw [hlength]; decide) hnul]
  · intro hnil
    rw [hnil] at hlength
    cases hlength

/-- The record is stale just where it can be read back and a key differs, or it is too long to be
written and was stale before. -/
theorem stale_after : Stale now config after.presets ↔
    presetCount config ≤ 2383 ∧ SomePreset config (Differs before now) ∨
      152520 < presetCount config ∧ Stale now config files.presets := by
  have hlength : (presetRecord given.presets).length = 110 * presetCount config := by
    rw [length_presetRecord, h.countP_presets]
  rw [h.presets, writeRecord, hlength, bufferMax]
  by_cases hbuffer : 16 * 1024 * 1024 < 110 * presetCount config
  · rw [if_pos hbuffer]
    have hmany : 152520 < presetCount config := by omega
    exact ⟨fun hs => .inr ⟨hmany, hs⟩, fun hs =>
      hs.elim (fun hfew => absurd hfew.1 (by omega)) And.right⟩
  rw [if_neg hbuffer]
  have hmany : ¬152520 < presetCount config := by omega
  simp only [hmany, false_and, or_false]
  by_cases hread : presetCount config ≤ 2383
  · -- the record is read, and says of each peer what it was given
    simp only [hread, true_and]
    have hsays : ∀ p ∈ config.peers, ∀ reference ∈ p.presharedKey, ∃ was ∈ before reference,
        presetDigest (presetRecord given.presets) p.publicKey = some (wgDigest was) := by
      intro p hp reference hr
      obtain ⟨key, hg⟩ := h.exists_given hp
      obtain ⟨key, rfl⟩ : ∃ k, key = some k := by
        rw [← Option.isSome_iff_exists, (h.preset_eq hg).1, Option.mem_def.1 hr, Option.isSome_some]
      obtain ⟨was, hwas, -, hdigest⟩ := h.digest_of_given hg hr
      exact ⟨was, hwas, by rw [presetDigest_record h.nodup hg, hdigest]; rfl⟩
    have hfile : ∀ p ∈ config.peers, p.presharedKey.isSome = true →
        readRecord (if presetRecord given.presets = [] then none
          else some (presetRecord given.presets)) = some (presetRecord given.presets) := by
      intro p hp hsome
      have hcount : 0 < presetCount config := List.countP_pos_iff.2 ⟨p, hp, hsome⟩
      rw [if_neg, readRecord_some _ (zero_not_mem_presetRecord _)]
      · rw [hlength, recordMax]
        omega
      · intro hnil
        rw [hnil, List.length_nil] at hlength
        omega
    refine ⟨fun ⟨record, hrecord, p, hp, r, hr, digest, hd, text, htext, hne⟩ => ?_,
      fun ⟨p, hp, r, hr, was, hwas, text, htext, hne⟩ => ?_⟩
    · rw [Option.mem_def, hfile p hp (Option.isSome_of_mem hr), Option.some_inj] at hrecord
      subst hrecord
      obtain ⟨was, hwas, hsaid⟩ := hsays p hp r hr
      obtain rfl := Option.some.inj (hsaid.symm.trans hd)
      exact ⟨p, hp, r, hr, was, hwas, text, htext, hne⟩
    · obtain ⟨was', hwas', hsaid⟩ := hsays p hp r hr
      obtain rfl := Option.some.inj (hwas.symm.trans hwas')
      exact ⟨_, hfile p hp (Option.isSome_of_mem hr), p, hp, r, hr, _, hsaid, text, htext, hne⟩
  · simp only [hread, false_and, iff_false]
    rintro ⟨record, hrecord, -⟩
    rw [if_neg, readRecord_of_long] at hrecord
    · cases hrecord
    · rw [hlength, recordMax]
      omega
    · intro hnil
      rw [hnil, List.length_nil] at hlength
      omega

end Carried

end Reading

/-! ## What is planned -/

section Planning

variable {before now : Store} {name : String} {config : WireguardConfig} {files after : Records}
  {given : Given} {o : ObservedWireguard}

theorem Carried.currency_eq (h : Carried before config files given after) (now : Store)
    (o : ObservedWireguard) :
    (currency now config after o).keyMatches =
        currencyOf now (some config.privateKey) (digestKey given.privateKey) ∧
      (currency now config after o).peers =
        o.peers.map (presetCurrency now config after.presets) ∧
      (currency now config after o).listenPort = o.listenPort ∧
      (currency now config after o).fwmark = o.fwmark := by
  obtain ⟨record, hread, htrim⟩ := h.read_key
  unfold currency
  rw [hread]
  exact ⟨by rw [← htrim], rfl, rfl, rfl⟩

theorem digestKey_ne_nil (key : Key) : digestKey key ≠ [] := by
  intro hnil
  have hlength := length_digestKey key
  rw [hnil] at hlength
  cases hlength

theorem wgSetDevice_mem_iff {running : ObservedWireguard} :
    Op.wgSetDevice name config.privateKey.name config.listenPort config.fwmark ∈
        (wireguardActions name config running).map Planned.op ↔
      deviceDifference config running ≠ none := by
  rcases hd : deviceDifference config running with _ | d <;>
    rcases hp : peersDifference config running with _ | p <;> simp [wireguardActions, hd, hp]

/-- The device is set again exactly where its key reads differently. -/
theorem device_planned_iff (now : Store) (name : String)
    (h : Carried before config files given after)
    (hheld : HeldFrom config given o) :
    Op.wgSetDevice name config.privateKey.name config.listenPort config.fwmark ∈
        (wireguardActions name config (currency now config after o)).map Planned.op ↔
      Differs before now config.privateKey := by
  obtain ⟨hkey, -, hport, hmark⟩ := h.currency_eq now o
  obtain ⟨was, hwas, hparse⟩ := Option.bind_eq_some_iff.1 h.privateKey
  have hmatches : (currency now config after o).keyMatches = some false ↔
      Differs before now config.privateKey := by
    rw [hkey, currencyOf_eq_false (digestKey_ne_nil _)]
    refine ⟨fun ⟨r, hr, text, htext, hne⟩ => ?_, fun ⟨was', hwas', text, htext, hne⟩ => ?_⟩
    · obtain rfl := Option.some.inj hr
      exact ⟨was, hwas, text, htext, by rwa [wgDigest_of_keyOf hparse]⟩
    · obtain rfl := Option.some.inj (hwas.symm.trans hwas')
      exact ⟨_, rfl, text, htext, by rwa [wgDigest_of_keyOf hparse] at hne⟩
  rw [wgSetDevice_mem_iff, ← hmatches, deviceDifference, hport, hmark, hheld.listenPort,
    hheld.fwmark]
  by_cases hfalse : (currency now config after o).keyMatches = some false <;> simp [hfalse]

theorem presetDigest_ne_nil {record digest : Bytes} {key : Key}
    (h : presetDigest record key = some digest) : digest ≠ [] := by
  rw [presetDigest, Option.filter_eq_some_iff] at h
  exact of_decide_eq_true h.2

/-- What is answered of a peer nothing was said of : the record names a digest for it, and the store
holds another. -/
theorem presetCurrency_eq_false {p : WgPeer} {q : ObservedWgPeer} (hp : p ∈ config.peers)
    (hkey : q.publicKey = p.publicKey) (hnone : q.presharedMatches = none) :
    (presetCurrency now config after.presets q).presharedMatches = some false ↔
      q.presharedKey = true ∧ ∃ record ∈ readRecord after.presets, ∃ reference ∈ p.presharedKey,
        ∃ digest ∈ presetDigest record p.publicKey, ∃ text ∈ now reference,
          wgDigest text ≠ digest := by
  unfold presetCurrency
  cases hread : readRecord after.presets with
  | none => simp [hnone]
  | some record =>
    simp only [presetMatches, Option.mem_some_iff, exists_eq_left']
    by_cases hreported : q.presharedKey = true
    · rw [if_pos hreported, hkey]
      cases hdigest : presetDigest record p.publicKey with
      | none => simp [hnone]
      | some digest =>
        simp only [hreported, Option.mem_some_iff, exists_eq_left', true_and]
        rw [peerPreshared_eq hp, currencyOf_eq_false (presetDigest_ne_nil hdigest)]
    · simp [hreported, hnone]

theorem Carried.reported_of_not_zero (h : Carried before config files given after)
    (hzero : ¬ZeroPreset before config) {p : WgPeer} {key : Option Key}
    (hg : (p, key) ∈ given.presets) : reported key = p.presharedKey.isSome := by
  rw [← (h.preset_eq hg).1]
  cases key with
  | none => rfl
  | some key =>
    have hsome : p.presharedKey.isSome = true := (h.preset_eq hg).1.symm
    obtain ⟨reference, hr⟩ := Option.isSome_iff_exists.1 hsome
    obtain ⟨was, hwas, hparse, -⟩ := h.digest_of_given hg hr
    refine decide_eq_true fun hkey => hzero ⟨p, h.mem_peers hg, reference, hr, was, hwas, ?_⟩
    rw [hparse, hkey]

theorem wantedPeers_eq_of_carried (h : Carried before config files given after)
    (hheld : HeldFrom config given o) :
    wantedPeers config = runningPeers (currency now config after o) ↔
      ¬ZeroPreset before config := by
  obtain ⟨-, hpeers, -, -⟩ := h.currency_eq now o
  have hcompare : ∀ g ∈ given.presets, ∀ q, ReportedAs g q →
      (g.1.comparable = (presetCurrency now config after.presets q).comparable ↔
        g.1.presharedKey.isSome = reported g.2) := by
    intro g _ q hq
    rw [presetCurrency_comparable]
    simp [WgPeer.comparable, ObservedWgPeer.comparable, hq.publicKey, hq.presharedKey,
      hq.keepalive, hq.allowedIps]
  rw [wantedPeers_eq_iff, Matched, hpeers]
  refine ⟨fun hall hzero => ?_, fun hzero => ⟨fun p hp => ?_, fun q' hq' => ?_⟩⟩
  · obtain ⟨p, hp, reference, hr, text, htext, hparse⟩ := hzero
    obtain ⟨key, hg⟩ := h.exists_given hp
    have hkey : key = some 0 := by
      rw [← (h.preset_eq hg).2 reference hr, keyFrom, Option.mem_def.1 htext, Option.bind_some,
        hparse]
    obtain ⟨_, hmem, heq⟩ := hall.1 p hp
    obtain ⟨q, hq, rfl⟩ := List.mem_map.1 hmem
    obtain ⟨g, hgq, hreported⟩ := hheld.peers q hq
    rw [presetCurrency_comparable] at heq
    have hsame : g = (p, key) := by
      have hpk : g.1.publicKey = p.publicKey :=
        hreported.publicKey.symm.trans (congrArg WgComparable.publicKey heq).symm
      exact List.inj_on_of_nodup_map h.nodup hgq hg hpk
    subst hsame
    have hflag := (hcompare _ hgq q hreported).1 (heq.trans (presetCurrency_comparable ..).symm)
    rw [Option.isSome_of_mem hr, hkey] at hflag
    exact absurd hflag (by simp [reported])
  · obtain ⟨key, hg⟩ := h.exists_given hp
    obtain ⟨q, hq, hreported⟩ := hheld.held _ hg
    exact ⟨_, List.mem_map_of_mem hq,
      (hcompare _ hg q hreported).2 (h.reported_of_not_zero hzero hg).symm⟩
  · obtain ⟨q, hq, rfl⟩ := List.mem_map.1 hq'
    obtain ⟨g, hg, hreported⟩ := hheld.peers q hq
    exact ⟨g.1, h.mem_peers hg,
      (hcompare g hg q hreported).2 (h.reported_of_not_zero hzero hg).symm⟩

/-- The peers are set again exactly where a key was zero or the record is stale. -/
theorem peers_planned_iff (now : Store) (name : String)
    (h : Carried before config files given after)
    (hheld : HeldFrom config given o) :
    Op.wgSetPeers name ∈
        (wireguardActions name config (currency now config after o)).map Planned.op ↔
      ZeroPreset before config ∨ Stale now config after.presets := by
  obtain ⟨-, hpeers, -, -⟩ := h.currency_eq now o
  rw [wgSetPeers_mem_iff, Ne, peersDifference_eq_none_iff, wantedPeers_eq_of_carried h hheld,
    hpeers]
  by_cases hzero : ZeroPreset before config
  · simp [hzero]
  simp only [hzero, not_false_eq_true, and_true, false_or]
  rw [not_forall]
  refine ⟨fun ⟨q, hq⟩ => ?_, fun ⟨record, hrecord, p, hp, r, hr, hrest⟩ => ?_⟩
  · rw [Classical.not_imp, not_not] at hq
    obtain ⟨hmem, hfalse⟩ := hq
    obtain ⟨q, hq, rfl⟩ := List.mem_map.1 hmem
    obtain ⟨⟨p, key⟩, hg, hreported⟩ := hheld.peers q hq
    obtain ⟨-, record, hrecord, r, hr, hrest⟩ := (presetCurrency_eq_false (h.mem_peers hg)
      hreported.publicKey hreported.presharedMatches).1 hfalse
    exact ⟨record, hrecord, p, h.mem_peers hg, r, hr, hrest⟩
  · obtain ⟨key, hg⟩ := h.exists_given hp
    obtain ⟨q, hq, hreported⟩ := hheld.held _ hg
    have hflag : q.presharedKey = true := by
      rw [hreported.presharedKey, h.reported_of_not_zero hzero hg, Option.isSome_of_mem hr]
    refine ⟨presetCurrency now config after.presets q, ?_⟩
    rw [Classical.not_imp, not_not]
    exact ⟨List.mem_map_of_mem hq, (presetCurrency_eq_false hp hreported.publicKey
      hreported.presharedMatches).2 ⟨hflag, record, hrecord, r, hr, hrest⟩⟩

def Carried.held (h : Carried before config files given after) : ObservedWireguard where
  listenPort := withoutZero config.listenPort
  fwmark := withoutZero config.fwmark
  keyMatches := none
  peers := given.presets.map fun g =>
    { publicKey := g.1.publicKey
      presharedKey := reported g.2
      allowedIps := g.1.allowedIps.map AllowedIp.text
      keepalive := withoutZero g.1.keepalive
      presharedMatches := none }
  keys := by
    rw [List.map_map]
    exact h.nodup

theorem Carried.heldFrom_held (h : Carried before config files given after) :
    HeldFrom config given h.held := by
  refine ⟨by simp [deviceDiffers, held], by simp [deviceDiffers, held], rfl, fun g hg => ?_,
    fun q hq => ?_⟩
  · exact ⟨_, List.mem_map_of_mem hg, rfl, rfl, rfl, rfl, rfl⟩
  · obtain ⟨g, hg, rfl⟩ := List.mem_map.1 hq
    exact ⟨g, hg, rfl, rfl, rfl, rfl, rfl⟩

end Planning

/-! ## A hub -/

theorem mapM_eq_some_map {α β : Type*} {f : α → Option β} {g : α → β} : ∀ {l : List α},
    (∀ a ∈ l, f a = some (g a)) → l.mapM f = some (l.map g)
  | [], _ => rfl
  | a :: l, h => by
    rw [List.forall_mem_cons] at h
    rw [List.mapM_cons, h.1, mapM_eq_some_map h.2]
    rfl

def hubAddress (i : ℕ) : Address where
  ip := .v4 ⟨[10, i / 65536 % 256, i / 256 % 256, i % 256], rfl, by
    intro n hn
    simp only [List.mem_cons, List.not_mem_nil, or_false] at hn
    omega⟩
  length := some 32
  length_le := by
    intro n hn
    rw [← Option.some.inj hn]
    exact le_rfl

/-- A peer of a hub, with the preshared key that all of them have. -/
def hubPeer (i : ℕ) : WgPeer where
  name := toString i
  publicKey := Fin.ofNat _ (i + 1)
  presharedKey := some ⟨.file, "psk"⟩
  endpoint := none
  allowedIps := [⟨(hubAddress i).render, by rw [isPrefix, Address.parse_render]; rfl⟩]
  keepalive := none
  routed := List.cons_ne_nil _ _

def hub (n : ℕ) (hn : n < 2 ^ 32) : WireguardConfig where
  privateKey := ⟨.file, "key"⟩
  listenPort := some 51820
  fwmark := none
  peers := (List.range n).map hubPeer
  keys := by
    rw [List.map_map]
    refine List.Nodup.map_on (fun i hi j hj h => ?_) List.nodup_range
    have hval := congrArg Fin.val h
    simp only [Function.comp_apply, hubPeer, Fin.val_ofNat] at hval
    have hi := List.mem_range.1 hi
    have hj := List.mem_range.1 hj
    rw [Nat.mod_eq_of_lt (by omega), Nat.mod_eq_of_lt (by omega)] at hval
    omega

/-- A store that holds one key for the device and another for its peers. -/
def holding (key preset : Key) : Store := fun reference =>
  some (asciis (keyRender (if reference.name = "key" then key else preset)))

section Hub

variable {n : ℕ} {hn : n < 2 ^ 32}

theorem keyFrom_holding (key preset : Key) (reference : SecretRef) :
    keyFrom (holding key preset) reference =
      some (if reference.name = "key" then key else preset) := by
  rw [keyFrom, holding, Option.bind_some, keyOf_keyRender]

theorem presetCount_hub : presetCount (hub n hn) = n := by
  have hall : (List.range n).countP ((fun p : WgPeer => p.presharedKey.isSome) ∘ hubPeer) =
      (List.range n).length := List.countP_eq_length.2 fun _ _ => rfl
  rw [presetCount, hub, List.countP_map, hall, List.length_range]

theorem hub_carried (hn : n < 2 ^ 32) (key preset : Key) : ∃ given after,
    carryOut (holding key preset) (hub n hn) ⟨none, none⟩ = some (given, after) := by
  have hpeers : (hub n hn).peers.mapM (material (holding key preset)) =
      some ((hub n hn).peers.map fun p => (p, some preset)) := by
    refine mapM_eq_some_map fun p hp => ?_
    obtain ⟨i, -, rfl⟩ := List.mem_map.1 hp
    have hkey : keyFrom (holding key preset) ⟨.file, "psk"⟩ = some preset :=
      keyFrom_holding key preset _
    exact congrArg (Option.map fun key => (hubPeer i, some key)) hkey
  rw [carryOut, keyFrom_holding, hpeers]
  exact ⟨_, _, rfl⟩

theorem hub_rotated {key preset preset' : Key} (hne : preset' ≠ preset) (hpos : 0 < n) :
    SomePreset (hub n hn) (Rotated (holding key preset) (holding key preset')) := by
  refine ⟨hubPeer 0, List.mem_map_of_mem (List.mem_range.2 hpos), ⟨.file, "psk"⟩, rfl,
    asciis (keyRender preset), rfl, asciis (keyRender preset'), rfl, fun heq => ?_⟩
  rw [octetsOf_of_keyOf (keyOf_keyRender preset'), octetsOf_of_keyOf (keyOf_keyRender preset)]
    at heq
  exact hne (keyOctets_injective heq)

theorem hub_not_zero {key preset : Key} (hpreset : preset ≠ 0) :
    ¬ZeroPreset (holding key preset) (hub n hn) := by
  rintro ⟨p, hp, reference, hr, text, htext, hzero⟩
  obtain ⟨i, -, rfl⟩ := List.mem_map.1 hp
  obtain rfl := Option.some.inj hr
  obtain rfl := Option.some.inj htext
  exact hpreset (Option.some.inj ((keyOf_keyRender preset).symm.trans hzero))

end Hub

/-! ## Noticing -/

/-- Over any two stores, a device that holds what it was given from the first is planned for with
the second exactly where a key was rotated, if and only if the rotation is noticeable. -/
theorem rotation_noticed_iff (before now : Store) (name : String) (config : WireguardConfig)
    (files after : Records) (given : Given) (o : ObservedWireguard)
    (hcarried : carryOut before config files = some (given, after))
    (hheld : HeldFrom config given o) :
    Notices before now name config
        ((wireguardActions name config (currency now config after o)).map Planned.op) ↔
      Noticeable before now config files.presets := by
  have h := carried_of_carryOut hcarried
  have hdevice := device_planned_iff now name h hheld
  have hpeers := peers_planned_iff now name h hheld
  rw [h.stale_after] at hpeers
  have hrotated : SomePreset config (Differs before now) → SomePreset config (Rotated before now) :=
    fun hdiffers => hdiffers.imp fun _ => Differs.rotated
  constructor
  · rintro ⟨hd, hp⟩
    rw [hdevice] at hd
    rw [hpeers] at hp
    refine ⟨hd.2, hp.2, fun hno => ?_⟩
    exact ⟨fun hzero => hno (hp.1 (.inl hzero)), fun hstale => hno (hp.1 (.inr (.inr hstale)))⟩
  · rintro ⟨hd, hyes, hno⟩
    refine ⟨hdevice.trans ⟨Differs.rotated, hd⟩, hpeers.trans ⟨fun hplanned => ?_, hyes⟩⟩
    by_contra hsame
    rcases hplanned with hzero | ⟨-, hdiffers⟩ | hstale
    · exact (hno hsame).1 hzero
    · exact hsame (hrotated hdiffers)
    · exact (hno hsame).2 hstale

/-- The rotated preshared key of the three peers of a hub is noticed. -/
theorem small_hub_noticed : ∃ given after o,
    carryOut (holding 3 1) (hub 3 (by decide)) ⟨none, none⟩ = some (given, after) ∧
      HeldFrom (hub 3 (by decide)) given o ∧
      SomePreset (hub 3 (by decide)) (Rotated (holding 3 1) (holding 3 2)) ∧
      Notices (holding 3 1) (holding 3 2) "wg0" (hub 3 (by decide))
        ((wireguardActions "wg0" (hub 3 (by decide))
          (currency (holding 3 2) (hub 3 (by decide)) after o)).map Planned.op) := by
  obtain ⟨given, after, hcarried⟩ : ∃ given after,
      carryOut (holding 3 1) (hub 3 (by decide)) ⟨none, none⟩ = some (given, after) :=
    hub_carried (by decide) 3 1
  have hheld := (carried_of_carryOut hcarried).heldFrom_held
  have hrotated : SomePreset (hub 3 (by decide)) (Rotated (holding 3 1) (holding 3 2)) :=
    hub_rotated (by decide) (by decide)
  refine ⟨given, after, _, hcarried, hheld, hrotated,
    (rotation_noticed_iff _ _ "wg0" _ ⟨none, none⟩ after given _ hcarried hheld).2 ⟨?_, ?_, ?_⟩⟩
  · rintro ⟨was, hwas, text, htext, hne⟩
    exact absurd (congrArg octetsOf (Option.some.inj (htext.symm.trans hwas))) hne
  · refine fun _ => .inr (.inl ⟨by rw [presetCount_hub]; decide, hubPeer 0,
      List.mem_map_of_mem (List.mem_range.2 (by decide)), ⟨.file, "psk"⟩, rfl,
      asciis (keyRender 1), rfl, asciis (keyRender 2), rfl, ?_⟩)
    rw [wgDigest_of_keyOf (keyOf_keyRender 2), wgDigest_of_keyOf (keyOf_keyRender 1)]
    decide +kernel
  · exact fun hsame => absurd hrotated hsame

/-- The preshared key of the 2384 peers of a hub is rotated, and the plan does not set them. -/
theorem hub_not_noticed : ∃ given after o,
    carryOut (holding 3 1) (hub 2384 (by decide)) ⟨none, none⟩ = some (given, after) ∧
      HeldFrom (hub 2384 (by decide)) given o ∧
      ¬Notices (holding 3 1) (holding 3 2) "wg0" (hub 2384 (by decide))
        ((wireguardActions "wg0" (hub 2384 (by decide))
          (currency (holding 3 2) (hub 2384 (by decide)) after o)).map Planned.op) := by
  obtain ⟨given, after, hcarried⟩ : ∃ given after,
      carryOut (holding 3 1) (hub 2384 (by decide)) ⟨none, none⟩ = some (given, after) :=
    hub_carried (by decide) 3 1
  have h := carried_of_carryOut hcarried
  refine ⟨given, after, h.held, hcarried, h.heldFrom_held, fun hnotices => ?_⟩
  have hplanned := hnotices.peers.2 (hub_rotated (by decide) (by decide))
  rw [peers_planned_iff _ _ h h.heldFrom_held, h.stale_after, presetCount_hub] at hplanned
  rcases hplanned with hzero | ⟨hfew, -⟩ | ⟨hmany, -⟩
  · exact hub_not_zero (by decide) hzero
  · exact absurd hfew (by decide)
  · exact absurd hmany (by decide)

end Netcfgd.KeyRecord
