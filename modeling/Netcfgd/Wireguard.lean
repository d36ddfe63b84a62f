import Mathlib.Data.List.Sort
import Netcfgd.Address
import Netcfgd.Lower

/-!
# Planning WireGuard

`lower_wireguard` of `lower_kind.c` makes a `WireguardConfig` of a `wireguard` block, and
`ncfg_plan_wireguard` of `wireguard.c` (`wireguardActions`) compares it with what the kernel
reports. Both peer lists are brought to one form, with prefixes in the canonical spelling and
everything sorted, and a plan is made where the two forms differ.

The kernel does not keep the prefixes as they are spelled : it clears the host bits of each, and
gives a prefix that two peers name to the later one (`setPeers`). The planner's form does
neither, so planning settles exactly for the configurations on which the kernel has nothing to
do (`converges_iff`), and a peer with `10.0.0.1/24` is configured again on every pass
(`host_bits_not_settled`).
-/

namespace Netcfgd

namespace Wireguard

open Compile

/-! ## Keys -/

/-- The 32 octets of a Curve25519 key, as one number. `memcmp` is its order. -/
abbrev Key := Fin (2 ^ 256)

/-- `base64_alphabet`. -/
def base64Alphabet : List Char :=
  "ABCDEFGHIJKLMNOPQRSTUVWXYZabcdefghijklmnopqrstuvwxyz0123456789+/".toList

/-- `base64_value`. -/
def base64Value (c : Char) : Option ℕ :=
  if c ∈ base64Alphabet then some (base64Alphabet.idxOf c) else none

/-- `ncfg_key_parse`. The low two bits of the last digit are not decoded. -/
def keyParse (text : String) : Except String Key :=
  if text.utf8ByteSize ≠ 44 ∨ text.toList.getLast? ≠ some '=' then
    .error ("a key is 44 characters of base64 ending in `=`, and this one is " ++
      toString text.utf8ByteSize)
  else
    let digits := text.toList.dropLast
    match digits.find? fun c => (base64Value c).isNone with
    | some c => .error s!"a key is base64, and `{c}` is not"
    | none => .ok (Fin.ofNat _ ((digits.filterMap base64Value).foldl (· * 64 + ·) 0 / 4))

/-- `ncfg_key_render`. -/
def keyRender (key : Key) : String :=
  let digits := (List.range 43).map fun i => key.val * 4 / 64 ^ (42 - i) % 64
  String.ofList (digits.filterMap (base64Alphabet[·]?) ++ ['='])

/-! ## The configuration -/

/-- `ncfg_is_prefix`. -/
def isPrefix (text : String) : Bool :=
  (Address.parse text).any fun a => a.length.isSome

/-- An entry of `allowed_ips`, as it was written. -/
structure AllowedIp where
  text : String
  accepted : isPrefix text
  deriving DecidableEq

def AllowedIp.address (ip : AllowedIp) : Address :=
  (Address.parse ip.text).get (Option.isSome_of_any ip.accepted)

/-- `ncfg_wg_peer_t`. -/
structure WgPeer where
  name : String
  publicKey : Key
  presharedKey : Option SecretRef
  endpoint : Option String
  allowedIps : List AllowedIp
  keepalive : Option ℤ
  routed : allowedIps ≠ []
  deriving DecidableEq

/-- `ncfg_wireguard_config_t`. -/
structure WireguardConfig where
  privateKey : SecretRef
  listenPort : Option ℤ
  fwmark : Option ℤ
  peers : List WgPeer
  keys : (peers.map WgPeer.publicKey).Nodup
  deriving DecidableEq

/-! ## Lowering -/

section Lowering

variable {α : Type*}

/-- `ncfg_as_narrow_opt` : a number above the bound is dropped with nothing said. -/
def takeNarrow (a : α) (v : Value) (high : ℤ) (set : ℤ → α) : α × List String :=
  match asU32 v with
  | .error why => (a, [why])
  | .ok n => if high < n then (a, []) else (set n, [])

/-- The words of `allowed_ips` that are prefixes, and what is wrong with the others. -/
def allowedOf (words : List String) : List AllowedIp × List String :=
  (words.filterMap fun w => if h : isPrefix w then some ⟨w, h⟩ else none,
    words.filterMap fun w => if isPrefix w then none else some s!"`{w}` is not a CIDR prefix")

/-- What the assignments of a `peer` have said so far. -/
structure PeerKeys where
  publicKey : Option Key
  presharedKey : Option SecretRef
  endpoint : Option String
  allowedIps : List AllowedIp
  keepalive : Option ℤ

/-- One assignment of a `peer`. -/
def peerKey (k : PeerKeys) (key : String) (v : Value) : PeerKeys × List String :=
  if key = "public_key" then
    match asString v with
    | .error why => (k, [why])
    | .ok text =>
      match keyParse text with
      | .ok parsed => ({ k with publicKey := some parsed }, [])
      | .error why => (k, [s!"`{text}` is not a public key: {why}"])
  else if key = "preshared_key" then take k (asSecret v) fun s => { k with presharedKey := some s }
  else if key = "endpoint" then takeOrClear (asString v) fun e => { k with endpoint := e }
  else if key = "allowed_ips" then
    let (words, wrong) := asWords v
    let (ips, wrong') := allowedOf words
    ({ k with allowedIps := ips }, wrong ++ wrong')
  else if key = "keepalive" then takeNarrow k v 65535 fun n => { k with keepalive := some n }
  else (k, [s!"unknown peer key `{key}`"])

/-- `lower_wg_peer`. -/
def lowerWgPeer (label : Option String) (items : List Item) : Option WgPeer × List String :=
  match label with
  | none => (none, ["`peer` needs a name"])
  | some name =>
    let (k, wrong) := overAssignments peerKey ⟨none, none, none, [], none⟩ items
    match k.publicKey with
    | none => (none, wrong ++ [s!"peer `{name}` needs a `public_key`"])
    | some publicKey =>
      if h : k.allowedIps = [] then
        (none, wrong ++ [s!"peer `{name}` has no `allowed_ips`, so nothing would route to it: " ++
          "`allowed_ips = \"0.0.0.0/0\"` sends everything; a prefix sends some"])
      else (some ⟨name, publicKey, k.presharedKey, k.endpoint, k.allowedIps, k.keepalive, h⟩, wrong)

/-- What the items of a `wireguard` block have said so far. -/
structure DeviceKeys where
  privateKey : Option SecretRef
  listenPort : Option ℤ
  fwmark : Option ℤ
  peers : List WgPeer

/-- One item of a `wireguard` block. -/
def deviceKey (k : DeviceKeys) : Item → DeviceKeys × List String
  | .assignment key v =>
    if key = "private_key" then take k (asSecret v) fun s => { k with privateKey := some s }
    else if key = "listen_port" then takeNarrow k v 65535 fun n => { k with listenPort := some n }
    else if key = "fwmark" then take k (asU32 v) fun n => { k with fwmark := some n }
    else (k, [s!"unknown wireguard key `{key}`"])
  | .block head label _ items =>
    if head = "peer" then
      let (peer, wrong) := lowerWgPeer label items
      ({ k with peers := k.peers ++ peer.toList }, wrong)
    else (k, [s!"`{head}` is not valid inside `wireguard`"])
  | _ => (k, [])

def sharedKey : List WgPeer → List Key → Option WgPeer
  | [], _ => none
  | p :: ps, seen => if p.publicKey ∈ seen then some p else sharedKey ps (p.publicKey :: seen)

theorem nodup_of_sharedKey : ∀ (ps : List WgPeer) (seen : List Key), sharedKey ps seen = none →
    (ps.map WgPeer.publicKey).Nodup ∧ ∀ p ∈ ps, p.publicKey ∉ seen
  | [], _, _ => by simp
  | p :: ps, seen, h => by
    unfold sharedKey at h
    split_ifs at h with hmem
    obtain ⟨hnodup, hnew⟩ := nodup_of_sharedKey ps (p.publicKey :: seen) h
    refine ⟨List.nodup_cons.2 ⟨?_, hnodup⟩, ?_⟩
    · rintro hp
      obtain ⟨q, hq, heq⟩ := List.mem_map.1 hp
      exact hnew q hq (heq ▸ List.mem_cons_self)
    · intro q hq
      rcases List.mem_cons.1 hq with rfl | hq
      · exact hmem
      · exact fun hseen => hnew q hq (List.mem_cons_of_mem _ hseen)

/-- `lower_wireguard`. -/
def lowerWireguard (items : List Item) : Option WireguardConfig × List String :=
  let (k, wrong) := overItems deviceKey ⟨none, none, none, []⟩ items
  match k.privateKey with
  | none => (none, wrong ++ ["a wireguard device needs a `private_key`: `private_key = " ++
      "\"@secret:NAME\"`; `wg genkey` produces one and it never belongs in the config"])
  | some privateKey =>
    match h : sharedKey k.peers [] with
    | some p => (none, wrong ++ [s!"two peers share the public key of `{p.name}`: a public key " ++
        "is a peer's identity; merge the two blocks"])
    | none =>
      (some ⟨privateKey, k.listenPort, k.fwmark, k.peers, (nodup_of_sharedKey _ _ h).1⟩, wrong)

end Lowering

def WgPeer.canonicalize (p : WgPeer) : WgPeer :=
  { p with
    allowedIps := p.allowedIps.insertionSort fun a b => a.text ≤ b.text
    routed := fun h => p.routed (h ▸ List.perm_insertionSort _ p.allowedIps).nil_eq.symm }

/-- The part of `ncfg_document_canonicalize` for a wireguard device : peers by their name. -/
def WireguardConfig.canonicalize (c : WireguardConfig) : WireguardConfig :=
  { c with
    peers := (c.peers.map WgPeer.canonicalize).insertionSort fun a b => a.name ≤ b.name
    keys := by
      refine (((List.perm_insertionSort _ _).map _).nodup_iff).2 ?_
      rw [List.map_map]
      exact c.keys }

/-! ## Planning -/

/-- `ncfg_observed_wg_peer_t`, as the observer fills it. -/
structure ObservedWgPeer where
  publicKey : Key
  presharedKey : Bool
  allowedIps : List String
  keepalive : Option ℤ
  /-- Whether the preshared key is the secret store's, where that could be told. -/
  presharedMatches : Option Bool
  deriving DecidableEq

/-- `ncfg_observed_wireguard_t`. -/
structure ObservedWireguard where
  listenPort : Option ℤ
  fwmark : Option ℤ
  keyMatches : Option Bool
  peers : List ObservedWgPeer
  keys : (peers.map ObservedWgPeer.publicKey).Nodup
  deriving DecidableEq

/-- `ncfg_wg_comparable_t` : a peer with everything the comparison does not own taken out. -/
structure WgComparable where
  publicKey : Key
  presharedKey : Bool
  allowedIps : List String
  keepalive : Option ℤ
  deriving DecidableEq

/-- The canonical spelling of a prefix, and the text where it does not parse. -/
def spelled (text : String) : String :=
  (Address.canonical text).getD text

/-- `fill_prefixes`. -/
def fillPrefixes (prefixes : List String) : List String :=
  (prefixes.map spelled).insertionSort (· ≤ ·)

/-- `without_zero`. -/
def withoutZero (value : Option ℤ) : Option ℤ :=
  value.filter (· ≠ 0)

/-- A configured peer as the planner compares it. -/
def WgPeer.comparable (p : WgPeer) : WgComparable where
  publicKey := p.publicKey
  presharedKey := p.presharedKey.isSome
  allowedIps := fillPrefixes (p.allowedIps.map AllowedIp.text)
  keepalive := withoutZero p.keepalive

/-- A running peer as the planner compares it. -/
def ObservedWgPeer.comparable (o : ObservedWgPeer) : WgComparable where
  publicKey := o.publicKey
  presharedKey := o.presharedKey
  allowedIps := fillPrefixes o.allowedIps
  keepalive := o.keepalive

def sortPeers (peers : List WgComparable) : List WgComparable :=
  peers.insertionSort fun a b => a.publicKey ≤ b.publicKey

/-- `wanted_peers`. -/
def wantedPeers (config : WireguardConfig) : List WgComparable :=
  sortPeers (config.peers.map WgPeer.comparable)

/-- `running_peers`. -/
def runningPeers (running : ObservedWireguard) : List WgComparable :=
  sortPeers (running.peers.map ObservedWgPeer.comparable)

/-- `render_peers`. -/
def renderPeers (peers : List WgComparable) : String :=
  if peers = [] then "<none>" else " ".intercalate (peers.map fun p => keyRender p.publicKey)

/-- `device_differs` : a value the document does not state is the kernel's to choose. -/
def deviceDiffers (desired seen : Option ℤ) : Bool :=
  desired.isSome && desired != seen

/-- `rendered`. -/
def rendered (value : Option ℤ) : String :=
  (value.map toString).getD "<absent>"

/-- The first setting of the device that differs : the field, what is desired and what was
observed. -/
def deviceDifference (config : WireguardConfig) (running : ObservedWireguard) :
    Option (String × String × String) :=
  if deviceDiffers (withoutZero config.listenPort) running.listenPort then
    some ("wireguard.listen_port", rendered (withoutZero config.listenPort),
      rendered running.listenPort)
  else if deviceDiffers (withoutZero config.fwmark) running.fwmark then
    some ("wireguard.fwmark", rendered (withoutZero config.fwmark), rendered running.fwmark)
  else if running.keyMatches = some false then
    some ("wireguard.private_key", "the secret store's", "the one the device was given")
  else none

/-- What `ncfg_plan_wireguard` gives as the difference between the peers : a rotated preshared
key, and else the two lists. -/
def peersDifference (config : WireguardConfig) (running : ObservedWireguard) :
    Option (String × String × String) :=
  match running.peers.find? fun o => o.presharedMatches = some false with
  | some rotated =>
    some ("wireguard.peers.preshared_key", "the secret store's",
      s!"the one {keyRender rotated.publicKey} was given")
  | none =>
    if wantedPeers config = runningPeers running then none
    else some ("wireguard.peers", renderPeers (wantedPeers config),
      renderPeers (runningPeers running))

/-- `ncfg_plan_reason_differs`, of a named interface. -/
def differs (name : String) (difference : String × String × String) : Reason :=
  ⟨some name, difference.1, difference.2.1, difference.2.2⟩

/-- `ncfg_plan_wireguard` : what it asks the builder for, on a device the kernel holds as
WireGuard. -/
def wireguardActions (name : String) (config : WireguardConfig) (running : ObservedWireguard) :
    List Planned :=
  ((deviceDifference config running).map fun difference =>
      { op := .wgSetDevice name config.privateKey.name config.listenPort config.fwmark
        reason := differs name difference
        inverse := some (.wgSetDevice name config.privateKey.name running.listenPort
          running.fwmark) }).toList ++
    ((peersDifference config running).map fun difference =>
      { op := .wgSetPeers name
        reason := differs name difference
        inverse := none }).toList

/-! ## What the kernel keeps -/

/-- The prefixes the kernel holds, each with the peer it belongs to. -/
abbrev AllowedTable := List (Address × Key)

def allow (table : AllowedTable) (entry : Address × Key) : AllowedTable :=
  table.filter (·.1 ≠ entry.1) ++ [entry]

/-- The prefixes of a peer with their host bits cleared, as the kernel is given them. -/
def WgPeer.entries (p : WgPeer) : AllowedTable :=
  p.allowedIps.map fun ip => (ip.address.masked, p.publicKey)

/-- The table after `wg.set_peers` : every prefix of every peer in turn. -/
def setPeers (peers : List WgPeer) : AllowedTable :=
  (peers.flatMap WgPeer.entries).foldl allow []

/-- The addresses the kernel routes to a peer. -/
def ownedBy (table : AllowedTable) (key : Key) : List Address :=
  (table.filter (·.2 = key)).map Prod.fst

/-- A peer of the kernel is what `wg.set_peers` asked it to be. The kernel lists the prefixes
in its own order. -/
structure HeldAs (table : AllowedTable) (p : WgPeer) (o : ObservedWgPeer) : Prop where
  publicKey : o.publicKey = p.publicKey
  presharedKey : o.presharedKey = p.presharedKey.isSome
  presharedMatches : o.presharedMatches ≠ some false
  keepalive : o.keepalive = withoutZero p.keepalive
  allowedIps : o.allowedIps.Perm ((ownedBy table p.publicKey).map Address.render)

/-- Peers that stand one for another, both ways. -/
def Matched (R : WgPeer → ObservedWgPeer → Prop) (config : WireguardConfig)
    (running : ObservedWireguard) : Prop :=
  (∀ p ∈ config.peers, ∃ o ∈ running.peers, R p o) ∧
    ∀ o ∈ running.peers, ∃ p ∈ config.peers, R p o

/-- The kernel holds exactly what `wg.set_device` and `wg.set_peers` ask of it. -/
structure Holds (config : WireguardConfig) (running : ObservedWireguard) : Prop where
  listenPort : ∀ n, withoutZero config.listenPort = some n → running.listenPort = some n
  fwmark : ∀ n, withoutZero config.fwmark = some n → running.fwmark = some n
  privateKey : running.keyMatches ≠ some false
  peers : Matched (HeldAs (setPeers config.peers)) config running

def WgPeer.networks (p : WgPeer) : List Address :=
  p.allowedIps.map fun ip => ip.address.masked

def ObservedWgPeer.networks (o : ObservedWgPeer) : List Address :=
  (o.allowedIps.filterMap Address.parse).map Address.masked

/-- Two peers agree in key, presence of a preshared key, keepalive and networks. -/
structure SamePeer (p : WgPeer) (o : ObservedWgPeer) : Prop where
  publicKey : o.publicKey = p.publicKey
  presharedKey : o.presharedKey = p.presharedKey.isSome
  keepalive : o.keepalive = withoutZero p.keepalive
  networks : ∀ a, a ∈ p.networks ↔ a ∈ o.networks

/-- Planning settles on what it asked for, and notices every peer that is not so. -/
structure Converges (name : String) (config : WireguardConfig) : Prop where
  settled : ∀ running, Holds config running → wireguardActions name config running = []
  noticed : ∀ running, ¬Matched SamePeer config running →
    Op.wgSetPeers name ∈ (wireguardActions name config running).map Planned.op

/-- No prefix has host bits, and none is named twice. -/
structure Plain (config : WireguardConfig) : Prop where
  masked : ∀ p ∈ config.peers, ∀ ip ∈ p.allowedIps, ip.address.masked = ip.address
  once : (config.peers.flatMap fun p => p.allowedIps.map AllowedIp.address).Nodup

/-! ## Comparing spellings -/

theorem AllowedIp.parse_text (ip : AllowedIp) : Address.parse ip.text = some ip.address :=
  (Option.some_get _).symm

theorem AllowedIp.spelled_text (ip : AllowedIp) : spelled ip.text = ip.address.render := by
  simp [spelled, Address.canonical, ip.parse_text]

theorem spelled_render (a : Address) : spelled a.render = a.render := by
  simp [spelled, Address.canonical, Address.parse_render]

theorem parse_spelled (text : String) : Address.parse (spelled text) = Address.parse text := by
  rcases h : Address.parse text with _ | a
  · simp [spelled, Address.canonical, h]
  · simp [spelled, Address.canonical, h, Address.parse_render]

theorem render_injective : Function.Injective Address.render := fun a b h =>
  Option.some_inj.1 (by rw [← Address.parse_render a, h, Address.parse_render])

theorem fillPrefixes_eq_iff {l l' : List String} :
    fillPrefixes l = fillPrefixes l' ↔ (l.map spelled).Perm (l'.map spelled) := by
  refine ⟨fun h => ?_, fun h => ?_⟩
  · have hl := List.perm_insertionSort (· ≤ ·) (l.map spelled)
    have hl' := List.perm_insertionSort (· ≤ ·) (l'.map spelled)
    rw [fillPrefixes, fillPrefixes] at h
    exact hl.symm.trans (h ▸ hl')
  · refine List.Perm.eq_of_pairwise' (List.pairwise_insertionSort (· ≤ ·) _)
      (List.pairwise_insertionSort (· ≤ ·) _) ?_
    exact (List.perm_insertionSort _ _).trans (h.trans (List.perm_insertionSort _ _).symm)

theorem sortPeers_eq_iff {l l' : List WgComparable}
    (h : (l.map WgComparable.publicKey).Nodup) : sortPeers l = sortPeers l' ↔ l.Perm l' := by
  have hl := List.perm_insertionSort (fun a b => a.publicKey ≤ b.publicKey) l
  have hl' := List.perm_insertionSort (fun a b => a.publicKey ≤ b.publicKey) l'
  refine ⟨fun heq => ?_, fun hperm => ?_⟩
  · rw [sortPeers, sortPeers] at heq
    exact hl.symm.trans (heq ▸ hl')
  · have sorted : ∀ l : List WgComparable,
        (sortPeers l).Pairwise fun a b => a.publicKey ≤ b.publicKey := fun l =>
      have : IsTrans WgComparable fun a b => a.publicKey ≤ b.publicKey := ⟨fun _ _ _ => le_trans⟩
      have : Std.Total fun a b : WgComparable => a.publicKey ≤ b.publicKey :=
        ⟨fun a b => le_total a.publicKey b.publicKey⟩
      List.pairwise_insertionSort _ l
    refine List.Perm.eq_of_pairwise ?_ (sorted l) (sorted l') (hl.trans (hperm.trans hl'.symm))
    intro a b ha hb hab hba
    exact List.inj_on_of_nodup_map h (hl.mem_iff.1 ha) (hperm.mem_iff.2 (hl'.mem_iff.1 hb))
      (le_antisymm hab hba)

/-- The peers compare equal exactly where they match. -/
theorem wantedPeers_eq_iff {config : WireguardConfig} {running : ObservedWireguard} :
    wantedPeers config = runningPeers running ↔
      Matched (fun p o => p.comparable = o.comparable) config running := by
  have hkeys : ((config.peers.map WgPeer.comparable).map WgComparable.publicKey).Nodup := by
    rw [List.map_map]
    exact config.keys
  have hkeys' : ((running.peers.map ObservedWgPeer.comparable).map
      WgComparable.publicKey).Nodup := by
    rw [List.map_map]
    exact running.keys
  rw [wantedPeers, runningPeers, sortPeers_eq_iff hkeys,
    List.perm_ext_iff_of_nodup hkeys.of_map hkeys'.of_map]
  simp only [List.mem_map, Matched]
  refine ⟨fun h => ⟨fun p hp => ?_, fun o ho => ?_⟩, fun h c => ⟨?_, ?_⟩⟩
  · obtain ⟨o, ho, heq⟩ := (h _).1 ⟨p, hp, rfl⟩
    exact ⟨o, ho, heq.symm⟩
  · obtain ⟨p, hp, heq⟩ := (h _).2 ⟨o, ho, rfl⟩
    exact ⟨p, hp, heq⟩
  · rintro ⟨p, hp, rfl⟩
    obtain ⟨o, ho, heq⟩ := h.1 p hp
    exact ⟨o, ho, heq.symm⟩
  · rintro ⟨o, ho, rfl⟩
    obtain ⟨p, hp, heq⟩ := h.2 o ho
    exact ⟨p, hp, heq⟩

theorem Matched.imp {R S : WgPeer → ObservedWgPeer → Prop} {config : WireguardConfig}
    {running : ObservedWireguard} (h : Matched R config running)
    (himp : ∀ p ∈ config.peers, ∀ o, R p o → S p o) : Matched S config running := by
  refine ⟨fun p hp => ?_, fun o ho => ?_⟩
  · obtain ⟨o, ho, hR⟩ := h.1 p hp
    exact ⟨o, ho, himp p hp o hR⟩
  · obtain ⟨p, hp, hR⟩ := h.2 o ho
    exact ⟨p, hp, himp p hp o hR⟩

theorem samePeer_of_comparable {p : WgPeer} {o : ObservedWgPeer}
    (h : p.comparable = o.comparable) : SamePeer p o := by
  simp only [WgPeer.comparable, ObservedWgPeer.comparable, WgComparable.mk.injEq] at h
  obtain ⟨hkey, hpre, hips, hkeep⟩ := h
  refine ⟨hkey.symm, hpre.symm, hkeep.symm, fun a => ?_⟩
  have hmem : ∀ t, t ∈ (p.allowedIps.map AllowedIp.text).map spelled ↔
      t ∈ o.allowedIps.map spelled := fun t => (fillPrefixes_eq_iff.1 hips).mem_iff
  have hread : ∀ b, (∃ ip ∈ p.allowedIps, ip.address = b) ↔
      ∃ t ∈ o.allowedIps, Address.parse t = some b := by
    intro b
    refine ⟨?_, ?_⟩
    · rintro ⟨ip, hip, rfl⟩
      obtain ⟨t, ht, heq⟩ := List.mem_map.1
        ((hmem _).1 (List.mem_map_of_mem (List.mem_map_of_mem hip)))
      exact ⟨t, ht, by rw [← parse_spelled, heq, parse_spelled, ip.parse_text]⟩
    · rintro ⟨t, ht, hb⟩
      obtain ⟨s, hs, heq⟩ := List.mem_map.1 ((hmem _).2 (List.mem_map_of_mem ht))
      obtain ⟨ip, hip, rfl⟩ := List.mem_map.1 hs
      refine ⟨ip, hip, Option.some_inj.1 ?_⟩
      rw [← ip.parse_text, ← parse_spelled, heq, parse_spelled, hb]
  simp only [WgPeer.networks, ObservedWgPeer.networks, List.mem_map, List.mem_filterMap]
  refine ⟨?_, ?_⟩
  · rintro ⟨ip, hip, rfl⟩
    exact ⟨_, (hread _).1 ⟨ip, hip, rfl⟩, rfl⟩
  · rintro ⟨b, hb, rfl⟩
    obtain ⟨ip, hip, rfl⟩ := (hread b).2 hb
    exact ⟨ip, hip, rfl⟩

/-! ## The table of prefixes -/

theorem foldl_allow_snoc (es : AllowedTable) (e : Address × Key) :
    (es ++ [e]).foldl allow [] = allow (es.foldl allow []) e := by
  rw [List.foldl_append, List.foldl_cons, List.foldl_nil]

theorem mem_of_mem_foldl_allow {e : Address × Key} (es : AllowedTable)
    (h : e ∈ es.foldl allow []) : e ∈ es := by
  induction es using List.reverseRecOn with
  | nil => exact h
  | append_singleton es last ih =>
    rw [foldl_allow_snoc, allow, List.mem_append] at h
    rcases h with h | h
    · exact List.mem_append_left _ (ih (List.mem_filter.1 h).1)
    · exact List.mem_append_right _ h

theorem nodup_foldl_allow (es : AllowedTable) : ((es.foldl allow []).map Prod.fst).Nodup := by
  induction es using List.reverseRecOn with
  | nil => exact List.nodup_nil
  | append_singleton es last ih =>
    rw [foldl_allow_snoc, allow, List.map_append, List.nodup_append]
    refine ⟨ih.sublist (List.filter_sublist.map _), List.nodup_singleton _, ?_⟩
    intro a ha b hb heq
    obtain ⟨e, he, rfl⟩ := List.mem_map.1 ha
    obtain rfl : b = last.1 := by simpa using hb
    simpa [heq] using (List.mem_filter.1 he).2

theorem foldl_allow_of_nodup (es : AllowedTable) (h : (es.map Prod.fst).Nodup) :
    es.foldl allow [] = es := by
  induction es using List.reverseRecOn with
  | nil => rfl
  | append_singleton es last ih =>
    rw [List.map_append, List.nodup_append] at h
    obtain ⟨hes, -, hlast⟩ := h
    rw [foldl_allow_snoc, ih hes, allow, List.filter_eq_self.2]
    intro e he
    have hne : e.1 ≠ last.1 := fun heq =>
      hlast e.1 (List.mem_map_of_mem he) last.1 (by simp) heq
    simpa using hne

theorem mem_ownedBy {table : AllowedTable} {key : Key} {a : Address} :
    a ∈ ownedBy table key ↔ (a, key) ∈ table := by
  simp [ownedBy]

theorem nodup_ownedBy (peers : List WgPeer) (key : Key) :
    (ownedBy (setPeers peers) key).Nodup :=
  (nodup_foldl_allow _).sublist (List.filter_sublist.map _)

theorem masked_of_mem_setPeers {peers : List WgPeer} {e : Address × Key}
    (h : e ∈ setPeers peers) : e.1.masked = e.1 := by
  obtain ⟨p, -, he⟩ := List.mem_flatMap.1 (mem_of_mem_foldl_allow _ h)
  obtain ⟨ip, -, rfl⟩ := List.mem_map.1 he
  exact ip.address.masked_masked

/-! ## The peers of a plain configuration -/

section Plain

variable {config : WireguardConfig}

theorem Plain.setPeers_eq (h : Plain config) :
    setPeers config.peers = config.peers.flatMap fun p =>
      p.allowedIps.map fun ip => (ip.address, p.publicKey) := by
  have hentries : config.peers.flatMap WgPeer.entries = config.peers.flatMap fun p =>
      p.allowedIps.map fun ip => (ip.address, p.publicKey) := by
    refine List.flatMap_congr fun p hp => List.map_congr_left fun ip hip => ?_
    rw [h.masked p hp ip hip]
  rw [setPeers, hentries, foldl_allow_of_nodup]
  have hfst := h.once
  simpa [List.map_flatMap, Function.comp_def] using hfst

/-- In a plain configuration each peer owns its addresses. -/
theorem Plain.ownedBy_perm (h : Plain config) {p : WgPeer} (hp : p ∈ config.peers) :
    (ownedBy (setPeers config.peers) p.publicKey).Perm (p.allowedIps.map AllowedIp.address) := by
  have hnodup : (p.allowedIps.map AllowedIp.address).Nodup := (List.nodup_flatMap.1 h.once).1 p hp
  rw [List.perm_ext_iff_of_nodup (nodup_ownedBy _ _) hnodup]
  intro a
  rw [mem_ownedBy, h.setPeers_eq, List.mem_flatMap, List.mem_map]
  refine ⟨?_, ?_⟩
  · rintro ⟨q, hq, hmem⟩
    obtain ⟨ip, hip, heq⟩ := List.mem_map.1 hmem
    obtain ⟨rfl, hkey⟩ := Prod.mk.inj heq
    obtain rfl : q = p := List.inj_on_of_nodup_map config.keys hq hp hkey
    exact ⟨ip, hip, rfl⟩
  · rintro ⟨ip, hip, rfl⟩
    exact ⟨p, hp, List.mem_map_of_mem (f := fun ip => (AllowedIp.address ip, p.publicKey)) hip⟩

theorem map_spelled (ips : List AllowedIp) :
    (ips.map AllowedIp.text).map spelled = (ips.map AllowedIp.address).map Address.render := by
  rw [List.map_map, List.map_map]
  exact List.map_congr_left fun ip _ => ip.spelled_text

theorem map_spelled_render (l : List Address) :
    (l.map Address.render).map spelled = l.map Address.render := by
  rw [List.map_map]
  exact List.map_congr_left fun a _ => spelled_render a

/-- A peer that is held compares equal exactly where it owns its addresses. -/
theorem comparable_eq_iff {p : WgPeer} {o : ObservedWgPeer}
    (h : HeldAs (setPeers config.peers) p o) :
    p.comparable = o.comparable ↔
      (p.allowedIps.map AllowedIp.address).Perm
        (ownedBy (setPeers config.peers) p.publicKey) := by
  have hips : (o.allowedIps.map spelled).Perm
      ((ownedBy (setPeers config.peers) p.publicKey).map Address.render) := by
    rw [← map_spelled_render]
    exact h.allowedIps.map spelled
  have hcompare : p.comparable = o.comparable ↔
      fillPrefixes (p.allowedIps.map AllowedIp.text) = fillPrefixes o.allowedIps := by
    simp [WgPeer.comparable, ObservedWgPeer.comparable, h.publicKey, h.presharedKey, h.keepalive]
  rw [hcompare, fillPrefixes_eq_iff, map_spelled]
  refine ⟨fun hperm => ?_, fun hperm => (hperm.map _).trans hips.symm⟩
  exact (List.map_perm_map_iff render_injective).1 (hperm.trans hips)

end Plain

/-! ## Convergence -/

section Converges

variable {name : String} {config : WireguardConfig} {running : ObservedWireguard}

/-- The peers do not differ exactly where keys agree and peers compare equal. -/
theorem peersDifference_eq_none_iff :
    peersDifference config running = none ↔
      (∀ o ∈ running.peers, o.presharedMatches ≠ some false) ∧
        wantedPeers config = runningPeers running := by
  unfold peersDifference
  rcases h : running.peers.find? fun o => o.presharedMatches = some false with _ | rotated
  · have hnone : ∀ o ∈ running.peers, o.presharedMatches ≠ some false := by simpa using h
    simpa [h] using fun _ => hnone
  · have hsome : rotated.presharedMatches = some false := by simpa using List.find?_some h
    refine iff_of_false (by simp [h]) fun hall => ?_
    exact hall.1 rotated (List.mem_of_find?_eq_some h) hsome

theorem Holds.deviceDifference_eq_none (h : Holds config running) :
    deviceDifference config running = none := by
  have agrees : ∀ {desired seen : Option ℤ}, (∀ n, desired = some n → seen = some n) →
      deviceDiffers desired seen = false := by
    intro desired seen himp
    rcases desired with _ | n
    · rfl
    · simp [deviceDiffers, himp n rfl]
  simp [deviceDifference, agrees h.listenPort, agrees h.fwmark, h.privateKey]

/-- Nothing is planned exactly where neither half differs. -/
theorem wireguardActions_eq_nil_iff :
    wireguardActions name config running = [] ↔
      deviceDifference config running = none ∧ peersDifference config running = none := by
  rw [wireguardActions, List.append_eq_nil_iff, Option.toList_eq_nil_iff, Option.map_eq_none_iff,
    Option.toList_eq_nil_iff, Option.map_eq_none_iff]

theorem wgSetPeers_mem_iff :
    Op.wgSetPeers name ∈ (wireguardActions name config running).map Planned.op ↔
      peersDifference config running ≠ none := by
  rcases hd : deviceDifference config running with _ | d <;>
    rcases hp : peersDifference config running with _ | p <;> simp [wireguardActions, hd, hp]

/-- Peers that do not match are set again. -/
theorem wgSetPeers_of_not_matched (h : ¬Matched SamePeer config running) :
    Op.wgSetPeers name ∈ (wireguardActions name config running).map Planned.op := by
  rw [wgSetPeers_mem_iff]
  intro hnone
  have hsame := wantedPeers_eq_iff.1 (peersDifference_eq_none_iff.1 hnone).2
  exact h (hsame.imp fun p _ o => samePeer_of_comparable)

/-- What the kernel reports after `wg.set_device` and `wg.set_peers`. -/
def WireguardConfig.held (config : WireguardConfig) : ObservedWireguard where
  listenPort := withoutZero config.listenPort
  fwmark := withoutZero config.fwmark
  keyMatches := some true
  peers := config.peers.map fun p =>
    { publicKey := p.publicKey
      presharedKey := p.presharedKey.isSome
      allowedIps := (ownedBy (setPeers config.peers) p.publicKey).map Address.render
      keepalive := withoutZero p.keepalive
      presharedMatches := some true }
  keys := by
    rw [List.map_map]
    exact config.keys

/-- What is set is held. -/
theorem holds_held (config : WireguardConfig) : Holds config config.held := by
  refine ⟨fun n h => h, fun n h => h, by simp [WireguardConfig.held], ?_, ?_⟩
  · intro p hp
    exact ⟨_, List.mem_map_of_mem hp, ⟨rfl, rfl, by simp, rfl, .refl _⟩⟩
  · intro o ho
    obtain ⟨p, hp, rfl⟩ := List.mem_map.1 ho
    exact ⟨p, hp, ⟨rfl, rfl, by simp, rfl, .refl _⟩⟩

/-- A configuration whose peers own their addresses is plain. -/
theorem plain_of_perm (h : ∀ p ∈ config.peers, (p.allowedIps.map AllowedIp.address).Perm
    (ownedBy (setPeers config.peers) p.publicKey)) : Plain config := by
  refine ⟨fun p hp ip hip => ?_, List.nodup_flatMap.2 ⟨fun p hp => ?_, ?_⟩⟩
  · have hmem := (h p hp).mem_iff.1 (List.mem_map_of_mem hip)
    exact masked_of_mem_setPeers (mem_ownedBy.1 hmem)
  · exact (h p hp).nodup_iff.2 (nodup_ownedBy _ _)
  · have hne : config.peers.Pairwise fun p q => p.publicKey ≠ q.publicKey :=
      List.pairwise_map.1 config.keys
    refine hne.imp_of_mem fun {p q} hp hq hkey => ?_
    intro a ha hb
    have hfst := List.inj_on_of_nodup_map (nodup_foldl_allow (config.peers.flatMap WgPeer.entries))
      (mem_ownedBy.1 ((h p hp).mem_iff.1 ha)) (mem_ownedBy.1 ((h q hq).mem_iff.1 hb)) rfl
    exact hkey (congrArg Prod.snd hfst)

/-- Planning converges exactly for the configurations whose prefixes the kernel keeps as they
are written : no host bits, and no prefix named twice. -/
theorem converges_iff (name : String) (config : WireguardConfig) :
    Converges name config ↔ Plain config := by
  refine ⟨fun h => plain_of_perm fun p hp => ?_, fun h => ⟨fun running hholds => ?_, ?_⟩⟩
  · -- planned against the kernel's own report of it, every peer compares equal
    have hnone := wireguardActions_eq_nil_iff.1 (h.settled config.held (holds_held config))
    have hsame := wantedPeers_eq_iff.1 (peersDifference_eq_none_iff.1 hnone.2).2
    obtain ⟨o, ho, heq⟩ := hsame.1 p hp
    obtain ⟨q, hq, rfl⟩ := List.mem_map.1 ho
    obtain rfl : q = p :=
      List.inj_on_of_nodup_map config.keys hq hp (congrArg WgComparable.publicKey heq).symm
    exact (comparable_eq_iff ⟨rfl, rfl, by simp, rfl, .refl _⟩).1 heq
  · refine wireguardActions_eq_nil_iff.2 ⟨hholds.deviceDifference_eq_none, ?_⟩
    refine peersDifference_eq_none_iff.2 ⟨fun o ho => ?_, wantedPeers_eq_iff.2 ?_⟩
    · obtain ⟨p, -, hheld⟩ := hholds.peers.2 o ho
      exact hheld.presharedMatches
    · exact hholds.peers.imp fun p hp o hheld =>
        (comparable_eq_iff hheld).2 (h.ownedBy_perm hp).symm
  · exact fun running hdiffers => wgSetPeers_of_not_matched hdiffers

end Converges

def hostBitsBlock : List Item :=
  [.assignment "private_key" (.string "@secret:wg"),
    .block "peer" (some "office") false
      [.assignment "public_key" (.string "AAAAAAAAAAAAAAAAAAAAAAAAAAAAAAAAAAAAAAAAAAA="),
        .assignment "allowed_ips" (.string "10.0.0.1/24")]]

/-- The compiler takes it, and the plan replaces the peers of a kernel that holds exactly what
it was given. -/
theorem host_bits_not_settled :
    (lowerWireguard hostBitsBlock).2 = [] ∧
      ∃ config ∈ (lowerWireguard hostBitsBlock).1, ∃ running,
        Holds config.canonicalize running ∧
          Op.wgSetPeers "wg0" ∈
            (wireguardActions "wg0" config.canonicalize running).map Planned.op := by
  refine ⟨by decide +kernel, ?_⟩
  have hsome : ((lowerWireguard hostBitsBlock).1).isSome := by decide +kernel
  have hemits : ∀ config ∈ (lowerWireguard hostBitsBlock).1, Op.wgSetPeers "wg0" ∈
      (wireguardActions "wg0" config.canonicalize config.canonicalize.held).map Planned.op := by
    decide +kernel
  exact ⟨_, Option.get_mem hsome, _, holds_held _, hemits _ (Option.get_mem hsome)⟩

end Wireguard

end Netcfgd
