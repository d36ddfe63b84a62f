import Netcfgd.Ast

/-!
# Lowering : what a configuration text can grant

`src/compile/merge.c` and the `lower_*.c`, for the parts of a document that reach beyond
configuring a network : hooks, probes, secrets, certificates, the tunnel that names another
program's file, the owner of a device and who may ask the daemon for what. Every block of the
language from which one of these can come is here, down the path the lowering takes to it.
What the other keys and blocks mean is left out, and so are the diagnostics they can draw : a
text the compiler accepts is accepted here. A diagnostic is its sentence, without the position.
-/

namespace Netcfgd.Compile

/-! ## Secrets and certificates -/

inductive SecretProvider
  | file
  | exec
  | keyring
  | pass
  | estate
  deriving DecidableEq, Repr

/-- `ncfg_secret_ref_t`. -/
structure SecretRef where
  provider : SecretProvider
  name : String
  deriving DecidableEq, Repr

/-- `ncfg_cert_source_t`. -/
inductive CertSource
  | stored (secret : SecretRef)
  | path (file : String)
  deriving DecidableEq, Repr

def estateKeyChar (c : Char) : Bool :=
  "abcdefghijklmnopqrstuvwxyz0123456789._/-".toList.contains c

/-- The provider and the name of a secret reference, after `@secret:`. -/
def secretProvider (rest : List Char) : Except String (SecretProvider × List Char) :=
  match rest.dropWhile (· ≠ ':') with
  | [] => .ok (.file, rest)
  | _ :: name =>
    -- the word is read into a buffer of 32 bytes
    let word := String.ofList ((rest.takeWhile (· ≠ ':')).take 31)
    if word = "file" then .ok (.file, name)
    else if word = "exec" then .ok (.exec, name)
    else if word = "keyring" then .ok (.keyring, name)
    else if word = "pass" then .ok (.pass, name)
    else if word = "estate" then
      if 64 < name.length ∨ ¬name.all estateKeyChar then
        .error (s!"`{String.ofList name}` is not a fuzznet setting key: a-z 0-9 . _ / -, at " ++
          "most 64 bytes")
      else .ok (.estate, name)
    else .error s!"`{word}` is not a secret provider: one of file, exec, keyring, pass, estate"

/-- `ncfg_as_secret`. -/
def asSecret (v : Value) : Except String SecretRef :=
  match asString v with
  | .error why => .error why
  | .ok text =>
    if "@secret:".toList.isPrefixOf text.toList then
      match secretProvider (text.toList.drop 8) with
      | .error why => .error why
      | .ok (provider, name) =>
        if name = [] then .error "a secret reference needs a name"
        else .ok ⟨provider, String.ofList name⟩
    else .error ("a credential must be a secret reference: write `@secret:NAME`, then " ++
      "`ncfg secret set NAME` -- which asks for the value with echo off and writes " ++
      "/etc/netcfgd/secrets/NAME at 0600, outside the config, which is what keeps the " ++
      "config safe to commit")

/-- `ncfg_as_cert_source`. -/
def asCertSource (v : Value) : Except String CertSource :=
  match v with
  | .string s =>
    if "@secret:".toList.isPrefixOf s.toList then (asSecret v).map .stored
    else .ok (.path (String.ofList (cText s)))
  | v => (asString v).map .path

/-! ## Reading one value into a field -/

variable {α β : Type*}

/-- Set a field from a value that reads, and leave it alone otherwise. -/
def take (a : α) (read : Except String β) (set : β → α) : α × List String :=
  match read with
  | .ok b => (set b, [])
  | .error why => (a, [why])

/-- Set a field from a value, to nothing where it does not read. -/
def takeOrClear (read : Except String β) (set : Option β → α) : α × List String :=
  match read with
  | .ok b => (set (some b), [])
  | .error why => (set none, [why])

theorem take_invariant {P : α → Prop} {a : α} {read : Except String β} {set : β → α} (ha : P a)
    (hset : ∀ b, read = .ok b → P (set b)) : P (take a read set).1 := by
  cases read with
  | ok b => exact hset b rfl
  | error why => exact ha

theorem takeOrClear_invariant {P : α → Prop} {read : Except String β} {set : Option β → α}
    (hset : ∀ b, P (set b)) : P (takeOrClear read set).1 := by
  cases read with
  | ok b => exact hset (some b)
  | error why => exact hset none

theorem ite_invariant {P : α → Prop} {c : Prop} [Decidable c] {t e : α × List String}
    (ht : c → P t.1) (he : ¬c → P e.1) : P (if c then t else e).1 := by
  split_ifs with h
  · exact ht h
  · exact he h

theorem exists_of_take {a : α} {read : Except String β} {set : β → α}
    (h : (take a read set).2 = []) : ∃ b, read = .ok b ∧ (take a read set).1 = set b := by
  cases read with
  | ok b => exact ⟨b, rfl, rfl⟩
  | error why => cases h

theorem exists_of_takeOrClear {read : Except String β} {set : Option β → α}
    (h : (takeOrClear read set).2 = []) :
    ∃ b, read = .ok b ∧ (takeOrClear read set).1 = set (some b) := by
  cases read with
  | ok b => exact ⟨b, rfl, rfl⟩
  | error why => cases h

/-! ## EAP and wifi -/

inductive EapMethod
  | peap
  | ttls
  | tls
  | pwd
  deriving DecidableEq, Repr

inductive PskProto
  | wpa2
  | wpa3
  | wpa2Wpa3
  deriving DecidableEq, Repr

/-- `ncfg_eap_config_t`. -/
structure Eap where
  method : EapMethod
  identity : String
  anonymousIdentity : Option String
  password : Option SecretRef
  caCert : Option CertSource
  clientCert : Option CertSource
  privateKey : Option CertSource
  phase2 : Option String
  domainSuffixMatch : Option String
  deriving DecidableEq, Repr

/-- `ncfg_security_t`. -/
inductive Security
  | none
  | owe
  | psk (passphrase : SecretRef) (proto : PskProto)
  | eap (config : Eap)
  deriving DecidableEq, Repr

/-- `ncfg_wifi_keys_t` : the keys of a `wifi` or a `dot1x` block as they are read. -/
structure WifiKeys where
  psk : Option SecretRef := none
  password : Option SecretRef := none
  privateKey : Option CertSource := none
  caCert : Option CertSource := none
  clientCert : Option CertSource := none
  isOpen : Bool := false
  owe : Bool := false
  identity : Option String := none
  anonymousIdentity : Option String := none
  phase2 : Option String := none
  domainSuffixMatch : Option String := none
  proto : PskProto := .wpa2
  eap : Option EapMethod := none
  deriving DecidableEq, Repr

/-- The word of a `proto`. -/
def protoOf (name : String) : Except String PskProto :=
  if name = "wpa2" then .ok .wpa2
  else if name = "wpa3" then .ok .wpa3
  else if name = "wpa2+wpa3" ∨ name = "wpa2wpa3" then .ok .wpa2Wpa3
  else .error s!"`{name}` is not a WPA generation: one of wpa2, wpa3, wpa2+wpa3"

/-- The word of an `eap`. -/
def eapOf (name : String) : Except String EapMethod :=
  if name = "peap" then .ok .peap
  else if name = "ttls" then .ok .ttls
  else if name = "tls" then .ok .tls
  else if name = "pwd" then .ok .pwd
  else .error s!"`{name}` is not an EAP method: one of peap, ttls, tls, pwd"

/-- `ncfg_lower_wifi_key`. -/
def wifiKey (k : WifiKeys) (key : String) (v : Value) : WifiKeys × List String :=
  if key = "psk" then take k (asSecret v) fun s => { k with psk := some s }
  else if key = "password" then take k (asSecret v) fun s => { k with password := some s }
  else if key = "private_key" then
    take k (asCertSource v) fun c => { k with privateKey := some c }
  else if key = "ca_cert" then take k (asCertSource v) fun c => { k with caCert := some c }
  else if key = "client_cert" then
    take k (asCertSource v) fun c => { k with clientCert := some c }
  else if key = "open" then
    takeOrClear (asBool v) fun b => { k with isOpen := b.getD false }
  else if key = "owe" then takeOrClear (asBool v) fun b => { k with owe := b.getD false }
  else if key = "identity" then takeOrClear (asString v) fun s => { k with identity := s }
  else if key = "anonymous_identity" then
    takeOrClear (asString v) fun s => { k with anonymousIdentity := s }
  else if key = "phase2" then takeOrClear (asString v) fun s => { k with phase2 := s }
  else if key = "domain_suffix_match" then
    takeOrClear (asString v) fun s => { k with domainSuffixMatch := s }
  else if key = "priority" then
    (k, ["`priority` has been replaced by `metric`, which goes beside `metered` rather " ++
      "than inside `wifi` -- and ranks the other way up, lower winning. It now decides " ++
      "both which network to join and how its routes rank against every other link, so " ++
      "a high `priority` becomes a low `metric`"])
  else if key = "autoconnect" then take k (asBool v) fun _ => k
  else if key = "proto" then take k (asString v >>= protoOf) fun p => { k with proto := p }
  else if key = "eap" then take k (asString v >>= eapOf) fun e => { k with eap := some e }
  else (k, [s!"unknown wifi key `{key}`"])

/-- `ncfg_lower_dot1x_key` : the keys of wifi, less those that need a radio. -/
def dot1xKey (k : WifiKeys) (key : String) (v : Value) : WifiKeys × List String :=
  if key = "psk" ∨ key = "open" ∨ key = "owe" ∨ key = "proto" ∨ key = "priority" ∨
      key = "autoconnect" then
    (k, [s!"`{key}` means nothing on a wired port: `dot1x` is EAP only: eap, identity, " ++
      "password, ca_cert, client_cert, private_key, phase2, domain_suffix_match"])
  else wifiKey k key v

/-- `ncfg_build_security`. -/
def buildSecurity (k : WifiKeys) : Except String Security :=
  match k.psk with
  | some passphrase => .ok (.psk passphrase k.proto)
  | none =>
    match k.eap with
    | some method =>
      match k.identity with
      | none => .error "an EAP network needs an `identity`"
      | some identity =>
        .ok (.eap ⟨method, identity, k.anonymousIdentity, k.password, k.caCert, k.clientCert,
          k.privateKey, k.phase2, k.domainSuffixMatch⟩)
    | none => if k.owe then .ok .owe else .ok .none

/-- One item of a `wifi` block. -/
def wifiItem (k : WifiKeys) : Item → WifiKeys × List String
  | .assignment key v => wifiKey k key v
  | .block head _ _ _ =>
    if head = "roam" then (k, [])
    else (k, [s!"`{head}` is not valid inside a network `wifi` block"])
  | _ => (k, [])

/-- How many kinds of security a `wifi` block names. -/
def chosen (k : WifiKeys) : ℕ :=
  k.psk.isSome.toNat + k.eap.isSome.toNat + k.isOpen.toNat + k.owe.toNat

/-- `ncfg_lower_wifi_block`. -/
def wifiBlock (items : List Item) : Option Security × List String :=
  let (k, wrong) := overItems wifiItem { proto := .wpa2Wpa3 } items
  if 1 < chosen k then
    (none, wrong ++ ["a network has one kind of security: exactly one of psk, eap, open or owe"])
  else if chosen k = 0 then
    (none, wrong ++ ["this `wifi` block names no security, so it would be an open network: " ++
      "add `psk = \"@secret:NAME\"`, or `open = true` if that is meant; `open = false` says " ++
      "which kind it is not, not which it is"])
  else
    match buildSecurity k with
    | .ok security => (some security, wrong)
    | .error why => (none, wrong ++ [why])

/-- One item of a `dot1x` block. -/
def dot1xItem (k : WifiKeys) : Item → WifiKeys × List String
  | .assignment key v => dot1xKey k key v
  | .block head _ _ _ => (k, [s!"`{head}` is not valid inside `dot1x`"])
  | _ => (k, [])

/-- `lower_dot1x`. -/
def dot1xBlock (items : List Item) : Option Eap × List String :=
  let (k, wrong) := overItems dot1xItem {} items
  if k.eap = none then
    (none, wrong ++ ["a `dot1x` block needs an `eap` method: one of peap, ttls, tls, pwd"])
  else
    match buildSecurity k with
    | .ok (.eap config) => (some config, wrong)
    | .ok _ => (none, wrong)
    | .error why => (none, wrong ++ [why])

/-! ## Devices -/

/-- `ncfg_interface_kind_t`, where it can hold a grant. -/
inductive Kind
  | physical
  | tun (tap : Bool) (owner group : Option String)
  | wireguard (privateKey : SecretRef) (presharedKeys : List SecretRef)
  | pppoe (password : SecretRef)
  | openvpn (config : String) (password : Option SecretRef)
  | plain (head : String)
  deriving DecidableEq, Repr

/-- One item of a `tun` or a `tap` block. -/
def tunItem (t : Option String × Option String) :
    Item → (Option String × Option String) × List String
  | .assignment key v =>
    if key = "owner" then takeOrClear (asString v) fun s => (s, t.2)
    else if key = "group" then takeOrClear (asString v) fun s => (t.1, s)
    else (t, [s!"unknown tun key `{key}`"])
  | _ => (t, [])

/-- `lower_tun`. -/
def tunBlock (tap : Bool) (items : List Item) : Kind × List String :=
  let (t, wrong) := overItems tunItem (none, none) items
  (.tun tap t.1 t.2, wrong)

/-- One item of a wireguard `peer`, for its `preshared_key`. -/
def peerItem (secret : Option SecretRef) : Item → Option SecretRef × List String
  | .assignment key v =>
    if key = "preshared_key" then take secret (asSecret v) some else (secret, [])
  | _ => (secret, [])

/-- One item of a `wireguard` block : the private key, and the peers' preshared keys. -/
def wireguardItem (w : Option SecretRef × List SecretRef) :
    Item → (Option SecretRef × List SecretRef) × List String
  | .assignment key v =>
    if key = "private_key" then take w (asSecret v) fun s => (some s, w.2)
    else if key = "listen_port" ∨ key = "fwmark" then (w, [])
    else (w, [s!"unknown wireguard key `{key}`"])
  | .block head label _ items =>
    if head = "peer" then
      match label with
      | none => (w, ["`peer` needs a name"])
      | some _ =>
        let (secret, wrong) := overItems peerItem none items
        ((w.1, w.2 ++ secret.toList), wrong)
    else (w, [s!"`{head}` is not valid inside `wireguard`"])
  | _ => (w, [])

/-- `lower_wireguard`. -/
def wireguardBlock (items : List Item) : Option Kind × List String :=
  let (w, wrong) := overItems wireguardItem (none, []) items
  match w.1 with
  | some key => (some (.wireguard key w.2), wrong)
  | none => (none, wrong ++ ["a wireguard device needs a `private_key`: `private_key = " ++
      "\"@secret:NAME\"`; `wg genkey` produces one and it never belongs in the config"])

/-- `ncfg_pppoe_config_t` as it is read. -/
structure PppoeKeys where
  parent : Option String := none
  username : Option String := none
  password : Option SecretRef := none

/-- One item of a `pppoe` block. -/
def pppoeItem (p : PppoeKeys) : Item → PppoeKeys × List String
  | .assignment key v =>
    if key = "parent" ∨ key = "dev" then takeOrClear (asString v) fun s => { p with parent := s }
    else if key = "username" ∨ key = "user" then
      takeOrClear (asString v) fun s => { p with username := s }
    else if key = "password" then take p (asSecret v) fun s => { p with password := some s }
    else if key = "service" ∨ key = "ac" then takeOrClear (asString v) fun _ => p
    else (p, [s!"unknown pppoe key `{key}`"])
  | _ => (p, [])

/-- `lower_pppoe`. -/
def pppoeBlock (items : List Item) : Option Kind × List String :=
  let (p, wrong) := overItems pppoeItem {} items
  if p.parent = none then
    (none, wrong ++ ["a pppoe session needs a `parent`: the ethernet interface the session " ++
      "runs over, such as `eth0`"])
  else
    match p.username, p.password with
    | some _, some password => (some (.pppoe password), wrong)
    | _, _ => (none, wrong ++ ["a pppoe session needs a `username` and a `password`: " ++
        "`password = \"@secret:NAME\"`; a DSL password never belongs in config"])

/-- `ncfg_openvpn_config_t` as it is read. -/
structure OpenvpnKeys where
  config : Option String := none
  username : Option String := none
  password : Option SecretRef := none

/-- One item of an `openvpn` block. -/
def openvpnItem (o : OpenvpnKeys) : Item → OpenvpnKeys × List String
  | .assignment key v =>
    if key = "config" ∨ key = "file" then takeOrClear (asString v) fun s => { o with config := s }
    else if key = "username" ∨ key = "user" then
      takeOrClear (asString v) fun s => { o with username := s }
    else if key = "password" then take o (asSecret v) fun s => { o with password := some s }
    else (o, [s!"unknown openvpn key `{key}`: an openvpn tunnel takes only `config`, the path " ++
      "to the .ovpn file; everything else belongs in that file (doc/decision/0046)"])
  | _ => (o, [])

/-- `lower_openvpn`. -/
def openvpnBlock (items : List Item) : Option Kind × List String :=
  let (o, wrong) := overItems openvpnItem {} items
  match o.config with
  | none => (none, wrong ++ ["an openvpn tunnel needs a `config`: the path to the .ovpn file, " ++
      "such as `/etc/openvpn/work.ovpn`; netcfgd hands it to openvpn and does not read it"])
  | some config =>
    if config.toList.head? ≠ some '/' then
      (none, wrong ++ [s!"`{config}` is not an absolute path: netcfgd runs from no particular " ++
        "directory, so the .ovpn needs a full path"])
    else if o.username.isSome ≠ o.password.isSome then
      (none, wrong ++ ["an openvpn tunnel needs both `username` and `password`, or neither: " ++
        "openvpn prompts on the console for whichever is missing, and a daemon netcfgd started " ++
        "has no console to prompt on"])
    else (some (.openvpn config o.password), wrong)

/-- `ncfg_is_kind_block`. -/
def isKindBlock (head : String) : Bool :=
  ["bridge", "bond", "vlan", "veth", "vxlan", "vrf", "macvlan", "tunnel", "tun", "tap",
    "wireguard", "pppoe", "openvpn", "mesh_point", "radio"].contains head

/-- `ncfg_lower_kind_block`. -/
def kindBlock (head : String) (items : List Item) : Option Kind × List String :=
  if head = "tun" ∨ head = "tap" then
    let (kind, wrong) := tunBlock (head = "tap") items
    (some kind, wrong)
  else if head = "wireguard" then wireguardBlock items
  else if head = "pppoe" then pppoeBlock items
  else if head = "openvpn" then openvpnBlock items
  else (some (.plain head), [])

/-- The word of a `kind` : the kinds with no parameters, which no block declares. -/
def kindNamed (name : String) : Except String Kind :=
  if name = "dummy" then .ok (.plain "dummy")
  else if name = "physical" then .ok .physical
  else .error s!"`{name}` is not a device kind"

theorem kind_of_word {v : Value} {kind : Kind} (h : (asString v >>= kindNamed) = .ok kind) :
    kind = .plain "dummy" ∨ kind = .physical := by
  cases hv : asString v with
  | error why =>
    rw [hv] at h
    cases h
  | ok name =>
    rw [hv] at h
    change kindNamed name = .ok kind at h
    unfold kindNamed at h
    split_ifs at h
    · exact .inl (Except.ok.inj h).symm
    · exact .inr (Except.ok.inj h).symm

/-- One item of a `device` block : a second kind, of a block or of a word, replaces the first. -/
def deviceItem (kind : Kind) : Item → Kind × List String
  | .block head _ _ items =>
    if isKindBlock head then
      let (lowered, wrong) := kindBlock head items
      (lowered.getD kind, wrong)
    else (kind, [])
  | .hook .. => (kind, ["hooks belong to an interface, not to a device"])
  | .incl _ => (kind, ["include was not resolved before compiling"])
  | .assignment key v =>
    if key = "kind" then take kind (asString v >>= kindNamed) id else (kind, [])

/-! ## Interfaces -/

/-- `ncfg_hook_ref_t` : a hook, its owner and its script. -/
structure Hook where
  phase : String
  owner : String
  body : String
  deriving DecidableEq, Repr

/-- `ncfg_lower_hook`. -/
def lowerHook (owner phase body : String) : List Hook × List String :=
  if ["pre_up", "up", "post_up", "pre_down", "down", "post_down", "carrier", "lease", "roam",
      "portal", "drift"].contains phase then ([⟨phase, owner, body⟩], [])
  else ([], [s!"unknown hook phase `{phase}`: phases: pre_up, up, post_up, pre_down, down, " ++
    "post_down, and `on` with carrier, lease, roam, portal or drift"])

/-- `ncfg_probe_policy_t`. -/
structure Probe where
  command : Option String := none
  args : List String := []
  interval : ℤ := 30
  timeout : ℤ := 5
  downAfter : ℤ := 3
  upAfter : ℤ := 2
  holdDown : ℤ := 0
  requireLease : Bool := true
  deriving DecidableEq, Repr

/-- One item of a `probe` block. -/
def probeItem (p : Probe) : Item → Probe × List String
  | .assignment key v =>
    if key = "command" then takeOrClear (asString v) fun s => { p with command := s }
    else if key = "args" then
      let (lines, wrong) := asLines v
      ({ p with args := p.args ++ lines }, wrong)
    else if key = "interval" then take p (asU32 v) fun n => { p with interval := n }
    else if key = "timeout" then take p (asU32 v) fun n => { p with timeout := n }
    else if key = "down_after" then take p (asU32 v) fun n => { p with downAfter := n }
    else if key = "up_after" then take p (asU32 v) fun n => { p with upAfter := n }
    else if key = "hold_down" then take p (asU32 v) fun n => { p with holdDown := n }
    else if key = "require_lease" then take p (asBool v) fun b => { p with requireLease := b }
    else (p, [s!"`{key}` is not valid inside `probe`"])
  | _ => (p, [])

/-- `lower_probe`. -/
def probeBlock (items : List Item) : Option Probe × List String :=
  let (p, wrong) := overItems probeItem {} items
  match p.command with
  | none => (none, wrong)
  | some command =>
    if command.toList.head? ≠ some '/' then
      (none, wrong ++ [s!"`{command}` is not an absolute path: a probe runs as root, so it is " ++
        "named by path and not found on PATH"])
    else if p.downAfter = 0 ∨ p.upAfter = 0 then
      (none, wrong ++ ["`up_after` and `down_after` have to be at least 1: they are " ++
        "consecutive-result counts; zero would switch on no result"])
    else if p.interval = 0 then
      (none, wrong ++ ["`interval` has to be at least 1 second"])
    else (some p, wrong)

/-- `ncfg_interface_t`, where it can hold a grant. -/
structure Interface where
  name : String
  hooks : List Hook := []
  probe : Option Probe := none
  dot1x : Option Eap := none
  deriving DecidableEq, Repr

/-- One item of an `interface` block : a second `probe` or `dot1x` replaces the first. -/
def interfaceItem (i : Interface) : Item → Interface × List String
  | .block head _ _ items =>
    if head = "probe" then
      let (probe, wrong) := probeBlock items
      ({ i with probe := probe.or i.probe }, wrong)
    else if head = "dot1x" then
      let (dot1x, wrong) := dot1xBlock items
      ({ i with dot1x := dot1x.or i.dot1x }, wrong)
    else (i, [])
  | .hook phase body =>
    let (hooks, wrong) := lowerHook i.name phase body
    ({ i with hooks := i.hooks ++ hooks }, wrong)
  | .incl _ => (i, ["include was not resolved before compiling"])
  | .assignment .. => (i, [])

/-! ## Networks, access points and meshes -/

/-- `ncfg_wifi_network_t`, where it can hold a grant. -/
structure Network where
  id : String
  hooks : List Hook := []
  security : Option Security := none
  deriving DecidableEq, Repr

/-- One item of a `network` block. -/
def networkItem (n : Network) : Item → Network × List String
  | .block head _ _ items =>
    if head = "wifi" then
      let (security, wrong) := wifiBlock items
      ({ n with security := security.or n.security }, wrong)
    else if head = "dns" then (n, [])
    else (n, [s!"`{head}` is not valid inside `network`"])
  | .hook phase body =>
    let (hooks, wrong) := lowerHook n.id phase body
    ({ n with hooks := n.hooks ++ hooks }, wrong)
  | .incl _ => (n, ["include was not resolved before compiling"])
  | .assignment .. => (n, [])

/-- `ncfg_access_point_t` and `ncfg_mesh_t`, where they can hold a grant. -/
structure Station where
  id : String
  security : Option Security := none
  roamingKey : Option SecretRef := none
  deriving DecidableEq, Repr

/-- One item of an `access_point` block. -/
def accessPointItem (a : Station) : Item → Station × List String
  | .assignment key v =>
    if key = "roaming_key" then take a (asSecret v) fun s => { a with roamingKey := some s }
    else (a, [])
  | .block head _ _ items =>
    if head = "wifi" then
      let (security, wrong) := wifiBlock items
      ({ a with security := security.or a.security }, wrong)
    else if head = "neighbour" ∨ head = "steering" ∨ head = "access_control" then (a, [])
    else (a, [s!"`{head}` is not valid inside `access_point`"])
  | _ => (a, [])

/-- One item of a `mesh` block. -/
def meshItem (a : Station) : Item → Station × List String
  | .assignment .. => (a, [])
  | .block head _ _ items =>
    if head = "wifi" then
      let (security, wrong) := wifiBlock items
      ({ a with security := security.or a.security }, wrong)
    else (a, [s!"`{head}` is not valid inside `mesh`"])
  | _ => (a, [])

/-! ## Who may ask for what -/

/-- `ncfg_principal_t`. -/
inductive Principal
  | root
  | any
  | user (name : String)
  | group (name : String)
  deriving DecidableEq, Repr

/-- `principal_parse`. -/
def principalParse (text : String) : Except String Principal :=
  if text = "root" then .ok .root
  else if text = "any" then .ok .any
  else if "user:".toList.isPrefixOf text.toList then
    if text.toList.drop 5 = [] then .error "user: needs a name after it"
    else .ok (.user (String.ofList (text.toList.drop 5)))
  else if "group:".toList.isPrefixOf text.toList then
    if text.toList.drop 6 = [] then .error "group: needs a name after it"
    else .ok (.group (String.ofList (text.toList.drop 6)))
  else .error s!"`{text}` is not root, any, user:NAME or group:NAME"

/-- `ncfg_control_t`. -/
structure Control where
  observe : Principal := .root
  wifi : Principal := .root
  admin : Principal := .root
  deriving DecidableEq, Repr

/-- `ncfg_remote_policy_t`. -/
structure Remote where
  observe : Bool := false
  wifi : Bool := false
  admin : Bool := false
  agent : Principal := .root
  deriving DecidableEq, Repr

/-- The host-wide policy, where it grants something. -/
structure Policy where
  control : Control := {}
  remote : Remote := {}
  deriving DecidableEq, Repr

/-- `lower_control_key`. -/
def controlKey (c : Control) (key : String) (v : Value) : Control × List String :=
  match asString v with
  | .error why => (c, [why])
  | .ok text =>
    match principalParse text with
    | .error why => (c, [why ++ ": for example: group:netdev, user:alice, any, root"])
    | .ok principal =>
      if key = "observe" then ({ c with observe := principal }, [])
      else if key = "wifi" then ({ c with wifi := principal }, [])
      else if key = "admin" then ({ c with admin := principal }, [])
      else (c, [s!"unknown control key `{key}`: the tiers are observe, wifi and admin"])

/-- Who the `agent` of a `remote` block is. -/
def agentOf (v : Value) : Except String Principal :=
  match asString v with
  | .error why => .error why
  | .ok text =>
    (principalParse text).mapError fun why => why ++ ": `agent` says who on this machine may " ++
      "act as the agent: root, any, user:NAME or group:NAME"

/-- `lower_remote_key`. -/
def remoteKey (r : Remote) (key : String) (v : Value) : Remote × List String :=
  if key = "agent" then take r (agentOf v) fun p => { r with agent := p }
  else if key = "observe" then take r (asBool v) fun b => { r with observe := b }
  else if key = "wifi" then take r (asBool v) fun b => { r with wifi := b }
  else if key = "admin" then take r (asBool v) fun b => { r with admin := b }
  else (r, [s!"unknown remote key `{key}`: the tiers are observe, wifi and admin; `agent` says " ++
    "who may connect"])

def overAssignments (f : α → String → Value → α × List String) (a : α) (items : List Item) :
    α × List String :=
  overItems (fun a i => match i with
    | .assignment key v => f a key v
    | _ => (a, [])) a items

/-- One item of a `global` block. -/
def globalItem (p : Policy) : Item → Policy × List String
  | .block head _ _ items =>
    if head = "control" then
      let (control, wrong) := overAssignments controlKey p.control items
      ({ p with control }, wrong)
    else if head = "remote" then
      let (remote, wrong) := overAssignments remoteKey p.remote items
      ({ p with remote }, wrong)
    else if head = "dns" ∨ head = "connectivity" ∨ head = "upnp" then (p, [])
    else (p, [s!"`{head}` is not valid inside `global`"])
  | .hook .. => (p, ["hooks belong to an interface, not to `global`"])
  | .incl _ => (p, ["include was not resolved before compiling"])
  | .assignment .. => (p, [])

/-! ## Merging the blocks of a file -/

/-- `ncfg_merged_block_t`. -/
structure MergedBlock where
  head : String
  label : Option String
  items : List Item

/-- `ncfg_ast_block_describe`. -/
def describeBlock (head : String) (label : Option String) : String :=
  match label with
  | some label => head ++ " " ++ label
  | none => head

/-- One item of a further `global` block, into the items of the first : a sub-block set twice
is a disagreement, a key's later value wins. -/
def mergeIntoGlobal (target : List Item) : Item → List Item × List String
  | .block head label overrides items =>
    if target.any fun
        | .block head' label' _ _ => head' = head ∧ label' = label
        | _ => false then
      (target, [s!"`{describeBlock head label}` is already set in `global`"])
    else (target ++ [Item.block head label overrides items], [])
  | .assignment key value =>
    -- the first assignment to the key only : a second one in the block stays as it is
    ((setFirst (fun
        | .assignment key' _ => key' = key
        | _ => false) (.assignment key value) target).getD (target ++ [Item.assignment key value]),
            [])
  | i => (target ++ [i], [])

theorem mem_mergeIntoGlobal {target : List Item} {i j : Item}
    (h : j ∈ (mergeIntoGlobal target i).1) :
    j = i ∨ j ∈ target := by
  have hconcat {l : List Item} (hj : j ∈ l ++ [i]) : j = i ∨ j ∈ l := by
    simpa [or_comm] using hj
  cases i with
  | block head label overrides items =>
    simp only [mergeIntoGlobal] at h
    split_ifs at h
    · exact .inr h
    · exact hconcat h
  | assignment key v =>
    rw [mergeIntoGlobal] at h
    rcases hset : setFirst _ (.assignment key v) target with _ | target'
    · rw [hset] at h
      exact hconcat h
    · rw [hset] at h
      exact mem_of_setFirst hset h
  | hook phase body => exact hconcat h
  | incl path => exact hconcat h

/-- `merge_block`. -/
def mergeBlock (merged : List MergedBlock) (head : String) (label : Option String)
    (overrides : Bool) (items : List Item) : List MergedBlock × List String :=
  match merged.find? fun b => b.head = head ∧ b.label = label with
  | some existing =>
    if overrides then
      (merged.map fun b => if b.head = head ∧ b.label = label then { b with items } else b, [])
    else if head = "global" then
      let (items', wrong) := overItems mergeIntoGlobal existing.items items
      (merged.map fun b => if b.head = head ∧ b.label = label then { b with items := items' }
        else b, wrong)
    else (merged, [s!"`{describeBlock head label}` is already defined"])
  | none =>
    if overrides then
      (merged, [s!"`override {describeBlock head label}` has nothing to override: remove " ++
        "`override`, or check the name"])
    else (merged ++ [⟨head, label, items⟩], [])

def mergeItem (merged : List MergedBlock) : Item → List MergedBlock × List String
  | .block head label overrides items => mergeBlock merged head label overrides items
  | .assignment .. => (merged, [])
  | .hook .. => (merged, ["a hook block must be inside an interface block: hooks belong to the " ++
      "interface whose lifecycle they follow"])
  | .incl _ => (merged, ["include was not resolved before compiling: the caller expands " ++
      "includes; the compiler opens no files"])

/-- `ncfg_merge`, of one file. -/
def merge (file : List Item) : List MergedBlock × List String :=
  overItems mergeItem [] file

/-! ## The document -/

/-- `ncfg_document_t`, where it can hold a grant. -/
structure Grants where
  policy : Policy := {}
  devices : List Kind := []
  interfaces : List Interface := []
  networks : List Network := []
  accessPoints : List Station := []
  meshes : List Station := []
  deriving DecidableEq, Repr

def labelled (d : Grants) (b : MergedBlock) (lower : String → Grants × List String) :
    Grants × List String :=
  match b.label with
  | some label => lower label
  | none => (d, [s!"`{b.head}` needs a name"])

def meshSecurity : Option Security → Bool
  | some (.psk ..) | some .none => true
  | _ => false

def lowerBlock (d : Grants) (b : MergedBlock) : Grants × List String :=
  if b.head = "global" then
    let (policy, wrong) := overItems globalItem d.policy b.items
    ({ d with policy }, wrong)
  else if b.head = "device" then labelled d b fun _ =>
    let (kind, wrong) := overItems deviceItem .physical b.items
    ({ d with devices := d.devices ++ [kind] }, wrong)
  else if b.head = "interface" then labelled d b fun name =>
    let (interface, wrong) := overItems interfaceItem { name } b.items
    ({ d with interfaces := d.interfaces ++ [interface] }, wrong)
  else if b.head = "network" then labelled d b fun id =>
    let (network, wrong) := overItems networkItem { id } b.items
    if network.security = none then
      (d, wrong ++ [s!"`{id}` has no `wifi` block, so it is an open network: add `psk = " ++
        "\"@secret:NAME\"`, or `wifi \x7b open = true \x7d` if that is meant"])
    else ({ d with networks := d.networks ++ [network] }, wrong)
  else if b.head = "access_point" then labelled d b fun id =>
    let (point, wrong) := overItems accessPointItem { id } b.items
    if point.security = none then
      (d, wrong ++ [s!"access point `{id}` has no `wifi` block, so it would be open: add " ++
        "`wifi \x7b psk = \"@secret:NAME\" \x7d`, or `wifi \x7b open = true \x7d`"])
    else ({ d with accessPoints := d.accessPoints ++ [point] }, wrong)
  else if b.head = "mesh" then labelled d b fun id =>
    let (mesh, wrong) := overItems meshItem { id } b.items
    if meshSecurity mesh.security then ({ d with meshes := d.meshes ++ [mesh] }, wrong)
    else (d, wrong ++ [s!"mesh `{id}` asks for security a mesh does not have: 802.11s offers " ++
      "SAE (`psk`) or nothing (`open = true`)"])
  else (d, [])

/-- The compiler, of one file : a document, or what is wrong with the text. -/
def compile (file : List Item) : Except (List String) Grants :=
  let (merged, wrong) := merge file
  if wrong ≠ [] then .error wrong
  else
    let (d, wrong) := overItems lowerBlock {} merged
    if wrong ≠ [] then .error wrong else .ok d

end Netcfgd.Compile
