import Netcfgd.Address
import Netcfgd.NormalForm

/-!
# Canonicalisation

`src/model/canonical.c` : the comparisons the schema names, and `ncfg_document_canonicalize` over
the lists of a document. Of every record the model has the fields that are compared and the lists
that are sorted, or that are lists and are not; what else an entry says is of a type of its own,
since nothing here reads it.

The comparisons that look at every field of an entry tell any two apart (`eq_of_compareHook`). The
others tie : entries of one name, and addresses in two spellings.
-/

namespace Netcfgd.Canonical

open NormalForm

/-! ## Comparisons -/

def isIpv6 (a : Address) : Bool :=
  match a.ip with
  | .v4 _ => false
  | .v6 _ => true

def groups (a : Address) : List ℕ :=
  match a.ip with
  | .v4 octets => octets.list
  | .v6 words => words.list

/-- Two addresses as `IpAddr` compares them. -/
def compareParsed : Address → Address → Ordering :=
  compareLex (compareOn isIpv6) (compareLex (compareOn groups) (compareOn Address.length))

/-- `compare_address` : as addresses where both are, as texts otherwise. -/
def compareAddress : Option String → Option String → Ordering
  | some left, some right =>
    match Address.parse left, Address.parse right with
    | some one, some other => compareParsed one other
    | _, _ => compare left right
  | left, right => compare left.isSome right.isSome

instance : Std.TransCmp compareParsed :=
  inferInstanceAs (Std.TransCmp (compareLex _ (compareLex _ _)))

instance : Std.OrientedCmp compareAddress where
  eq_swap {a b} := by
    have htext : ∀ left right : String, compare left right = (compare right left).swap :=
      fun _ _ => Std.OrientedCmp.eq_swap
    have hparsed : ∀ one other, compareParsed one other = (compareParsed other one).swap :=
      fun _ _ => Std.OrientedCmp.eq_swap
    rcases a with _ | left <;> rcases b with _ | right
    · rfl
    · rfl
    · rfl
    · simp only [compareAddress]
      rcases Address.parse left with _ | one <;> rcases Address.parse right with _ | other
      · exact htext left right
      · exact htext left right
      · exact htext left right
      · exact hparsed one other

def scopeRank : RouteScope → ℕ
  | .global => 0
  | .link => 1
  | .host => 2

/-- `compare_route`. -/
def compareRoute : Route → Route → Ordering :=
  compareLex (compareOn Route.destination) <|
  compareLex (comparing Route.via compareAddress) <|
  compareLex (compareOn Route.metric) <|
  compareLex (compareOn Route.table) <|
  compareLex (comparing Route.src compareAddress) <|
  compareLex (compareOn fun r => r.scope.map scopeRank) <|
  compareLex (compareOn Route.onlink) (compareOn Route.proto)

/-- `ncfg_hook_ref_t`. -/
structure HookRef where
  phase : HookPhase
  path : String
  sha256 : Option String := none
  runAs : Option String := none
  timeout : Option ℤ := none
  deriving DecidableEq

def phaseRank : HookPhase → ℕ
  | .preUp => 0
  | .up => 1
  | .postUp => 2
  | .preDown => 3
  | .down => 4
  | .postDown => 5
  | .carrier => 6
  | .lease => 7
  | .roam => 8
  | .portal => 9
  | .drift => 10

/-- `compare_hook`. -/
def compareHook : HookRef → HookRef → Ordering :=
  compareLex (compareOn fun h => phaseRank h.phase) <|
  compareLex (compareOn HookRef.path) <|
  compareLex (compareOn HookRef.sha256) <|
  compareLex (compareOn HookRef.runAs) (compareOn HookRef.timeout)

/-- `compare_bridge_vlan`. -/
def compareBridgeVlan : BridgeVlan → BridgeVlan → Ordering :=
  compareLex (compareOn BridgeVlan.vid) <|
  compareLex (compareOn BridgeVlan.pvid) (compareOn BridgeVlan.untagged)

/-- `compare_prefix_ref`. -/
def comparePrefixRef : PrefixRef → PrefixRef → Ordering :=
  compareLex (compareOn PrefixRef.source) <|
  compareLex (compareOn PrefixRef.index) (compareOn PrefixRef.subnet)

/-- `ncfg_dns_server_t`. -/
structure DnsServer where
  addr : String
  port : Option ℤ := none
  sni : Option String := none
  deriving DecidableEq

/-- `compare_dns_server`. -/
def compareDnsServer : DnsServer → DnsServer → Ordering :=
  compareLex (comparing (fun s => some s.addr) compareAddress) <|
  compareLex (compareOn DnsServer.port) (compareOn DnsServer.sni)

/-- `ncfg_routing_domain_t`. -/
structure RoutingDomain where
  suffix : String
  exclusive : Bool := false
  deriving DecidableEq

/-- `compare_routing_domain`. -/
def compareRoutingDomain : RoutingDomain → RoutingDomain → Ordering :=
  compareLex (compareOn RoutingDomain.suffix) (compareOn RoutingDomain.exclusive)

/-- `ncfg_rule_family_t`. -/
inductive RuleFamily
  | inet | inet6
  deriving DecidableEq

/-- `ncfg_rule_family_name`. -/
def RuleFamily.name : RuleFamily → String
  | inet => "inet"
  | inet6 => "inet6"

/-! ## The document -/

section Document

variable (ρ : Type)

/-- An entry of which only the name is compared : `ncfg_bluetooth_device_t` and `ncfg_mesh_t` by
their id, `ncfg_dns_record_t`, `ncfg_block_list_t`, `ncfg_dhcp_option_t`, `ncfg_port_forward_t`
and `ncfg_dhcp_host_t` by their name. -/
structure Named where
  name : String
  rest : ρ
  deriving DecidableEq

/-- `ncfg_wg_peer_t`. -/
structure WgPeer where
  name : String
  publicKey : List UInt8
  presharedKey : Option String := none
  endpoint : Option String := none
  allowedIps : List String
  keepalive : Option ℤ := none
  deriving DecidableEq

/-- `ncfg_interface_kind_t` : the ones with a list that is sorted, and the others. -/
inductive Kind
  | wireguard (peers : List WgPeer) (rest : ρ)
  | bridge (members : List String) (rest : ρ)
  | bond (members : List String) (rest : ρ)
  | other (rest : ρ)
  deriving DecidableEq

/-- `ncfg_device_t`. -/
structure Device where
  name : String
  bridgeVlans : List BridgeVlan
  kind : Kind ρ
  /-- The sources of a modem, in the order wanted. -/
  sim : List String
  rest : ρ
  deriving DecidableEq

/-- `ncfg_dns_policy_t`. -/
structure DnsPolicy where
  servers : List DnsServer
  search : List String
  domains : List RoutingDomain
  options : List String
  rest : ρ
  deriving DecidableEq

/-- `ncfg_dhcp_server_t`. -/
structure DhcpServer where
  hosts : List (Named ρ)
  options : List (Named ρ)
  dns : List String
  rest : ρ
  deriving DecidableEq

/-- `ncfg_advertise_t`. -/
structure Advertise where
  prefixes : List PrefixRef
  staticPrefixes : List String
  rest : ρ
  deriving DecidableEq

/-- `ncfg_interface_t`. -/
structure Interface where
  name : String
  addressing : List AddressSource
  routes : List Route
  hooks : List HookRef
  dns : Option (DnsPolicy ρ)
  dhcpServer : Option (DhcpServer ρ)
  portForwards : List (Named ρ)
  advertise : Option (Advertise ρ)
  rest : ρ
  deriving DecidableEq

/-- `ncfg_wifi_network_t`. -/
structure Network where
  id : String
  addressing : List AddressSource
  routes : List Route
  hooks : List HookRef
  dns : Option (DnsPolicy ρ)
  rest : ρ
  deriving DecidableEq

/-- `ncfg_neighbour_t`. -/
structure Neighbour where
  bssid : String
  channel : Option ℤ := none
  deriving DecidableEq

/-- `ncfg_access_control_t`. -/
structure AccessControl where
  stations : List String
  prefixes : List String
  lists : List String
  written : List String
  rest : ρ
  deriving DecidableEq

/-- `ncfg_access_point_t`. -/
structure AccessPoint where
  id : String
  neighbours : List Neighbour
  accessControl : Option (AccessControl ρ)
  rest : ρ
  deriving DecidableEq

/-- `ncfg_host_list_t`. -/
structure HostList where
  name : String
  mac : List String
  deriving DecidableEq

/-- `ncfg_routing_rule_t`. -/
structure RoutingRule where
  id : String
  priority : ℤ
  family : RuleFamily
  rest : ρ
  deriving DecidableEq

/-- `ncfg_firewall_rule_t`. -/
structure FirewallRule where
  mac : List String
  macLists : List String
  macWritten : List String
  rest : ρ
  deriving DecidableEq

/-- `ncfg_firewall_chain_t`. -/
structure FirewallChain where
  rules : List (FirewallRule ρ)
  rest : ρ
  deriving DecidableEq

/-- `ncfg_firewall_t`. -/
structure Firewall where
  input : FirewallChain ρ
  forward : FirewallChain ρ
  output : FirewallChain ρ
  deriving DecidableEq

/-- `ncfg_document_t`. -/
structure Document where
  devices : List (Device ρ)
  interfaces : List (Interface ρ)
  networks : List (Network ρ)
  bluetooth : List (Named ρ)
  rules : List (RoutingRule ρ)
  accessPoints : List (AccessPoint ρ)
  linksets : List Linkset
  firewall : Option (Firewall ρ)
  meshes : List (Named ρ)
  hostLists : List HostList
  dnsRecords : List (Named ρ)
  blockLists : List (Named ρ)
  dns : DnsPolicy ρ
  rest : ρ
  deriving DecidableEq

end Document

/-! ## Canonicalising -/

section Canonicalize

variable {ρ : Type}

/-- `compare_strings`. -/
def compareStrings : String → String → Ordering := compare

/-- `compare_peer`, and its allowed addresses in order. -/
def canonicalizePeer (p : WgPeer) : WgPeer :=
  { p with allowedIps := stableSort compareStrings p.allowedIps }

def canonicalizeKind : Kind ρ → Kind ρ
  | .wireguard peers rest =>
    .wireguard ((stableSort (compareOn WgPeer.name) peers).map canonicalizePeer) rest
  | .bridge members rest => .bridge (stableSort compareStrings members) rest
  | .bond members rest => .bond (stableSort compareStrings members) rest
  | .other rest => .other rest

def canonicalizeDevice (x : Device ρ) : Device ρ :=
  { x with
    bridgeVlans := stableSort compareBridgeVlan x.bridgeVlans
    kind := canonicalizeKind x.kind }

/-- `canonicalize_dns`. -/
def canonicalizeDns (p : DnsPolicy ρ) : DnsPolicy ρ :=
  { p with
    servers := stableSort compareDnsServer p.servers
    domains := stableSort compareRoutingDomain p.domains }

def canonicalizeDhcpServer (s : DhcpServer ρ) : DhcpServer ρ :=
  { s with
    hosts := stableSort (compareOn Named.name) s.hosts
    options := stableSort (compareOn Named.name) s.options }

def canonicalizeAdvertise (a : Advertise ρ) : Advertise ρ :=
  { a with
    prefixes := stableSort comparePrefixRef a.prefixes
    staticPrefixes := sortSet compareStrings a.staticPrefixes }

def canonicalizeInterface (i : Interface ρ) : Interface ρ :=
  { i with
    routes := stableSort compareRoute i.routes
    hooks := stableSort compareHook i.hooks
    dns := i.dns.map canonicalizeDns
    dhcpServer := i.dhcpServer.map canonicalizeDhcpServer
    portForwards := stableSort (compareOn Named.name) i.portForwards
    advertise := i.advertise.map canonicalizeAdvertise }

def canonicalizeNetwork (n : Network ρ) : Network ρ :=
  { n with
    routes := stableSort compareRoute n.routes
    hooks := stableSort compareHook n.hooks
    dns := n.dns.map canonicalizeDns }

def canonicalizeAccessControl (a : AccessControl ρ) : AccessControl ρ :=
  { a with
    stations := sortSet compareStrings a.stations
    prefixes := sortSet compareStrings a.prefixes
    lists := sortSet compareStrings a.lists
    written := sortSet compareStrings a.written }

def canonicalizeAccessPoint (a : AccessPoint ρ) : AccessPoint ρ :=
  { a with
    neighbours := stableSort (compareOn Neighbour.bssid) a.neighbours
    accessControl := a.accessControl.map canonicalizeAccessControl }

def canonicalizeHostList (h : HostList) : HostList :=
  { h with mac := sortSet compareStrings h.mac }

def canonicalizeFirewallRule (r : FirewallRule ρ) : FirewallRule ρ :=
  { r with
    mac := sortSet compareStrings r.mac
    macLists := sortSet compareStrings r.macLists
    macWritten := sortSet compareStrings r.macWritten }

def canonicalizeChain (c : FirewallChain ρ) : FirewallChain ρ :=
  { c with rules := c.rules.map canonicalizeFirewallRule }

def canonicalizeFirewall (f : Firewall ρ) : Firewall ρ where
  input := canonicalizeChain f.input
  forward := canonicalizeChain f.forward
  output := canonicalizeChain f.output

/-- `compare_rule`. -/
def compareRule : RoutingRule ρ → RoutingRule ρ → Ordering :=
  compareLex (compareOn RoutingRule.priority) <|
  compareLex (compareOn fun r => r.family.name) (compareOn RoutingRule.id)

/-- `ncfg_document_canonicalize`. -/
def canonicalize (d : Document ρ) : Document ρ where
  devices := (stableSort (compareOn Device.name) d.devices).map canonicalizeDevice
  interfaces := (stableSort (compareOn Interface.name) d.interfaces).map canonicalizeInterface
  networks := (stableSort (compareOn Network.id) d.networks).map canonicalizeNetwork
  bluetooth := stableSort (compareOn Named.name) d.bluetooth
  rules := stableSort compareRule d.rules
  accessPoints := (stableSort (compareOn AccessPoint.id) d.accessPoints).map canonicalizeAccessPoint
  linksets := stableSort (compareOn Linkset.name) d.linksets
  firewall := d.firewall.map canonicalizeFirewall
  meshes := stableSort (compareOn Named.name) d.meshes
  hostLists := (stableSort (compareOn HostList.name) d.hostLists).map canonicalizeHostList
  dnsRecords := stableSort (compareOn Named.name) d.dnsRecords
  blockLists := stableSort (compareOn Named.name) d.blockLists
  dns := canonicalizeDns d.dns
  rest := d.rest

end Canonicalize

/-! ## What the comparisons tell apart -/

instance : Std.OrientedCmp compareRoute :=
  inferInstanceAs (Std.OrientedCmp (compareLex _ _))

instance : Std.TransCmp compareHook :=
  inferInstanceAs (Std.TransCmp (compareLex _ _))

instance : Std.TransCmp compareBridgeVlan :=
  inferInstanceAs (Std.TransCmp (compareLex _ _))

instance : Std.TransCmp comparePrefixRef :=
  inferInstanceAs (Std.TransCmp (compareLex _ _))

instance : Std.OrientedCmp compareDnsServer :=
  inferInstanceAs (Std.OrientedCmp (compareLex _ _))

instance : Std.TransCmp compareRoutingDomain :=
  inferInstanceAs (Std.TransCmp (compareLex _ _))

instance : Std.TransCmp compareStrings :=
  inferInstanceAs (Std.TransOrd String)

instance : Std.LawfulEqCmp compareStrings :=
  inferInstanceAs (Std.LawfulEqOrd String)

instance {ρ : Type} : Std.TransCmp (compareRule (ρ := ρ)) :=
  inferInstanceAs (Std.TransCmp (compareLex _ _))

theorem phaseRank_injective : Function.Injective phaseRank := by
  intro a b h
  cases a <;> cases b <;> first | rfl | cases h

theorem familyName_injective : Function.Injective RuleFamily.name := by
  intro a b h
  cases a <;> cases b <;> first | rfl | (exact absurd h (by decide))

theorem eq_of_compareHook (a b : HookRef) (h : compareHook a b = .eq) : a = b := by
  simp only [compareHook, compareLex, compareOn, Ordering.then_eq_eq,
    Std.LawfulEqCmp.compare_eq_iff_eq, phaseRank_injective.eq_iff] at h
  obtain ⟨hphase, hpath, hsha, hrun, htimeout⟩ := h
  cases a
  cases b
  simp_all

theorem eq_of_compareBridgeVlan (a b : BridgeVlan) (h : compareBridgeVlan a b = .eq) : a = b := by
  simp only [compareBridgeVlan, compareLex, compareOn, Ordering.then_eq_eq,
    Std.LawfulEqCmp.compare_eq_iff_eq] at h
  obtain ⟨hvid, hpvid, huntagged⟩ := h
  cases a
  cases b
  simp_all

theorem eq_of_comparePrefixRef (a b : PrefixRef) (h : comparePrefixRef a b = .eq) : a = b := by
  simp only [comparePrefixRef, compareLex, compareOn, Ordering.then_eq_eq,
    Std.LawfulEqCmp.compare_eq_iff_eq] at h
  obtain ⟨hsource, hindex, hsubnet⟩ := h
  cases a
  cases b
  simp_all

theorem eq_of_compareRoutingDomain (a b : RoutingDomain) (h : compareRoutingDomain a b = .eq) :
    a = b := by
  simp only [compareRoutingDomain, compareLex, compareOn, Ordering.then_eq_eq,
    Std.LawfulEqCmp.compare_eq_iff_eq] at h
  obtain ⟨hsuffix, hexclusive⟩ := h
  cases a
  cases b
  simp_all

def ruleKey {ρ : Type} (r : RoutingRule ρ) : ℤ × RuleFamily × String := (r.priority, r.family, r.id)

theorem compareRule_eq {ρ : Type} (a b : RoutingRule ρ) :
    compareRule a b = .eq ↔ ruleKey a = ruleKey b := by
  simp only [compareRule, compareLex, compareOn, Ordering.then_eq_eq,
    Std.LawfulEqCmp.compare_eq_iff_eq, familyName_injective.eq_iff, ruleKey, Prod.mk.injEq]

theorem compareOn_eq {α : Type} {name : α → String} (a b : α) :
    compareOn name a b = .eq ↔ name a = name b := by
  rw [compareOn, Std.LawfulEqCmp.compare_eq_iff_eq]

end Netcfgd.Canonical
