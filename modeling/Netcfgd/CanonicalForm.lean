import Mathlib.Data.String.Basic
import Netcfgd.Canonical

/-!
# Canonicalisation is a normal form

`documentForm` is what `canonical.c` is for : which lists of a document are sorted by what, which
are sets, and which keep their order because it is their meaning. `ncfg_document_canonicalize` is
its normal form (`canonicalize_eq`), so a document once canonical stays, and nothing is added to a
list or lost from it.

Whether two orders of one document have one canonical document is another matter. Entries are
sorted by their name, and two of one name stay in the order they were written; addresses that are
compared as texts and as addresses need not be in an order at all. `canonicalize_iff` is exactly
when.
-/

namespace Netcfgd.Canonical

open NormalForm

variable {ρ : Type}

/-! ## What may be in any order -/

def peerForm : Form WgPeer :=
  .through
    ⟨fun p => (p.allowedIps, p.name, p.publicKey, p.presharedKey, p.endpoint, p.keepalive),
      fun p => ⟨p.2.1, p.2.2.1, p.2.2.2.1, p.2.2.2.2.1, p.1, p.2.2.2.2.2⟩, fun _ => rfl,
      fun _ => rfl⟩
    (.pair (.sorted compareStrings .same) .same)

/-- A kind : the peers of a tunnel, the members of a bridge and of a bond. -/
def kindForm : Form (Kind ρ) :=
  .through
    ⟨fun
      | .wireguard peers rest => .inl (peers, rest)
      | .bridge members rest => .inr (.inl (members, rest))
      | .bond members rest => .inr (.inr (.inl (members, rest)))
      | .other rest => .inr (.inr (.inr rest)),
    fun
      | .inl (peers, rest) => .wireguard peers rest
      | .inr (.inl (members, rest)) => .bridge members rest
      | .inr (.inr (.inl (members, rest))) => .bond members rest
      | .inr (.inr (.inr rest)) => .other rest,
    fun k => by cases k <;> rfl, fun k => by rcases k with _ | _ | _ | _ <;> rfl⟩
    (.either (.pair (.sorted (compareOn WgPeer.name) peerForm) .same)
      (.either (.pair (.sorted compareStrings .same) .same)
        (.either (.pair (.sorted compareStrings .same) .same) .same)))

def deviceForm : Form (Device ρ) :=
  .through
    ⟨fun x => (x.bridgeVlans, x.kind, x.name, x.sim, x.rest),
      fun x => ⟨x.2.2.1, x.1, x.2.1, x.2.2.2.1, x.2.2.2.2⟩, fun _ => rfl, fun _ => rfl⟩
    (.pair (.sorted compareBridgeVlan .same) (.pair kindForm .same))

/-- A DNS policy : its servers and its domains, the search list not. -/
def dnsForm : Form (DnsPolicy ρ) :=
  .through
    ⟨fun p => (p.servers, p.domains, p.search, p.options, p.rest),
      fun p => ⟨p.1, p.2.2.1, p.2.1, p.2.2.2.1, p.2.2.2.2⟩, fun _ => rfl, fun _ => rfl⟩
    (.pair (.sorted compareDnsServer .same) (.pair (.sorted compareRoutingDomain .same) .same))

/-- A DHCP server : its reservations and its options, what it hands out as servers not. -/
def dhcpServerForm : Form (DhcpServer ρ) :=
  .through
    ⟨fun s => (s.hosts, s.options, s.dns, s.rest), fun s => ⟨s.1, s.2.1, s.2.2.1, s.2.2.2⟩,
      fun _ => rfl, fun _ => rfl⟩
    (.pair (.sorted (compareOn Named.name) .same)
      (.pair (.sorted (compareOn Named.name) .same) .same))

def advertiseForm : Form (Advertise ρ) :=
  .through
    ⟨fun a => (a.prefixes, a.staticPrefixes, a.rest), fun a => ⟨a.1, a.2.1, a.2.2⟩, fun _ => rfl,
      fun _ => rfl⟩
    (.pair (.sorted comparePrefixRef .same) (.pair (.setOf compareStrings) .same))

/-- An interface : routes, hooks, forwards and what it serves, its addressing not. -/
def interfaceForm : Form (Interface ρ) :=
  .through
    ⟨fun i => (i.routes, i.hooks, i.dns, i.dhcpServer, i.portForwards, i.advertise, i.name,
        i.addressing, i.rest),
      fun i => ⟨i.2.2.2.2.2.2.1, i.2.2.2.2.2.2.2.1, i.1, i.2.1, i.2.2.1, i.2.2.2.1, i.2.2.2.2.1,
        i.2.2.2.2.2.1, i.2.2.2.2.2.2.2.2⟩, fun _ => rfl, fun _ => rfl⟩
    (.pair (.sorted compareRoute .same) <| .pair (.sorted compareHook .same) <|
      .pair (.optional dnsForm) <| .pair (.optional dhcpServerForm) <|
      .pair (.sorted (compareOn Named.name) .same) <| .pair (.optional advertiseForm) .same)

def networkForm : Form (Network ρ) :=
  .through
    ⟨fun n => (n.routes, n.hooks, n.dns, n.id, n.addressing, n.rest),
      fun n => ⟨n.2.2.2.1, n.2.2.2.2.1, n.1, n.2.1, n.2.2.1, n.2.2.2.2.2⟩, fun _ => rfl,
      fun _ => rfl⟩
    (.pair (.sorted compareRoute .same) <| .pair (.sorted compareHook .same) <|
      .pair (.optional dnsForm) .same)

def accessControlForm : Form (AccessControl ρ) :=
  .through
    ⟨fun a => (a.stations, a.prefixes, a.lists, a.written, a.rest),
      fun a => ⟨a.1, a.2.1, a.2.2.1, a.2.2.2.1, a.2.2.2.2⟩, fun _ => rfl, fun _ => rfl⟩
    (.pair (.setOf compareStrings) <| .pair (.setOf compareStrings) <|
      .pair (.setOf compareStrings) <| .pair (.setOf compareStrings) .same)

def accessPointForm : Form (AccessPoint ρ) :=
  .through
    ⟨fun a => (a.neighbours, a.accessControl, a.id, a.rest), fun a =>
      ⟨a.2.2.1, a.1, a.2.1, a.2.2.2⟩,
      fun _ => rfl, fun _ => rfl⟩
    (.pair (.sorted (compareOn Neighbour.bssid) .same) (.pair (.optional accessControlForm) .same))

def hostListForm : Form HostList :=
  .through ⟨fun h => (h.mac, h.name), fun h => ⟨h.2, h.1⟩, fun _ => rfl, fun _ => rfl⟩
    (.pair (.setOf compareStrings) .same)

def firewallRuleForm : Form (FirewallRule ρ) :=
  .through
    ⟨fun r => (r.mac, r.macLists, r.macWritten, r.rest), fun r => ⟨r.1, r.2.1, r.2.2.1, r.2.2.2⟩,
      fun _ => rfl, fun _ => rfl⟩
    (.pair (.setOf compareStrings) <| .pair (.setOf compareStrings) <|
      .pair (.setOf compareStrings) .same)

def chainForm : Form (FirewallChain ρ) :=
  .through ⟨fun c => (c.rules, c.rest), fun c => ⟨c.1, c.2⟩, fun _ => rfl, fun _ => rfl⟩
    (.pair (.each firewallRuleForm) .same)

def firewallForm : Form (Firewall ρ) :=
  .through
    ⟨fun f => (f.input, f.forward, f.output), fun f => ⟨f.1, f.2.1, f.2.2⟩, fun _ => rfl,
      fun _ => rfl⟩
    (.pair chainForm (.pair chainForm chainForm))

/-- The normal form of a document, field by field. -/
def documentForm : Form (Document ρ) :=
  .through
    ⟨fun d => (d.devices, d.interfaces, d.networks, d.bluetooth, d.rules, d.accessPoints,
        d.linksets, d.firewall, d.meshes, d.hostLists, d.dnsRecords, d.blockLists, d.dns, d.rest),
      fun (devices, interfaces, networks, bluetooth, rules, accessPoints, linksets, firewall,
          meshes, hostLists, dnsRecords, blockLists, dns, rest) =>
        ⟨devices, interfaces, networks, bluetooth, rules, accessPoints, linksets, firewall, meshes,
          hostLists, dnsRecords, blockLists, dns, rest⟩, fun _ => rfl, fun _ => rfl⟩
    (.pair (.sorted (compareOn Device.name) deviceForm) <|
      .pair (.sorted (compareOn Interface.name) interfaceForm) <|
      .pair (.sorted (compareOn Network.id) networkForm) <|
      .pair (.sorted (compareOn Named.name) .same) <|
      .pair (.sorted compareRule .same) <|
      .pair (.sorted (compareOn AccessPoint.id) accessPointForm) <|
      .pair (.sorted (compareOn Linkset.name) .same) <|
      .pair (.optional firewallForm) <|
      .pair (.sorted (compareOn Named.name) .same) <|
      .pair (.sorted (compareOn HostList.name) hostListForm) <|
      .pair (.sorted (compareOn Named.name) .same) <|
      .pair (.sorted (compareOn Named.name) .same) <|
      .pair dnsForm .same)

def Kind.peers : Kind ρ → List WgPeer
  | .wireguard peers _ => peers
  | _ => []

/-- Entries of one list are told apart by what it is sorted by. -/
structure Distinct (d : Document ρ) : Prop where
  devices : Form.OneEach Device.name canonicalizeDevice d.devices
  peers : ∀ x ∈ d.devices, Form.OneEach WgPeer.name canonicalizePeer x.kind.peers
  interfaces : Form.OneEach Interface.name canonicalizeInterface d.interfaces
  interfaceRoutes : ∀ i ∈ d.interfaces, ToldApart compareRoute i.routes
  interfaceServers : ∀ i ∈ d.interfaces, ∀ p ∈ i.dns, ToldApart compareDnsServer p.servers
  hosts : ∀ i ∈ d.interfaces, ∀ s ∈ i.dhcpServer, Form.OneEach Named.name id s.hosts
  options : ∀ i ∈ d.interfaces, ∀ s ∈ i.dhcpServer, Form.OneEach Named.name id s.options
  portForwards : ∀ i ∈ d.interfaces, Form.OneEach Named.name id i.portForwards
  networks : Form.OneEach Network.id canonicalizeNetwork d.networks
  networkRoutes : ∀ n ∈ d.networks, ToldApart compareRoute n.routes
  networkServers : ∀ n ∈ d.networks, ∀ p ∈ n.dns, ToldApart compareDnsServer p.servers
  bluetooth : Form.OneEach Named.name id d.bluetooth
  rules : Form.OneEach ruleKey id d.rules
  accessPoints : Form.OneEach AccessPoint.id canonicalizeAccessPoint d.accessPoints
  neighbours : ∀ a ∈ d.accessPoints, Form.OneEach Neighbour.bssid id a.neighbours
  linksets : Form.OneEach Linkset.name id d.linksets
  meshes : Form.OneEach Named.name id d.meshes
  hostLists : Form.OneEach HostList.name canonicalizeHostList d.hostLists
  dnsRecords : Form.OneEach Named.name id d.dnsRecords
  blockLists : Form.OneEach Named.name id d.blockLists
  servers : ToldApart compareDnsServer d.dns.servers

/-! ## Canonicalising is taking the normal form -/

theorem normal_peerForm : peerForm.normal = canonicalizePeer := by
  funext p
  simp only [peerForm, Form.through, Form.pair, Form.normal_sorted_same, canonicalizePeer]
  rfl

theorem normal_kindForm : (kindForm : Form (Kind ρ)).normal = canonicalizeKind := by
  funext k
  have hpeers : ∀ peers, (Form.sorted (compareOn WgPeer.name) peerForm).normal peers =
      (stableSort (compareOn WgPeer.name) peers).map canonicalizePeer := fun peers => by
    rw [Form.normal_sorted fun _ _ => rfl, normal_peerForm]
  cases k with
  | wireguard peers rest => exact congrArg (Kind.wireguard · rest) (hpeers peers)
  | bridge members rest => exact congrArg (Kind.bridge · rest) (Form.normal_sorted_same _ members)
  | bond members rest => exact congrArg (Kind.bond · rest) (Form.normal_sorted_same _ members)
  | other rest => rfl

theorem normal_deviceForm : (deviceForm : Form (Device ρ)).normal = canonicalizeDevice := by
  funext x
  simp only [deviceForm, Form.through, Form.pair, Form.normal_sorted_same, normal_kindForm]
  rfl

theorem normal_dnsForm : (dnsForm : Form (DnsPolicy ρ)).normal = canonicalizeDns := by
  funext p
  simp only [dnsForm, Form.through, Form.pair, Form.normal_sorted_same]
  rfl

theorem normal_dhcpServerForm :
    (dhcpServerForm : Form (DhcpServer ρ)).normal = canonicalizeDhcpServer := by
  funext s
  simp only [dhcpServerForm, Form.through, Form.pair, Form.normal_sorted_same]
  rfl

theorem normal_advertiseForm :
    (advertiseForm : Form (Advertise ρ)).normal = canonicalizeAdvertise := by
  funext a
  simp only [advertiseForm, Form.through, Form.pair, Form.normal_sorted_same]
  rfl

theorem normal_interfaceForm :
    (interfaceForm : Form (Interface ρ)).normal = canonicalizeInterface := by
  funext i
  simp only [interfaceForm, Form.through, Form.pair, Form.optional, Form.normal_sorted_same,
    normal_dnsForm, normal_dhcpServerForm, normal_advertiseForm]
  rfl

theorem normal_networkForm : (networkForm : Form (Network ρ)).normal = canonicalizeNetwork := by
  funext n
  simp only [networkForm, Form.through, Form.pair, Form.optional, Form.normal_sorted_same,
    normal_dnsForm]
  rfl

theorem normal_accessPointForm :
    (accessPointForm : Form (AccessPoint ρ)).normal = canonicalizeAccessPoint := by
  funext a
  simp only [accessPointForm, Form.through, Form.pair, Form.optional, Form.normal_sorted_same]
  rfl

/-- Canonicalizing is taking the normal form. -/
theorem canonicalize_eq (d : Document ρ) : canonicalize d = documentForm.normal d := by
  have hdevices : (Form.sorted (compareOn Device.name) deviceForm).normal d.devices =
      (stableSort (compareOn Device.name) d.devices).map canonicalizeDevice := by
    rw [Form.normal_sorted fun _ _ => rfl, normal_deviceForm]
  have hinterfaces : (Form.sorted (compareOn Interface.name) interfaceForm).normal d.interfaces =
      (stableSort (compareOn Interface.name) d.interfaces).map canonicalizeInterface := by
    rw [Form.normal_sorted fun _ _ => rfl, normal_interfaceForm]
  have hnetworks : (Form.sorted (compareOn Network.id) networkForm).normal d.networks =
      (stableSort (compareOn Network.id) d.networks).map canonicalizeNetwork := by
    rw [Form.normal_sorted fun _ _ => rfl, normal_networkForm]
  have hpoints : (Form.sorted (compareOn AccessPoint.id) accessPointForm).normal d.accessPoints =
      (stableSort (compareOn AccessPoint.id) d.accessPoints).map canonicalizeAccessPoint := by
    rw [Form.normal_sorted fun _ _ => rfl, normal_accessPointForm]
  have hhosts : (Form.sorted (compareOn HostList.name) hostListForm).normal d.hostLists =
      (stableSort (compareOn HostList.name) d.hostLists).map canonicalizeHostList :=
    Form.normal_sorted (fun _ _ => rfl) d.hostLists
  simp only [documentForm, Form.through, Form.pair, Form.normal_sorted_same, normal_dnsForm]
  dsimp only [Equiv.coe_fn_mk]
  rw [hdevices, hinterfaces, hnetworks, hpoints, hhosts]
  rfl

/-! ## When the order written does not matter -/

theorem told_named {α : Type} (name : α → String) (l : List α) :
    (Form.sorted (compareOn name) .same).Told l ↔ Form.OneEach name id l := by
  rw [Form.told_sorted compareOn_eq fun _ => rfl]
  exact and_iff_right fun _ _ => trivial

theorem told_strings (l : List String) : (Form.sorted compareStrings .same).Told l :=
  Form.told_sorted_all (fun _ _ => Std.LawfulEqCmp.eq_of_compare) l

theorem told_peerForm (p : WgPeer) : peerForm.Told p :=
  ⟨told_strings p.allowedIps, trivial⟩

theorem told_kindForm (k : Kind ρ) :
    kindForm.Told k ↔ Form.OneEach WgPeer.name canonicalizePeer k.peers := by
  have hnil : Form.OneEach WgPeer.name canonicalizePeer [] := fun a ha => by cases ha
  cases k with
  | wireguard peers rest =>
    change (Form.sorted (compareOn WgPeer.name) peerForm).Told peers ∧ True ↔ _
    rw [Form.told_sorted compareOn_eq fun _ => rfl, normal_peerForm]
    simp only [told_peerForm, implies_true, true_and, and_true]
    rfl
  | bridge members rest => exact iff_of_true ⟨told_strings members, trivial⟩ hnil
  | bond members rest => exact iff_of_true ⟨told_strings members, trivial⟩ hnil
  | other rest => exact iff_of_true trivial hnil

theorem told_deviceForm (x : Device ρ) :
    deviceForm.Told x ↔ Form.OneEach WgPeer.name canonicalizePeer x.kind.peers := by
  change (Form.sorted compareBridgeVlan .same).Told x.bridgeVlans ∧ kindForm.Told x.kind ∧ True ↔ _
  rw [told_kindForm, and_true]
  exact and_iff_right (Form.told_sorted_all eq_of_compareBridgeVlan _)

theorem told_dnsForm (p : DnsPolicy ρ) :
    dnsForm.Told p ↔ ToldApart compareDnsServer p.servers := by
  change (Form.sorted compareDnsServer .same).Told p.servers ∧
    (Form.sorted compareRoutingDomain .same).Told p.domains ∧ True ↔ _
  rw [Form.told_sorted_same, and_true]
  exact and_iff_left (Form.told_sorted_all eq_of_compareRoutingDomain _)

theorem told_dhcpServerForm (s : DhcpServer ρ) :
    dhcpServerForm.Told s ↔
      Form.OneEach Named.name id s.hosts ∧ Form.OneEach Named.name id s.options := by
  change (Form.sorted (compareOn Named.name) .same).Told s.hosts ∧
    (Form.sorted (compareOn Named.name) .same).Told s.options ∧ True ↔ _
  rw [told_named, told_named, and_true]

theorem told_routes (l : List Route) :
    (Form.sorted compareRoute .same).Told l ↔ ToldApart compareRoute l :=
  Form.told_sorted_same l

theorem told_hooks (l : List HookRef) : (Form.sorted compareHook .same).Told l :=
  Form.told_sorted_all eq_of_compareHook l

theorem told_interfaceForm (i : Interface ρ) :
    interfaceForm.Told i ↔ ToldApart compareRoute i.routes ∧
      (∀ p ∈ i.dns, ToldApart compareDnsServer p.servers) ∧
      (∀ s ∈ i.dhcpServer,
        Form.OneEach Named.name id s.hosts ∧ Form.OneEach Named.name id s.options) ∧
      Form.OneEach Named.name id i.portForwards := by
  have hadvertise : ∀ a ∈ i.advertise, advertiseForm.Told a := fun a _ =>
    ⟨Form.told_sorted_all eq_of_comparePrefixRef _, trivial, trivial⟩
  change (Form.sorted compareRoute .same).Told i.routes ∧
    (Form.sorted compareHook .same).Told i.hooks ∧ (∀ p ∈ i.dns, dnsForm.Told p) ∧
    (∀ s ∈ i.dhcpServer, dhcpServerForm.Told s) ∧
    (Form.sorted (compareOn Named.name) .same).Told i.portForwards ∧
    (∀ a ∈ i.advertise, advertiseForm.Told a) ∧ True ↔ _
  simp only [told_routes, told_hooks, told_dnsForm, told_dhcpServerForm, told_named, and_true,
    true_and]
  tauto

theorem told_networkForm (n : Network ρ) :
    networkForm.Told n ↔ ToldApart compareRoute n.routes ∧
      ∀ p ∈ n.dns, ToldApart compareDnsServer p.servers := by
  change (Form.sorted compareRoute .same).Told n.routes ∧
    (Form.sorted compareHook .same).Told n.hooks ∧ (∀ p ∈ n.dns, dnsForm.Told p) ∧ True ↔ _
  simp only [told_routes, told_hooks, told_dnsForm, and_true, true_and]

theorem told_accessPointForm (a : AccessPoint ρ) :
    accessPointForm.Told a ↔ Form.OneEach Neighbour.bssid id a.neighbours := by
  have hcontrol : ∀ c ∈ a.accessControl, accessControlForm.Told c := fun _ _ =>
    ⟨trivial, trivial, trivial, trivial, trivial⟩
  change (Form.sorted (compareOn Neighbour.bssid) .same).Told a.neighbours ∧
    (∀ c ∈ a.accessControl, accessControlForm.Told c) ∧ True ↔ _
  rw [told_named, and_true]
  exact and_iff_left hcontrol

theorem told_firewallForm (f : Firewall ρ) : firewallForm.Told f :=
  have hrules : ∀ c : FirewallChain ρ, chainForm.Told c := fun _ =>
    ⟨fun _ _ => ⟨trivial, trivial, trivial, trivial⟩, trivial⟩
  ⟨hrules f.input, hrules f.forward, hrules f.output⟩

theorem told_blocks {α : Type} (name : α → String) {f : Form α} {normal : α → α}
    (hnormal : f.normal = normal) (hname : ∀ a, name (normal a) = name a) (l : List α) :
    (Form.sorted (compareOn name) f).Told l ↔
      (∀ a ∈ l, f.Told a) ∧ Form.OneEach name normal l := by
  subst hnormal
  exact Form.told_sorted compareOn_eq hname l

theorem told_rules (l : List (RoutingRule ρ)) :
    (Form.sorted compareRule .same).Told l ↔ Form.OneEach ruleKey id l := by
  rw [Form.told_sorted compareRule_eq fun _ => rfl]
  exact and_iff_right fun _ _ => trivial

/-- The comparators tell a document's entries apart exactly where their keys differ. -/
theorem told_documentForm (d : Document ρ) : documentForm.Told d ↔ Distinct d := by
  have hhosts : ∀ h ∈ d.hostLists, hostListForm.Told h := fun _ _ => ⟨trivial, trivial⟩
  change (Form.sorted (compareOn Device.name) deviceForm).Told d.devices ∧
    (Form.sorted (compareOn Interface.name) interfaceForm).Told d.interfaces ∧
    (Form.sorted (compareOn Network.id) networkForm).Told d.networks ∧
    (Form.sorted (compareOn Named.name) .same).Told d.bluetooth ∧
    (Form.sorted compareRule .same).Told d.rules ∧
    (Form.sorted (compareOn AccessPoint.id) accessPointForm).Told d.accessPoints ∧
    (Form.sorted (compareOn Linkset.name) .same).Told d.linksets ∧
    (∀ f ∈ d.firewall, firewallForm.Told f) ∧
    (Form.sorted (compareOn Named.name) .same).Told d.meshes ∧
    (Form.sorted (compareOn HostList.name) hostListForm).Told d.hostLists ∧
    (Form.sorted (compareOn Named.name) .same).Told d.dnsRecords ∧
    (Form.sorted (compareOn Named.name) .same).Told d.blockLists ∧ dnsForm.Told d.dns ∧ True ↔ _
  have hnormal : hostListForm.normal = canonicalizeHostList := rfl
  simp only [told_blocks Device.name normal_deviceForm fun _ => rfl,
    told_blocks Interface.name normal_interfaceForm fun _ => rfl,
    told_blocks Network.id normal_networkForm fun _ => rfl,
    told_blocks AccessPoint.id normal_accessPointForm fun _ => rfl,
    told_blocks HostList.name hnormal fun _ => rfl, told_named, told_rules, told_deviceForm,
    told_interfaceForm, told_networkForm,
    told_accessPointForm, told_dnsForm, told_firewallForm]
  constructor
  · rintro ⟨⟨hpeers, hdevices⟩, ⟨hinterface, hinterfaces⟩, ⟨hnetwork, hnetworks⟩, hbluetooth,
      hrules, ⟨hneighbours, hpoints⟩, hlinksets, -, hmeshes, ⟨-, hlists⟩, hrecords, hblocks,
      hservers, -⟩
    exact {
      devices := hdevices
      peers := hpeers
      interfaces := hinterfaces
      interfaceRoutes := fun i hi => (hinterface i hi).1
      interfaceServers := fun i hi => (hinterface i hi).2.1
      hosts := fun i hi s hs => ((hinterface i hi).2.2.1 s hs).1
      options := fun i hi s hs => ((hinterface i hi).2.2.1 s hs).2
      portForwards := fun i hi => (hinterface i hi).2.2.2
      networks := hnetworks
      networkRoutes := fun n hn => (hnetwork n hn).1
      networkServers := fun n hn => (hnetwork n hn).2
      bluetooth := hbluetooth
      rules := hrules
      accessPoints := hpoints
      neighbours := hneighbours
      linksets := hlinksets
      meshes := hmeshes
      hostLists := hlists
      dnsRecords := hrecords
      blockLists := hblocks
      servers := hservers }
  · intro h
    exact ⟨⟨h.peers, h.devices⟩,
      ⟨fun i hi => ⟨h.interfaceRoutes i hi, h.interfaceServers i hi,
        fun s hs => ⟨h.hosts i hi s hs, h.options i hi s hs⟩, h.portForwards i hi⟩, h.interfaces⟩,
      ⟨fun n hn => ⟨h.networkRoutes n hn, h.networkServers n hn⟩, h.networks⟩, h.bluetooth,
      h.rules, ⟨h.neighbours, h.accessPoints⟩, h.linksets, fun _ _ => trivial, h.meshes,
      ⟨hhosts, h.hostLists⟩, h.dnsRecords, h.blockLists, h.servers, trivial⟩

/-- Canonicalising twice is canonicalising once, and what it makes is the document in another
order. Every other order is canonicalised to the same exactly when entries are told apart. -/
theorem canonicalize_iff (d : Document ρ) :
    canonicalize (canonicalize d) = canonicalize d ∧ documentForm.Alike d (canonicalize d) ∧
      ((∀ d', documentForm.Alike d d' → canonicalize d' = canonicalize d) ↔ Distinct d) := by
  have hnormal : (canonicalize : Document ρ → Document ρ) = documentForm.normal :=
    funext canonicalize_eq
  rw [hnormal, ← told_documentForm]
  exact ⟨documentForm.normal_normal d, documentForm.alike_normal d,
    (documentForm.told_iff d).symm⟩

def tunnelOf (peers : List WgPeer) : Document Unit where
  devices := [⟨"wg0", [], .wireguard peers (), [], ()⟩]
  interfaces := []
  networks := []
  bluetooth := []
  rules := []
  accessPoints := []
  linksets := []
  firewall := none
  meshes := []
  hostLists := []
  dnsRecords := []
  blockLists := []
  dns := ⟨[], [], [], [], ()⟩
  rest := ()

def peerOf (name : String) (key : UInt8) : WgPeer :=
  { name, publicKey := List.replicate 32 key, allowedIps := ["10.0.0.0/8"] }

/-- Two peers of one name, in either order, are two canonical documents. -/
theorem two_peers_of_one_name :
    documentForm.Alike (tunnelOf [peerOf "office" 1, peerOf "office" 2])
        (tunnelOf [peerOf "office" 2, peerOf "office" 1]) ∧
      canonicalize (tunnelOf [peerOf "office" 2, peerOf "office" 1]) ≠
        canonicalize (tunnelOf [peerOf "office" 1, peerOf "office" 2]) := by
  have hpeers : ∀ peers : List WgPeer, List.Forall₂ peerForm.Alike peers peers := fun peers =>
    List.forall₂_same.2 fun p _ => peerForm.alike_refl p
  have hkind : (kindForm : Form (Kind Unit)).Alike
      (.wireguard [peerOf "office" 1, peerOf "office" 2] ())
      (.wireguard [peerOf "office" 2, peerOf "office" 1] ()) :=
    Sum.LiftRel.inl ⟨⟨_, hpeers _, List.Perm.swap _ _ []⟩, rfl⟩
  have hdevices : (Form.sorted (compareOn Device.name) deviceForm).Alike
      (tunnelOf [peerOf "office" 1, peerOf "office" 2]).devices
      (tunnelOf [peerOf "office" 2, peerOf "office" 1]).devices :=
    ⟨(tunnelOf [peerOf "office" 2, peerOf "office" 1]).devices,
      List.Forall₂.cons ⟨Form.alike_refl _ _, hkind, rfl⟩ List.Forall₂.nil, List.Perm.refl _⟩
  refine ⟨⟨hdevices, ?_⟩, by decide +kernel⟩
  exact Form.alike_refl _ _

end Netcfgd.Canonical
