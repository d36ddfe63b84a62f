import Netcfgd.Owned

/-!
# The desired document and the observation

The parts of `document.h` and `observed.h` that the address and route passes of the planner
read, with the model's own answers over them : an interface's effective metric
(`observed_link.c`), the member of a linkset in use (`linkset.c`), and the interfaces a
linkset holds in reserve (`standby.c`).

A `Document` carries that no two interfaces share a name, which `ncfg_document_validate`
refuses.
-/

namespace Netcfgd

/-! ## The document -/

/-- `ncfg_static_address_t`. -/
structure StaticAddress where
  address : String
  preferredLifetime : Option ℤ := none
  validLifetime : Option ℤ := none
  deriving DecidableEq, Repr

/-- `ncfg_prefix_ref_t` : a delegated prefix, by the interface that leases it. -/
structure PrefixRef where
  source : String
  index : ℤ
  subnet : ℤ := 0
  deriving DecidableEq, Repr

/-- `ncfg_address_source_t`. -/
inductive AddressSource
  | static (address : StaticAddress)
  | dhcp4
  | dhcp6
  /-- Temporary addresses are asked for with it, or not. -/
  | slaac (preferTemporary : Bool)
  | linkLocal
  | delegated (ref : PrefixRef) (suffix : String)
  | reported
  deriving DecidableEq, Repr

/-- `ncfg_hook_ref_t` : a script and the phase it is for. -/
structure Hook where
  phase : HookPhase
  path : String
  deriving DecidableEq, Repr

/-- `ncfg_interface_t`. -/
structure Interface where
  name : String
  enabled : Bool := true
  preference : Option ℤ := none
  addressing : List AddressSource := []
  routes : List Route := []
  /-- Why traffic over it is not to be interrupted, where it carries a guard. -/
  guard : Option String := none
  hooks : List Hook := []
  forwarding : Option Bool := none
  deriving DecidableEq, Repr

/-- `ncfg_vlan_protocol_t` : the tag of a VLAN. -/
inductive VlanProtocol
  | dot1q | dot1ad
  deriving DecidableEq, Repr

/-- `ncfg_tunnel_kind_t` : the encapsulation of a tunnel. -/
inductive TunnelKind
  | gre | gretap | ip6gre | ipip | sit | ip6tnl | geneve
  deriving DecidableEq, Repr

/-- `ncfg_qdisc_kind_t`. -/
inductive QdiscKind
  | fqCodel | cake | fq | pfifoFast | noqueue
  deriving DecidableEq, Repr

/-- `ncfg_qdisc_t` : how a device's egress is shaped. -/
structure Qdisc where
  kind : QdiscKind
  bandwidthBits : Option ℤ := none
  ingress : Bool := false
  deriving DecidableEq, Repr

/-- `ncfg_bridge_vlan_t` : a VLAN of a bridge port. -/
structure BridgeVlan where
  vid : ℤ
  pvid : Bool := false
  untagged : Bool := false
  deriving DecidableEq, Repr

/-- `ncfg_on_unmanage_t` : what becomes of a device that is no longer managed. -/
inductive OnUnmanage
  | leave | clear
  deriving DecidableEq, Repr

/-- `ncfg_device_t`. -/
structure Device where
  name : String
  kind : LinkKind
  /-- The other end, where the device is a veth. -/
  vethPeer : Option String := none
  managed : Bool := true
  onUnmanage : OnUnmanage := .leave
  mtu : Option ℤ := none
  mac : Option String := none
  master : Option String := none
  parent : Option String := none
  vlanId : ℤ := 0
  vlanProtocol : VlanProtocol := .dot1q
  tunnel : TunnelKind := .gre
  wds : Bool := false
  qdisc : Option Qdisc := none
  ingressRedirect : Option String := none
  bridgeVlans : List BridgeVlan := []
  deriving DecidableEq, Repr

/-- `ncfg_wifi_network_t`. -/
structure WifiNetwork where
  id : String
  metric : Option ℤ := none
  deriving DecidableEq, Repr

/-- `ncfg_linkset_t` : a ranked list of interfaces, networks and other sets. -/
structure Linkset where
  name : String
  members : List String
  deriving DecidableEq, Repr

/-- `ncfg_hostname_policy_t`. -/
inductive HostnamePolicy
  | none
  | fromDhcp
  | static (name : String)
  deriving DecidableEq, Repr

/-- `ncfg_document_t`. -/
structure Document where
  devices : List Device := []
  interfaces : List Interface := []
  networks : List WifiNetwork := []
  linksets : List Linkset := []
  accessPoints : List String := []
  /-- `globals.hostname_policy`. -/
  hostname : HostnamePolicy := .none
  /-- `globals.locked` : the subjects no action may touch. -/
  locked : List String := []
  /-- `ncfg_document_validate` refuses two interfaces of one name. -/
  names : (interfaces.map Interface.name).Nodup
  /-- `ncfg_document_validate` refuses two devices of one name. -/
  deviceNames : (devices.map Device.name).Nodup := by decide

namespace Document

variable (d : Document)

/-- `ncfg_document_device`. -/
def device (name : String) : Option Device :=
  d.devices.find? fun x => x.name = name

/-- `ncfg_plan_interface`. -/
def interface (name : String) : Option Interface :=
  d.interfaces.find? fun x => x.name = name

/-- `find_network`. -/
def network (id : String) : Option WifiNetwork :=
  d.networks.find? fun x => x.id = id

/-- `ncfg_linkset_find`. -/
def linkset (name : String) : Option Linkset :=
  d.linksets.find? fun x => x.name = name

theorem interface_of_mem {i : Interface} (hi : i ∈ d.interfaces) : d.interface i.name = some i :=
  KeyedList.find_of_mem d.names hi

theorem mem_of_interface {name : String} {i : Interface} (h : d.interface name = some i) :
    i ∈ d.interfaces ∧ i.name = name :=
  ⟨List.mem_of_find?_eq_some h, by simpa using List.find?_some h⟩

end Document

/-! ## The observation -/

/-- `ncfg_ownership_t`. -/
inductive Ownership
  | ours | foreign | unknown
  deriving DecidableEq, Repr

/-- `ncfg_ownership_may_remove`. -/
def Ownership.mayRemove (o : Ownership) : Bool :=
  o = .ours

/-- `ncfg_observed_vlan_t` : what the kernel answered about a VLAN. -/
structure ObservedVlan where
  id : Option ℤ := none
  protocol : Option String := none
  deriving DecidableEq, Repr

/-- `ncfg_observed_accept_ra_t`. -/
structure ObservedAcceptRa where
  value : ℤ
  /-- Whether advertisements are accepted, its forwarding counted in. -/
  effective : Bool
  deriving DecidableEq, Repr

/-- `ncfg_observed_link_t`. -/
structure ObservedLink where
  name : String
  carrier : Bool
  /-- What its probe last said, where it has one. -/
  reachable : Option Bool := none
  /-- The configured network a radio has joined. -/
  network : Option String := none
  index : ℤ := 0
  up : Bool := true
  /-- The kernel's word for its kind, empty for hardware. -/
  kind : String := ""
  parent : Option String := none
  vlan : Option ObservedVlan := none
  ownership : Ownership := .unknown
  mtu : ℤ := 1500
  mac : Option String := none
  master : Option String := none
  wireless : Bool := false
  wds : Bool := false
  qdisc : Option String := none
  qdiscBandwidthBits : Option ℤ := none
  qdiscIngress : Bool := false
  ingressRedirect : Option String := none
  forwarding : Option Bool := none
  privacy : Option Bool := none
  acceptRa : Option ObservedAcceptRa := none
  deriving DecidableEq, Repr

/-- `ncfg_observed_bridge_vlan_t` : a VLAN on the port of an index. -/
structure ObservedBridgeVlan where
  index : ℤ
  vid : ℤ
  pvid : Bool := false
  untagged : Bool := false
  deriving DecidableEq, Repr

/-- `ncfg_observed_address_t`. -/
structure ObservedAddress where
  interface : String
  address : String
  origin : Option Origin
  ownership : Ownership
  deriving DecidableEq, Repr

/-- `ncfg_observed_route_t`. -/
structure ObservedRoute where
  interface : String
  destination : String
  via : Option String
  metric : Option ℤ
  table : Option ℤ
  src : Option String
  scope : Option RouteScope
  proto : Option ℤ
  origin : Option Origin
  ownership : Ownership
  deriving DecidableEq, Repr

/-- A route a client has reported. -/
structure ReportedRoute where
  destination : String
  via : Option String
  deriving DecidableEq, Repr

/-- `ncfg_observed_report_t` : what a tunnel or a bearer says it was given. -/
structure ObservedReport where
  interface : String
  addresses : List String := []
  gateways : List String := []
  routes : List ReportedRoute := []
  deriving DecidableEq, Repr

/-- `ncfg_delegation_t` : the prefixes delegated to an interface. -/
structure Delegation where
  interface : String
  prefixes : List String
  deriving DecidableEq, Repr

/-- `ncfg_observed_t`. -/
structure Observed where
  links : List ObservedLink := []
  addresses : List ObservedAddress := []
  routes : List ObservedRoute := []
  reports : List ObservedReport := []
  delegations : List Delegation := []
  backends : List ObservedBackend := []
  bridgeVlans : List ObservedBridgeVlan := []
  hostname : Option String := none
  /-- The interfaces netcfgd set a qdisc on, and the others it set something on. -/
  qdiscApplied : List String := []
  ingressApplied : List String := []
  forwardingApplied : List String := []
  privacyApplied : List String := []
  acceptRaApplied : List String := []
  vlanOnce : (bridgeVlans.map fun v => (v.index, v.vid)).Nodup := by decide
  deriving DecidableEq, Repr

namespace Observed

variable (o : Observed)

/-- `ncfg_observed_link`. -/
def link (name : String) : Option ObservedLink :=
  o.links.find? fun x => x.name = name

/-- `ncfg_plan_report_for`. -/
def report (name : String) : Option ObservedReport :=
  o.reports.find? fun x => x.interface = name

/-- `ncfg_observed_delegation`. -/
def delegation (interface : String) : Option Delegation :=
  o.delegations.find? fun x => x.interface = interface

end Observed

/-- `ncfg_observed_effective_metric` : the metric of the network a radio has joined, where
it has one, and else the interface's preference. -/
def effectiveMetric (d : Document) (o : Observed) (i : Interface) : Option ℤ :=
  let joined := ((o.link i.name).bind ObservedLink.network).bind d.network
  match joined.bind WifiNetwork.metric with
  | some metric => some metric
  | none => i.preference

/-! ## Linksets -/

/-- Why a member of a set is not chosen. -/
inductive Ineligible
  | noCarrier | probe | absent | unjoined | empty | cycle
  deriving DecidableEq, Repr

/-- `ncfg_standing_t` : where a member of a set stands. -/
structure Standing where
  name : String
  interface : Option String := none
  metric : Option ℤ := none
  ineligible : Option Ineligible := none
  deriving DecidableEq, Repr

/-- `ncfg_chosen_t` : what a set is using. -/
structure Chosen where
  name : String
  active : Option String := none
  interface : Option String := none
  members : List Standing := []
  deriving DecidableEq, Repr

/-- `rank_of` : lower wins, and absent is 0, the strongest. -/
def Standing.rank (s : Standing) : ℤ :=
  s.metric.getD 0

/-- `unusable` : what stops a link from carrying traffic. -/
def unusable (o : Observed) (name : String) : Option Ineligible :=
  match o.link name with
  | none => none
  | some link =>
    if !link.carrier then some .noCarrier
    else if link.reachable = some false then some .probe
    else none

/-- `stand_on_network` : on the radio that joined it. -/
def standOnNetwork (d : Document) (o : Observed) (member : String) : Standing :=
  let metric := (d.network member).bind WifiNetwork.metric
  match o.links.find? fun l => l.network = some member with
  | none => { name := member, metric, ineligible := some .unjoined }
  | some link =>
    { name := member, metric, interface := some link.name, ineligible := unusable o link.name }

/-- `stand_on_interface` : on itself. -/
def standOnInterface (d : Document) (o : Observed) (member : String) : Standing :=
  let metric := (d.interface member).bind Interface.preference
  match o.link member with
  | none => { name := member, metric, ineligible := some .absent }
  | some _ =>
    { name := member, metric, interface := some member, ineligible := unusable o member }

/-- `stand_on_set` : wherever the set's own choice does. `nested` is that choice, `none`
where the sets are nested too deep. -/
def standOnSet (within : List String) (nested : String → Option (Option Chosen))
    (member : String) : Standing :=
  if member ∈ within then { name := member, ineligible := some .cycle }
  else
    match nested member with
    | none => { name := member, ineligible := some .cycle }
    | some none => { name := member, ineligible := some .absent }
    | some (some inner) =>
      match inner.active.bind fun a => inner.members.find? fun m => m.name = a with
      | some winner => { name := member, interface := inner.interface, metric := winner.metric }
      | none => { name := member, interface := inner.interface, ineligible := some .empty }

/-- `stand` : a set before a network, a network before an interface. -/
def stand (d : Document) (o : Observed) (within : List String)
    (nested : String → Option (Option Chosen)) (member : String) : Standing :=
  if (d.linkset member).isSome then standOnSet within nested member
  else if (d.network member).isSome then standOnNetwork d o member
  else standOnInterface d o member

/-- The best of the eligible : the lowest rank, ties to the first listed. -/
def bestStanding (members : List Standing) : Option Standing :=
  members.foldl (fun best m =>
    if m.ineligible.isSome then best
    else
      match best with
      | none => some m
      | some b => if m.rank < b.rank then some m else some b) none

def chooseAmong (set : Linkset) (members : List Standing) : Chosen :=
  let best := bestStanding members
  { name := set.name, active := best.map Standing.name, interface := best.bind Standing.interface
    members }

/-- `choose_within` : `depth` more sets may be entered, `within` are being resolved. -/
def chooseWithin (d : Document) (o : Observed) : ℕ → List String → String → Option Chosen
  | 0, within, name =>
    (d.linkset name).map fun set =>
      chooseAmong set (set.members.map (stand d o within fun _ => none))
  | depth + 1, within, name =>
    (d.linkset name).map fun set =>
      chooseAmong set (set.members.map
        (stand d o within fun m => some (chooseWithin d o depth (within ++ [m]) m)))

/-- `NCFG_LINKSET_MAX_DEPTH`. -/
def linksetMaxDepth : ℕ :=
  8

/-- `ncfg_linkset_choose` : the set asked about counts as being resolved. -/
def linksetChoose (d : Document) (o : Observed) (name : String) : Option Chosen :=
  chooseWithin d o (linksetMaxDepth - 1) [name] name

/-! ## Standby -/

/-- `ncfg_plan_standby_t` : an interface a set holds in reserve. -/
structure Standby where
  interface : String
  set : String
  instead : Option String
  deriving DecidableEq, Repr

/-- `reserve` : the last set to say so is the one named. -/
def reserve (standby : List Standby) (s : Standby) : List Standby :=
  KeyedList.bump Standby.interface s (fun old => { old with set := s.set, instead := s.instead })
    standby

/-- The loop of `ncfg_plan_standby_collect` over one set : what is reserved, and what is
chosen. -/
def collectSet (d : Document) (o : Observed) (acc : List Standby × List String) (set : Linkset) :
    List Standby × List String :=
  match linksetChoose d o set.name with
  | none => acc
  | some decision =>
    ((decision.members.filterMap Standing.interface).foldl
      (fun standby m => reserve standby ⟨m, set.name, decision.active⟩) acc.1,
      acc.2 ++ decision.interface.toList)

/-- `ncfg_plan_standby_collect` : every member's interface, less those some set is using. -/
def standbyCollect (d : Document) (o : Observed) : List Standby :=
  let (standby, chosen) := d.linksets.foldl (collectSet d o) ([], [])
  standby.filter fun s => s.interface ∉ chosen

/-- `ncfg_plan_standby_of`. -/
def standbyOf (standby : List Standby) (name : String) : Option Standby :=
  standby.find? fun s => s.interface = name

/-! ## What standby reads

The choice reads the links and nothing else of the observation, and of a link it does not read
whether it is up. -/

def ObservedLink.lowered (l : ObservedLink) : ObservedLink :=
  { l with up := false }

def SameLinks (o o' : Observed) : Prop :=
  o.links.map ObservedLink.lowered = o'.links.map ObservedLink.lowered

section Links

variable {o o' : Observed} (h : SameLinks o o')

include h

theorem SameLinks.find {p : ObservedLink → Bool} (hp : ∀ l, p l.lowered = p l) :
    (o.links.find? p).map ObservedLink.lowered = (o'.links.find? p).map ObservedLink.lowered := by
  have hfind : ∀ links : List ObservedLink, (links.map ObservedLink.lowered).find? p =
      (links.find? p).map ObservedLink.lowered := fun links => by
    rw [List.find?_map, show p ∘ ObservedLink.lowered = p from funext hp]
  rw [← hfind, ← hfind, h]

theorem SameLinks.link (name : String) :
    (o.link name).map ObservedLink.lowered = (o'.link name).map ObservedLink.lowered :=
  h.find fun _ => rfl

theorem SameLinks.link_map {α : Type*} (f : ObservedLink → α) (hf : ∀ l, f l.lowered = f l)
    (name : String) : (o.link name).map f = (o'.link name).map f := by
  have hlink := congrArg (Option.map f) (h.link name)
  rwa [Option.map_map, Option.map_map, show f ∘ ObservedLink.lowered = f from funext hf] at hlink

theorem SameLinks.link_bind {α : Type*} (f : ObservedLink → Option α)
    (hf : ∀ l, f l.lowered = f l) (name : String) :
    (o.link name).bind f = (o'.link name).bind f := by
  have hmap := h.link_map f hf name
  rcases hl : o.link name with _ | l <;> rcases hl' : o'.link name with _ | l' <;> simp_all

theorem unusable_congr : unusable o = unusable o' := by
  funext name
  have hcarrier := h.link_map (fun l => (l.carrier, l.reachable)) (fun _ => rfl) name
  unfold unusable
  rcases hl : o.link name with _ | l <;> rcases hl' : o'.link name with _ | l' <;> simp_all

theorem stand_congr (d : Document) : stand d o = stand d o' := by
  have hnetwork : standOnNetwork d o = standOnNetwork d o' := by
    funext member
    have hfind := congrArg (Option.map ObservedLink.name)
      (h.find (p := fun l => l.network = some member) fun _ => rfl)
    unfold standOnNetwork
    rw [unusable_congr h]
    generalize o.links.find? (fun l => l.network = some member) = l at hfind ⊢
    generalize o'.links.find? (fun l => l.network = some member) = l' at hfind ⊢
    rcases l with _ | l <;> rcases l' with _ | l' <;> simp_all [ObservedLink.lowered]
  have hinterface : standOnInterface d o = standOnInterface d o' := by
    funext member
    have hlink := h.link_map (fun _ => ()) (fun _ => rfl) member
    simp only [standOnInterface, unusable_congr h]
    rcases hl : o.link member with _ | l <;> rcases hl' : o'.link member with _ | l' <;> simp_all
  funext within nested member
  simp only [stand, hnetwork, hinterface]

theorem chooseWithin_congr (d : Document) :
    ∀ depth, chooseWithin d o depth = chooseWithin d o' depth
  | 0 => by
    funext within name
    simp only [chooseWithin, stand_congr h]
  | depth + 1 => by
    funext within name
    simp only [chooseWithin, stand_congr h, chooseWithin_congr d depth]

theorem standbyCollect_congr (d : Document) : standbyCollect d o = standbyCollect d o' := by
  have hset : collectSet d o = collectSet d o' := by
    funext acc set
    simp only [collectSet, linksetChoose, chooseWithin_congr h]
  rw [standbyCollect, standbyCollect, hset]

end Links

end Netcfgd
