import Netcfgd.KeyedList

/-!
# Plans and journals

The vocabulary the planner, the executor and the record share : the action taxonomy of
`plan.h` (`Op`), an action with its declared inverse (`Action`), a plan (`Plan`) and the
journal of what became of each action (`Record`).

An action's id is its position in the plan : `ncfg_plan_add` is the only writer, so a
`Plan` carries the fact (`Plan.ids`). `actionWithId`, which `apply.c` and `owned.c` both
have, then finds the action at that position (`Plan.actionWithId_of_mem`).

The settings inside a link's kind, the peers of a WireGuard device, the policy of a DNS
scope, the selectors of a routing rule and the contents of the nftables table are carried
by their ops in the source and read by none of the functions over `Op`.
-/

namespace Netcfgd

/-! ## The action taxonomy -/

/-- `ncfg_backend_kind_t` : the daemons netcfgd drives. -/
inductive BackendKind
  | dhcp4 | dhcp6 | supplicant | accessPoint | wireguard | pppoe | openvpn | dns | routerAdvert
  | linkLocal | dhcpServer | upnp
  deriving DecidableEq, Repr

/-- `ncfg_hook_phase_t`. -/
inductive HookPhase
  | preUp | up | postUp | preDown | down | postDown | carrier | lease | roam | portal | drift
  deriving DecidableEq, Repr

/-- The arms of `ncfg_interface_kind_t`. -/
inductive LinkKind
  | physical | bridge | bond | vlan | vxlan | wireguard | pppoe | openvpn | dummy | veth | vrf
  | macvlan | tunnel | tun | ifb | meshPoint | radio
  deriving DecidableEq, Repr

/-- `ncfg_acl_policy_t` : which of an access point's station lists. -/
inductive AclPolicy
  | deny | allow
  deriving DecidableEq, Repr

/-- `NCFG_ROUTE_MAIN_TABLE` : the table of a route that names none. -/
def routeMainTable : ℤ :=
  254

/-- `ncfg_route_scope_t`. -/
inductive RouteScope
  | global | link | host
  deriving DecidableEq, Repr

/-- `ncfg_route_t`. -/
structure Route where
  /-- CIDR, or `default`. -/
  destination : String
  /-- The next hop : an address, never a prefix. -/
  via : Option String := none
  metric : Option ℤ := none
  table : Option ℤ := none
  src : Option String := none
  scope : Option RouteScope := none
  onlink : Bool := false
  proto : Option ℤ := none
  deriving DecidableEq, Repr

def Route.inTable (r : Route) : ℤ :=
  r.table.getD routeMainTable

/-- `ncfg_op_t` : what an action does. -/
inductive Op
  | linkCreate (name : String) (kind : LinkKind)
  | linkDelete (name : String)
  | linkSetMtu (name : String) (mtu : ℤ)
  | linkSetMac (name mac : String)
  | linkSetMaster (name master : String)
  | linkUnsetMaster (name : String)
  | linkUp (name : String)
  | linkDown (name : String)
  | addrAdd (iface addr : String) (preferred valid : Option ℤ)
  | addrDel (iface addr : String)
  | routeAdd (iface : String) (route : Route)
  | routeDel (iface : String) (route : Route)
  | backendStart (kind : BackendKind) (iface : String)
  | backendStop (kind : BackendKind) (iface : String)
  | backendReload (kind : BackendKind) (iface : String)
  | bridgeVlanAdd (iface : String) (vid : ℤ) (pvid untagged onSelf : Bool)
  | bridgeVlanDel (iface : String) (vid : ℤ) (pvid untagged onSelf : Bool)
  | wifiSetProfiles (device : String) (profiles : List String)
  | wifiAssociate (device networkId : String)
  | wifiDisassociate (device : String)
  | wifiSetRegdom (device country : String)
  | accessControlAdd (iface : String) (list : AclPolicy) (station : String)
  | accessControlDel (iface : String) (list : AclPolicy) (station : String)
  | neighbourAdd (iface bssid ssid nr : String)
  | neighbourDel (iface bssid ssid nr : String)
  | stationSteer (iface station : String) (target : Option String) (imminent : Bool)
  | linkSetBond (name : String) (mode : Bool)
  | linkSetBridge (name : String)
  | linkSetMacvlan (name : String)
  | linkSetTunnel (name : String)
  | linkSetVxlan (name : String)
  | wgSetDevice (iface : String) (privateKeyRef : String) (listenPort fwmark : Option ℤ)
  | wgSetPeers (iface : String)
  | dnsApply (scope : String)
  | linkSetOffloads (name : String) (features : List (String × Bool))
  | linkSetWds (name : String) (on : Bool)
  | linkSetIpv6Token (name token : String)
  | ruleAdd (priority : ℤ)
  | ruleDel (priority : ℤ)
  | qdiscSet (iface kind : String) (bandwidthBits : Option ℤ) (ingress : Bool)
  | qdiscReset (iface : String)
  | ingressRedirect (iface target : String)
  | ingressRedirectClear (iface : String)
  | sysctlSetForwarding (iface : String) (enabled : Bool)
  | sysctlSetPrivacy (iface : String) (preferTemporary : Bool)
  | sysctlSetAcceptRa (iface : String) (value : ℤ)
  | hostnameSet (name : String)
  | nftablesReplace
  | hookRun (iface : String) (phase : HookPhase) (path : String) (value : Option String)
  | commitArm (windowSeconds : ℤ)
  | commitConfirm
  | commitRevert (toDocumentHash : String)
  deriving DecidableEq, Repr

namespace Op

/-- `ncfg_op_name` : the wire tag. -/
def name : Op → String
  | linkCreate .. => "link.create"
  | linkDelete .. => "link.delete"
  | linkSetMtu .. => "link.set_mtu"
  | linkSetMac .. => "link.set_mac"
  | linkSetMaster .. => "link.set_master"
  | linkUnsetMaster .. => "link.unset_master"
  | linkUp .. => "link.up"
  | linkDown .. => "link.down"
  | addrAdd .. => "addr.add"
  | addrDel .. => "addr.del"
  | routeAdd .. => "route.add"
  | routeDel .. => "route.del"
  | backendStart .. => "backend.start"
  | backendStop .. => "backend.stop"
  | backendReload .. => "backend.reload"
  | bridgeVlanAdd .. => "bridge.vlan.add"
  | bridgeVlanDel .. => "bridge.vlan.del"
  | wifiSetProfiles .. => "wifi.set_profiles"
  | wifiAssociate .. => "wifi.associate"
  | wifiDisassociate .. => "wifi.disassociate"
  | wifiSetRegdom .. => "wifi.set_regdom"
  | accessControlAdd .. => "access_control.add"
  | accessControlDel .. => "access_control.del"
  | neighbourAdd .. => "neighbour.add"
  | neighbourDel .. => "neighbour.del"
  | stationSteer .. => "station.steer"
  | linkSetBond .. => "link.set_bond"
  | linkSetBridge .. => "link.set_bridge"
  | linkSetMacvlan .. => "link.set_macvlan"
  | linkSetTunnel .. => "link.set_tunnel"
  | linkSetVxlan .. => "link.set_vxlan"
  | wgSetDevice .. => "wg.set_device"
  | wgSetPeers .. => "wg.set_peers"
  | dnsApply .. => "dns.apply"
  | linkSetOffloads .. => "link.set_offloads"
  | linkSetWds .. => "link.set_wds"
  | linkSetIpv6Token .. => "link.set_ipv6_token"
  | ruleAdd .. => "rule.add"
  | ruleDel .. => "rule.del"
  | qdiscSet .. => "qdisc.set"
  | qdiscReset .. => "qdisc.reset"
  | ingressRedirect .. => "ingress.redirect"
  | ingressRedirectClear .. => "ingress.redirect.clear"
  | sysctlSetForwarding .. => "sysctl.set_forwarding"
  | sysctlSetPrivacy .. => "sysctl.set_privacy"
  | sysctlSetAcceptRa .. => "sysctl.set_accept_ra"
  | hostnameSet .. => "hostname.set"
  | nftablesReplace => "nftables.replace"
  | hookRun .. => "hook.run"
  | commitArm .. => "commit.arm"
  | commitConfirm => "commit.confirm"
  | commitRevert .. => "commit.revert"

/-- `ncfg_op_interface` : the interface this acts on, where it acts on one. -/
def interface : Op → Option String
  | linkCreate n _ | linkDelete n | linkSetMtu n _ | linkSetMac n _ | linkSetMaster n _
  | linkUnsetMaster n | linkUp n | linkDown n | addrAdd n _ _ _ | addrDel n _ | routeAdd n _
  | routeDel n _ | backendStart _ n | backendStop _ n | backendReload _ n
  | bridgeVlanAdd n _ _ _ _ | bridgeVlanDel n _ _ _ _ | wifiSetProfiles n _ | wifiAssociate n _
  | wifiDisassociate n | wifiSetRegdom n _ | accessControlAdd n _ _ | accessControlDel n _ _
  | neighbourAdd n _ _ _ | neighbourDel n _ _ _ | stationSteer n _ _ _ | linkSetBond n _
  | linkSetBridge n | linkSetMacvlan n | linkSetTunnel n | linkSetVxlan n | wgSetDevice n _ _ _
  | wgSetPeers n | linkSetOffloads n _ | linkSetWds n _ | linkSetIpv6Token n _ | qdiscSet n _ _ _
  | qdiscReset n | ingressRedirect n _ | ingressRedirectClear n | sysctlSetForwarding n _
  | sysctlSetPrivacy n _ | sysctlSetAcceptRa n _ | hookRun n _ _ _ => some n
  -- the table, the rules, the hostname and the resolver belong to the host
  | ruleAdd _ | ruleDel _ | nftablesReplace | hostnameSet _ | dnsApply _ | commitArm _
  | commitConfirm | commitRevert _ => none

/-- `ncfg_op_is_host_wide_config`. -/
def isHostWideConfig : Op → Bool
  | dnsApply _ | hostnameSet _ => true
  | _ => false

end Op

/-! ## Plans -/

/-- `ncfg_reason_t` : which desired field differs from which observed one. -/
structure Reason where
  interface : Option String := none
  field : String
  desired : String
  observed : String
  deriving DecidableEq, Repr

/-- `ncfg_action_t` : one step of a plan. -/
structure Action where
  id : ℕ
  op : Op
  reason : Reason
  dependsOn : List ℕ := []
  /-- How to undo it. `none` is irreversible. -/
  inverse : Option Op := none
  deriving DecidableEq, Repr

/-- `action_with_id`, of `apply.c` and `owned.c` : matched by id, not by position. -/
def actionWithId (actions : List Action) (id : ℕ) : Option Action :=
  actions.find? fun a => a.id = id

/-- A plan : its actions, numbered by position. -/
structure Plan where
  actions : List Action
  ids : ∀ (i : ℕ) (hi : i < actions.length), actions[i].id = i

namespace Plan

/-- `ncfg_plan_new`. -/
def empty : Plan where
  actions := []
  ids i hi := absurd hi (by simp)

/-- `ncfg_plan_add` : append an action. Its id is the count before it. -/
def add (p : Plan) (op : Op) (reason : Reason) (dependsOn : List ℕ) (inverse : Option Op) :
    Plan where
  actions := p.actions ++ [{ id := p.actions.length, op, reason, dependsOn, inverse }]
  ids i hi := by
    rcases Nat.lt_or_ge i p.actions.length with h | h
    · rw [List.getElem_append_left h]
      exact p.ids i h
    · obtain rfl : i = p.actions.length := by simp at hi; omega
      simp

theorem ids_nodup (p : Plan) : (p.actions.map Action.id).Nodup := by
  have h : p.actions.map Action.id = List.range p.actions.length := by
    refine List.ext_getElem (by simp) fun i hi _ => ?_
    simpa using p.ids i (by simpa using hi)
  rw [h]
  exact List.nodup_range

theorem actionWithId_of_mem (p : Plan) {a : Action} (ha : a ∈ p.actions) :
    actionWithId p.actions a.id = some a :=
  KeyedList.find_of_mem p.ids_nodup ha

end Plan

/-- `ncfg_plan_options_t`. -/
structure PlanOptions where
  confirmWindow : Option ℤ := none
  revertTo : Option String := none
  allowDisruption : List String := []
  strandCredentials : List String := []
  restartWedged : List String := []
  cycle : List String := []
  deriving DecidableEq, Repr

/-! ## Journals -/

inductive Outcome
  | done
  | failed
  | skipped
  /-- Ran and failed, optional : the plan went on. -/
  | unmet
  | reverted
  deriving DecidableEq, Repr

/-- `ncfg_record_t` : one action's entry in the journal. -/
structure Record where
  id : ℕ
  op : String
  interface : Option String
  reason : Reason
  outcome : Outcome
  error : Option String := none
  deriving DecidableEq, Repr

abbrev Journal := List Record

/-- `ncfg_journal_succeeded` : every action ran and was accepted. -/
def Journal.succeeded (j : Journal) : Bool :=
  j.all fun r => r.outcome = .done ∨ r.outcome = .reverted

end Netcfgd
