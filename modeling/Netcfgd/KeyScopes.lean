import Mathlib.Data.List.Basic

/-!
# How far a key travels

`compile/scope.c` : the blocks of the language, the spellings that mean one thing, the scope of a
key by its path within its block (`scopeOf`), and the numbers the travelling keys are carried under
(`kindOf`).
-/

namespace Netcfgd.KeyScopes

abbrev Text := List Char

/-- `ncfg_block_t`. -/
inductive Block
  | global | device | interface | network | accessPoint | bluetooth | rule
  | linkset | firewall | mesh | hostList | dnsRecord | blockList
  deriving DecidableEq, Repr

/-- `BLOCK_NAMES`. -/
def blockNames : List (Text × Block) :=
  [("global".toList, .global), ("device".toList, .device), ("interface".toList, .interface),
   ("network".toList, .network), ("access_point".toList, .accessPoint),
   ("bluetooth".toList, .bluetooth), ("rule".toList, .rule), ("linkset".toList, .linkset),
   ("firewall".toList, .firewall), ("mesh".toList, .mesh), ("host_list".toList, .hostList),
   ("dns_record".toList, .dnsRecord), ("block_list".toList, .blockList)]

/-- `ncfg_block_from_name`. -/
def blockFromName (name : Text) : Option Block :=
  (blockNames.find? fun b => b.1 = name).map Prod.snd

/-- `ncfg_scope_t`. -/
inductive Scope
  | hostPrivate | host | group | estate
  deriving DecidableEq, Repr

/-- `ncfg_block_default_scope`. -/
def blockDefaultScope : Block → Scope
  | .global | .device | .bluetooth | .firewall => .hostPrivate
  | .interface | .linkset => .host
  | .rule | .dnsRecord | .blockList => .group
  | .network | .accessPoint | .mesh | .hostList => .estate

/-- `ALIASES`. -/
def aliases : List (Block × Text × Text) :=
  [(.global, "dns.dns".toList, "dns".toList), (.global, "dns.servers".toList, "dns".toList),
   (.global, "dns.dns_search".toList, "dns_search".toList),
   (.global, "dns.search".toList, "dns_search".toList),
   (.global, "dns.dns_mode".toList, "dns_mode".toList),
   (.global, "dns.mode".toList, "dns_mode".toList),
   (.global, "dns.dns_domains".toList, "dns_domains".toList),
   (.global, "dns.domains".toList, "dns_domains".toList),
   (.interface, "dns.dns".toList, "dns".toList), (.interface, "dns.servers".toList, "dns".toList),
   (.interface, "dns.dns_search".toList, "dns_search".toList),
   (.interface, "dns.search".toList, "dns_search".toList),
   (.interface, "dns.dns_mode".toList, "dns_mode".toList),
   (.interface, "dns.mode".toList, "dns_mode".toList),
   (.interface, "dns.dns_domains".toList, "dns_domains".toList),
   (.interface, "dns.domains".toList, "dns_domains".toList),
   (.network, "dns.servers".toList, "dns.dns".toList),
   (.network, "dns.search".toList, "dns.dns_search".toList),
   (.network, "dns.mode".toList, "dns.dns_mode".toList),
   (.network, "dns.domains".toList, "dns.dns_domains".toList),
   (.rule, "lookup".toList, "table".toList)]

/-- `ncfg_key_canonical`. -/
def keyCanonical (block : Block) (path : Text) : Text :=
  ((aliases.find? fun a => a.1 = block ∧ a.2.1 = path).map fun a => a.2.2).getD path

/-- `EXCEPTIONS`. -/
def exceptions : List (Block × Text × Scope) :=
  [(.global, "dns".toList, .estate), (.global, "dns_mode".toList, .estate),
   (.global, "dns_search".toList, .estate), (.global, "dns_domains".toList, .estate),
   (.global, "connectivity".toList, .estate), (.interface, "mac".toList, .hostPrivate),
   (.interface, "kind".toList, .hostPrivate), (.interface, "master".toList, .hostPrivate),
   (.interface, "qdisc".toList, .hostPrivate), (.interface, "ethtool".toList, .hostPrivate),
   (.interface, "probe.command".toList, .hostPrivate),
   (.interface, "probe.args".toList, .hostPrivate),
   (.interface, "advertise.backend".toList, .hostPrivate), (.interface, "vlans".toList, .group),
   (.interface, "nat".toList, .group), (.interface, "advertise.prefix".toList, .group),
   (.interface, "advertise.prefixes".toList, .group),
   (.interface, "advertise.lifetime".toList, .group),
   (.interface, "advertise.managed".toList, .group),
   (.interface, "advertise.other".toList, .group),
   (.interface, "advertise.other_config".toList, .group), (.interface, "dns".toList, .estate),
   (.interface, "dns_mode".toList, .estate), (.interface, "dns_search".toList, .estate),
   (.interface, "dns_domains".toList, .estate), (.interface, "advertise.dns".toList, .estate),
   (.network, "hooks".toList, .hostPrivate), (.accessPoint, "device".toList, .hostPrivate),
   (.mesh, "device".toList, .hostPrivate)]

/-- `KINDS`. -/
def kinds : List (Block × Text × ℕ) :=
  [(.global, "dns".toList, 0x00010001), (.global, "dns_mode".toList, 0x00010002),
   (.global, "dns_search".toList, 0x00010003), (.global, "dns_domains".toList, 0x00010004),
   (.global, "connectivity.requires".toList, 0x00010005),
   (.global, "connectivity.ignore".toList, 0x00010006), (.interface, "config".toList, 0x00020001),
   (.interface, "routes".toList, 0x00020002), (.interface, "mtu".toList, 0x00020003),
   (.interface, "vlans".toList, 0x00020004), (.interface, "nat".toList, 0x00020005),
   (.interface, "guard".toList, 0x00020006), (.interface, "preference".toList, 0x00020007),
   (.interface, "ipv6_token".toList, 0x00020008), (.interface, "enabled".toList, 0x00020009),
   (.interface, "forwarding".toList, 0x0002000a), (.interface, "on_drift".toList, 0x0002000b),
   (.interface, "dns".toList, 0x0002000c), (.interface, "dns_mode".toList, 0x0002000d),
   (.interface, "dns_search".toList, 0x0002000e), (.interface, "dns_domains".toList, 0x0002000f),
   (.interface, "advertise.prefix".toList, 0x00020010),
   (.interface, "advertise.prefixes".toList, 0x00020011),
   (.interface, "advertise.lifetime".toList, 0x00020012),
   (.interface, "advertise.managed".toList, 0x00020013),
   (.interface, "advertise.other".toList, 0x00020014),
   (.interface, "advertise.other_config".toList, 0x00020015),
   (.interface, "advertise.dns".toList, 0x00020016),
   (.interface, "probe.interval".toList, 0x00020017),
   (.interface, "probe.timeout".toList, 0x00020018),
   (.interface, "probe.up_after".toList, 0x00020019),
   (.interface, "probe.down_after".toList, 0x0002001a),
   (.interface, "probe.hold_down".toList, 0x0002001b),
   (.interface, "probe.require_lease".toList, 0x0002001c),
   (.interface, "dot1x.eap".toList, 0x0002001d),
   (.interface, "dot1x.identity".toList, 0x0002001e),
   (.interface, "dot1x.anonymous_identity".toList, 0x0002001f),
   (.interface, "dot1x.password".toList, 0x00020020),
   (.interface, "dot1x.phase2".toList, 0x00020021),
   (.interface, "dot1x.domain_suffix_match".toList, 0x00020022),
   (.interface, "dhcp_server.range".toList, 0x00020023),
   (.interface, "dhcp_server.lease".toList, 0x00020024),
   (.interface, "dhcp_server.dns".toList, 0x00020025),
   (.interface, "dhcp_server.host.mac".toList, 0x00020026),
   (.interface, "dhcp_server.host.address".toList, 0x00020027),
   (.interface, "port_forward.protocol".toList, 0x00020028),
   (.interface, "port_forward.port".toList, 0x00020029),
   (.interface, "port_forward.to".toList, 0x0002002a),
   (.interface, "port_forward.to_port".toList, 0x0002002b),
   (.interface, "port_forward.hairpin".toList, 0x0002002c), (.network, "ssid".toList, 0x00030001),
   (.network, "bssid".toList, 0x00030002), (.network, "hidden".toList, 0x00030003),
   (.network, "metered".toList, 0x00030004), (.network, "metric".toList, 0x00030005),
   (.network, "config".toList, 0x00030006), (.network, "routes".toList, 0x00030007),
   (.network, "dns.dns".toList, 0x00030008), (.network, "dns.dns_mode".toList, 0x00030009),
   (.network, "dns.dns_search".toList, 0x0003000a),
   (.network, "dns.dns_domains".toList, 0x0003000b), (.network, "wifi.proto".toList, 0x0003000c),
   (.network, "wifi.open".toList, 0x0003000d), (.network, "wifi.owe".toList, 0x0003000e),
   (.network, "wifi.psk".toList, 0x0003000f), (.network, "wifi.eap".toList, 0x00030010),
   (.network, "wifi.identity".toList, 0x00030011),
   (.network, "wifi.anonymous_identity".toList, 0x00030012),
   (.network, "wifi.password".toList, 0x00030013), (.network, "wifi.phase2".toList, 0x00030014),
   (.network, "wifi.domain_suffix_match".toList, 0x00030015),
   (.network, "wifi.autoconnect".toList, 0x00030016),
   (.network, "wifi.roam.signal".toList, 0x00030017),
   (.network, "wifi.roam.interval".toList, 0x00030018),
   (.network, "wifi.roam.slow_interval".toList, 0x00030019),
   (.accessPoint, "ssid".toList, 0x00040001), (.accessPoint, "hidden".toList, 0x00040002),
   (.accessPoint, "channel".toList, 0x00040003), (.accessPoint, "band".toList, 0x00040004),
   (.accessPoint, "regdom".toList, 0x00040005), (.accessPoint, "wifi.proto".toList, 0x00040006),
   (.accessPoint, "wifi.open".toList, 0x00040007), (.accessPoint, "wifi.owe".toList, 0x00040008),
   (.accessPoint, "wifi.psk".toList, 0x00040009),
   (.accessPoint, "access_control.allow".toList, 0x0004000a),
   (.accessPoint, "access_control.deny".toList, 0x0004000b),
   (.accessPoint, "fast_roaming".toList, 0x0004000c),
   (.accessPoint, "mobility_domain".toList, 0x0004000d), (.accessPoint, "wds".toList, 0x0004000e),
   (.accessPoint, "roaming_key".toList, 0x0004000f),
   (.accessPoint, "neighbour_reports".toList, 0x00040010),
   (.accessPoint, "neighbour.channel".toList, 0x00040011),
   (.accessPoint, "steering.signal".toList, 0x00040012),
   (.accessPoint, "steering.band".toList, 0x00040013), (.accessPoint, "width".toList, 0x00040014),
   (.accessPoint, "isolate_stations".toList, 0x00040015), (.mesh, "channel".toList, 0x00070001),
   (.mesh, "band".toList, 0x00070002), (.mesh, "wifi.open".toList, 0x00070003),
   (.mesh, "wifi.psk".toList, 0x00070004), (.hostList, "mac".toList, 0x00080001),
   (.rule, "family".toList, 0x00050001), (.rule, "priority".toList, 0x00050002),
   (.rule, "from".toList, 0x00050003), (.rule, "to".toList, 0x00050004),
   (.rule, "iif".toList, 0x00050005), (.rule, "oif".toList, 0x00050006),
   (.rule, "fwmark".toList, 0x00050007), (.rule, "fwmask".toList, 0x00050008),
   (.rule, "table".toList, 0x00050009), (.rule, "suppress_prefixlength".toList, 0x0005000a),
   (.rule, "l3mdev".toList, 0x0005000b), (.rule, "action".toList, 0x0005000c),
   (.linkset, "members".toList, 0x00060001)]

/-- `exception_for`. -/
def exceptionFor (block : Block) (path : Text) : Option Scope :=
  (exceptions.find? fun e => e.1 = block ∧ e.2.1 = path).map fun e => e.2.2

def parent (path : Text) : Text := ((path.reverse.dropWhile (· ≠ '.')).drop 1).reverse

/-- A key's own scope, its sub-block's, and so on to the block's. -/
def scopeFrom : ℕ → Block → Text → Scope
  | 0, block, _ => blockDefaultScope block
  | fuel + 1, block, path =>
    if path = [] then blockDefaultScope block
    else
      match exceptionFor block path with
      | some found => found
      | none => scopeFrom fuel block (parent path)

/-- `ncfg_scope_of`. -/
def scopeOf (block : Block) (path : Text) : Scope :=
  let path := keyCanonical block path
  scopeFrom path.length block path

/-- `ncfg_kind_of`, `none` being `NCFG_KIND_NONE`. -/
def kindOf (block : Block) (path : Text) : Option ℕ :=
  (kinds.find? fun k => k.1 = block ∧ k.2.1 = keyCanonical block path).map fun k => k.2.2

end Netcfgd.KeyScopes
