import Netcfgd.Build
import Netcfgd.Firewall
import Netcfgd.JsonRoundTrip
import Netcfgd.ResolverFiles

/-!
# Router advertisements

What an interface tells the hosts behind it : the `advertise` block of `lower_interface.c`, the
configuration of radvd that `backend/ra/ra.c` renders of it, what `observe/advertised.c` reads back
from that file, and `plan/advertise.c`, which compares the two.
-/

namespace Netcfgd.Advertise

open Netcfgd.Compile (Value Item asString asBool asU32 asWords isSpace usableName)
open Netcfgd.Resolver (Text unlines)

/-! ## The policy -/

/-- A prefix the file knows : a /64 written as the network, neither multicast nor link-local. -/
def isStaticPrefix (text : String) : Bool :=
  match Address.parse text with
  | some ⟨.v6 words, some 64, _⟩ =>
    (words.list.drop 4).all (· = 0) &&
      words.list.head?.all fun w => w / 256 ≠ 0xff && w / 64 ≠ 0x3fa
  | _ => false

def StaticPrefix := { text : String // isStaticPrefix text = true }

/-- `ncfg_ra_backend_kind_t`, less `exec`, which the language cannot write. -/
inductive RaBackend
  | auto | radvd | odhcpd
  deriving DecidableEq

/-- `ncfg_ra_policy_t`. -/
structure RaPolicy where
  backend : RaBackend := .auto
  prefixes : List PrefixRef := []
  staticPrefixes : List StaticPrefix := []
  managed : Bool := false
  otherConfig : Bool := false
  dns : Bool := true
  lifetime : Option ℕ := none

/-! ## What is announced -/

/-- `ncfg_observed_prefix_of`. -/
def prefixOf (delegations : List Delegation) (ref : PrefixRef) : Option String :=
  (delegations.find? fun x => x.interface = ref.source).bind fun delegation =>
    if ref.index < 0 then none
    else delegation.prefixes[ref.index.toNat]?.bind fun block =>
      Address.fromDelegation block ref.subnet "::/64"

/-- The prefixes an interface announces : those of its delegations, then its own. -/
def announced (p : RaPolicy) (delegations : List Delegation) : List Text :=
  (p.prefixes.filterMap (prefixOf delegations)).map String.toList ++
    p.staticPrefixes.map fun x => x.1.toList

/-- `servers_of` : the IPv6 servers of the interface's `dns` block. -/
def serversOf (dns : Option Resolver.Policy) : List Text :=
  (dns.elim [] Resolver.Policy.servers).filterMap fun s =>
    match s.addr with
    | .v6 _ => some s.text
    | .v4 _ => none

/-! ## The file -/

/-- `RA_CONFIG_MAX` of the renderer. -/
def renderMax : ℕ := 256 * 1024

/-- `RA_CONFIG_MAX` of the reader. -/
def readMax : ℕ := 65536

/-- `NCFG_ADDRESS_MAX`. -/
def addressMax : ℕ := 50

/-- `on_off`. -/
def onOff (value : Bool) : Text := if value then "on".toList else "off".toList

/-- A number, as `%lld` writes it. -/
def decimal (n : ℕ) : Text := (Json.decimalDigits n).map Inet.digitChar

def prefixLines (block : Text) : List Text :=
  ["\tprefix ".toList ++ block, "\t\x7b".toList, "\t\tAdvOnLink on;".toList,
    "\t\tAdvAutonomous on;".toList, "\t\x7d;".toList]

/-- The name of an interface, as a line of the file can carry it. -/
structure Link where
  name : String
  usable : ∀ c ∈ name.toList, isSpace c = false ∧ c ≠ '\x00'

def headLines (link : Link) (managed otherConfig : Bool) : List Text :=
  ["# Written by netcfgd for ".toList ++ link.name.toList ++
      ". Do not edit; it is rewritten on apply.".toList,
    "interface ".toList ++ link.name.toList, "\x7b".toList, "\tAdvSendAdvert on;".toList,
    "\tAdvManagedFlag ".toList ++ onOff managed ++ [';'],
    "\tAdvOtherConfigFlag ".toList ++ onOff otherConfig ++ [';']]

def lifetimeLine (n : ℕ) : Text := "\tAdvDefaultLifetime ".toList ++ decimal n ++ [';']

def serverLines (servers : List Text) : List Text :=
  if servers = [] then []
  else ["\tRDNSS".toList ++ servers.flatMap (' ' :: ·) ++ " \x7b \x7d;".toList]

/-- The lines of the file, of the prefixes and the servers it is for. -/
def raLines (link : Link) (p : RaPolicy) (prefixes servers : List Text) : List Text :=
  headLines link p.managed p.otherConfig ++ (p.lifetime.toList.map lifetimeLine ++
    (prefixes.flatMap prefixLines ++
      ((if p.dns then serverLines servers else []) ++ ["\x7d;".toList])))

/-- `ncfg_ra_render`. -/
def raRender (link : Link) (p : RaPolicy) (prefixes servers : List Text) : Option Text :=
  if (unlines (raLines link p prefixes servers)).length ≤ renderMax then
    some (unlines (raLines link p prefixes servers))
  else none

/-! ## What is read back -/

def prefixOfLine (line : Text) : Option Text :=
  let rest := line.dropWhile Resolver.isBlank
  if 7 < rest.length ∧ rest.take 7 = "prefix ".toList then
    let word := ((rest.drop 7).dropWhile Resolver.isBlank).takeWhile (' ' < ·)
    let word := word.take (addressMax - 1)
    if word ≠ [] ∧ word.length + 1 < addressMax then some word else none
  else none

/-- `prefixes_of`. -/
def prefixesOf (text : Text) : List Text :=
  ((text.takeWhile (· ≠ '\x00')).splitOn '\n').filterMap prefixOfLine

/-- `read_config` : nothing of a file that does not end below the ceiling. -/
def readConfig (file : Option Text) : Option Text :=
  file.filter fun text => text.length < readMax

/-- `ncfg_observed_backend_t`, with what it announces. -/
structure Backend extends ObservedBackend where
  advertised : List Text := []

/-- `ncfg_observe_advertised`, on the router advertisers. -/
def observeAdvertised (files : String → Option Text) (seen : List ObservedBackend) : List Backend :=
  seen.map fun b =>
    if b.kind = .routerAdvert ∧ b.running then
      { b with advertised := ((readConfig (files b.interface)).map prefixesOf).getD [] }
    else { b with }

/-- `compare_backends` : by the interface, then the kind. -/
def backendLe (a b : Backend) : Bool :=
  a.interface < b.interface || a.interface = b.interface && a.kind.ctorIdx ≤ b.kind.ctorIdx

/-- `ncfg_observed_canonicalize`, on the backends : a stable sort. -/
def canonicalize (backends : List Backend) : List Backend :=
  backends.insertionSort fun a b => backendLe a b = true

/-! ## The plan -/

/-- `ncfg_observed_t`, as far as the pass reads it. -/
structure Seen where
  delegations : List Delegation
  backends : List Backend
  /-- How often the advertiser of an interface has been started without staying up. -/
  restarts : String → ℕ

/-- `NCFG_PLAN_RESTART_LIMIT`. -/
def restartLimit : ℕ := 5

/-- `resolvable`. -/
def resolvable (seen : List Delegation) (p : RaPolicy) : Bool :=
  !p.staticPrefixes.isEmpty || p.prefixes.any fun ref =>
    (seen.find? fun x => x.interface = ref.source).any fun delegation =>
      0 ≤ ref.index ∧ ref.index < delegation.prefixes.length

/-- `running_daemon`. -/
def runningDaemon (backends : List Backend) (name : String) : Option Backend :=
  (backends.find? fun b => b.kind = .routerAdvert ∧ b.running ∧ b.interface = name).filter
    fun b => b.advertised ≠ []

/-- `join`. -/
def join (texts : List Text) : Text :=
  texts.foldl (fun buf text => if buf = [] then text else buf ++ ' ' :: text) []

/-- `ncfg_plan_backend`, for the advertiser of an interface. -/
def planBackend (seen : Seen) (name : String) : List Planned :=
  if seen.backends.any fun b => b.kind = .routerAdvert ∧ b.running ∧ b.interface = name then []
  else if restartLimit ≤ seen.restarts name then []
  else
    [{ op := .backendStart .routerAdvert name
       reason := ⟨some name, "advertise", BackendKind.routerAdvert.word, "<absent>"⟩
       inverse := some (.backendStop .routerAdvert name) }]

/-- The reload of an advertiser whose prefixes are not the policy's. -/
def planReload (seen : Seen) (name : String) (p : RaPolicy) : List Planned :=
  match runningDaemon seen.backends name with
  | none => []
  | some running =>
    if join (announced p seen.delegations) = join running.advertised then []
    else
      [{ op := .backendReload .routerAdvert name
         reason := ⟨some name, "advertise.prefixes",
           String.ofList (join (announced p seen.delegations)),
           String.ofList (join running.advertised)⟩
         inverse := none }]

/-- `ncfg_plan_advertise`, with what it warns of. -/
def planAdvertise (seen : Seen) (name : String) (policy : Option RaPolicy) :
    List Planned × List String :=
  match policy with
  | none => ([], [])
  | some p =>
    if resolvable seen.delegations p then (planBackend seen name ++ planReload seen name p, [])
    else
      ([], ["waiting on a delegated prefix from " ++
        ", ".intercalate (p.prefixes.map PrefixRef.source) ++ " before advertising"])

end Netcfgd.Advertise
