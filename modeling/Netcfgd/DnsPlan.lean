import Netcfgd.OwnedFile
import Netcfgd.Resolver

/-!
# DNS delivery, planned and recorded

`ncfg_plan_dns` of `src/plan/host_wide.c` : the scopes of a document and its reports against those
that were delivered last. A scope is delivered again where its policy is another one, as the text it
is written as, and every scope is where one has left. `ncfg_service_dns_apply` of
`src/apply/backend_ops.c` delivers all of them for any one of these, and `note_dns` of
`src/apply/owned.c` has the record hold what was delivered, copied by way of its text.

The scopes are those of `Resolver.scopesOf`, with their policies as the tables of the record have
them.
-/

namespace Netcfgd.DnsPlan

open Json (Bytes ascii asciis Call Writer document)
open Model (CText cText DnsServer RoutingDomain DnsModeValue DnsPolicy AppliedDns WordSet dnsModes
  dnssecPostures dnsTransports execMode defaultLimit)
open Resolver (Text Report)

/-! ## Scopes -/

def stringOf (text : Text) : CText := cText (text.map fun c => UInt8.ofNat c.toNat)

def modeNumber : Resolver.Mode → ℤ
  | .none => 0
  | .writeResolvConf => 1
  | .resolvconf => 2
  | .openresolv => 3
  | .resolved => 4
  | .dnsmasq => 5
  | .unbound => 6

def serverOf (server : Resolver.Server) : DnsServer where
  addr := some (cText (asciis (Address.render ⟨server.addr, none, nofun⟩)))
  port := server.port.map Int64.ofInt
  sni := if server.sni = [] then none else some (stringOf server.sni)

def domainOf (domain : Resolver.Domain) : RoutingDomain where
  suffix := some (stringOf domain.suffix)
  exclusive := domain.exclusive

/-- A policy of the language, which has no word for the posture of DNSSEC. -/
def policyOf (policy : Resolver.Policy) : DnsPolicy where
  mode := ⟨modeNumber policy.mode, none⟩
  servers := policy.servers.map serverOf
  search := policy.search.map stringOf
  domains := policy.domains.map domainOf
  options := policy.options.map stringOf
  dnssec := none
  transport := if policy.tls then some 1 else none

/-- `ncfg_dns_scope_t`. -/
structure DnsScope where
  name : CText
  policy : DnsPolicy
  deriving DecidableEq

/-- `NCFG_DNS_GLOBAL_SCOPE`. -/
def globalName : CText := stringOf Resolver.globalScope

/-- `ncfg_dns_scopes_of`. -/
def dnsScopes (d : Resolver.Document) (reports : List Report) : List DnsScope :=
  (Resolver.scopesOf d reports).map fun scope => ⟨stringOf scope.name, policyOf scope.policy⟩

/-! ## The text of a policy -/

/-- `member_text`. -/
def memberText (name : String) (text : Option CText) : List Call :=
  match text with
  | some text => [.key (some (asciis name)), .scalar (.string text.1)]
  | none => []

/-- `member_optint`. -/
def memberOptint (name : String) (value : Option Int64) : List Call :=
  match value with
  | some value => [.key (some (asciis name)), .scalar (.int value)]
  | none => []

/-- `member_optenum`. -/
def memberOptenum (name : String) (value : Option Int64) (words : WordSet) : List Call :=
  match value.bind fun value => words.name value.toInt32.toInt with
  | some word => [.key (some (asciis name)), .scalar (.string (asciis word))]
  | none => []

/-- `member_strings`. -/
def memberStrings (name : String) (list : List CText) : List Call :=
  .key (some (asciis name)) ::
    .arrayBegin :: (list.map (fun text => Call.scalar (.string text.1)) ++ [Call.arrayEnd])

/-- `write_dns_mode`. -/
def writeMode (mode : DnsModeValue) : List Call :=
  .key (some (asciis "mode")) ::
    if mode.mode = execMode
    then .objectBegin :: (memberText "exec" mode.command ++ [Call.objectEnd])
    else dnsModes.calls mode.mode

/-- `ncfg_plan_write_dns_policy`. -/
def writePolicy (policy : DnsPolicy) : List Call :=
  .objectBegin :: (writeMode policy.mode ++
    (Call.key (some (asciis "servers")) :: .arrayBegin ::
      (policy.servers.flatMap (fun server => Call.objectBegin ::
        (memberText "addr" server.addr ++ (memberOptint "port" server.port ++
          (memberText "sni" server.sni ++ [Call.objectEnd])))) ++
    (Call.arrayEnd :: (memberStrings "search" policy.search ++
    (Call.key (some (asciis "domains")) :: .arrayBegin ::
      (policy.domains.flatMap (fun domain => Call.objectBegin ::
        (memberText "suffix" domain.suffix ++
          [Call.key (some (asciis "exclusive")), .scalar (.bool domain.exclusive), .objectEnd])) ++
    (Call.arrayEnd :: (memberStrings "options" policy.options ++
    (memberOptenum "dnssec" policy.dnssec dnssecPostures ++
    (memberOptenum "transport" policy.transport dnsTransports ++ [Call.objectEnd])))))))))))

/-- The text of a policy, as the record keeps it. -/
def policyText (policy : DnsPolicy) : Option Bytes :=
  let writer := Json.write defaultLimit (writePolicy policy)
  if writer.buf.failed then none else some (Writer.cString writer.buf.bytes)

/-- `policy_matches`, with a policy that is there. -/
def policyMatches (left : Option DnsPolicy) (right : DnsPolicy) : Bool :=
  match left.bind policyText, policyText right with
  | some first, some second => first = second
  | _, _ => false

/-! ## What differs -/

/-- `joined` : a line of 255 bytes at most. It ends before the first item that adds nothing to
it. -/
def joinedFrom (line : Bytes) : List CText → Bytes
  | [] => line
  | item :: items =>
    let piece := (if line = [] then [] else [ascii ' ']) ++ item.1
    if 256 ≤ line.length + 1 ∨ piece = [] then line
    else if 256 ≤ line.length + piece.length then (line ++ piece).take 255
    else joinedFrom (line ++ piece) items

/-- `joined`. -/
def joined (items : List CText) : Bytes :=
  if items = [] then asciis "<none>" else joinedFrom [] items

/-- The texts of a list as `snprintf` leaves them in a buffer of `NCFG_ERROR_MAX`. -/
def listed (items : List CText) : Bytes :=
  (items.foldl (fun line item => line ++ ((if line = [] then [] else asciis ", ") ++ item.1))
    []).take 511

/-- `dns_difference` : the field, and both its values. -/
def dnsDifference (want : DnsPolicy) (have_ : Option DnsPolicy) : String × Bytes × Bytes :=
  let modeText (policy : DnsPolicy) := asciis ((dnsModes.name policy.mode.mode).getD "")
  let countText (count : ℕ) := Json.decimal count
  match have_ with
  | none => ("dns", modeText want, asciis "<absent>")
  | some have_ =>
    if want.mode.mode ≠ have_.mode.mode then ("dns.mode", modeText want, modeText have_)
    else if want.servers.length ≠ have_.servers.length then
      ("dns.servers", countText want.servers.length, countText have_.servers.length)
    else if want.search ≠ have_.search then ("dns.search", joined want.search, joined have_.search)
    else if want.domains.length ≠ have_.domains.length then
      ("dns.domains", countText want.domains.length, countText have_.domains.length)
    else if want.options ≠ have_.options then
      ("dns.options", joined want.options, joined have_.options)
    else ("dns", asciis "differs", asciis "differs")

/-! ## The pass -/

/-- A `dns.apply` of a plan : its scope, why, and the policy its inverse has. -/
structure DnsAction where
  scope : DnsScope
  reason : Reason
  previous : Option DnsPolicy
  deriving DecidableEq

/-- The inverse of an action, which is a `dns.apply` too. -/
def DnsAction.inverse (action : DnsAction) : Option DnsScope :=
  action.previous.map fun policy => ⟨action.scope.name, policy⟩

/-- `ncfg_observed_dns_for`. -/
def dnsFor (recorded : List AppliedDns) (scope : CText) : Option DnsPolicy :=
  (recorded.find? fun row => row.scope = some scope).map AppliedDns.policy

/-- `departed_scopes`. -/
def departedScopes (recorded : List AppliedDns) (scopes : List DnsScope) : List CText :=
  (recorded.filterMap AppliedDns.scope).filter fun name => name ∉ scopes.map DnsScope.name

/-- `delivers_nothing`. -/
def deliversNothing (scopes : List DnsScope) : Bool :=
  scopes ≠ [] && scopes.all fun scope => scope.policy.servers.isEmpty && scope.policy.mode.mode ≠ 0

/-- `warn_empty_delivery`. -/
def warnEmptyDelivery (reports : List Report) : String :=
  let offered := listed
    ((reports.filter fun report => !report.nameservers.isEmpty).map fun report =>
      stringOf report.interface)
  if offered = [] then
    "the DNS delivery has no servers in it, so it would write a resolver file " ++
      "that resolves nothing -- netcfgd is leaving the existing file alone " ++
      "instead: nothing in the configuration names a nameserver"
  else
    "the DNS delivery has no servers in it, so it would write a resolver file that " ++
      "resolves nothing -- netcfgd is leaving the existing file alone instead: a lease on " ++
      Model.textOf offered ++ " offered nameservers and no interface asked for them -- add an " ++
      "empty \x60dns \x7b \x7d\x60 block to that interface to use what the network hands out"

/-- The action of one scope, where the record has another policy for it. -/
def planScope (recorded : List AppliedDns) (scope : DnsScope) : Option DnsAction :=
  let previous := dnsFor recorded scope.name
  if policyMatches previous scope.policy then none
  else
    let (field, desired, observed) := dnsDifference scope.policy previous
    let interface := if scope.name = globalName then none else some (Model.textOf scope.name.1)
    some ⟨scope, ⟨interface, field, Model.textOf desired, Model.textOf observed⟩, previous⟩

/-- The action that takes back what no scope delivers. -/
def planDeparted (departed : List CText) : List DnsScope → List DnsAction
  | [] => []
  | first :: _ =>
    if departed = [] then []
    else [⟨first, reasonUnwanted (Model.textOf first.name.1) "dns" (Model.textOf (listed departed)),
      none⟩]

/-- `ncfg_plan_dns` : the actions, and the warning. -/
def planDns (scopes : List DnsScope) (recorded : List AppliedDns) (reports : List Report) :
    List DnsAction × Option String :=
  let departed := departedScopes recorded scopes
  let warning := if deliversNothing scopes then some (warnEmptyDelivery reports) else none
  if deliversNothing scopes ∧ departed = [] then ([], warning)
  else (planDeparted departed scopes ++ scopes.filterMap (planScope recorded), warning)

/-! ## Carrying it out -/

/-- A scope as the record of what was applied has it. -/
def DnsScope.row (scope : DnsScope) : AppliedDns := ⟨some scope.name, scope.policy⟩

/-- `note_dns` : what the record holds then, where it could be written and read back. -/
def noteDns (scopes : List DnsScope) : Option (List AppliedDns) :=
  let rendered := Json.write defaultLimit (Model.appliedDns.list.write (scopes.map DnsScope.row))
  if rendered.buf.failed then none
  else
    match document (Writer.cString rendered.buf.bytes) with
    | .error _ => none
    | .ok doc => if scopes = [] then some [] else Model.appliedDns.list.read doc

/-- The scopes that `ncfg_service_dns_apply` delivers : those of the executor, and for an executor
without any the one of the op. -/
def delivered (service : List DnsScope) (op : DnsScope) : List DnsScope :=
  if service ≠ [] then service else [op]

/-- A `dns.apply` carried out, and what `fold` records of it : nothing comes of one that is not
delivered, or not recorded. -/
def carryOut (deliver : List DnsScope → Bool) (service : List DnsScope) (op : DnsScope) :
    Option (List AppliedDns) :=
  if deliver (delivered service op) then noteDns service else none

end Netcfgd.DnsPlan
