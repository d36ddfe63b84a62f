import Netcfgd.Lower
import Netcfgd.Schedule
import Netcfgd.Nftables

/-!
# The firewall of a configuration

`src/compile/lower_firewall.c`, the host lists of `lower_network.c` and `lower.c`, and the
stations of `src/model/document.c` : a `firewall` block and the `host_list` blocks it names,
from text into the document. The other blocks are left out, and with them the diagnostics they
can draw, and so is `mac_written`, which only the renderer reads. A rule that the compiler made
carries no UTC pieces of its own : those are an undo copy's.
-/

namespace Netcfgd.Compile

open Schedule Nftables

/-! ## Stations -/

/-- `hex_digit`. -/
def hexDigit (c : Char) : Bool :=
  c.isDigit || 'a' ≤ c && c ≤ 'f' || 'A' ≤ c && c ≤ 'F'

/-- `lower_hex`. -/
def lowerHex (c : Char) : Char :=
  if 'A' ≤ c ∧ c ≤ 'F' then Char.ofNat (c.toNat - 'A'.toNat + 'a'.toNat) else c

/-- The two-digit octets of a station, each followed by the separator or the end, or the part
that is not one. -/
def octetsRead (separator : Char) : ℕ → List Char → Except (List Char) (List (Char × Char))
  | 0, _ => .ok []
  | n + 1, a :: b :: rest =>
    if hexDigit a ∧ hexDigit b ∧ (rest = [] ∨ rest.head? = some separator) then
      (octetsRead separator n (rest.drop 1)).map fun octets => (lowerHex a, lowerHex b) :: octets
    else .error (((a :: b :: rest).takeWhile (· ≠ separator)).take 3)
  | _ + 1, text => .error ((text.takeWhile (· ≠ separator)).take 3)

/-- `-` where the text has one. -/
def separatorOf (text : List Char) : Char := if '-' ∈ text then '-' else ':'

def octetsText (octets : List (Char × Char)) : List Char :=
  octets.flatMap fun o => [o.1, o.2, ':']

/-- `ncfg_station_address_normalize`. -/
def stationAddressNormalize (text : String) : Except String String :=
  let parts := text.toList.count (separatorOf text.toList) + 1
  if parts ≠ 6 then
    .error ("a station address is six colon-separated octets, such as `aa:bb:cc:dd:ee:ff`; " ++
      s!"`{text}` has {parts}")
  else
    match octetsRead (separatorOf text.toList) 6 text.toList with
    | .ok octets => .ok (String.ofList (octetsText octets).dropLast)
    | .error shown =>
      .error s!"`{String.ofList shown}` is not a two-digit hex octet, in the station address `{text}`"

/-- `ncfg_station_is_prefix`. -/
def stationIsPrefix (text : String) : Bool := text.toList.getLast? = some '*'

/-- `ncfg_station_prefix_normalize`. -/
def stationPrefixNormalize (text : String) : Except String String :=
  let separator := separatorOf text.toList
  if text.toList.length ≠ 10 ∨ text.toList[8]? ≠ some separator ∨ text.toList[9]? ≠ some '*' then
    .error ("a station prefix is three octets and a star, such as `aa:bb:cc:*` -- the " ++
      s!"manufacturer's part of an address; `{text}` is not one")
  else
    match octetsRead separator 3 text.toList with
    | .ok octets => .ok (String.ofList (octetsText octets ++ ['*']))
    | .error _ =>
      .error ("a station prefix is three two-digit hex octets and a star, such as " ++
        s!"`aa:bb:cc:*`; `{text}` is not one")

def stationNormalize (text : String) : Except String String :=
  if stationIsPrefix text then stationPrefixNormalize text else stationAddressNormalize text

/-! ## Names -/

/-- `ncfg_usable_name` : what is wrong with the name of an interface. -/
def usableName (name : String) : Option String :=
  if name = "" then some "an interface name cannot be empty"
  else if 15 < name.utf8ByteSize then some "an interface name is at most 15 characters"
  else if name = "." ∨ name = ".." then some "the kernel keeps `.` and `..` for directories"
  else match name.toList.find? fun c => c = '/' ∨ c = ':' ∨ isSpace c with
    | none => none
    | some '/' => some "an interface name cannot contain `/`"
    | some ':' => some "an interface name cannot contain `:`"
    | some _ => some "an interface name cannot contain whitespace"

/-- `ncfg_as_interface_name`. -/
def asInterfaceName (v : Value) : Except String String :=
  match asString v with
  | .error why => .error why
  | .ok text =>
    match usableName text with
    | none => .ok text
    | some why =>
      .error (s!"`{text}` is not an interface name: {why}: netcfgd uses this name for " ++
        "the link and for the files it keeps about it, so it has to be a name the kernel would take")

/-- `ncfg_is_host_list_name`. -/
def isHostListName (name : String) : Bool :=
  name ≠ "" ∧ name.utf8ByteSize ≤ 64 ∧ name.toList.all fun c =>
    'a' ≤ c && c ≤ 'z' || 'A' ≤ c && c ≤ 'Z' || '0' ≤ c && c ≤ '9' || c = '-' || c = '_' || c = '.'

/-- `NCFG_HOST_LIST_PREFIX`. -/
def hostListMark : String := "@host_list:"

def hostListOf (word : String) : Option String :=
  if hostListMark.toList.isPrefixOf word.toList then
    some (String.ofList (word.toList.drop hostListMark.length))
  else none

/-! ## Rules -/

inductive Action
  | accept
  | drop
  | reject
  deriving DecidableEq, Repr

/-- A chain's policy : the kernel has no third. -/
inductive ChainPolicy
  | accept
  | drop
  deriving DecidableEq, Repr

inductive Protocol
  | any
  | tcp
  | udp
  | icmp
  | icmpv6
  deriving DecidableEq, Repr

inductive ChainName
  | input
  | forward
  | output
  deriving DecidableEq, Repr

def ChainName.text : ChainName → String
  | .input => "input"
  | .forward => "forward"
  | .output => "output"

/-- `ncfg_firewall_rule_t` : an empty list is no constraint. -/
structure Rule where
  name : String
  action : Action
  protocol : Protocol := .any
  ports : List ℕ := []
  sources : List String := []
  destinations : List String := []
  interface : Option String := none
  outInterface : Option String := none
  states : List String := []
  translated : Bool := false
  mac : List String := []
  macLists : List String := []
  hours : Option String := none
  days : List String := []
  deriving DecidableEq, Repr

/-- `rule_action`. -/
def ruleAction (head : String) : Option Action :=
  if head = "accept" then some .accept
  else if head = "drop" then some .drop
  else if head = "reject" then some .reject
  else none

/-- The word of a `protocol`. -/
def protocolOf (word : String) : Except String Protocol :=
  if word = "any" then .ok .any
  else if word = "tcp" then .ok .tcp
  else if word = "udp" then .ok .udp
  else if word = "icmp" then .ok .icmp
  else if word = "icmpv6" then .ok .icmpv6
  else .error
    (s!"`{word}` is not a protocol netcfgd matches: one of any, tcp, udp, icmp, icmpv6 " ++
    "(0294 names the whole set, and widening it is a decision)")

def entriesOf : Value → List Value
  | .list entries => entries
  | v => [v]

/-- One entry of a `port`. -/
def portOf : Value → Except String ℕ
  | .number n =>
    if n < 1 ∨ 65535 < n then .error (toString n ++ " is not a port: 1 to 65535") else .ok n.toNat
  | v => .error ("a port is a number, found " ++ v.describe)

/-- `rule_ports`. -/
def rulePorts (r : Rule) (v : Value) : Rule × List String :=
  overItems (fun r entry => take r (portOf entry) fun port => { r with ports := r.ports ++ [port] })
    { r with ports := [] } (entriesOf v)

/-- `state_words`. -/
def stateWords : List String := ["new", "established", "related", "invalid"]

/-- `rule_states` : every word checked before any is kept. -/
def ruleStates (r : Rule) (v : Value) : Rule × List String :=
  let (words, wrong) := asWords v
  match words.find? fun word => !stateWords.contains word with
  | some word => (r, wrong ++ [s!"`{word}` is not a connection state: one of new, established, " ++
      "related, invalid"])
  | none => ({ r with states := words }, wrong)

/-- One word of a `mac` : a host list to resolve later, or a station, once each. -/
def macWord (r : Rule) (word : String) : Rule × List String :=
  match hostListOf word with
  | some name =>
    if !isHostListName name then
      (r, [s!"`{word}` does not name a host list: after `{hostListMark}` comes the list's name"])
    else if name ∈ r.macLists then (r, [])
    else ({ r with macLists := r.macLists ++ [name] }, [])
  | none =>
    match stationNormalize word with
    | .error why => (r, [why])
    | .ok station => if station ∈ r.mac then (r, []) else ({ r with mac := r.mac ++ [station] }, [])

/-- `rule_macs`. -/
def ruleMacs (r : Rule) (v : Value) : Rule × List String :=
  let (words, wrong) := asWords v
  let (r', wrong') := overItems macWord r words
  (r', wrong ++ wrong')

/-- `rule_hours`, kept in the normal spelling. -/
def ruleHours (r : Rule) (v : Value) : Rule × List String :=
  match asString v with
  | .error why => (r, [why])
  | .ok text =>
    match hoursParse text.toList with
    | .error why => (r, [s!"`{text}` {why}"])
    | .ok w => ({ r with hours := some (String.ofList w.text) }, [])

/-- The days of some words in the order of the week, from Monday, once each. -/
def weekOrder (words : List String) : List String :=
  ([1, 2, 3, 4, 5, 6, 0].filter fun day => words.any fun word => dayOf word = some day).map dayWord

/-- `rule_days` : every word checked before any is kept. -/
def ruleDays (r : Rule) (v : Value) : Rule × List String :=
  let (words, wrong) := asWords v
  match words.find? fun word => (dayOf word).isNone with
  | some word => (r, wrong ++ [s!"`{word}` is not a day: one of mon, tue, wed, thu, fri, sat, " ++
      "sun, or the whole name"])
  | none => ({ r with days := weekOrder words }, wrong)

def ruleKey (r : Rule) (key : String) (v : Value) : Rule × List String :=
  if key = "protocol" then take r (asString v >>= protocolOf) fun p => { r with protocol := p }
  else if key = "port" then rulePorts r v
  else if key = "from" then ({ r with sources := (asWords v).1 }, (asWords v).2)
  else if key = "to" then ({ r with destinations := (asWords v).1 }, (asWords v).2)
  else if key = "interface" then takeOrClear (asInterfaceName v) fun i => { r with interface := i }
  else if key = "out_interface" then
    takeOrClear (asInterfaceName v) fun i => { r with outInterface := i }
  else if key = "state" then ruleStates r v
  else if key = "translated" then take r (asBool v) fun b => { r with translated := b }
  else if key = "mac" then ruleMacs r v
  else if key = "hours" then ruleHours r v
  else if key = "days" then ruleDays r v
  else (r, [s!"`{key}` is not a firewall rule key: one of protocol, port, from, to, interface, " ++
    "out_interface, state, translated, mac, hours, days"])

def ruleItem (r : Rule) : Item → Rule × List String
  | .assignment key v => ruleKey r key v
  | .block head _ _ _ =>
    (r, [s!"`{head}` is not valid inside a firewall rule: a rule is keys only"])
  | _ => (r, [])

/-- `lower_rule`, of a block with a name. -/
def lowerRule (name : String) (action : Action) (items : List Item) : Option Rule × List String :=
  let (r, wrong) := overItems ruleItem { name, action } items
  if r.ports ≠ [] ∧ r.protocol ≠ .tcp ∧ r.protocol ≠ .udp then
    (none, wrong ++ [s!"rule `{name}` matches ports with no protocol that has them: add " ++
      "`protocol = \"tcp\"` or `\"udp\"`"])
  else (some r, wrong)

/-! ## Chains -/

/-- `ncfg_firewall_chain_t`. -/
structure Chain where
  policy : ChainPolicy := .accept
  rules : List Rule := []
  deriving DecidableEq, Repr

/-- A chain as it is read, and whether its policy was named. -/
structure ChainRead where
  chain : Chain := {}
  policyNamed : Bool := false
  deriving DecidableEq, Repr

/-- `chain_policy`. -/
def policyOf (word : String) : Except String ChainPolicy :=
  if word = "accept" then .ok .accept
  else if word = "drop" then .ok .drop
  else .error (s!"`{word}` is not a chain policy: one of accept, drop. A chain's policy is what " ++
    "happens to a packet no rule matched, and the kernel has no `policy reject` -- write a " ++
    "`reject` rule at the end of the chain instead")

def keepRule (hook : ChainName) (c : ChainRead) (r : Rule) : ChainRead × List String :=
  if r.outInterface.isSome ∧ hook ≠ .forward then
    (c, [s!"rule `{r.name}` matches `out_interface` in the {hook.text} chain: only a forwarded " ++
      "packet has an interface it arrives on and one it leaves by" ++
      if hook = .output then "; in `output`, `interface` is the one it leaves by" else ""])
  else if hook = .output ∧ (r.mac ≠ [] ∨ r.macLists ≠ []) then
    (c,
      [s!"rule `{r.name}` matches `mac` in the output chain, where a packet this host sends has " ++
      "no sending station to match; match it in `input` or `forward`"])
  else if c.chain.rules.any fun r' => r'.name = r.name then
    (c, [s!"two rules in `{hook.text}` are named `{r.name}`: a name is a rule's identity and " ++
      "has to be its own"])
  else ({ c with chain := { c.chain with rules := c.chain.rules ++ [r] } }, [])

def chainItem (hook : ChainName) (c : ChainRead) : Item → ChainRead × List String
  | .assignment key v =>
    if key = "policy" then
      let (c', wrong) := take c (asString v >>= policyOf) fun policy =>
        { c with chain := { c.chain with policy } }
      ({ c' with policyNamed := true }, wrong)
    else (c, [s!"`{key}` is not a firewall chain key: `policy`, and then the rules as `accept`, " ++
      "`drop` or `reject` blocks"])
  | .block head label _ items =>
    match ruleAction head, label with
    | none, _ => (c, [s!"`{head}` is not a firewall action: a rule is `accept`, `drop` or " ++
        "`reject`, each with a name"])
    | some _, none => (c, [s!"`{head}` needs a name"])
    | some action, some name =>
      match lowerRule name action items with
      | (none, wrong) => (c, wrong)
      | (some r, wrong) =>
        let (c', wrong') := keepRule hook c r
        (c', wrong ++ wrong')
  | _ => (c, [])

/-- `lower_chain`. -/
def lowerChain (hook : ChainName) (items : List Item) : Option Chain × List String :=
  let (c, wrong) := overItems (chainItem hook) {} items
  if !c.policyNamed then
    (none, wrong ++ [s!"chain `{hook.text}` has no `policy`: say `policy = \"accept\"` or " ++
      "`\"drop\"`, since the two are opposite answers for every packet no rule matched"])
  else (some c.chain, wrong)

/-- `ncfg_firewall_t`. -/
structure Firewall where
  input : Chain := {}
  forward : Chain := {}
  output : Chain := {}
  deriving DecidableEq, Repr

def Firewall.chain (fw : Firewall) : ChainName → Chain
  | .input => fw.input
  | .forward => fw.forward
  | .output => fw.output

def Firewall.setChain (fw : Firewall) (c : Chain) : ChainName → Firewall
  | .input => { fw with input := c }
  | .forward => { fw with forward := c }
  | .output => { fw with output := c }

def chainOf (head : String) : Option ChainName :=
  if head = "input" then some .input
  else if head = "forward" then some .forward
  else if head = "output" then some .output
  else none

/-- One item of a `firewall` block, with the chains said so far. -/
def firewallItem (s : Firewall × List ChainName) :
    Item → (Firewall × List ChainName) × List String
  | .assignment key _ =>
    (s, [s!"`{key}` is not valid directly inside `firewall`: the chains are " ++
      "`input`, `forward` and `output`, and the keys go in them"])
  | .block head _ _ items =>
    match chainOf head with
    | none =>
      (s, [s!"`{head}` is not a firewall chain: the three are input, forward and output, " ++
        "which are the hooks netcfgd owns (0294)"])
    | some hook =>
      if hook ∈ s.2 then
        (s, [s!"a second `{head}` chain: say it once, since the order of the rules in it is the " ++
          "order they are evaluated in"])
      else
        match lowerChain hook items with
        | (some c, wrong) => ((s.1.setChain c hook, s.2 ++ [hook]), wrong)
        | (none, wrong) => ((s.1, s.2 ++ [hook]), wrong)
  | _ => (s, [])

/-! ## Host lists -/

/-- `ncfg_host_list_t`. -/
structure HostList where
  name : String
  mac : List String := []
  deriving DecidableEq, Repr

/-- One item of a `host_list` block. -/
def hostListItem (h : HostList) : Item → HostList × List String
  | .assignment key v =>
    if key = "mac" then
      let (words, wrong) := asWords v
      let (h', wrong') := overItems (fun h word => take h (stationNormalize word) fun station =>
        { h with mac := h.mac ++ [station] }) h words
      (h', wrong ++ wrong')
    else (h, [s!"unknown host_list key `{key}`: a host list holds `mac` addresses"])
  | .block head _ _ _ => (h, [s!"`{head}` is not valid inside `host_list`"])
  | _ => (h, [])

/-- `ncfg_lower_host_list`, of a block with a name. -/
def lowerHostList (name : String) (items : List Item) : Option HostList × List String :=
  if !isHostListName name then
    (none, [s!"`{name}` cannot name a host list: use letters, digits, `-`, `_` and `.`, up to 64"])
  else
    let (h, wrong) := overItems hostListItem { name } items
    (some h, wrong)

def findHostList (lists : List HostList) (name : String) : Option HostList :=
  lists.reverse.find? fun h => h.name = name

/-- The stations of one host list a rule names, put into the rule's, once each. -/
def resolveList (hook : ChainName) (lists : List HostList) (r : Rule) (name : String) :
    Rule × List String :=
  match findHostList lists name with
  | none => (r, [s!"firewall rule `{hook.text}/{r.name}` names host list `{name}`, which no " ++
      "`host_list` block declares"])
  | some h =>
    ({ r with mac := h.mac.foldl (fun mac m => if m ∈ mac then mac else mac ++ [m]) r.mac },
      [])

/-- `sort_set`, in the order of `strcmp`. -/
def sortSet (items : List String) : List String := (items.mergeSort fun a b => a ≤ b).dedup

/-- A rule with its host lists resolved and its stations in order : `resolve_firewall_host_lists`
and the canonical pass. -/
def resolveRule (hook : ChainName) (lists : List HostList) (r : Rule) : Rule × List String :=
  let (r', wrong) := overItems (resolveList hook lists) r r.macLists
  ({ r' with mac := sortSet r'.mac, macLists := sortSet r'.macLists }, wrong)

def resolveChain (hook : ChainName) (lists : List HostList) (c : Chain) : Chain × List String :=
  ({ c with rules := c.rules.map fun r => (resolveRule hook lists r).1 },
    c.rules.flatMap fun r => (resolveRule hook lists r).2)

/-! ## The document -/

structure FirewallRead where
  hostLists : List HostList := []
  firewall : Option Firewall := none
  deriving DecidableEq, Repr

def firewallBlock (s : FirewallRead) (b : MergedBlock) : FirewallRead × List String :=
  if b.head = "firewall" then
    if s.firewall.isSome then
      (s,
        ["a second `firewall` reached lowering, which the merge pass should have refused: this " ++
        "is a defect in netcfgd rather than in the configuration"])
    else
      let (fw, wrong) := overItems firewallItem ({}, []) b.items
      ({ s with firewall := some fw.1 }, wrong)
  else if b.head = "host_list" then
    match b.label with
    | none => (s, [s!"`{b.head}` needs a name"])
    | some name =>
      match lowerHostList name b.items with
      | (none, wrong) => (s, wrong)
      | (some h, wrong) =>
        if s.hostLists.any fun h' => h'.name = h.name then
          (s, wrong ++ [s!"host list `{h.name}` is declared twice"])
        else ({ s with hostLists := s.hostLists ++ [h] }, wrong)
  else (s, [])

def resolveFirewall (lists : List HostList) (fw : Firewall) : Firewall × List String :=
  (⟨(resolveChain .input lists fw.input).1, (resolveChain .forward lists fw.forward).1,
    (resolveChain .output lists fw.output).1⟩,
    (resolveChain .input lists fw.input).2 ++ (resolveChain .forward lists fw.forward).2 ++
      (resolveChain .output lists fw.output).2)

/-- The firewall of a file's document, none where the file has none, or what is wrong. -/
def compileFirewall (file : List Item) : Except (List String) (Option Firewall) :=
  let (merged, wrong) := merge file
  if wrong ≠ [] then .error wrong
  else
    let (s, wrong) := overItems firewallBlock {} merged
    match s.firewall with
    | none => if wrong ≠ [] then .error wrong else .ok none
    | some fw =>
      let (fw', wrong') := resolveFirewall s.hostLists fw
      if wrong ++ wrong' ≠ [] then .error (wrong ++ wrong') else .ok (some fw')

end Netcfgd.Compile
