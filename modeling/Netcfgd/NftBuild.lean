import Netcfgd.Fallible
import Netcfgd.Firewall

/-!
# Building the nftables transaction

The builder of `src/sys/nft.c` : netcfgd's table, from the uplinks to masquerade, the firewall
and the port forwards. What stands here for the bytes of a transaction is the table it makes :
its chains, and the rules of each in order, every rule the expressions it is made of and the
comment that carries its name and its digest. Deleting the old table, the sequence numbers and
the audit of the bytes are left out.

`inet_pton`, `inet_ntop`, SHA-256, the byte order and the offset from UTC are the machine's
(`Host`).
-/

namespace Netcfgd.Nft

open Compile Schedule Nftables

/-- What the machine says of itself and of names. -/
structure Host where
  endian : Endian
  /-- `ncfg_schedule_offset`. -/
  offset : ℤ
  /-- `inet_pton`. -/
  pton : Family → List Char → Option Bytes
  pton_width : ∀ {family text bytes}, pton family text = some bytes → bytes.length = family.width
  /-- `inet_ntop`. -/
  ntop : Family → Bytes → String
  /-- `ncfg_sha256_hex`. -/
  sha256Hex : String → String

/-! ## Addresses -/

/-- `nft_address_t` : an address and the bits of it that count. -/
structure Address where
  family : Family
  bytes : Bytes
  count : ℕ
  width : bytes.length = family.width
  fits : count ≤ 8 * family.width

/-- `strtol`, of a text that is a number to its end. -/
def wholeNumber (text : List Char) : Option ℤ :=
  let unsigned (sign : ℤ) (digits : List Char) : Option ℤ :=
    if digits ≠ [] ∧ digits.all Char.isDigit then
      some (sign * digits.foldl (fun n c => n * 10 + digitValue c) 0)
    else none
  match text.dropWhile isSpace with
  | '-' :: digits => unsigned (-1) digits
  | '+' :: digits => unsigned 1 digits
  | digits => unsigned 1 digits

/-- An address of one family, with the prefix length after the slash. -/
def addressOf (text : String) (family : Family) (bytes : Bytes)
    (width : bytes.length = family.width)
    (slash : Option (List Char)) : Except String Address :=
  match slash with
  | none => .ok ⟨family, bytes, 8 * family.width, width, le_rfl⟩
  | some tail =>
    match wholeNumber tail with
    | none => .error s!"`{text}` has a prefix length its family cannot have"
    | some n =>
      if h : 0 ≤ n ∧ n ≤ 8 * family.width then .ok ⟨family, bytes, n.toNat, width, by omega⟩
      else .error s!"`{text}` has a prefix length its family cannot have"

variable (host : Host)

/-- `parse_address`. -/
def parseAddress (text : String) : Except String Address :=
  let span := text.toList.takeWhile (· ≠ '/')
  let slash := match text.toList.dropWhile (· ≠ '/') with
    | [] => none
    | _ :: tail => some tail
  if span = [] ∨ 64 ≤ (String.ofList span).utf8ByteSize then .error s!"`{text}` is not an address"
  else
    match h4 : host.pton .ipv4 span with
    | some bytes => addressOf text .ipv4 bytes (host.pton_width h4) slash
    | none =>
      match h6 : host.pton .ipv6 span with
      | some bytes => addressOf text .ipv6 bytes (host.pton_width h6) slash
      | none => .error s!"`{text}` is not an IPv4 or IPv6 address"

/-- `put_address_match`. -/
def addressMatch (a : Address) (source : Bool) : List Expr :=
  addressExprs (if source then a.family.sourceOffset else a.family.destinationOffset)
    a.family.width a.count a.bytes

/-- `format_address`. -/
def formatAddress (family : Family) (bytes : Bytes) (count : ℕ) : String :=
  if count < 8 * family.width then s!"{host.ntop family bytes}/{count}" else host.ntop family bytes

/-- `normal_address` : the network, as the decoder prints it. -/
def normalAddress (text : String) : String :=
  match parseAddress host text with
  | .error _ => text
  | .ok a => formatAddress host a.family
      (List.zipWith (· &&& ·) a.bytes (prefixMask a.family.width a.count)) a.count

/-! ## Rules of the firewall -/

def cBytes (s : String) : Bytes := s.toList.flatMap String.utf8EncodeChar

/-- `protocol_number`. -/
def protocolNumber : Protocol → UInt8
  | .any => 0
  | .tcp => 6
  | .udp => 17
  | .icmp => 1
  | .icmpv6 => 58

def stateOf (word : String) : Option CtState :=
  if word = "new" then some .new
  else if word = "established" then some .established
  else if word = "related" then some .related
  else if word = "invalid" then some .invalid
  else none

/-- `state_bit`. -/
def stateBit (word : String) : ℕ := ((stateOf word).map CtState.bit).getD 0

def stateBits (words : List String) : ℕ := words.foldl (fun bits word => bits ||| stateBit word) 0

/-- `IPS_DST_NAT`. -/
def dstNat : ℕ := 32

def hexValue (c : Char) : ℕ :=
  if c.isDigit then c.toNat - '0'.toNat
  else if 'a' ≤ c ∧ c ≤ 'f' then c.toNat - 'a'.toNat + 10
  else c.toNat - 'A'.toNat + 10

/-- `sscanf` with `%2x:%2x:...`, of a text without a space or a sign : the octets it reads. -/
def scanOctets : ℕ → List Char → Bytes
  | 0, _ => []
  | n + 1, text =>
    let digits := (text.take 2).takeWhile hexDigit
    if digits = [] then []
    else
      UInt8.ofNat (digits.foldl (fun v c => v * 16 + hexValue c) 0) ::
        match text.drop digits.length with
        | ':' :: rest => scanOctets n rest
        | _ => []

/-- The station match of a rule, `ether saddr` with what it depends on. -/
def stationMatch (octets : Bytes) (isPrefix : Bool) : List Expr :=
  let mac := if isPrefix then octets.take 3 ++ [0, 0, 0] else octets.take 6
  ([.load .iiftype, .cmp .eq (hostOrder host.endian 2 1), .payload .link 6 6] : List Expr) ++
    (if isPrefix then [.bitwise [0xff, 0xff, 0xff, 0, 0, 0] (List.replicate 6 0)]
      else [] : List Expr) ++
    [Expr.cmp .eq mac]

/-- `put_schedule`. -/
def scheduleMatch (piece : Piece) : List Expr :=
  ([.load .timeHour, .byteorder,
    .range (networkOrder 4 piece.first.toNat) (networkOrder 4 piece.last.toNat)] : List Expr) ++
    match piece.day with
    | some day => [.load .timeDay, .cmp .eq [UInt8.ofNat day.toNat]]
    | none => []

/-- `ct KEY & BITS != 0`. -/
def ctMatch (key : CtKey) (bits : ℕ) : List Expr :=
  [.ct key, .bitwise (hostOrder host.endian 4 bits) (List.replicate 4 0),
    .cmp .neq (List.replicate 4 0)]

def actionExpr : Compile.Action → Expr
  | .accept => .verdict true
  | .drop => .verdict false
  | .reject => .reject

/-- One value of a list read by `f`, where there is one. -/
def readFirst {α β : Type} (f : α → Except String β) : List α → Except String (Option β)
  | [] => .ok none
  | a :: _ => (f a).map some

def readStation (hook : ChainName) (r : Rule) (text : String) : Except String (Bytes × Bool) :=
  let octets := scanOctets 6 text.toList
  if octets.length < (if stationIsPrefix text then 3 else 6) then
    .error s!"rule `{hook.text}/{r.name}` has a station `{text}` it cannot read"
  else .ok (octets, stationIsPrefix text)

/-- `firewall_rule` : one kernel rule, every match single-valued, as its expressions. -/
def firewallRule (hook : ChainName) (r : Rule) (piece : Option Piece) :
    Except String (List Expr) := do
  let source ← readFirst (parseAddress host) r.sources
  let destination ← readFirst (parseAddress host) r.destinations
  let station ← readFirst (readStation hook r) r.mac
  let family := (destination.or source).map Address.family
  return (match family with
      | some family => [.load .nfproto, .cmp .eq [family.number]]
      | none => [] : List Expr) ++
    (if r.protocol ≠ .any then [.load .l4proto, .cmp .eq [protocolNumber r.protocol]]
      else [] : List Expr) ++
    (match r.ports with
      | port :: _ => [.payload .transport 2 2, .cmp .eq (networkOrder 2 port)]
      | [] => [] : List Expr) ++
    (match source with
      | some a => addressMatch a true
      | none => [] : List Expr) ++
    (match destination with
      | some a => addressMatch a false
      | none => [] : List Expr) ++
    (match r.interface with
      | some name => [.load (if hook = .output then .oifname else .iifname),
          .cmp .eq (cBytes name ++ [0])]
      | none => [] : List Expr) ++
    (match r.outInterface with
      | some name => [.load .oifname, .cmp .eq (cBytes name ++ [0])]
      | none => [] : List Expr) ++
    (if r.states ≠ [] then ctMatch host .state (stateBits r.states) else []) ++
    (if r.translated then ctMatch host .status dstNat else []) ++
    (match station with
      | some (octets, isPrefix) => stationMatch host octets isPrefix
      | none => [] : List Expr) ++
    (match piece with
      | some piece => scheduleMatch piece
      | none => [] : List Expr) ++
    [actionExpr r.action]

/-! ## Identity -/

/-- `rule_pieces`, of a rule the compiler made : none where it has no schedule. -/
def rulePieces (r : Rule) : Except String (List Piece) :=
  if r.hours = none ∧ r.days = [] then .ok []
  else
    match expand (r.hours.map String.toList) r.days host.offset with
    | [] => .error "a schedule that cannot be read"
    | pieces => .ok pieces

def actionNumber : Compile.Action → ℕ
  | .accept => 0
  | .drop => 1
  | .reject => 2

def protocolIndex : Protocol → ℕ
  | .any => 0
  | .tcp => 1
  | .udp => 2
  | .icmp => 3
  | .icmpv6 => 4

/-- `ncfg_schedule_piece_text`. -/
def pieceText (p : Piece) : String :=
  match p.day with
  | none => s!"any {p.first} {p.last}"
  | some day => s!"{day} {p.first} {p.last}"

/-- `ncfg_nft_firewall_rule_text` : what the digest is over. -/
def firewallRuleText (hook : ChainName) (r : Rule) (pieces : List Piece) : String :=
  s!"chain {hook.text}\naction {actionNumber r.action}\nprotocol {protocolIndex r.protocol}\n" ++
    String.join (r.ports.map fun port => s!"port {port}\n") ++
    String.join (r.sources.map fun text => s!"from {normalAddress host text}\n") ++
    String.join (r.destinations.map fun text => s!"to {normalAddress host text}\n") ++
    (r.interface.map fun name => s!"interface {name}\n").getD "" ++
    (r.outInterface.map fun name => s!"out_interface {name}\n").getD "" ++
    String.join ((stateWords.filter fun word => r.states.contains word).map fun word =>
      s!"state {word}\n") ++
    (if r.translated then "translated\n" else "") ++
    String.join (r.mac.map fun text => s!"mac {text}\n") ++
    String.join (pieces.map fun piece => s!"time {pieceText piece}\n")

def digestOf (text : String) : String := String.ofList ((host.sha256Hex text).toList.take 16)

/-- `NCFG_NFT_COMMENT_MAX`. -/
def commentMax : ℕ := 128

/-- `name=NAME sha256=DIGEST`. -/
def commentText (name digest : String) : String := "name=" ++ name ++ " sha256=" ++ digest

/-- `rule_comment`. -/
def ruleComment (hook : ChainName) (r : Rule) (pieces : List Piece) : Except String String :=
  let comment := commentText r.name (digestOf host (firewallRuleText host hook r pieces))
  if commentMax < comment.utf8ByteSize then
    .error (s!"rule `{hook.text}/{r.name}` has a name too long for the {commentMax} characters " ++
      "an nftables comment holds beside its digest")
  else .ok comment

/-! ## The rules one written rule becomes -/

/-- A rule of the table : its expressions, and its comment where it has one. -/
structure KernelRule where
  exprs : List Expr
  comment : Option String
  deriving DecidableEq, Repr

def choices {α : Type*} (l : List α) : List (Option α) := if l = [] then [none] else l.map some

/-- `FIREWALL_EXPANSION_MAX`. -/
def expansionMax : ℕ := 256

structure Combination where
  port : Option ℕ
  source : Option String
  destination : Option String
  mac : Option String
  piece : Option Piece

/-- The combinations of a rule's values, the last changing first. -/
def combinations (r : Rule) (pieces : List Piece) : List Combination :=
  (choices r.ports).flatMap fun port => (choices r.sources).flatMap fun source =>
    (choices r.destinations).flatMap fun destination => (choices r.mac).flatMap fun mac =>
      (choices pieces).map fun piece => ⟨port, source, destination, mac, piece⟩

def Combination.rule (c : Combination) (r : Rule) : Rule :=
  { r with
    ports := c.port.toList
    sources := c.source.toList
    destinations := c.destination.toList
    mac := c.mac.toList }

/-- The source and the destination of a combination are of two families. -/
def mixedFamilies (c : Combination) : Except String Bool :=
  match c.source, c.destination with
  | some source, some destination => do
    let a ← parseAddress host source
    let b ← parseAddress host destination
    return a.family ≠ b.family
  | _, _ => .ok false

/-- The kernel rule of a combination : none where no packet could match it. -/
def combinationRule (hook : ChainName) (r : Rule) (comment : String) (c : Combination) :
    Except String (Option KernelRule) := do
  if ← mixedFamilies host c then return none
  let exprs ← firewallRule host hook (c.rule r) c.piece
  return some ⟨exprs, some comment⟩

/-- `firewall_rule_messages`. -/
def firewallRuleMessages (hook : ChainName) (r : Rule) : Except String (List KernelRule) :=
  match rulePieces host r with
  | .error _ => .error s!"rule `{hook.text}/{r.name}` has a schedule that cannot be read"
  | .ok pieces =>
    let count := (combinations r pieces).length
    if expansionMax < count then
      .error (s!"rule `{hook.text}/{r.name}` would be {count} kernel rules, one per combination " ++
        "of its ports, addresses, stations and the pieces its schedule is in UTC, and " ++
        s!"{expansionMax} is the most one rule may become; split it")
    else do
      let comment ← ruleComment host hook r pieces
      let rules ← (combinations r pieces).mapM (combinationRule host hook r comment)
      match rules.filterMap id with
      | [] => .error (s!"rule `{hook.text}/{r.name}` matches only IPv4 sources with IPv6 " ++
          "destinations or the reverse, which no packet carries")
      | rules => .ok rules

/-- A chain as the kernel gets it. -/
structure FilterChain where
  policy : ChainPolicy
  rules : List KernelRule
  deriving DecidableEq, Repr

/-- The chain of a document, built. -/
def filterChain (hook : ChainName) (c : Chain) : Except String FilterChain := do
  let rules ← c.rules.mapM (firewallRuleMessages host hook)
  return ⟨c.policy, rules.flatten⟩

/-- The chains of one table. -/
structure FilterTable where
  input : FilterChain
  forward : FilterChain
  output : FilterChain
  deriving DecidableEq, Repr

def FilterTable.chain (t : FilterTable) : ChainName → FilterChain
  | .input => t.input
  | .forward => t.forward
  | .output => t.output

def filterChains (fw : Firewall) : Except String FilterTable := do
  let input ← filterChain host .input fw.input
  let forward ← filterChain host .forward fw.forward
  let output ← filterChain host .output fw.output
  return ⟨input, forward, output⟩

/-! ## Masquerade and the port forwards -/

/-- `ncfg_port_forward_protocol_t`. -/
inductive ForwardProtocol
  | tcp
  | udp
  deriving DecidableEq, Repr

/-- `ncfg_forward_rule_kind_t`, with the fields that are a kind's own. -/
inductive ForwardKind
  | forward
  | reflect (address : String)
  | hairpin (network via : String)
  deriving DecidableEq, Repr

/-- `ncfg_forward_rule_t`. -/
structure ForwardRule where
  kind : ForwardKind
  interface : String
  name : String
  protocol : ForwardProtocol
  port : ℕ
  /-- `to`. -/
  target : String
  toPort : ℕ
  deriving DecidableEq, Repr

/-- `NCFG_NFT_IFNAME_MAX`. -/
def ifnameMax : ℕ := 16

/-- `valid_uplink`. -/
def validUplink (name : String) : Except String Unit :=
  if name = "" then .error "a masquerade rule needs an interface to masquerade"
  else if name.toList.any fun c => c.toNat ≤ 0x20 || 0x7f ≤ c.toNat || c = '/' then
    .error s!"`{name}` is not a name the kernel would take for an interface"
  else if ifnameMax < name.utf8ByteSize + 1 then
    .error (s!"`{name}` is longer than the {ifnameMax} bytes one register holds, so no " ++
      "comparison could be written for it")
  else if name = "." ∨ name = ".." then .error s!"`{name}` is not an interface name"
  else .ok ()

/-- `masquerade_rule`. -/
def masqueradeRule (uplink : String) : KernelRule :=
  ⟨[.load .oifname, .cmp .eq (cBytes uplink ++ [0]), .masq], none⟩

/-- `forward_role`. -/
def ForwardKind.role : ForwardKind → String
  | .forward => ""
  | .reflect _ => "reflect"
  | .hairpin .. => "hairpin"

def ForwardKind.isHairpin : ForwardKind → Bool
  | .hairpin .. => true
  | _ => false

/-- `forward_chain`. -/
def ForwardKind.chain (kind : ForwardKind) : String :=
  if kind.isHairpin then "postrouting" else "prerouting"

def ForwardProtocol.word : ForwardProtocol → String
  | .tcp => "tcp"
  | .udp => "udp"

def ForwardProtocol.number : ForwardProtocol → UInt8
  | .tcp => 6
  | .udp => 17

/-- `ncfg_nft_forward_text`. -/
def forwardText (f : ForwardRule) : String :=
  s!"chain {f.kind.chain}\ninterface {f.interface}\nprotocol {f.protocol.word}\n" ++
    s!"port {f.port}\nto {f.target}\nto_port {f.toPort}\n" ++
    match f.kind with
    | .forward => ""
    | .reflect address => s!"role reflect\naddress {address}\n"
    | .hairpin network via => s!"role hairpin\nnetwork {network}\nvia {via}\n"

/-- `IF/NAME[@ROLE]`, the identity a forward's comment carries. -/
def forwardIdentity (f : ForwardRule) : String :=
  f.interface ++ "/" ++ f.name ++ (if f.kind.role = "" then "" else "@" ++ f.kind.role)

/-- `forward_parts_t`, by kind : what of a forward is read before it is written. -/
inductive ForwardParts
  | forward (family : Family) (target : Bytes)
  | reflect (address target : Bytes)
  | hairpin (network : Address) (via : String) (target : Bytes)

/-- The host a forward sends to : IPv6 for a plain forward only. -/
def forwardTo (f : ForwardRule) : Except String (Family × Bytes) :=
  match host.pton .ipv4 f.target.toList, f.kind, host.pton .ipv6 f.target.toList with
  | some bytes, _, _ => .ok (.ipv4, bytes)
  | none, .forward, some bytes => .ok (.ipv6, bytes)
  | _, _, _ =>
    .error (s!"port forward `{f.interface}/{f.name}` sends to `{f.target}`, which is not " ++
      "an IPv4 address")

def forwardParts (f : ForwardRule) (target : Family × Bytes) : Except String ForwardParts :=
  match f.kind with
  | .forward => .ok (.forward target.1 target.2)
  | .reflect address =>
    match host.pton .ipv4 address.toList with
    | some bytes => .ok (.reflect bytes target.2)
    | none =>
      .error (s!"port forward `{f.interface}/{f.name}` is reflected at `{address}`, which " ++
        "is not an IPv4 address")
  | .hairpin network via =>
    match parseAddress host network with
    | .ok a =>
      if a.family = .ipv4 then (validUplink via).map fun _ => .hairpin a via target.2
      else .error (s!"port forward `{f.interface}/{f.name}` has a return path from `{network}`, " ++
        "which is not an IPv4 network")
    | .error _ => .error (s!"port forward `{f.interface}/{f.name}` has a return path from " ++
        s!"`{network}`, which is not an IPv4 network")

/-- `forward_checked` : what is read of a forward, and its comment. -/
def forwardChecked (f : ForwardRule) : Except String (ForwardParts × String) := do
  validUplink f.interface
  let target ← forwardTo host f
  if f.port = 0 ∨ f.toPort = 0 then
    throw s!"port forward `{f.interface}/{f.name}` has a port of 0"
  let parts ← forwardParts host f target
  let comment := commentText (forwardIdentity f) (digestOf host (forwardText f))
  if commentMax < comment.utf8ByteSize then
    throw (s!"port forward `{f.interface}/{f.name}` has a name too long for the {commentMax} " ++
      "characters an nftables comment holds beside its digest")
  return (parts, comment)

def familyMatch (family : Family) : List Expr := [.load .nfproto, .cmp .eq [family.number]]

def hostMatch (bytes : Bytes) : List Expr :=
  addressExprs Family.ipv4.destinationOffset Family.ipv4.width (8 * Family.ipv4.width) bytes

def portMatch (protocol : ForwardProtocol) (port : ℕ) : List Expr :=
  [.load .l4proto, .cmp .eq [protocol.number], .payload .transport 2 2,
    .cmp .eq (networkOrder 2 port)]

/-- `dnat to A:Q`. -/
def dnatTo (family : Family) (target : Bytes) (toPort : ℕ) : List Expr :=
  [.immediate 1 target, .immediate 2 (networkOrder 2 toPort), .nat family]

/-- `forward_rule`. -/
def forwardRule (f : ForwardRule) : ForwardParts → List Expr
  | .forward family target =>
    [.load .iifname, .cmp .eq (cBytes f.interface ++ [0])] ++
      (if family = .ipv6 then familyMatch .ipv6 else []) ++
      portMatch f.protocol f.port ++ dnatTo family target f.toPort
  | .reflect address target =>
    [.load .iifname, .cmp .neq (cBytes f.interface ++ [0])] ++ familyMatch .ipv4 ++
      hostMatch address ++ portMatch f.protocol f.port ++ dnatTo .ipv4 target f.toPort
  | .hairpin network via target =>
    [.load .oifname, .cmp .eq (cBytes via ++ [0])] ++ familyMatch .ipv4 ++
      addressMatch network true ++ hostMatch target ++ portMatch f.protocol f.toPort ++ [.masq]

def forwardKernel (f : ForwardRule) : Except String KernelRule := do
  let (parts, comment) ← forwardChecked host f
  return ⟨forwardRule f parts, some comment⟩

/-! ## The table -/

/-- netcfgd's table : a chain is there only where something needs it. -/
structure Table where
  postrouting : Option (List KernelRule)
  prerouting : Option (List KernelRule)
  filter : Option FilterTable
  deriving DecidableEq, Repr

def buildFilter : Option Firewall → Except String (Option FilterTable)
  | none => .ok none
  | some fw => (filterChains host fw).map some

/-- `ncfg_nft_build_replace_all` : the table the transaction leaves, none where there is nothing to
put in one. A masquerade rule is sent without `NLM_F_APPEND`, so each goes before the last. -/
def buildReplaceAll (uplinks : List String) (fw : Option Firewall) (forwards : List ForwardRule) :
    Except String (Option Table) := do
  uplinks.forM validUplink
  let returns ← (forwards.filter (·.kind.isHairpin)).mapM (forwardKernel host)
  let translations ← (forwards.filter (!·.kind.isHairpin)).mapM (forwardKernel host)
  let filter ← buildFilter host fw
  if uplinks = [] ∧ fw = none ∧ forwards = [] then return none
  return some
    { postrouting := if uplinks = [] ∧ returns = [] then none
        else some ((uplinks.map masqueradeRule).reverse ++ returns)
      prerouting := if translations = [] then none else some translations
      filter }

/-! ## The bytes of a name -/

theorem zero_mem_utf8EncodeChar {c : Char} (h : 0 ∈ String.utf8EncodeChar c) : c = '\x00' := by
  have hbyte : ∀ n m : ℕ, 0 < m → n + m < 256 → (0 : UInt8) ≠ UInt8.ofNat (n + m) := by
    intro n m h0 hlt heq
    have := congrArg UInt8.toNat heq
    rw [UInt8.toNat_ofNat_of_lt' hlt, UInt8.toNat_zero] at this
    omega
  unfold String.utf8EncodeChar at h
  dsimp only at h
  split_ifs at h with h1 h2 h3
  · have hzero : (0 : UInt8) = UInt8.ofNat c.val.toNat := by simpa using h
    have := congrArg UInt8.toNat hzero
    rw [UInt8.toNat_ofNat_of_lt' (by omega : c.val.toNat < 256)] at this
    exact Char.ext (UInt32.toNat_inj.1 this.symm)
  all_goals
    exfalso
    simp only [List.mem_cons, List.not_mem_nil, or_false] at h
  · rcases h with h | h <;> exact hbyte _ _ (by decide) (by omega) h
  · rcases h with h | h | h <;> exact hbyte _ _ (by decide) (by omega) h
  · rcases h with h | h | h | h <;> exact hbyte _ _ (by decide) (by omega) h

theorem zero_notMem_cBytes {s : String} (h : '\x00' ∉ s.toList) : 0 ∉ cBytes s := by
  intro hmem
  obtain ⟨c, hc, hzero⟩ := List.mem_flatMap.1 hmem
  exact h (zero_mem_utf8EncodeChar hzero ▸ hc)

theorem length_cBytes (s : String) : (cBytes s).length = s.utf8ByteSize := by
  rw [← String.size_toByteArray, ← String.utf8Encode_toList, List.utf8Encode]
  simp [cBytes]

end Netcfgd.Nft
