import Netcfgd.JsonWrite
import Netcfgd.Resolver

/-!
# The DHCP server of an interface

dnsmasq as a DHCP server and a forwarder : what a `dhcp_server` block may hold
(`model/dhcp_server.c`), the configuration rendered of it, the summary its second line carries, and
reading that line back (`backend/dhcp_server/dhcp_server.c`).

A text is its bytes, a byte being a character here. A generated file is a list of lines (`Line`),
each a comment, a bare directive or a directive with a value.
-/

namespace Netcfgd.DhcpServer

open Netcfgd.Resolver (Text unlines)

/-! ## The document -/

/-- `ncfg_dhcp_host_t` : a reservation. -/
structure Host where
  name : Text
  mac : Text
  address : Text
  deriving DecidableEq

inductive OptionKind
  | ip | text | u8 | u16 | u32 | bool | hex
  deriving DecidableEq

/-- `ncfg_dhcp_option_t`. -/
structure CustomOption where
  name : Text
  code : ℤ
  kind : OptionKind
  ip : List Text := []
  text : Option Text := none
  number : Option ℤ := none
  deriving DecidableEq

/-- `ncfg_dhcp_server_t`. -/
structure Server where
  rangeStart : Option Text := none
  rangeEnd : Option Text := none
  range6Start : Option Text := none
  range6End : Option Text := none
  lease : Option ℤ := none
  dns : List Text := []
  dnsForward : Bool := false
  dnsIntercept : Bool := false
  gateway : Option Text := none
  domain : Option Text := none
  bootFile : Option Text := none
  bootServer : Option Text := none
  tftpServer : Option Text := none
  wpad : Option Text := none
  ntp : List Text := []
  relay : List Text := []
  block : List Text := []
  hosts : List Host := []
  options : List CustomOption := []
  deriving DecidableEq

/-- `ncfg_dns_record_t`. -/
structure DnsRecord where
  name : Text
  address : List Text := []
  cname : Option Text := none
  mx : Option Text := none
  preference : Option ℤ := none
  txt : Option Text := none
  srv : Option Text := none
  port : Option ℤ := none
  priority : Option ℤ := none
  weight : Option ℤ := none
  forward : List Text := []
  deriving DecidableEq

/-- `ncfg_block_list_t`. -/
structure BlockList where
  name : Text
  domain : List Text := []
  allow : List Text := []
  file : List Text := []
  url : List Text := []
  deriving DecidableEq

/-- `ncfg_document_t`, as far as a DHCP server reads it. -/
structure Document where
  dnsRecords : List DnsRecord := []
  blockLists : List BlockList := []

/-- `ncfg_interface_t`, likewise. -/
structure Interface where
  name : Text
  addressing : List AddressSource
  server : Server

/-! ## The shapes of values -/

/-- `isalnum` on ASCII. -/
def isAlnum (c : Char) : Bool :=
  '0' ≤ c && c ≤ '9' || 'a' ≤ c && c ≤ 'z' || 'A' ≤ c && c ≤ 'Z'

/-- `isprint` on ASCII. -/
def isPrint (c : Char) : Bool := ' ' ≤ c && c ≤ '~'

/-- `to_host` : the number of an IPv4 address. -/
def toHost (octets : Inet.Groups 4 256) : ℕ := octets.list.foldl (fun n o => n * 256 + o) 0

/-- `dotted`. -/
def dotted (value : ℕ) : Text :=
  Inet.dotted [value / 2 ^ 24 % 256, value / 2 ^ 16 % 256, value / 2 ^ 8 % 256, value % 256]

def addressOf (text : Text) : Option Address := Address.parse (String.ofList text)

/-- `bare_ipv4`. -/
def bareIpv4 (text : Text) : Option ℕ :=
  match addressOf text with
  | some ⟨.v4 octets, none, _⟩ => some (toHost octets)
  | _ => none

/-- `bare_address`. -/
def bareAddress (text : Text) : Bool := (addressOf text).any fun a => a.length.isNone

/-- `ncfg_dhcp_server_plain_name`. -/
def plainName (name : Text) : Bool :=
  name.head?.any isAlnum && name.length ≤ 63 && name.all fun c => isAlnum c || c = '-' || c = '.'

/-- The labels of a DNS name, from the length of the label so far and the character before. -/
def dnsLabels : ℕ → Option Char → Text → Bool
  | label, last, [] => label ≠ 0 && last ≠ some '-'
  | label, last, c :: rest =>
    if c = '.' then label ≠ 0 && last ≠ some '-' && dnsLabels 0 (some c) rest
    else (isAlnum c || c = '-') && !(label = 0 && c = '-') && label < 63 &&
      dnsLabels (label + 1) (some c) rest

/-- `ncfg_dhcp_server_dns_name`. -/
def dnsName (name : Text) : Bool := name ≠ [] && name.length ≤ 253 && dnsLabels 0 none name

/-- `option_text`. -/
def optionText (text : Text) (most : ℕ) (refused : String) : Bool :=
  text ≠ [] && text.length ≤ most && text.all fun c => isPrint c && c ∉ refused.toList

/-- `hex_value`, and with it the octets of a hardware address. -/
def hexOctets : ℕ → Text → Bool
  | 0, _ => false
  | 1, [a, b] => (Inet.digitOf a).isSome && (Inet.digitOf b).isSome
  | n + 1, a :: b :: ':' :: rest =>
    (Inet.digitOf a).isSome && (Inet.digitOf b).isSome && hexOctets n rest
  | _, _ => false

/-- `ncfg_hardware_address_strict`, whether a text is one. -/
def hardwareAddress (mac : Text) : Bool := hexOctets 6 mac

/-- `ncfg_dhcp_option_hex`. -/
def optionHexAt : ℕ → Text → Bool
  | 0, _ => false
  | n + 1, a :: b :: rest =>
    let lower := fun c => '0' ≤ c && c ≤ '9' || 'a' ≤ c && c ≤ 'f'
    lower a && lower b && (rest = [] || rest.head? = some ':' && optionHexAt n (rest.drop 1))
  | _, _ => false

/-- `ncfg_dhcp_option_hex` : up to 255 octets, in lower case. -/
def optionHex (text : Text) : Bool := optionHexAt 255 text

/-- `ncfg_dhcp_option_code_taken`. -/
def codeTaken (code : ℤ) : Bool :=
  code ∈ [0, 1, 3, 6, 15, 42, 50, 51, 52, 53, 54, 55, 56, 57, 58, 59, 60, 61, 66, 67, 82, 252, 255]

/-- `option_value_fits`. -/
def optionValueFits (o : CustomOption) : Bool :=
  let number := fun (most : ℤ) =>
    o.number.any (fun n => 0 ≤ n && n ≤ most) && o.text.isNone && o.ip.isEmpty
  match o.kind with
  | .ip =>
    !o.ip.isEmpty && o.ip.length ≤ 63 && o.ip.all (fun a => (bareIpv4 a).isSome) &&
      o.text.isNone && o.number.isNone
  | .text => o.text.any (optionText · 255 "\"\\") && o.ip.isEmpty && o.number.isNone
  | .hex => o.text.any optionHex && o.ip.isEmpty && o.number.isNone
  | .u8 => number 255
  | .u16 => number 65535
  | .u32 => number 4294967295
  | .bool => number 1

/-- `service_name`. -/
def serviceName (name : Text) : Bool :=
  name.head? = some '_' && name.length ≤ 253 &&
    dnsName (name.mapIdx fun i c =>
      if c = '_' ∧ (i = 0 ∨ name[i - 1]? = some '.') then 'x' else c)

/-- `ncfg_block_list_label`. -/
def blockListLabel (name : Text) : Bool :=
  name ≠ [] && name.length ≤ 64 && name.all fun c => isAlnum c || c = '-' || c = '_' || c = '.'

/-! ## The network served -/

/-- The network of an interface, as `ncfg_dhcp_server_range` works it out. -/
structure Network where
  own : ℕ
  length : ℕ

namespace Network

def size (n : Network) : ℕ := 2 ^ (32 - n.length)

/-- The first address of a network. -/
def base (n : Network) : ℕ := n.own / n.size * n.size

def broadcast (n : Network) : ℕ := n.base + n.size - 1

def holds (n : Network) (address : ℕ) : Bool := address / n.size * n.size = n.base

/-- `router` : the interface's own address, with its prefix. -/
def router (n : Network) : Text := dotted n.own ++ '/' :: Inet.digits 10 3 n.length

end Network

/-- The network of the first static IPv4 address. -/
def networkOf (addressing : List AddressSource) : Option Network :=
  addressing.findSome? fun
    | .static source =>
      match Address.parse source.address with
      | some ⟨.v4 octets, some length, _⟩ => some ⟨toHost octets, length⟩
      | _ => none
    | _ => none

/-- What is wrong with one reservation, given the ones before it. -/
def hostFault (n : Network) (earlier : List Host) (h : Host) : Option String :=
  if !plainName h.name then
    some ("a reservation's name is a plain host name: letters, digits, hyphens and dots, " ++
      "starting with a letter or digit")
  else if !hardwareAddress h.mac then
    some ("a reservation's `mac` is six colon-separated hex octets, as in AA:BB:CC:DD:EE:FF")
  else
    match bareIpv4 h.address with
    | none => some "a reservation's `address` is one IPv4 address, with no prefix"
    | some address =>
      if !n.holds address || address = n.base || address = n.broadcast then
        some "a reservation's `address` is not inside the interface's network"
      else if address = n.own then
        some "a reservation's `address` is the interface's own, which it would hand to a host"
      else if earlier.any fun e => e.name = h.name || e.mac.map Char.toLower =
          h.mac.map Char.toLower || e.address = h.address then
        some ("two reservations share a name, a MAC or an address, and dnsmasq would give one " ++
          "of them what the other asked for")
      else none

/-- What is wrong with a list, item by item, each given the ones before it. -/
def firstFault {α : Type*} (fault : List α → α → Option String) : List α → List α → Option String
  | _, [] => none
  | earlier, x :: rest =>
    match fault earlier x with
    | some why => some why
    | none => firstFault fault (earlier ++ [x]) rest

/-- `hosts_fit`. -/
def hostsFault (n : Network) (hosts : List Host) : Option String :=
  firstFault (hostFault n) [] hosts

/-- What is wrong with one custom option, given the ones before it. -/
def customFault (earlier : List CustomOption) (o : CustomOption) : Option String :=
  if !plainName o.name then
    some "an option's name is a plain name: letters, digits, hyphens and dots"
  else if o.code < 1 || 254 < o.code || codeTaken o.code then
    some ("an option's `code` is 1 to 254, and not one a `dhcp_server` key already sets or the " ++
      "protocol itself carries: 1, 3, 6, 15, 42, 50 to 61, 66, 67, 82 and 252")
  else if !optionValueFits o then
    some ("an option's value does not fit its type: `ip` IPv4 addresses, `text` printable with " ++
      "no quote or backslash, `u8`, `u16` and `u32` numbers in range, `bool` true or false, " ++
      "`hex` octets as \"01:02\"")
  else if earlier.any fun e => e.name = o.name || e.code = o.code then
    some "two options share a name or a code, and a client would be sent only one of them"
  else none

/-- `custom_options_fit`. -/
def customsFault (options : List CustomOption) : Option String := firstFault customFault [] options

/-- `options_fit`. -/
def optionsFault (n : Network) (s : Server) : Option String :=
  if s.gateway.any fun g => (bareIpv4 g).all fun a =>
      !n.holds a || a = n.base || a = n.broadcast then
    some ("a `gateway` is one IPv4 address inside the interface's network, since a host reaches " ++
      "its gateway directly")
  else if s.domain.any fun d => !dnsName d then
    some "a `domain` is a DNS name: labels of letters, digits and hyphens, joined by dots"
  else if s.ntp.any fun a => (bareIpv4 a).isNone then
    some "an `ntp` server is an IPv4 address, which is what option 42 carries"
  else if s.bootFile.any fun f => !optionText f 127 ",\\\" " then
    some ("a `boot_file` is a file name of at most 127 printable characters, with no comma, " ++
      "quote, backslash or space")
  else if s.bootServer.isSome && s.bootFile.isNone then
    some "a `boot_server` is where a `boot_file` is fetched from, and there is no `boot_file`"
  else if s.bootServer.any fun a => (bareIpv4 a).isNone then
    some "a `boot_server` is one IPv4 address"
  else if s.tftpServer.any fun t => !dnsName t then
    some "a `tftp_server` is a DNS name or an IPv4 address"
  else if s.wpad.any fun w => !optionText w 255 "\"\\ " ||
      w.take 7 ≠ "http://".toList && w.take 8 ≠ "https://".toList then
    some "a `wpad` is an http:// or https:// URL, with no quote, backslash or space"
  else none

/-- `ipv6_suffix` : an address with nothing in its upper 64 bits. -/
def ipv6Suffix (text : Text) : Option ℕ :=
  match addressOf text with
  | some ⟨.v6 words, none, _⟩ =>
    if (words.list.take 4).all (· = 0) then some (Address.valueOf words) else none
  | _ => none

/-- Whether an interface holds an IPv6 prefix to put suffixes in. -/
def holdsPrefix6 (addressing : List AddressSource) : Bool :=
  addressing.any fun
    | .delegated .. => true
    | .static source =>
      match Address.parse source.address with
      | some ⟨.v6 words, some _, _⟩ => words.list.head?.any fun w => w / 256 ≠ 0xfe
      | _ => false
    | _ => false

/-- `range6_fits`. -/
def range6Fault (i : Interface) : Option String :=
  match i.server.range6Start, i.server.range6End with
  | none, none => none
  | start, last =>
    match start.bind ipv6Suffix, last.bind ipv6Suffix with
    | some first, some last =>
      if last < first then
        some ("a `range6` is two IPv6 suffixes in order, \"::100-::1ff\", which are put in the " ++
          "interface's own prefix")
      else if !holdsPrefix6 i.addressing then
        some ("a `range6` is put in the interface's IPv6 prefix, and this interface has none: " ++
          "give it a static IPv6 address or a delegated prefix in `config`")
      else none
    | _, _ =>
      some ("a `range6` is two IPv6 suffixes in order, \"::100-::1ff\", which are put in the " ++
        "interface's own prefix")

/-- What `ncfg_dhcp_server_range` gives : the range, and the interface's own address. -/
structure Range where
  start : Text
  last : Text
  router : Text
  deriving DecidableEq

def relayOffers (s : Server) : Bool :=
  s.rangeStart.isSome || s.rangeEnd.isSome || s.lease.isSome || !s.dns.isEmpty ||
    !s.hosts.isEmpty || !s.options.isEmpty || s.range6Start.isSome || s.gateway.isSome ||
    s.domain.isSome ||
    !s.ntp.isEmpty || s.bootFile.isSome || s.tftpServer.isSome || s.wpad.isSome

/-- The range a relay has : none, only the address it relays from. -/
def relayRange (n : Network) (s : Server) : Except String Range :=
  if relayOffers s then
    .error ("a `relay` passes requests to another server and hands out nothing itself, so it " ++
      "takes no range, lease, reservation or option: those are the other server's")
  else if s.relay.any fun a => (bareIpv4 a).all fun relayed => relayed = n.own then
    .error ("a `relay` names the DHCP servers to pass requests to, as IPv4 addresses other than " ++
      "the interface's own")
  else .ok ⟨[], [], n.router⟩

/-- The ends of the range : stated, or the 100th host to the 249th. -/
def rangeEnds (n : Network) (s : Server) : Except String (ℕ × ℕ) :=
  if s.rangeStart.isSome || s.rangeEnd.isSome then
    match s.rangeStart.bind bareIpv4, s.rangeEnd.bind bareIpv4 with
    | some first, some last =>
      if last < first then .error "the `range` runs backwards"
      else if !n.holds first || !n.holds last || first = n.base || last = n.broadcast then
        .error "the `range` is not inside the interface's network"
      else if first ≤ n.own && n.own ≤ last then
        .error "the `range` takes in the interface's own address, which it would hand to a host"
      else .ok (first, last)
    | _, _ => .error "a `range` is two IPv4 addresses, \"192.168.1.100-192.168.1.249\""
  else
    let first := (n.base + 100) % 2 ^ 32
    let last := (n.base + 249) % 2 ^ 32
    let last := if n.broadcast ≤ last then n.broadcast - 1 else last
    if n.broadcast ≤ first || last < first then
      .error ("the interface's network is too small for the default range, from its 100th " ++
        "host: state a `range`")
    else if first ≤ n.own && n.own ≤ last then
      .error ("the interface's own address is inside the default range, from the 100th host to " ++
        "the 249th: state a `range` that leaves it out")
    else .ok (first, last)

def serverRange (i : Interface) (n : Network) : Except String Range :=
  match rangeEnds n i.server with
  | .error why => .error why
  | .ok (first, last) =>
    match (hostsFault n i.server.hosts).or (optionsFault n i.server) |>.or
        (customsFault i.server.options) |>.or (range6Fault i) with
    | some why => .error why
    | none => .ok ⟨dotted first, dotted last, n.router⟩

/-- `ncfg_dhcp_server_range`. -/
def dhcpServerRange (i : Interface) : Except String Range :=
  let s := i.server
  if s.dnsIntercept && !s.dnsForward then
    .error ("`dns_intercept` sends the network's DNS to this router's forwarder, so it needs " ++
      "`dns_forward = true`")
  else if !s.block.isEmpty && !s.dnsForward then
    .error ("a `block` list is applied by the DNS forwarder, so it needs `dns_forward = true`: " ++
      "without it the hosts ask another server")
  else if s.block.any fun name => !blockListLabel name then
    .error "a `block` names `block_list` blocks: letters, digits, `-`, `_` and `.`"
  else
    match networkOf i.addressing with
    | none =>
      .error ("a DHCP server serves the network of its interface's static IPv4 address, and " ++
        "this interface has none: add one to `config`, such as \"192.168.1.1/24\"")
    | some n =>
      if 30 < n.length then
        .error "the interface's network is too small to hand out addresses from"
      else if s.relay ≠ [] then relayRange n s
      else serverRange i n

/-- `ncfg_dns_record_check`, whether a record passes it. -/
def dnsRecordCheck (r : DnsRecord) : Bool :=
  let answers := !r.address.isEmpty || r.mx.isSome || r.txt.isSome || r.srv.isSome
  (if r.srv.isSome then serviceName r.name else dnsName r.name) &&
    !(r.cname.isSome && (answers || !r.forward.isEmpty)) && !(!r.forward.isEmpty && answers) &&
    (answers || r.cname.isSome || !r.forward.isEmpty) && r.cname.all dnsName && r.mx.all dnsName &&
    !(r.preference.isSome && r.mx.isNone) && r.txt.all (optionText · 255 "\"\\") &&
    r.srv.all dnsName && !(r.srv.isSome && r.port.all fun p => p < 1) &&
    !(r.srv.isNone && (r.port.isSome || r.priority.isSome || r.weight.isSome)) &&
    r.address.all bareAddress && r.forward.all bareAddress

/-! ## The lines of the file -/

inductive Line
  | comment (text : Text)
  | flag (key : Text)
  | set (key : Text) (value : Text)
  deriving DecidableEq

def Line.text : Line → Text
  | comment text => '#' :: text
  | flag key => key
  | set key value => key ++ '=' :: value

/-- A number, as `%lld` writes it. -/
def intText (n : ℤ) : Text :=
  (if n < 0 then ['-'] else []) ++ (Json.decimalDigits n.natAbs).map Inet.digitChar

/-- An octet, as `%02x` writes it. -/
def hexText (octet : ℕ) : Text := [Inet.digitChar (octet / 16 % 16), Inet.digitChar (octet % 16)]

def commas (texts : List Text) : Text := [','].intercalate texts

/-- `render_custom_option`. -/
def customLine (o : CustomOption) : Line :=
  let value := (o.number.getD 0).toNat
  .set "dhcp-option".toList (intText o.code ++ ',' ::
    match o.kind with
    | .ip => commas o.ip
    | .text => '"' :: (o.text.getD [] ++ ['"'])
    | .u16 => hexText (value / 256) ++ ':' :: hexText value
    | .u32 => hexText (value / 2 ^ 24) ++ ':' :: hexText (value / 2 ^ 16) ++ ':' ::
        hexText (value / 256) ++ ':' :: hexText value
    | .hex =>
      let text := o.text.getD []
      if ':' ∈ text then text
      else intText (text.foldl (fun n c => n * 16 + (Inet.digitOf c).getD 0) 0 : ℕ)
    | .u8 | .bool => intText value)

/-- The lines of one record of `render_records`. -/
def recordLines (r : DnsRecord) : List Line :=
  (if r.address = [] then [] else [Line.set "host-record".toList (commas (r.name :: r.address))]) ++
    (r.cname.toList.map fun c => Line.set "cname".toList (r.name ++ ',' :: c)) ++
    (r.mx.toList.map fun m =>
      Line.set "mx-host".toList (r.name ++ ',' :: m ++ ',' :: intText (r.preference.getD 10))) ++
    (r.txt.toList.map fun t => Line.set "txt-record".toList (r.name ++ ',' :: '"' :: t ++ ['"'])) ++
    (r.srv.toList.map fun s => Line.set "srv-host".toList (r.name ++ ',' :: s ++
      ',' :: intText (r.port.getD 0) ++ ',' :: intText (r.priority.getD 0) ++
      ',' :: intText (r.weight.getD 0))) ++
    r.forward.map fun f => Line.set "server".toList ('/' :: r.name ++ '/' :: f)

/-- `render_records` and `render_blocks`, for a server that forwards. -/
def forwarderLines (d : Document) (s : Server) (blockPath : Text) : List Line :=
  if s.dnsForward then
    (d.dnsRecords.filter dnsRecordCheck).flatMap recordLines ++
      if s.block = [] then [] else [Line.set "conf-file".toList blockPath]
  else []

def portLines (s : Server) : List Line :=
  if s.dnsForward then
    [Line.set "port".toList "53".toList, Line.set "except-interface".toList "lo".toList,
      Line.flag "domain-needed".toList, Line.flag "bogus-priv".toList]
  else [Line.set "port".toList "0".toList]

def relayLines (name : Text) (s : Server) (own : Text) : List Line :=
  [Line.set "interface".toList name, Line.flag "bind-interfaces".toList,
    Line.set "user".toList "nobody".toList] ++
    s.relay.map fun a => Line.set "dhcp-relay".toList (own ++ ',' :: a)

/-- `NCFG_DHCP_SERVER_LEASE_DEFAULT`. -/
def leaseDefault : ℤ := 43200

def optionLines (s : Server) : List Line :=
  (if s.dns = [] then [] else [Line.set "dhcp-option".toList (commas (['6'] :: s.dns))]) ++
    (s.gateway.toList.map fun g => Line.set "dhcp-option".toList ("3,".toList ++ g)) ++
    (s.domain.toList.flatMap fun d => Line.set "domain".toList d ::
      if s.dnsForward then [Line.set "local".toList ('/' :: d ++ ['/'])] else []) ++
    (if s.ntp = [] then [] else [Line.set "dhcp-option".toList (commas ("42".toList :: s.ntp))]) ++
    (s.bootFile.toList.map fun f => Line.set "dhcp-boot".toList
      (f ++ (s.bootServer.elim [] fun a => ",,".toList ++ a))) ++
    (s.tftpServer.toList.map fun t => Line.set "dhcp-option".toList
      ("66,\"".toList ++ t ++ ['"'])) ++
    s.wpad.toList.map fun w => Line.set "dhcp-option".toList ("252,\"".toList ++ w ++ ['"'])

def serverLines (name : Text) (s : Server) (r : Range) (leasesPath : Text) : List Line :=
  [Line.set "interface".toList name, Line.flag "bind-interfaces".toList,
    Line.flag "dhcp-authoritative".toList,
    Line.set "user".toList "nobody".toList,
    Line.set "dhcp-range".toList
      (commas [name, r.start, r.last, intText (s.lease.getD leaseDefault)]),
    Line.set "dhcp-leasefile".toList leasesPath] ++
    (match s.range6Start, s.range6End with
      | some first, some last => [Line.set "dhcp-range".toList (commas [first, last,
          "constructor:".toList ++ name, "64".toList, intText (s.lease.getD leaseDefault)])]
      | _, _ => []) ++
    (s.hosts.map fun h => Line.set "dhcp-host".toList (commas [h.mac, h.address, h.name])) ++
    optionLines s ++ s.options.map customLine

/-- The directives of a server's file. -/
def directiveLines (d : Document) (i : Interface) (r : Range) (leasesPath blockPath : Text) :
    List Line :=
  portLines i.server ++
    (if i.server.relay ≠ [] then relayLines i.name i.server (r.router.takeWhile (· ≠ '/'))
      else serverLines i.name i.server r leasesPath) ++
    forwarderLines d i.server blockPath

/-! ## The summary -/

def fnvStep (digest : UInt32) (c : Char) : UInt32 := (digest ^^^ c.toNat.toUInt32) * 16777619

def fnv (bytes : Text) : UInt32 := bytes.foldl fnvStep 2166136261

/-- What `digest_text` puts into a digest : a text without its case, and a separator. -/
def folded (text : Text) : Text := text.map Char.toLower ++ ['\x00']

/-- What `digest_word` puts into a digest. -/
def word (text : Text) : Text := text ++ ['\x00']

/-- A digest, as `%08x` writes it. -/
def digestText (digest : UInt32) : Text :=
  let n := digest.toNat
  hexText (n / 2 ^ 24) ++ hexText (n / 2 ^ 16) ++ hexText (n / 2 ^ 8) ++ hexText n

def kindNumber : OptionKind → ℤ
  | .ip => 0 | .text => 1 | .u8 => 2 | .u16 => 3 | .u32 => 4 | .bool => 5 | .hex => 6

/-- Whether a number is there, as `%d` writes it. -/
def hasText (n : Option ℤ) : Text := if n.isSome then ['1'] else ['0']

/-- What `options_digest` digests. -/
def optionsInput (s : Server) : Text :=
  ([s.gateway, s.domain, s.bootFile, s.bootServer, s.tftpServer, s.wpad].flatMap fun t =>
    folded (t.getD [])) ++ s.ntp.flatMap folded ++
    s.options.flatMap fun o =>
      folded o.name ++ folded ([' '].intercalate
        [intText o.code, intText (kindNumber o.kind), intText (o.number.getD 0),
          hasText o.number]) ++
        folded (o.text.getD []) ++ o.ip.flatMap folded

def offersOptions (s : Server) : Bool :=
  s.gateway.isSome || s.domain.isSome || s.bootFile.isSome || s.bootServer.isSome ||
    s.tftpServer.isSome || s.wpad.isSome || !s.ntp.isEmpty || !s.options.isEmpty

/-- What `records_digest` digests. -/
def recordsInput (records : List DnsRecord) : Text :=
  records.flatMap fun r =>
    folded r.name ++ folded ([' '].intercalate ([r.preference, r.port, r.priority, r.weight].flatMap
      fun n => [hasText n, intText (n.getD 0)])) ++
      folded (r.cname.getD []) ++ folded (r.mx.getD []) ++ folded (r.txt.getD []) ++
      folded (r.srv.getD []) ++ r.address.flatMap folded ++ folded ['|'] ++ r.forward.flatMap folded

def hostsInput (hosts : List Host) : Text :=
  hosts.flatMap fun h => folded h.name ++ folded h.mac ++ folded h.address

/-- `find_list`. -/
def findList (d : Document) (name : Text) : Option BlockList :=
  d.blockLists.find? fun l => l.name = name

/-- What `ncfg_dhcp_server_block_digest` digests. A file is there by its bytes, where it can be
read. -/
def blocksInput (d : Document) (files : Text → Option Text) (s : Server) : Text :=
  s.block.flatMap fun name => word name ++
    match findList d name with
    | none => []
    | some l => l.domain.flatMap word ++ word ['|'] ++ l.allow.flatMap word ++ word ['|'] ++
        l.file.flatMap fun path => word path ++ word ((files path).getD "absent".toList)

def counted (n : ℕ) (what : String) : Text :=
  intText n ++ ' ' :: what.toList ++ if n = 1 then [] else ['s']

/-- `add_blocks`. -/
def blocksPart (d : Document) (files : Text → Option Text) (s : Server) : Text :=
  if s.dnsForward && !s.block.isEmpty then
    ", blocking ".toList ++ counted s.block.length "list" ++
      ' ' :: digestText (fnv (blocksInput d files s))
  else []

def relaySummary (s : Server) : Text :=
  "relay to".toList ++ s.relay.flatMap (' ' :: ·) ++
    if s.dnsForward then ", forwarding dns".toList else []

def serverSummary (d : Document) (s : Server) (r : Range) : Text :=
  r.start ++ '-' :: r.last ++ ", ".toList ++ intText (s.lease.getD leaseDefault) ++
    " s, dns ".toList ++
    (if s.dns ≠ [] then [' '].intercalate s.dns
      else if s.dnsForward then "this router".toList else "none".toList) ++
    (if s.dnsForward then ", forwarding dns".toList else []) ++
    (match s.range6Start, s.range6End with
      | some first, some last => ", dhcpv6 ".toList ++ first ++ '-' :: last
      | _, _ => []) ++
    (if s.hosts = [] then [] else ", ".toList ++ counted s.hosts.length "host" ++
      ' ' :: digestText (fnv (hostsInput s.hosts))) ++
    (if offersOptions s then ", options ".toList ++ digestText (fnv (optionsInput s)) else []) ++
    if s.dnsForward && !d.dnsRecords.isEmpty then
      ", ".toList ++ counted d.dnsRecords.length "record" ++
        ' ' :: digestText (fnv (recordsInput d.dnsRecords))
    else []

/-- `NCFG_DHCP_SERVER_SUMMARY_MAX`. -/
def summaryMax : ℕ := 512

/-- `ncfg_dhcp_server_summary`. -/
def dhcpServerSummary (d : Document) (files : Text → Option Text) (i : Interface) : Option Text :=
  match dhcpServerRange i with
  | .error _ => none
  | .ok r =>
    let text := (if i.server.relay ≠ [] then relaySummary i.server
      else serverSummary d i.server r) ++ blocksPart d files i.server
    if text.length < summaryMax then some text else none

/-! ## The file -/

/-- `DHCP_SERVER_CONFIG_MAX`. -/
def configMax : ℕ := 8192

/-- `SUMMARY_PREFIX`, after its `#`. -/
def summaryMark : Text := " serves: ".toList

def headLines (name summary : Text) : List Line :=
  [.comment (" Written by netcfgd for ".toList ++ name ++
      " (decision 0297). Do not edit; it is rewritten on apply.".toList),
    .comment (summaryMark ++ summary)]

/-- `ncfg_dhcp_server_render`. -/
def dhcpServerRender (d : Document) (files : Text → Option Text) (i : Interface)
    (leasesPath blockPath : Text) : Option Text :=
  match dhcpServerRange i, dhcpServerSummary d files i with
  | .ok r, some summary =>
    let text := unlines ((headLines i.name summary ++
      directiveLines d i r leasesPath blockPath).map Line.text)
    if text.length ≤ configMax then some text else none
  | _, _ => none

end Netcfgd.DhcpServer
