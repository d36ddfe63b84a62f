import Netcfgd.Address
import Netcfgd.Ast

/-!
# Resolver files

What a machine's DNS scopes are, `model/dns.c` over a document and the helpers' reports, and the
files they are rendered to, `backend/dns/render.c` : a `resolv.conf`, which takes one flat answer,
and the configurations of dnsmasq and unbound, which take the scopes as they are.

The programs' side is their line grammar (`directives`, `masqRead`, `unboundRead`) : one directive
a line, comments left out, words split at blanks, and unbound's strings in double quotes. A text is
its bytes, a byte being a character here.
-/

namespace Netcfgd.Resolver

open Netcfgd.Compile (Value asWords asString isSpace splitText)

abbrev Text := List Char

/-! ## The policy of a scope -/

/-- `ncfg_dns_mode_t`. -/
inductive Mode
  | none | writeResolvConf | resolvconf | openresolv | resolved | dnsmasq | unbound
  deriving DecidableEq, Repr

/-- `ncfg_dns_server_t` : the text of a bare address, wherever it comes from. -/
structure Server where
  addr : Ip
  port : Option ℤ := .none
  sni : Text := []
  deriving DecidableEq

/-- `ncfg_routing_domain_t`. -/
structure Domain where
  suffix : Text
  exclusive : Bool
  deriving DecidableEq

/-- `ncfg_dns_policy_t`. -/
structure Policy where
  mode : Mode := .none
  servers : List Server := []
  search : List Text := []
  domains : List Domain := []
  options : List Text := []
  tls : Bool := false
  deriving DecidableEq

/-- `ncfg_is_bare_address`, with the address it is. -/
def bareAddress (text : String) : Option Ip :=
  (Address.parse text).bind fun a => if a.length.isSome then none else some a.ip

/-! ## The scopes -/

/-- `ncfg_interface_t`, as far as the scopes read it. Its name is one the kernel takes. -/
structure Interface where
  name : Text
  usable : ∀ c ∈ name, isSpace c = false
  managed : Bool := true
  reported : Bool := false
  dns : Option Policy := none

/-- `ncfg_document_t`. -/
structure Document where
  dns : Policy
  interfaces : List Interface
  /-- `ncfg_merge` keeps one block of a head and a label. -/
  distinct : (interfaces.map Interface.name).Nodup

/-- `ncfg_observed_report_t`. -/
structure Report where
  interface : Text
  nameservers : List Text
  search : List Text

/-- `trim` of `state_report.c`. -/
def trim (text : Text) : Text :=
  let blank := fun c => c = ' ' ∨ c = '\t' ∨ c = '\r'
  ((text.dropWhile blank).reverse.dropWhile blank).reverse

def reportValues (key : String) (body : Text) : List Text :=
  ((body.takeWhile (· ≠ '\x00')).splitOn '\n').filterMap fun line =>
    if '=' ∈ line ∧ trim (line.takeWhile (· ≠ '=')) = key.toList ∧
        trim ((line.dropWhile (· ≠ '=')).drop 1) ≠ [] then
      some (trim ((line.dropWhile (· ≠ '=')).drop 1))
    else none

/-- `ncfg_state_parse_report`, of any bytes a helper wrote. -/
def parseReport (interface body : Text) : Report :=
  ⟨interface, reportValues "dns" body, reportValues "search" body⟩

/-- The reports of the files helpers wrote, each by the interface it is of. -/
def reportsOf (files : List (Text × Text)) : List Report := files.map fun f => parseReport f.1 f.2

/-- `claimed`. -/
def Interface.claims (i : Interface) : Bool := i.dns.isSome || i.reported

/-- `reported_server`. -/
def reportedServer (text : Text) : Option Server :=
  (bareAddress (String.ofList text)).map fun ip => ⟨ip, .none, []⟩

def addNew {α : Type*} [DecidableEq α] (have_ more : List α) : List α :=
  more.foldl (fun l x => if l.getLast? = some x then l else l ++ [x]) have_

def addServers (have_ more : List Server) : List Server :=
  more.foldl (fun l s => if (l.getLast?.map Server.addr) = some s.addr then l else l ++ [s]) have_

/-- `build_scope`. -/
def buildScope (host : Mode) (base : Option Policy) (report : Option Report) : Policy :=
  let p := base.getD {}
  let p := if p.mode = .none then { p with mode := host } else p
  match report with
  | none => p
  | some r =>
    { p with servers := addServers p.servers (r.nameservers.filterMap reportedServer),
             search := addNew p.search r.search }

/-- `ncfg_dns_scope_t`. -/
structure Scope where
  name : Text
  policy : Policy

/-- `NCFG_DNS_GLOBAL_SCOPE`. -/
def globalScope : Text := "globals".toList

/-- `policy_is_empty`. -/
def Policy.isEmpty (p : Policy) : Bool :=
  p.servers.isEmpty && p.search.isEmpty && p.domains.isEmpty && p.options.isEmpty

/-- The scope of the whole machine. -/
def Document.global (d : Document) : List Scope :=
  if d.dns.mode = .none then [] else [⟨globalScope, d.dns⟩]

/-- The scope of an interface : its own policy, or what it was told. -/
def Document.scopeOf (d : Document) (reports : List Report) (i : Interface) : Option Scope :=
  let report := if i.claims then reports.find? fun r => r.interface = i.name else none
  let offers := report.filter fun r => !r.nameservers.isEmpty || !r.search.isEmpty
  if !i.managed then none
  else
    match i.dns with
    | none =>
      if offers.isNone ∨ d.dns.mode = .none then none
      else some ⟨i.name, buildScope d.dns.mode none offers⟩
    | some p =>
      if offers.isNone ∧ p.isEmpty then none
      else some ⟨i.name, buildScope d.dns.mode (some p) offers⟩

def Document.scoped (d : Document) (reports : List Report) : List Scope :=
  d.interfaces.filterMap (d.scopeOf reports)

/-- `ncfg_dns_scopes_of`. -/
def scopesOf (d : Document) (reports : List Report) : List Scope := d.global ++ d.scoped reports

/-! ## The files -/

/-- `DNS_RENDER_MAX`. -/
def renderMax : ℕ := 512 * 1024

/-- `NCFG_DNS_MAXNS`. -/
def maxServers : ℕ := 3

/-- `finish` : nothing of a text that is too large. -/
def finish (text : Text) : Option Text := if text.length ≤ renderMax then some text else none

def unlines (lines : List Text) : Text := lines.flatMap fun l => l ++ ['\n']

/-- `ncfg_dns_flat_t`. -/
structure Flat where
  servers : List Server := []
  search : List Text := []
  options : List Text := []
  deriving DecidableEq

def pushNew {α : Type*} [DecidableEq α] (have_ more : List α) : List α :=
  more.foldl (fun l x => if x ∈ l then l else l ++ [x]) have_

/-- `absorb`. -/
def absorb (flat : Flat) (s : Scope) : Flat where
  servers := pushNew flat.servers s.policy.servers
  search := pushNew flat.search s.policy.search
  options := pushNew flat.options s.policy.options

/-- `ncfg_dns_flatten` : the interfaces first and the global scope last. -/
def flatten (scopes : List Scope) : Flat :=
  (scopes.filter fun s => s.name = globalScope).foldl absorb
    ((scopes.filter fun s => s.name ≠ globalScope).foldl absorb {})

def Server.text (s : Server) : Text := s.addr.text

/-- `add_list`. -/
def listLine (keyword : String) (items : List Text) : List Text :=
  if items = [] then [] else [keyword.toList ++ items.flatMap fun i => ' ' :: i]

/-- A number as `%zu` writes it, one above zero. -/
def decimal (n : ℕ) : Text := (Nat.digits 10 n).reverse.map Inet.digitChar

def generated : Text := "# Generated by netcfgd. Edits will be overwritten.".toList

/-- The servers the resolver would not read, listed rather than dropped. -/
def omittedLines (servers : List Server) : List Text :=
  if maxServers < servers.length then
    ("# ".toList ++ decimal (servers.length - maxServers) ++
      " further server(s) omitted: the resolver reads at most 3".toList) ::
      (servers.drop maxServers).map fun s => "#   ".toList ++ s.text
  else []

/-- The lines of a `resolv.conf`. -/
def resolvLines (flat : Flat) : List Text :=
  [generated] ++ listLine "search" flat.search ++
    (flat.servers.take maxServers).map (fun s => "nameserver ".toList ++ s.text) ++
    omittedLines flat.servers ++ listLine "options" flat.options

/-- `ncfg_dns_resolv_conf`. -/
def resolvConf (flat : Flat) : Option Text := finish (unlines (resolvLines flat))

/-- The room a routing domain has in `without_trailing_dot`. -/
def bareMax : ℕ := 255

def bare (suffix : Text) : Text := (suffix.reverse.dropWhile (· = '.')).reverse

/-- `without_trailing_dot`. -/
def withoutTrailingDot (suffix : Text) : Text := (bare suffix).take bareMax

/-- The lines of a scope for dnsmasq. -/
def masqLines (s : Scope) : List Text :=
  [[], "# scope: ".toList ++ s.name] ++
    (s.policy.servers.flatMap fun server =>
      if s.policy.domains = [] then ["server=".toList ++ server.text]
      else s.policy.domains.flatMap fun d =>
        ("server=/".toList ++ withoutTrailingDot d.suffix ++ '/' :: server.text) ::
          if d.exclusive then [] else ["server=".toList ++ server.text]) ++
    s.policy.search.map fun x => "domain=".toList ++ x

/-- `ncfg_dns_dnsmasq_conf`. -/
def dnsmasqConf (scopes : List Scope) : Option Text :=
  finish (unlines (generated :: scopes.flatMap masqLines))

def zonesOf (p : Policy) : List Text :=
  if p.domains = [] then [['.']] else p.domains.map Domain.suffix

/-- The lines of a scope for unbound. -/
def unboundLines (s : Scope) : List Text :=
  [[], "# scope: ".toList ++ s.name] ++
    (zonesOf s.policy).flatMap fun zone =>
      ["forward-zone:".toList, "\tname: \"".toList ++ zone ++ ['"']] ++
        s.policy.servers.map (fun server => "\tforward-addr: ".toList ++ server.text) ++
        if s.policy.tls then ["\tforward-tls-upstream: yes".toList] else []

/-- `ncfg_dns_unbound_conf`. -/
def unboundConf (scopes : List Scope) : Option Text :=
  finish (unlines (generated :: scopes.flatMap unboundLines))

/-! ## The programs' line grammar -/

def isBlank (c : Char) : Bool := c = ' ' || c = '\t'

def words (line : Text) : List Text := splitText isBlank line

def isComment (line : Text) : Bool :=
  (line.dropWhile isBlank).head?.all fun c => c = '#'

def directives (split : Text → List Text) (text : Text) : List (List Text) :=
  ((text.splitOn '\n').filter fun l => !isComment l).map split

/-- What a resolver reads of its `resolv.conf`. -/
structure Resolved where
  servers : List Text
  search : List Text
  options : List Text
  other : List (List Text)
  deriving DecidableEq

def argumentsOf (keyword : String) (ds : List (List Text)) : List Text :=
  ds.flatMap fun ws => if ws.head? = some keyword.toList then ws.drop 1 else []

/-- `resolv.conf`, as a resolver reads it. -/
def resolvRead (text : Text) : Resolved where
  servers := argumentsOf "nameserver" (directives words text)
  search := argumentsOf "search" (directives words text)
  options := argumentsOf "options" (directives words text)
  other := (directives words text).filter fun ws =>
    ws.head? ≠ some "nameserver".toList ∧ ws.head? ≠ some "search".toList ∧
      ws.head? ≠ some "options".toList

/-- A directive of dnsmasq. -/
inductive Masq
  /-- `server=/domain/.../addr`. -/
  | server (domains : List Text) (addr : Text)
  | domain (name : Text)
  | other (words : List Text)
  deriving DecidableEq

/-- A `server=` value : domains between slashes, then the address. -/
def masqServer (value : Text) : Masq :=
  match value with
  | '/' :: rest => .server (rest.splitOn '/').dropLast ((rest.splitOn '/').getLast?.getD [])
  | _ => .server [] value

/-- One line of dnsmasq's, the option being what stands before the first `=`. -/
def masqLine : List Text → Masq
  | [word] =>
    if word.takeWhile (· ≠ '=') = "server".toList then
      masqServer ((word.dropWhile (· ≠ '=')).drop 1)
    else if word.takeWhile (· ≠ '=') = "domain".toList then
      .domain ((word.dropWhile (· ≠ '=')).drop 1)
    else .other [word]
  | ws => .other ws

/-- A file, as dnsmasq reads it. -/
def masqRead (text : Text) : List Masq := (directives words text).map masqLine

inductive Token
  | none
  | word (got : Text)
  | quoted (got : Text)

/-- The words of a line of unbound's, a string in double quotes being one. -/
def tokens : Token → Text → List Text
  | .none, [] => []
  | .word got, [] => [got]
  | .quoted got, [] => [got]
  | .none, c :: rest =>
    if isBlank c then tokens .none rest
    else if c = '"' then tokens (.quoted []) rest
    else tokens (.word [c]) rest
  | .word got, c :: rest =>
    if isBlank c then got :: tokens .none rest
    else if c = '"' then got :: tokens (.quoted []) rest
    else tokens (.word (got ++ [c])) rest
  | .quoted got, c :: rest =>
    if c = '"' then got :: tokens .none rest else tokens (.quoted (got ++ [c])) rest

/-- A file, as unbound reads it. -/
def unboundRead (text : Text) : List (List Text) := directives (tokens .none) text

end Netcfgd.Resolver
