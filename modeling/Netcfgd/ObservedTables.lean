import Netcfgd.Address
import Netcfgd.Tables

/-!
# The tables of the observation

The tables of `src/model/observed.c` that the ownership record is read and written by : a backend
with all that is known of it, and a scope of delivered DNS. What a table cannot say is a kind of
its own : an access point's policy, an SSID, a DNS mode, an address.
-/

namespace Netcfgd.Model

open Json

def Kind.always {β : Type} (k : Kind β) (name : String) (fallback : β) (h : k.Sound fallback) :
    Entry β :=
  k.member name fallback (fun _ => false) nofun h

def Kind.someOf {β : Type} (k : Kind β) (name : String) : Entry (List β) :=
  k.list.member name [] List.isEmpty (fun _ h => List.isEmpty_iff.1 h) nofun

def Kind.allOf {β : Type} (k : Kind β) (name : String) : Entry (List β) :=
  k.list.always name [] nofun

def trueOnly (name : String) : Entry Bool :=
  Kind.bool.member name false (! ·) (fun b h => by simpa using h) trivial

def strOf (name : String) (must : Bool) : Entry (Option CText) :=
  Kind.str.optional name must true

/-- The bounds of a `uint16_t`, a `uint32_t` and an `int32_t`. -/
def u16 : Kind Int64 := .int 0 65535
def u32 : Kind Int64 := .int 0 4294967295
def i32 : Kind Int64 := .int (-2147483648) 2147483647

/-- A number of a row that states no bounds : they are both the 0 the table is laid out with. -/
def unbounded : Kind Int64 := .int 0 0

/-! ## Words -/

/-- `backend_kind_words`. -/
def backendKinds : WordSet where
  words := ["dhcp4", "dhcp6", "supplicant", "access_point", "wire_guard", "pppoe", "open_vpn",
    "dns", "router_advert", "link_local", "dhcp_server", "upnp"]
  distinct := nodup_of_apart rfl
  few := by decide
  short := short_of_all rfl

/-- `origin_words`. -/
def origins : WordSet where
  words := ["static", "dhcp4", "dhcp6", "slaac", "link_local", "delegated"]
  distinct := nodup_of_apart rfl
  few := by decide
  short := short_of_all rfl

/-- `hook_phase_names`. -/
def hookPhases : WordSet where
  words := ["pre_up", "up", "post_up", "pre_down", "down", "post_down", "carrier", "lease", "roam",
    "portal", "drift"]
  distinct := nodup_of_apart rfl
  few := by decide
  short := short_of_all rfl

/-- `acl_policy_words`. -/
def aclPolicies : WordSet where
  words := ["deny", "allow"]
  distinct := nodup_of_apart rfl
  few := by decide
  short := short_of_all rfl

/-- `dnssec_words`. -/
def dnssecPostures : WordSet where
  words := ["no", "allow", "yes"]
  distinct := nodup_of_apart rfl
  few := by decide
  short := short_of_all rfl

/-- `dns_transport_words`. -/
def dnsTransports : WordSet where
  words := ["plain", "tls", "https"]
  distinct := nodup_of_apart rfl
  few := by decide
  short := short_of_all rfl

/-- `dns_mode_names`. -/
def dnsModes : WordSet where
  words := ["none", "write_resolv_conf", "resolvconf", "openresolv", "resolved", "dnsmasq",
    "unbound", "exec"]
  distinct := nodup_of_apart rfl
  few := by decide
  short := short_of_all rfl

/-! ## What a table cannot say -/

def onlyMember (name : String) : Doc → Option Doc
  | .object [(key, d)] => if key = asciis name then some d else none
  | _ => none

/-- `ncfg_ssid_t` : 0 to 32 octets, where there are any to speak of. -/
structure Ssid where
  has : Bool
  octets : List UInt8
  length_le : octets.length ≤ 32
  deriving DecidableEq, Repr

/-- `ncfg_dns_mode_value_t` : the command is that of the mode `exec`. -/
structure DnsModeValue where
  mode : ℤ
  command : Option CText
  deriving DecidableEq

/-- `ncfg_observed_steered_t`. -/
structure Steered where
  station : Option CText
  ago : Int64
  imminent : Bool
  deriving DecidableEq

/-- `ncfg_dns_server_t`. -/
structure DnsServer where
  addr : Option CText
  port : Option Int64
  sni : Option CText
  deriving DecidableEq

/-- `ncfg_routing_domain_t`. -/
structure RoutingDomain where
  suffix : Option CText
  exclusive : Bool
  deriving DecidableEq

/-- `ncfg_dns_policy_t`. -/
structure DnsPolicy where
  mode : DnsModeValue
  servers : List DnsServer
  search : List CText
  domains : List RoutingDomain
  options : List CText
  dnssec : Option Int64
  transport : Option Int64
  deriving DecidableEq

theorem onlyMember_eq_some {name : String} {d under : Doc} :
    onlyMember name d = some under ↔ d = .object [(asciis name, under)] := by
  constructor
  · intro h
    unfold onlyMember at h
    split at h
    · split_ifs at h with hname
      cases h
      rw [hname]
    · cases h
  · rintro rfl
    exact if_pos rfl

/-- `ncfg_observed_policy_t`. -/
inductive ObservedPolicy
  | unset
  | set (policy : ℤ)
  | unknown
  deriving DecidableEq, Repr

/-- `observed_policy_read`. -/
def readPolicy : Doc → Option ObservedPolicy
  | .string bytes =>
    if bytes = asciis "unset" then some .unset
    else if bytes = asciis "unknown" then some .unknown
    else none
  | d =>
    match onlyMember "set" d with
    | some (.string bytes) => (aclPolicies.field bytes).map .set
    | _ => none

/-- The member `observed_policy_write` writes of a policy that is set, if it has a word. -/
def policyMembers (policy : ℤ) : List (Bytes × Script) :=
  if (aclPolicies.name policy).isSome then [(asciis "set", aclPolicies.script policy)] else []

theorem readPolicy_eq_some {d : Doc} {p : ObservedPolicy} (h : readPolicy d = some p) :
    (p = .unset ∧ d = .string (asciis "unset")) ∨ (p = .unknown ∧ d = .string (asciis "unknown")) ∨
      ∃ policy word, p = .set policy ∧ aclPolicies.name policy = some word ∧
        d = .object [(asciis "set", .string (asciis word))] := by
  cases d with
  | string bytes =>
    simp only [readPolicy] at h
    split_ifs at h with hunset hunknown
    · cases h
      exact .inl ⟨rfl, by rw [hunset]⟩
    · cases h
      exact .inr (.inl ⟨rfl, by rw [hunknown]⟩)
  | object ms =>
    simp only [readPolicy] at h
    split at h
    · rename_i bytes honly
      obtain ⟨policy, hpolicy, rfl⟩ := Option.map_eq_some_iff.1 h
      obtain ⟨word, hword, rfl⟩ := aclPolicies.field_eq_some.1 hpolicy
      exact .inr (.inr ⟨policy, word, rfl, hword, onlyMember_eq_some.1 honly⟩)
    · cases h
  | null | bool _ | number _ | array _ => cases h

def policy : Kind ObservedPolicy where
  read := readPolicy
  write
    | .unset => [.scalar (.string (asciis "unset"))]
    | .unknown => [.scalar (.string (asciis "unknown"))]
    | .set policy => .objectBegin :: (membersCalls (policyMembers policy) ++ [Call.objectEnd])
  script
    | .unset => .scalar (.string (asciis "unset"))
    | .unknown => .scalar (.string (asciis "unknown"))
    | .set policy => .object (policyMembers policy)
  Says d p := (p = .unset ∧ d = .string (asciis "unset")) ∨
    (p = .unknown ∧ d = .string (asciis "unknown")) ∨
      ∃ policy word, p = .set policy ∧ aclPolicies.name policy = some word ∧
        d = .object [(asciis "set", .string (asciis word))]
  Clear _ := True
  Sound _ := True
  Keeps p := ∀ policy, p = .set policy → (aclPolicies.name policy).isSome
  shape := .object [("set", .plain)]
  says_of_read h _ := readPolicy_eq_some h
  clear_of_says _ := trivial
  names_of_says := by
    rintro d p (⟨-, rfl⟩ | ⟨-, rfl⟩ | ⟨policy, word, -, -, rfl⟩)
    · trivial
    · trivial
    · exact ⟨⟨.plain, by simp [Shape.member], trivial⟩, trivial⟩
  sound_of_read _ _ := trivial
  calls_script {p} _ := by cases p <;> rfl
  said_ne_null p := by cases p <;> exact nofun
  sound_of_keeps _ := trivial
  read_script {p} _ := by
    cases p with
    | unset => exact iff_of_true rfl nofun
    | unknown => exact iff_of_true rfl nofun
    | set policy =>
      have hkeeps : (∀ p, ObservedPolicy.set policy = .set p → (aclPolicies.name p).isSome) ↔
          (aclPolicies.name policy).isSome :=
        ⟨fun h => h policy rfl, fun h p hp => by cases hp; exact h⟩
      rw [hkeeps]
      cases hword : aclPolicies.name policy with
      | none =>
        have hnone : policyMembers policy = [] := by
          rw [policyMembers, hword]
          rfl
        refine iff_of_false ?_ nofun
        dsimp only
        rw [hnone]
        exact nofun
      | some word =>
        refine iff_of_true ?_ rfl
        have hsaid : said (.object (policyMembers policy)) =
            .object [(asciis "set", .string (asciis word))] := by
          rw [policyMembers, hword, if_pos (show (some word).isSome = true from rfl)]
          change Doc.object [(Writer.cString (asciis "set"), said (aclPolicies.script policy))] = _
          rw [aclPolicies.said_script hword]
          rfl
        dsimp only
        rw [hsaid]
        simp only [readPolicy, onlyMember, if_pos]
        rw [aclPolicies.field_eq_some.2 ⟨word, hword, rfl⟩]
        rfl

def lowerNibble (c : UInt8) : Option ℕ :=
  if 48 ≤ c ∧ c ≤ 57 then some (c.toNat - 48)
  else if 97 ≤ c ∧ c ≤ 102 then some (c.toNat - 87)
  else none

theorem lowerNibble_hexDigit {n : ℕ} (h : n < 16) : lowerNibble (hexDigit n) = some n := by
  revert h
  revert n
  decide

theorem hexDigit_of_lowerNibble {c : UInt8} {n : ℕ} (h : lowerNibble c = some n) :
    n < 16 ∧ hexDigit n = c := by
  have hall :
      ∀ k : Fin 256, ∀ m ∈ lowerNibble (UInt8.ofNat k), m < 16 ∧ hexDigit m = UInt8.ofNat k := by
    decide +kernel
  have hc := hall ⟨c.toNat, c.toNat_lt⟩ n (by simpa using h)
  simpa using hc

def hexOctets : List UInt8 → Option (List UInt8)
  | [] => some []
  | [_] => none
  | high :: low :: rest => do
    let h ← lowerNibble high
    let l ← lowerNibble low
    let octets ← hexOctets rest
    return UInt8.ofNat (h * 16 + l) :: octets

def hexText : List UInt8 → List UInt8
  | [] => []
  | octet :: rest => hexDigit (octet.toNat / 16) :: hexDigit (octet.toNat % 16) :: hexText rest

theorem hexOctets_eq_some : ∀ {text octets : List UInt8},
    hexOctets text = some octets ↔ text = hexText octets
  | [], octets => by cases octets <;> simp [hexOctets, hexText]
  | [c], octets => by cases octets <;> simp [hexOctets, hexText]
  | high :: low :: rest, octets => by
    simp only [hexOctets, Option.bind_eq_bind, Option.bind_eq_some_iff, Option.pure_def,
      Option.some.injEq]
    constructor
    · rintro ⟨h, hh, l, hl, octets, hrest, rfl⟩
      obtain ⟨hlt, rfl⟩ := hexDigit_of_lowerNibble hh
      obtain ⟨hlt', rfl⟩ := hexDigit_of_lowerNibble hl
      have hvalue : (UInt8.ofNat (h * 16 + l)).toNat = h * 16 + l := by
        rw [UInt8.toNat_ofNat']
        omega
      rw [hexText, hvalue, hexOctets_eq_some.1 hrest, show (h * 16 + l) / 16 = h by omega,
        show (h * 16 + l) % 16 = l by omega]
    · intro heq
      cases octets with
      | nil => cases heq
      | cons octet octets =>
        simp only [hexText, List.cons.injEq] at heq
        obtain ⟨rfl, rfl, rfl⟩ := heq
        have hlt := octet.toNat_lt
        refine ⟨_, lowerNibble_hexDigit (by omega), _, lowerNibble_hexDigit (by omega), octets,
          hexOctets_eq_some.2 rfl, ?_⟩
        rw [show octet.toNat / 16 * 16 + octet.toNat % 16 = octet.toNat by omega, UInt8.ofNat_toNat]

theorem length_hexText (octets : List UInt8) : (hexText octets).length = 2 * octets.length := by
  induction octets with
  | nil => rfl
  | cons octet rest ih =>
    simp only [hexText, List.length_cons, ih]
    omega

theorem hexText_ne_zero (octets : List UInt8) : ∀ c ∈ hexText octets, c ≠ 0 := by
  have hdigit : ∀ n < 16, hexDigit n ≠ 0 := by decide
  induction octets with
  | nil => exact nofun
  | cons octet rest ih =>
    have hlt := octet.toNat_lt
    intro c hc
    rcases List.mem_cons.1 hc with rfl | hc
    · exact hdigit _ (by omega)
    · rcases List.mem_cons.1 hc with rfl | hc
      · exact hdigit _ (by omega)
      · exact ih c hc

/-- `ssid_read` of a text. -/
def readSsid (text : Bytes) : Option Ssid :=
  if text.length % 2 ≠ 0 then none
  else if 32 < text.length / 2 then none
  else
    match hexOctets text with
    | some octets => if h : octets.length ≤ 32 then some ⟨true, octets, h⟩ else none
    | none => none

theorem readSsid_eq_some {text : Bytes} {s : Ssid} :
    readSsid text = some s ↔ s.has = true ∧ text = hexText s.octets := by
  constructor
  · intro h
    unfold readSsid at h
    split_ifs at h
    split at h
    · rename_i octets hoctets
      split_ifs at h
      cases h
      exact ⟨rfl, hexOctets_eq_some.1 hoctets⟩
    · cases h
  · obtain ⟨has, octets, hle⟩ := s
    rintro ⟨rfl, rfl⟩
    have hlen := length_hexText octets
    dsimp only
    rw [readSsid, if_neg (by omega), if_neg (by omega), hexOctets_eq_some.2 rfl]
    exact dif_pos hle

def ssid : Kind Ssid where
  read
    | .string text => readSsid text
    | _ => none
  write s := [.scalar (.string (hexText s.octets))]
  script s := .scalar (.string (hexText s.octets))
  Says d s := s.has = true ∧ d = .string (hexText s.octets)
  Clear _ := True
  Sound _ := True
  Keeps s := s.has = true
  shape := .plain
  says_of_read {d s} h _ := by
    cases d with
    | string text =>
      obtain ⟨hhas, rfl⟩ := readSsid_eq_some.1 h
      exact ⟨hhas, rfl⟩
    | null | bool _ | number _ | array _ | object _ => cases h
  clear_of_says _ := trivial
  names_of_says := by
    rintro d s ⟨-, rfl⟩
    trivial
  sound_of_read _ _ := trivial
  calls_script _ := rfl
  said_ne_null _ := nofun
  sound_of_keeps _ := trivial
  read_script {s} _ := by
    have hsaid : said (.scalar (.string (hexText s.octets))) = .string (hexText s.octets) := by
      change Doc.string (Writer.cString _) = _
      rw [cString_eq (hexText_ne_zero s.octets)]
    rw [hsaid]
    exact readSsid_eq_some.trans (and_iff_left rfl)

/-- `NCFG_DNS_MODE_EXEC`. -/
def execMode : ℤ := 7

/-- `ncfg_field_enum` of a DNS mode : the file's own name is a spelling of `write_resolv_conf`. -/
def dnsModeOf (bytes : Bytes) : Option ℤ :=
  if bytes = asciis "resolv.conf" then some 1 else dnsModes.field bytes

/-- `dns_mode_read`. -/
def readDnsMode : Doc → Option DnsModeValue
  | .string bytes => (dnsModeOf bytes).map fun mode => ⟨mode, none⟩
  | d => (onlyMember "exec" d).bind fun command =>
      (Kind.fieldString command).map fun command => ⟨execMode, some command⟩

def SaysDnsMode (d : Doc) (v : DnsModeValue) : Prop :=
  (v.command = none ∧ ((v.mode = 1 ∧ d = .string (asciis "resolv.conf")) ∨
    ∃ word, dnsModes.name v.mode = some word ∧ d = .string (asciis word))) ∨
  ∃ command, v = ⟨execMode, some command⟩ ∧ d = .object [(asciis "exec", .string command.1)]

theorem says_of_readDnsMode {d : Doc} {v : DnsModeValue} (h : readDnsMode d = some v) :
    SaysDnsMode d v := by
  cases d with
  | string bytes =>
    obtain ⟨mode, hmode, rfl⟩ := Option.map_eq_some_iff.1 h
    refine .inl ⟨rfl, ?_⟩
    unfold dnsModeOf at hmode
    split_ifs at hmode with halias
    · cases hmode
      exact .inl ⟨rfl, by rw [halias]⟩
    · obtain ⟨word, hword, rfl⟩ := dnsModes.field_eq_some.1 hmode
      exact .inr ⟨word, hword, rfl⟩
  | object ms =>
    obtain ⟨under, hunder, h⟩ := Option.bind_eq_some_iff.1 h
    obtain ⟨command, hcommand, rfl⟩ := Option.map_eq_some_iff.1 h
    refine .inr ⟨command, rfl, ?_⟩
    rw [onlyMember_eq_some.1 hunder, Kind.fieldString_eq_some.1 hcommand]
  | null | bool _ | number _ | array _ => cases h

/-- The calls of `dns_mode_write`. -/
def writeDnsMode (v : DnsModeValue) : List Call :=
  if v.mode = execMode then
    [.objectBegin, .key (some (asciis "exec")),
      match v.command with
      | some command => .scalar (.string command.1)
      | none => .noString, .objectEnd]
  else dnsModes.calls v.mode

def scriptDnsMode (v : DnsModeValue) : Script :=
  if v.mode = execMode then
    .object [(asciis "exec", .scalar (.string ((v.command.map Subtype.val).getD [])))]
  else dnsModes.script v.mode

def dnsMode : Kind DnsModeValue where
  read := readDnsMode
  write := writeDnsMode
  script := scriptDnsMode
  Says := SaysDnsMode
  Clear _ := True
  Sound v := if v.mode = execMode then v.command.isSome = true
    else (dnsModes.name v.mode).isSome = true
  Keeps v := if v.mode = execMode then v.command.isSome = true
    else (dnsModes.name v.mode).isSome = true ∧ v.command = none
  shape := .object [("exec", .plain)]
  says_of_read h _ := says_of_readDnsMode h
  clear_of_says _ := trivial
  names_of_says := by
    rintro d v (⟨-, ⟨-, rfl⟩ | ⟨word, -, rfl⟩⟩ | ⟨command, -, rfl⟩)
    · trivial
    · trivial
    · exact ⟨⟨.plain, by simp [Shape.member], trivial⟩, trivial⟩
  sound_of_read {d v} h hnull := by
    split_ifs with hexec
    · -- the word of the mode reads as a mode with no command, which is not written
      cases hcommand : v.command with
      | some command => rfl
      | none => exact absurd (by simp [writeDnsMode, hexec, hcommand]) hnull
    · rcases says_of_readDnsMode h with ⟨-, ⟨hmode, -⟩ | ⟨word, hword, -⟩⟩ | ⟨command, rfl, -⟩
      · rw [hmode]
        rfl
      · rw [hword]
        rfl
      · exact absurd rfl hexec
  calls_script {v} h := by
    unfold writeDnsMode scriptDnsMode
    split_ifs at h ⊢ with hexec
    · obtain ⟨command, hcommand⟩ := Option.isSome_iff_exists.1 h
      rw [hcommand]
      rfl
    · exact dnsModes.calls_script h
  said_ne_null v := by
    unfold scriptDnsMode
    split_ifs
    · exact nofun
    · exact nofun
  sound_of_keeps {v} h := by
    split_ifs at h ⊢
    · exact h
    · exact h.1
  read_script {v} h := by
    obtain ⟨mode, command⟩ := v
    unfold scriptDnsMode
    dsimp only at h ⊢
    split_ifs at h ⊢ with hexec
    · obtain ⟨command, rfl⟩ := Option.isSome_iff_exists.1 h
      subst hexec
      refine iff_of_true ?_ rfl
      have hsaid : said (.object [(asciis "exec", .scalar (.string command.1))]) =
          .object [(asciis "exec", .string command.1)] := by
        change Doc.object [(Writer.cString (asciis "exec"), said (.scalar (.string command.1)))] = _
        rw [Kind.said_string]
        rfl
      change readDnsMode (said (.object [(asciis "exec", .scalar (.string command.1))])) = _
      rw [hsaid, readDnsMode, onlyMember_eq_some.2 rfl, Option.bind_some,
        Kind.fieldString_eq_some.2 rfl]
      · rfl
      · exact nofun
    · obtain ⟨word, hword⟩ := Option.isSome_iff_exists.1 h
      have halias : asciis word ≠ asciis "resolv.conf" := by
        have hall : (dnsModes.words.all fun w => asciis w != asciis "resolv.conf") = true := rfl
        simpa using List.all_eq_true.1 hall word (dnsModes.mem_of_name hword)
      rw [dnsModes.said_script hword, readDnsMode, dnsModeOf, if_neg halias,
        dnsModes.field_eq_some.2 ⟨word, hword, rfl⟩]
      simp [h, eq_comm]

def textOf (bytes : Bytes) : String := String.ofList (bytes.map fun c => Char.ofNat c.toNat)

/-- `address_text_read` of a string : an address without a prefix length, as it is rendered. -/
def addressText (text : CText) : Option CText :=
  match Netcfgd.Address.parse (textOf text.1) with
  | some address => if address.length = none then some (cText (asciis address.render)) else none
  | none => none

def address : Kind CText where
  read d := (Kind.fieldString d).bind addressText
  write s := [.scalar (.string s.1)]
  script s := .scalar (.string s.1)
  Says d s := ∃ text : CText, d = .string text.1 ∧ addressText text = some s
  Clear _ := True
  Sound _ := True
  Keeps s := addressText s = some s
  shape := .plain
  says_of_read {d s} h _ := by
    obtain ⟨text, htext, h⟩ := Option.bind_eq_some_iff.1 h
    exact ⟨text, Kind.fieldString_eq_some.1 htext, h⟩
  clear_of_says _ := trivial
  names_of_says := by
    rintro d s ⟨text, rfl, -⟩
    trivial
  sound_of_read _ _ := trivial
  calls_script := @Kind.calls_script _ Kind.str
  said_ne_null := Kind.str.said_ne_null
  sound_of_keeps _ := trivial
  read_script {s} _ := by
    rw [Kind.said_string, Kind.fieldString_eq_some.2 rfl, Option.bind_some]

/-! ## Backends -/

/-- `ncfg_observed_neighbour_t`. -/
structure Neighbour where
  bssid : Option CText
  ssid : Option CText
  nr : Option CText
  deriving DecidableEq

/-- `observed_neighbour_fields`. -/
def neighbourTable : Table (Option CText × Option CText × Option CText × Unit) :=
  .cons (strOf "bssid" true) (.cons (strOf "ssid" true) (.cons (strOf "nr" true) .nil))

def neighbour : Kind Neighbour :=
  .struct neighbourTable
    ⟨fun (bssid, ssid, nr, ()) => ⟨bssid, ssid, nr⟩, fun s => (s.bssid, s.ssid, s.nr, ()),
      fun _ => rfl, fun _ => rfl⟩
    (proper_of_checks rfl)
      (fun _ => ⟨fun _ _ => .inr trivial, fun _ _ => .inr trivial, fun _ _ => .inr trivial,
      trivial⟩)

/-- `ncfg_observed_steerable_t`. -/
structure Steerable where
  address : Option CText
  signal : Option Int64
  connected : Option Int64
  inactive : Option Int64
  deriving DecidableEq

/-- `observed_steerable_fields`. -/
def steerableTable : Table (Option CText × Option Int64 × Option Int64 × Option Int64 × Unit) :=
  .cons (strOf "address" true) (.cons (i32.optional "signal" false true)
    (.cons (u32.optional "connected" false true) (.cons (u32.optional "inactive" false true) .nil)))

def steerable : Kind Steerable :=
  .struct steerableTable
    ⟨fun (address, signal, connected, inactive, ()) => ⟨address, signal, connected, inactive⟩,
      fun s => (s.address, s.signal, s.connected, s.inactive, ()), fun _ => rfl, fun _ => rfl⟩
    (proper_of_checks rfl)
    (fun _ => ⟨fun _ _ => .inr trivial, fun _ _ => .inr trivial, fun _ _ => .inr trivial,
      fun _ _ => .inr trivial, trivial⟩)

/-- `observed_steered_fields`. -/
def steeredTable : Table (Option CText × Int64 × Bool × Unit) :=
  .cons (strOf "station" true) (.cons (u32.required "ago") (.cons (trueOnly "imminent") .nil))

def steered : Kind Steered :=
  .struct steeredTable
    ⟨fun (station, ago, imminent, ()) => ⟨station, ago, imminent⟩,
      fun s => (s.station, s.ago, s.imminent, ()), fun _ => rfl, fun _ => rfl⟩
    (proper_of_checks rfl)
    (fun _ => ⟨fun _ _ => .inr trivial, fun _ _ => trivial, fun _ _ => trivial, trivial⟩)

/-- `ncfg_observed_access_control_t`. -/
structure AccessControl where
  policy : ObservedPolicy
  denied : List CText
  accepted : List CText
  associated : List CText
  associatedUnread : Bool
  neighbours : List Neighbour
  steerable : List Steerable
  steered : List Steered
  deriving DecidableEq

/-- `access_control_fields`. -/
def accessControlTable : Table (ObservedPolicy × List CText × List CText × List CText × Bool ×
    List Neighbour × List Steerable × List Steered × Unit) :=
  .cons (policy.required "policy") (.cons (Kind.str.list.required "denied")
    (.cons (Kind.str.list.required "accepted") (.cons (Kind.str.someOf "associated")
      (.cons (trueOnly "associated_unread") (.cons (neighbour.someOf "neighbours")
        (.cons (steerable.someOf "steerable") (.cons (steered.someOf "steered") .nil)))))))

def accessControl : Kind AccessControl :=
  .struct accessControlTable
    ⟨fun (policy, denied, accepted, associated, unread, neighbours, steerable, steered, ()) =>
        ⟨policy, denied, accepted, associated, unread, neighbours, steerable, steered⟩,
      fun s => (s.policy, s.denied, s.accepted, s.associated, s.associatedUnread, s.neighbours,
        s.steerable, s.steered, ()), fun _ => rfl, fun _ => rfl⟩
    (proper_of_checks rfl)
    (fun _ => ⟨fun _ _ => trivial, fun _ _ _ _ _ _ => trivial, fun _ _ _ _ _ _ => trivial,
      fun _ _ _ _ _ _ => trivial, fun _ _ => trivial, fun _ _ _ _ _ _ => trivial,
      fun _ _ _ _ _ _ => trivial, fun _ _ _ _ _ _ => trivial, trivial⟩)

/-- `ncfg_observed_access_point_t`. -/
structure AccessPoint where
  ssid : Ssid
  band : Option CText
  channel : Option Int64
  keyMgmt : Option CText
  hidden : Bool
  regdom : Option CText
  mobilityDomain : Option CText
  wds : Bool
  neighbourReports : Bool
  isolateStations : Bool
  highThroughput : Bool
  fortyMhz : Bool
  veryHighThroughput : Bool
  eightyMhz : Bool
  hundredSixtyMhz : Bool
  highEfficiency : Bool
  deriving DecidableEq

/-- `observed_access_point_fields`. -/
def accessPointTable : Table (Ssid × Option CText × Option Int64 × Option CText × Bool ×
    Option CText × Option CText × Bool × Bool × Bool × Bool × Bool × Bool × Bool × Bool × Bool × Unit) :=
  .cons (ssid.required "ssid") (.cons (strOf "band" false)
    (.cons (u16.optional "channel" false true) (.cons (strOf "key_mgmt" false)
      (.cons (Kind.bool.always "hidden" false trivial) (.cons (strOf "regdom" false)
        (.cons (strOf "mobility_domain" false) (.cons (trueOnly "wds")
          (.cons (trueOnly "neighbour_reports") (.cons (trueOnly "isolate_stations")
            (.cons (trueOnly "high_throughput") (.cons (trueOnly "forty_mhz")
              (.cons (trueOnly "very_high_throughput") (.cons (trueOnly "eighty_mhz")
                (.cons (trueOnly "hundred_sixty_mhz")
                  (.cons (trueOnly "high_efficiency") .nil)))))))))))))))

def accessPoint : Kind AccessPoint :=
  .struct accessPointTable
    ⟨fun (ssid, band, channel, keyMgmt, hidden, regdom, mobilityDomain, wds, neighbourReports,
        isolateStations, highThroughput, fortyMhz, veryHighThroughput, eightyMhz, hundredSixtyMhz,
        highEfficiency, ()) =>
        ⟨ssid, band, channel, keyMgmt, hidden, regdom, mobilityDomain, wds, neighbourReports,
          isolateStations, highThroughput, fortyMhz, veryHighThroughput, eightyMhz,
          hundredSixtyMhz, highEfficiency⟩,
      fun s => (s.ssid, s.band, s.channel, s.keyMgmt, s.hidden, s.regdom, s.mobilityDomain, s.wds,
        s.neighbourReports, s.isolateStations, s.highThroughput, s.fortyMhz, s.veryHighThroughput,
        s.eightyMhz, s.hundredSixtyMhz, s.highEfficiency, ()), fun _ => rfl, fun _ => rfl⟩
    (proper_of_checks rfl)
    (fun _ => ⟨fun _ _ => trivial, fun _ _ => .inr trivial, fun _ _ => .inr trivial,
      fun _ _ => .inr trivial, fun _ _ => trivial, fun _ _ => .inr trivial,
      fun _ _ => .inr trivial, fun _ _ => trivial, fun _ _ => trivial, fun _ _ => trivial,
      fun _ _ => trivial, fun _ _ => trivial, fun _ _ => trivial, fun _ _ => trivial,
      fun _ _ => trivial, fun _ _ => trivial, trivial⟩)

/-- `ncfg_observed_lease_t`. -/
structure Lease where
  address : Option CText
  mac : Option CText
  hostname : Option CText
  expires : Int64
  deriving DecidableEq

/-- `observed_lease_fields` : `expires` states no bounds. -/
def leaseTable : Table (Option CText × Option CText × Option CText × Int64 × Unit) :=
  .cons (strOf "address" true) (.cons (strOf "mac" false) (.cons (strOf "hostname" false)
    (.cons (unbounded.always "expires" 0 trivial) .nil)))

def lease : Kind Lease :=
  .struct leaseTable
    ⟨fun (address, mac, hostname, expires, ()) => ⟨address, mac, hostname, expires⟩,
      fun s => (s.address, s.mac, s.hostname, s.expires, ()), fun _ => rfl, fun _ => rfl⟩
    (proper_of_checks rfl)
    (fun _ => ⟨fun _ _ => .inr trivial, fun _ _ => .inr trivial, fun _ _ => .inr trivial,
      fun _ _ => trivial, trivial⟩)

/-- `ncfg_observed_mapping_t`. -/
structure Mapping where
  protocol : Option CText
  externalPort : Int64
  address : Option CText
  internalPort : Int64
  expires : Int64
  description : Option CText
  deriving DecidableEq

/-- `observed_mapping_fields` : neither the ports nor `expires` state bounds. -/
def mappingTable :
    Table (Option CText × Int64 × Option CText × Int64 × Int64 × Option CText × Unit) :=
  .cons (strOf "protocol" true) (.cons (unbounded.always "external_port" 0 trivial)
    (.cons (strOf "address" true) (.cons (unbounded.always "internal_port" 0 trivial)
      (.cons (unbounded.always "expires" 0 trivial) (.cons (strOf "description" false) .nil)))))

def mapping : Kind Mapping :=
  .struct mappingTable
    ⟨fun (protocol, externalPort, address, internalPort, expires, description, ()) =>
        ⟨protocol, externalPort, address, internalPort, expires, description⟩,
      fun s =>
      (s.protocol, s.externalPort, s.address, s.internalPort, s.expires, s.description, ()),
      fun _ => rfl, fun _ => rfl⟩
    (proper_of_checks rfl)
    (fun _ => ⟨fun _ _ => .inr trivial, fun _ _ => trivial, fun _ _ => .inr trivial,
      fun _ _ => trivial, fun _ _ => trivial, fun _ _ => .inr trivial, trivial⟩)

/-- `ncfg_observed_backend_t` : a backend as it is believed to be. -/
structure ObservedBackend where
  kind : ℤ
  interface : Option CText
  running : Bool
  answering : Option Bool
  accessControl : Option AccessControl
  startedMetric : Option Int64
  startedWith : Option AccessPoint
  secretMatches : Option Bool
  networksMatch : Option Bool
  configMatches : Option Bool
  configPresent : Option Bool
  advertised : List CText
  served : Option CText
  leases : List Lease
  mappings : List Mapping
  deriving DecidableEq

def known (name : String) : Entry (Option Bool) := Kind.bool.optional name false true

/-- `observed_backend_fields`. -/
def backendTable : Table (ℤ × Option CText × Bool × Option Bool × Option AccessControl ×
    Option Int64 × Option AccessPoint × Option Bool × Option Bool × Option Bool × Option Bool ×
    List CText × Option CText × List Lease × List Mapping × Unit) :=
  .cons ((Kind.enum backendKinds).required "kind") (.cons (strOf "interface" true)
    (.cons (Kind.bool.required "running") (.cons (known "answering")
      (.cons (accessControl.optional "access_control" false true)
        (.cons (u32.optional "started_metric" false true)
          (.cons (accessPoint.optional "started_with" false true) (.cons (known "secret_matches")
            (.cons (known "networks_match") (.cons (known "config_matches")
              (.cons (known "config_present") (.cons (Kind.str.someOf "advertised")
                (.cons (strOf "served" false) (.cons (lease.someOf "leases")
                  (.cons (mapping.someOf "mappings") .nil))))))))))))))

def backend : Kind ObservedBackend :=
  .struct backendTable
    ⟨fun (kind, interface, running, answering, accessControl, startedMetric, startedWith,
        secretMatches, networksMatch, configMatches, configPresent, advertised, served, leases,
        mappings, ()) =>
        ⟨kind, interface, running, answering, accessControl, startedMetric, startedWith,
          secretMatches, networksMatch, configMatches, configPresent, advertised, served, leases,
          mappings⟩,
      fun s => (s.kind, s.interface, s.running, s.answering, s.accessControl, s.startedMetric,
        s.startedWith, s.secretMatches, s.networksMatch, s.configMatches, s.configPresent,
        s.advertised, s.served, s.leases, s.mappings, ()), fun _ => rfl, fun _ => rfl⟩
    (proper_of_checks rfl)
    (fun _ => ⟨fun _ _ => trivial, fun _ _ => .inr trivial, fun _ _ => trivial,
      fun _ _ => .inr trivial, fun _ _ => .inr trivial, fun _ _ => .inr trivial,
      fun _ _ => .inr trivial, fun _ _ => .inr trivial, fun _ _ => .inr trivial,
      fun _ _ => .inr trivial, fun _ _ => .inr trivial, fun _ _ _ _ _ _ => trivial,
      fun _ _ => .inr trivial, fun _ _ _ _ _ _ => trivial, fun _ _ _ _ _ _ => trivial, trivial⟩)

/-! ## Delivered DNS -/

/-- `dns_server_fields`. -/
def dnsServerTable : Table (Option CText × Option Int64 × Option CText × Unit) :=
  .cons (address.optional "addr" true false) (.cons (u16.optional "port" false true)
    (.cons (strOf "sni" false) .nil))

def dnsServer : Kind DnsServer :=
  .struct dnsServerTable
    ⟨fun (addr, port, sni, ()) => ⟨addr, port, sni⟩, fun s => (s.addr, s.port, s.sni, ()),
      fun _ => rfl, fun _ => rfl⟩
    (proper_of_checks rfl)
    (fun _ => ⟨fun _ _ => .inr trivial, fun _ _ => .inr trivial, fun _ _ => .inr trivial,
      trivial⟩)

/-- `routing_domain_fields`. -/
def routingDomainTable : Table (Option CText × Bool × Unit) :=
  .cons (strOf "suffix" true) (.cons (Kind.bool.always "exclusive" false trivial) .nil)

def routingDomain : Kind RoutingDomain :=
  .struct routingDomainTable
    ⟨fun (suffix, exclusive, ()) => ⟨suffix, exclusive⟩, fun s => (s.suffix, s.exclusive, ()),
      fun _ => rfl, fun _ => rfl⟩
    (proper_of_checks rfl)
    (fun _ => ⟨fun _ _ => .inr trivial, fun _ _ => trivial, trivial⟩)

theorem sound_noMode : dnsMode.Sound ⟨0, none⟩ := by
  simp only [dnsMode]
  split_ifs with hexec
  · exact absurd hexec (by decide)
  · rfl

/-- `dns_policy_fields`. -/
def dnsPolicyTable : Table (DnsModeValue × List DnsServer × List CText × List RoutingDomain ×
    List CText × Option Int64 × Option Int64 × Unit) :=
  .cons (dnsMode.always "mode" ⟨0, none⟩ sound_noMode) (.cons (dnsServer.allOf "servers")
    (.cons (Kind.str.allOf "search") (.cons (routingDomain.allOf "domains")
      (.cons (Kind.str.allOf "options")
        (.cons ((Kind.choice dnssecPostures).optional "dnssec" false true)
          (.cons ((Kind.choice dnsTransports).optional "transport" false true) .nil))))))

def dnsPolicy : Kind DnsPolicy :=
  .struct dnsPolicyTable
    ⟨fun (mode, servers, search, domains, options, dnssec, transport, ()) =>
        ⟨mode, servers, search, domains, options, dnssec, transport⟩,
      fun s => (s.mode, s.servers, s.search, s.domains, s.options, s.dnssec, s.transport, ()),
      fun _ => rfl, fun _ => rfl⟩
    (proper_of_checks rfl)
    (fun _ => ⟨fun _ _ => trivial, fun _ _ _ _ _ _ => trivial, fun _ _ _ _ _ _ => trivial,
      fun _ _ _ _ _ _ => trivial, fun _ _ _ _ _ _ => trivial, fun _ _ => .inr trivial,
      fun _ _ => .inr trivial, trivial⟩)

/-- `ncfg_applied_dns_t` : what was delivered for a scope. -/
structure AppliedDns where
  scope : Option CText
  policy : DnsPolicy
  deriving DecidableEq

/-- `applied_dns_fields`. -/
def appliedDnsTable : Table (Option CText × DnsPolicy × Unit) :=
  .cons (strOf "scope" true) (.cons (dnsPolicy.required "policy") .nil)

def appliedDns : Kind AppliedDns :=
  .struct appliedDnsTable
    ⟨fun (scope, policy, ()) => ⟨scope, policy⟩, fun s => (s.scope, s.policy, ()),
      fun _ => rfl, fun _ => rfl⟩
    (proper_of_checks rfl)
    (fun _ => ⟨fun _ _ => .inr trivial, fun _ _ => trivial, trivial⟩)

end Netcfgd.Model
