import Netcfgd.Address
import Netcfgd.Firewall

/-!
# Global settings

`merge.c` over a list of source files, and the part of `lower_global.c` and `lower.c` that writes
`document.globals`. A setting is an assignment at the top of a file or inside a `global` block.
The files are merged (`mergeSources`) and the assignments of the merged tree lowered from the top
(`lowerGlobals`), so that a key that holds one value holds what the last of them reads
(`lastRead_lowerGlobals`).
-/

namespace Netcfgd.Compile

/-! ## The settings -/

/-- `ncfg_drift_policy_t`. -/
inductive DriftPolicy
  | report
  | reconcile
  | ignore
  deriving DecidableEq, Repr

/-- `ncfg_dns_mode_t`, less `exec`, which the language has no way to write. -/
inductive DnsMode
  | none
  | writeResolvConf
  | resolvconf
  | openresolv
  | resolved
  | dnsmasq
  | unbound
  deriving DecidableEq, Repr

/-- `ncfg_hostname_policy_t`. -/
inductive HostnameChoice
  | none
  | fromDhcp
  | static (name : String)
  deriving DecidableEq, Repr

/-- `ncfg_requires_t`. -/
inductive Requires
  | route
  | probe
  | address
  deriving DecidableEq, Repr

/-- `ncfg_dns_policy_t`. -/
structure DnsPolicy where
  mode : DnsMode := .none
  servers : List String := []
  search : List String := []
  /-- The suffix of each routing domain, and whether it is exclusive. -/
  domains : List (String × Bool) := []
  deriving DecidableEq, Repr

/-- `ncfg_connectivity_policy_t`. -/
structure Connectivity where
  requires : Requires := .route
  ignore : List String := ["docker*", "br-*", "veth*", "virbr*", "vnet*"]
  deriving DecidableEq, Repr

/-- `ncfg_upnp_t`. -/
structure Upnp where
  lan : List String := []
  uplink : Option String := none
  deriving DecidableEq, Repr

/-- `ncfg_globals_t`. -/
structure Globals where
  dns : DnsPolicy := {}
  onDrift : DriftPolicy := .reconcile
  confirm : Option ℤ := none
  /-- Whether this machine does networking at all. -/
  networking : Bool := true
  profile : Option String := none
  regdom : Option String := none
  hostname : HostnameChoice := .none
  policy : Policy := {}
  connectivity : Connectivity := {}
  locked : List String := []
  upnp : Option Upnp := none
  deriving DecidableEq, Repr

/-! ## Reading one value -/

def isHostLabel (label : List Char) : Bool :=
  label ≠ [] ∧ label.length ≤ 63 ∧ label.head? ≠ some '-' ∧ label.getLast? ≠ some '-' ∧
    label.all fun c => 'a' ≤ c && c ≤ 'z' || 'A' ≤ c && c ≤ 'Z' || '0' ≤ c && c ≤ '9' || c = '-'

/-- `ncfg_is_hostname`. -/
def isHostname (name : String) : Bool :=
  name ≠ "" ∧ name.utf8ByteSize ≤ 253 ∧ (name.toList.splitOn '.').all isHostLabel

/-- The value of `hostname`. -/
def hostnameOf (v : Value) : Except String HostnameChoice :=
  match asString v with
  | .error why => .error why
  | .ok name =>
    if name = "dhcp" then .ok .fromDhcp
    else if isHostname name then .ok (.static name)
    else .error (s!"`{name}` is not a hostname: letters, digits, hyphens and dots; each label " ++
      "at most 63 characters and the whole name at most 253")

/-- `ncfg_is_regdom`. -/
def isRegdom (name : String) : Bool :=
  name.toList.length = 2 ∧ name.toList.all fun c => 'a' ≤ c && c ≤ 'z' || 'A' ≤ c && c ≤ 'Z'

/-- `ncfg_lower_regdom`. -/
def regdomOf (v : Value) : Except String String :=
  match asString v with
  | .error why => .error why
  | .ok name =>
    if isRegdom name then .ok (String.ofList (name.toList.map Char.toUpper))
    else .error (s!"`{name}` is not a regulatory domain: an ISO 3166-1 alpha-2 country code, " ++
      "such as \"SE\"")

/-- `ncfg_as_drift`. -/
def driftOf (v : Value) : Except String DriftPolicy :=
  match asString v with
  | .error why => .error why
  | .ok "report" => .ok .report
  | .ok "reconcile" => .ok .reconcile
  | .ok "ignore" => .ok .ignore
  | .ok name => .error s!"unknown drift policy `{name}`"

/-- The value of `profile`. -/
def profileOf (v : Value) : Except String String :=
  match asString v with
  | .error why => .error why
  | .ok name =>
    if name = "" ∨ '/' ∈ name.toList ∨ name.toList.head? = some '.' then
      .error (s!"`{name}` cannot be a profile name: a plain name -- netcfgd chooses the " ++
        "directory it is read from")
    else .ok name

/-- The value of `networking`. -/
def networkingOf (v : Value) : Except String Bool :=
  match asString v with
  | .error why => .error why
  | .ok "on" => .ok true
  | .ok "off" => .ok false
  | .ok word => .error s!"`{word}` is not a networking setting: one of: on, off"

/-- The value of `dns_mode`. -/
def dnsModeOf (v : Value) : Except String DnsMode :=
  match asString v with
  | .error why => .error why
  | .ok "none" => .ok .none
  | .ok "write_resolv_conf" | .ok "resolv.conf" => .ok .writeResolvConf
  | .ok "resolvconf" => .ok .resolvconf
  | .ok "openresolv" => .ok .openresolv
  | .ok "resolved" => .ok .resolved
  | .ok "dnsmasq" => .ok .dnsmasq
  | .ok "unbound" => .ok .unbound
  | .ok name => .error (s!"unknown dns mode `{name}`: one of: none, write_resolv_conf, " ++
      "resolvconf, openresolv, resolved, dnsmasq, unbound")

/-- One word of `dns` : an address with no length. -/
def dnsServer (servers : List String) (word : String) : List String × List String :=
  match Address.parse word with
  | some address =>
    if address.length = none then (servers ++ [address.render], [])
    else (servers, [s!"`{word}` is not an IP address"])
  | none => (servers, [s!"`{word}` is not an IP address"])

/-- One word of `dns_domains`. -/
def dnsDomain (word : String) : String × Bool :=
  match word.toList with
  | '~' :: suffix => (String.ofList suffix, true)
  | _ => (word, false)

/-- `ncfg_lower_dns_key`. -/
def dnsKey (p : DnsPolicy) (key : String) (v : Value) : DnsPolicy × List String :=
  if key = "dns" ∨ key = "servers" then
    let (words, wrong) := asWords v
    let (servers, wrong') := overItems dnsServer p.servers words
    ({ p with servers }, wrong ++ wrong')
  else if key = "dns_search" ∨ key = "search" then
    ({ p with search := p.search ++ (asWords v).1 }, (asWords v).2)
  else if key = "dns_domains" ∨ key = "domains" then
    ({ p with domains := p.domains ++ (asWords v).1.map dnsDomain }, (asWords v).2)
  else if key = "dns_mode" ∨ key = "mode" then take p (dnsModeOf v) fun mode => { p with mode }
  else (p, [s!"unknown dns key `{key}`"])

/-- `lower_connectivity_key`. -/
def connectivityKey (p : Connectivity) (key : String) (v : Value) : Connectivity × List String :=
  if key = "requires" then
    match asString v with
    | .error why => (p, [why])
    | .ok "route" => ({ p with requires := .route }, [])
    | .ok "probe" => ({ p with requires := .probe }, [])
    | .ok "address" => ({ p with requires := .address }, [])
    | .ok word => (p, [s!"`{word}` is not something to require for connectivity: one of: route " ++
        "(a default route, the default), probe (a probe that answered, for a captive portal), " ++
        "address (an address is enough, for a machine on its own subnet)"])
  else if key = "ignore" then ({ p with ignore := (asWords v).1 }, (asWords v).2)
  else (p, [s!"unknown connectivity key `{key}`"])

/-- One word of the `lan` of a `upnp` block. -/
def upnpLan (lan : List String) (word : String) : List String × List String :=
  match usableName word with
  | none => (lan ++ [word], [])
  | some why => (lan, [s!"`{word}` is not an interface name: {why}"])

/-- One item of a `upnp` block. -/
def upnpItem (u : Upnp) : Item → Upnp × List String
  | .assignment key v =>
    if key = "lan" then
      let (words, wrong) := asWords v
      let (lan, wrong') := overItems upnpLan u.lan words
      ({ u with lan }, wrong ++ wrong')
    else if key = "uplink" then takeOrClear (asInterfaceName v) fun uplink => { u with uplink }
    else (u, [s!"`{key}` is not a upnp key: `lan` names the interfaces clients ask on, " ++
      "`uplink` the one ports are mapped on"])
  | _ => (u, ["`upnp` holds `lan` and `uplink`, and no blocks"])

/-- `lower_upnp`. -/
def lowerUpnp (g : Globals) (items : List Item) : Globals × List String :=
  if g.upnp ≠ none then (g, ["`upnp` is written twice in `global`; write it once"])
  else
    let (upnp, wrong) := overItems upnpItem {} items
    ({ g with upnp := some upnp }, wrong ++
      if upnp.lan = [] ∨ upnp.uplink = none then
        ["`upnp` needs `lan = [\"...\"]`, the interfaces clients may ask on, and " ++
          "`uplink = \"...\"`, the one their ports are opened on"]
      else [])

/-- `ncfg_lower_global_key`. -/
def globalKey (g : Globals) (key : String) (v : Value) : Globals × List String :=
  if key = "hostname" then take g (hostnameOf v) fun hostname => { g with hostname }
  else if key = "regdom" then take g (regdomOf v) fun name => { g with regdom := some name }
  else if key = "confirm" then take g (asU32 v) fun n => { g with confirm := some n }
  else if key = "on_drift" then take g (driftOf v) fun onDrift => { g with onDrift }
  else if key = "profile" then take g (profileOf v) fun name => { g with profile := some name }
  else if key = "locked" then ({ g with locked := g.locked ++ (asWords v).1 }, (asWords v).2)
  else if key = "networking" then take g (networkingOf v) fun networking => { g with networking }
  else if key = "dns" ∨ key = "dns_search" ∨ key = "dns_mode" ∨ key = "dns_domains" then
    let (dns, wrong) := dnsKey g.dns key v
    ({ g with dns }, wrong)
  else (g, [s!"unknown top-level key `{key}`"])

/-- One item of a merged `global` block, as `ncfg_lower_global_block` lowers it. -/
def lowerGlobalItem (g : Globals) : Item → Globals × List String
  | .assignment key v => globalKey g key v
  | .block head _ _ items =>
    if head = "dns" then
      let (dns, wrong) := overAssignments dnsKey g.dns items
      ({ g with dns }, wrong)
    else if head = "connectivity" then
      let (connectivity, wrong) := overAssignments connectivityKey g.connectivity items
      ({ g with connectivity }, wrong)
    else if head = "control" then
      let (control, wrong) := overAssignments controlKey g.policy.control items
      ({ g with policy := { g.policy with control } }, wrong)
    else if head = "remote" then
      let (remote, wrong) := overAssignments remoteKey g.policy.remote items
      ({ g with policy := { g.policy with remote } }, wrong)
    else if head = "upnp" then lowerUpnp g items
    else (g, [s!"`{head}` is not valid inside `global`"])
  | .hook .. => (g, ["hooks belong to an interface, not to `global`"])
  | .incl _ => (g, ["include was not resolved before compiling"])

/-! ## Merging the files -/

/-- `ncfg_merged_t`. -/
structure Merged where
  assignments : List (String × Value) := []
  blocks : List MergedBlock := []

/-- `merge_assignment`. -/
def mergeAssignment (assignments : List (String × Value)) (key : String) (v : Value) :
    List (String × Value) :=
  (setFirst (fun a => a.1 = key) (key, v) assignments).getD (assignments ++ [(key, v)])

def mergeSourceItem (m : Merged) : Item → Merged × List String
  | .assignment key v => ({ m with assignments := mergeAssignment m.assignments key v }, [])
  | i =>
    let (blocks, wrong) := mergeItem m.blocks i
    ({ m with blocks }, wrong)

/-- `ncfg_merge` : the files in order, each from its top. -/
def mergeSources (files : List (List Item)) : Merged × List String :=
  overItems mergeSourceItem {} files.flatten

/-- One merged block, for what it does to the settings : only a `global` block does anything. -/
def lowerGlobalBlock (g : Globals) (b : MergedBlock) : Globals × List String :=
  if b.head = "global" then overItems lowerGlobalItem g b.items else (g, [])

/-- What `ncfg_lower` makes of the settings : the assignments of the top level first, and then the
blocks. -/
def lowerGlobals (m : Merged) : Globals × List String :=
  let (g, wrong) := overItems (fun g a => globalKey g a.1 a.2) {} m.assignments
  let (g, wrong') := overItems lowerGlobalBlock g m.blocks
  (g, wrong ++ wrong')

/-- Files that compile to these globals. -/
def Compiled (files : List (List Item)) (g : Globals) : Prop :=
  (mergeSources files).2 = [] ∧ lowerGlobals (mergeSources files).1 = (g, [])

/-! ## The scalar keys -/

/-- The keys of `global` that hold one value. -/
inductive ScalarKey
  | hostname
  | regdom
  | confirm
  | onDrift
  | profile
  | networking
  | dnsMode
  deriving DecidableEq, Repr

namespace ScalarKey

def name : ScalarKey → String
  | hostname => "hostname"
  | regdom => "regdom"
  | confirm => "confirm"
  | onDrift => "on_drift"
  | profile => "profile"
  | networking => "networking"
  | dnsMode => "dns_mode"

/-- What a key sets. -/
def Setting : ScalarKey → Type
  | hostname => HostnameChoice
  | regdom | profile => Option String
  | confirm => Option ℤ
  | onDrift => DriftPolicy
  | networking => Bool
  | dnsMode => DnsMode

/-- The reading of a key's value. -/
def read : (k : ScalarKey) → Value → Except String k.Setting
  | hostname, v => hostnameOf v
  | regdom, v => (regdomOf v).map some
  | confirm, v => (asU32 v).map some
  | onDrift, v => driftOf v
  | profile, v => (profileOf v).map some
  | networking, v => networkingOf v
  | dnsMode, v => dnsModeOf v

/-- A key of the globals. -/
def get : (k : ScalarKey) → Globals → k.Setting
  | hostname, g => g.hostname
  | regdom, g => g.regdom
  | confirm, g => g.confirm
  | onDrift, g => g.onDrift
  | profile, g => g.profile
  | networking, g => g.networking
  | dnsMode, g => g.dns.mode

end ScalarKey

variable {k : ScalarKey}

def assignedTo (k : ScalarKey) : Item → Option Value
  | .assignment key v => if key = k.name then some v else none
  | _ => none

/-- Whether an assignment of a `dns` block inside `global` writes the setting of the key too. -/
def besides (k : ScalarKey) : Item → Option Value
  | .assignment key v => if k = .dnsMode ∧ (key = "dns_mode" ∨ key = "mode") then some v else none
  | _ => none

/-- Whether an item inside `global` writes the setting of the key under another name. -/
def writesBesides (k : ScalarKey) : Item → Bool
  | .block head _ _ items => head = "dns" ∧ items.any fun i => (besides k i).isSome
  | _ => false

theorem dnsKey_mode {p : DnsPolicy} {key : String} {v : Value} (h : (dnsKey p key v).2 = [])
    (hkey : key = "dns_mode" ∨ key = "mode") : dnsModeOf v = .ok (dnsKey p key v).1.mode := by
  have hother : ¬(key = "dns" ∨ key = "servers") ∧ ¬(key = "dns_search" ∨ key = "search") ∧
      ¬(key = "dns_domains" ∨ key = "domains") := by
    rcases hkey with rfl | rfl <;> decide
  simp only [dnsKey, if_neg hother.1, if_neg hother.2.1, if_neg hother.2.2, if_pos hkey] at h ⊢
  obtain ⟨mode, hmode, heq⟩ := exists_of_take h
  rw [heq, hmode]

theorem dnsKey_mode_other {p : DnsPolicy} {key : String} {v : Value}
    (hkey : ¬(key = "dns_mode" ∨ key = "mode")) : (dnsKey p key v).1.mode = p.mode := by
  simp only [dnsKey, if_neg hkey]
  split_ifs <;> rfl

theorem globalKey_get {g : Globals} {v : Value} (h : (globalKey g k.name v).2 = []) :
    k.read v = .ok (k.get (globalKey g k.name v).1) := by
  cases k
  all_goals
    simp only [globalKey, ScalarKey.name, String.reduceEq, if_true, if_false, false_or,
      true_or] at h ⊢
  case dnsMode => exact dnsKey_mode h (.inl rfl)
  all_goals
    obtain ⟨b, hb, heq⟩ := exists_of_take h
    rw [heq, ScalarKey.read, hb]
    rfl

theorem globalKey_get_other {g : Globals} {key : String} {v : Value} (hkey : key ≠ k.name) :
    k.get (globalKey g key v).1 = k.get g := by
  have htake {β : Type} (read : Except String β) (set : β → Globals)
      (hset : ∀ b, k.get (set b) = k.get g) : k.get (take g read set).1 = k.get g :=
    take_invariant (P := fun g' => k.get g' = k.get g) rfl fun b _ => hset b
  have hite {c : Prop} [Decidable c] {t e : Globals × List String} (ht : c → k.get t.1 = k.get g)
      (he : k.get e.1 = k.get g) : k.get (if c then t else e).1 = k.get g :=
    ite_invariant (P := fun g' => k.get g' = k.get g) ht fun _ => he
  unfold globalKey
  refine hite (fun h₁ => ?_) (hite (fun h₂ => ?_) (hite (fun h₃ => ?_) (hite (fun h₄ => ?_)
    (hite (fun h₅ => ?_) (hite (fun h₆ => ?_) (hite (fun h₇ => ?_) (hite (fun h₈ => ?_) rfl)))))))
  · exact htake _ _ fun b => by cases k <;> first | rfl | exact absurd h₁ hkey
  · exact htake _ _ fun b => by cases k <;> first | rfl | exact absurd h₂ hkey
  · exact htake _ _ fun b => by cases k <;> first | rfl | exact absurd h₃ hkey
  · exact htake _ _ fun b => by cases k <;> first | rfl | exact absurd h₄ hkey
  · exact htake _ _ fun b => by cases k <;> first | rfl | exact absurd h₅ hkey
  · cases k <;> rfl
  · exact htake _ _ fun b => by cases k <;> first | rfl | exact absurd h₇ hkey
  · cases k
    case dnsMode =>
      refine dnsKey_mode_other ?_
      rcases h₈ with rfl | rfl | rfl | rfl <;> first | exact absurd rfl hkey | decide
    all_goals rfl

/-! ## What the lowering makes of a list of assignments -/

/-- The values some items assign to a key, in order. -/
def valuesOf (k : ScalarKey) (items : List Item) : List Value := items.filterMap (assignedTo k)

/-- The setting is what the last value reads, and the one before where there is no value. -/
def LastRead (k : ScalarKey) (values : List Value) (before after : k.Setting) : Prop :=
  match values.getLast? with
  | some v => k.read v = .ok after
  | none => after = before

theorem lastRead_nil {before : k.Setting} : LastRead k [] before before :=
  rfl

theorem LastRead.append {vs ws : List Value} {a b c : k.Setting} (hv : LastRead k vs a b)
    (hw : LastRead k ws b c) : LastRead k (vs ++ ws) a c := by
  unfold LastRead at hv hw ⊢
  rw [List.getLast?_append]
  cases hlast : ws.getLast? with
  | none =>
    rw [hlast] at hw
    rw [hw]
    exact hv
  | some v =>
    rw [hlast] at hw
    exact hw

theorem lastRead_overItems {β : Type*} {f : Globals → β → Globals × List String}
    {values : β → List Value} :
    ∀ {is : List β} {g : Globals},
      (∀ i ∈ is, ∀ g, (f g i).2 = [] → LastRead k (values i) (k.get g) (k.get (f g i).1)) →
      (overItems f g is).2 = [] →
      LastRead k (is.flatMap values) (k.get g) (k.get (overItems f g is).1)
  | [], _, _, _ => lastRead_nil
  | i :: is, g, h, hok => by
    rw [overItems_cons] at hok ⊢
    obtain ⟨hi, his⟩ := List.append_eq_nil_iff.1 hok
    rw [List.flatMap_cons]
    exact (h i List.mem_cons_self g hi).append
      (lastRead_overItems (fun j hj => h j (List.mem_cons_of_mem _ hj)) his)

theorem lastRead_globalKey {g : Globals} {key : String} {v : Value}
    (h : (globalKey g key v).2 = []) :
    LastRead k (assignedTo k (.assignment key v)).toList (k.get g)
      (k.get (globalKey g key v).1) := by
  by_cases hkey : key = k.name
  · subst hkey
    simp only [assignedTo, if_true, Option.toList_some]
    exact globalKey_get h
  · simp only [assignedTo, if_neg hkey, Option.toList_none]
    exact globalKey_get_other hkey

theorem overAssignments_mode {p : DnsPolicy} {items : List Item}
    (h : items.any (fun i => (besides .dnsMode i).isSome) = false) :
    (overAssignments dnsKey p items).1.mode = p.mode := by
  refine overItems_invariant (P := fun p' : DnsPolicy => p'.mode = p.mode) items rfl
    fun i hi p' hp' => ?_
  rw [← hp']
  cases i with
  | assignment key v =>
    refine dnsKey_mode_other fun hkey => ?_
    have hbeside := List.any_eq_false.1 h _ hi
    simp [besides, hkey] at hbeside
  | _ => rfl

theorem lastRead_item {g : Globals} {i : Item} (hb : writesBesides k i = false)
    (h : (lowerGlobalItem g i).2 = []) :
    LastRead k (assignedTo k i).toList (k.get g) (k.get (lowerGlobalItem g i).1) := by
  cases i with
  | assignment key v => exact lastRead_globalKey h
  | block head label overrides items =>
    simp only [assignedTo, Option.toList_none, lowerGlobalItem]
    split_ifs with hdns
    · cases k
      case dnsMode =>
        simp only [writesBesides, hdns, true_and, Bool.decide_eq_true] at hb
        exact overAssignments_mode hb
      all_goals rfl
    · cases k <;> rfl
    · cases k <;> rfl
    · cases k <;> rfl
    · unfold lowerUpnp
      split_ifs <;> cases k <;> rfl
    · rfl
  | hook phase body => rfl
  | incl path => rfl

/-- Nothing inside the `global` blocks writes the setting under another name. -/
def Direct (k : ScalarKey) (blocks : List MergedBlock) : Prop :=
  ∀ b ∈ blocks, b.head = "global" → ∀ j ∈ b.items, writesBesides k j = false

def blockValues (k : ScalarKey) (b : MergedBlock) : List Value :=
  if b.head = "global" then valuesOf k b.items else []

/-- The values the top level of the merged tree assigns to the key. -/
def topValues (k : ScalarKey) (assignments : List (String × Value)) : List Value :=
  assignments.filterMap fun a => assignedTo k (.assignment a.1 a.2)

theorem lastRead_block {g : Globals} {b : MergedBlock}
    (hb : b.head = "global" → ∀ j ∈ b.items, writesBesides k j = false)
    (h : (lowerGlobalBlock g b).2 = []) :
    LastRead k (blockValues k b) (k.get g) (k.get (lowerGlobalBlock g b).1) := by
  unfold lowerGlobalBlock blockValues at *
  split_ifs with hhead
  · rw [if_pos hhead] at h
    rw [valuesOf, List.filterMap_eq_flatMap_toList]
    exact lastRead_overItems (fun i hi g hok => lastRead_item (hb hhead i hi) hok) h
  · exact lastRead_nil

theorem lastRead_lowerGlobals {m : Merged} (hd : Direct k m.blocks)
    (h : (lowerGlobals m).2 = []) :
    LastRead k (topValues k m.assignments ++ m.blocks.flatMap (blockValues k)) (k.get {})
      (k.get (lowerGlobals m).1) := by
  simp only [lowerGlobals] at h ⊢
  obtain ⟨htop, hblocks⟩ := List.append_eq_nil_iff.1 h
  refine LastRead.append ?_ (lastRead_overItems (fun b hb g hok => lastRead_block (hd b hb) hok)
    hblocks)
  rw [topValues, List.filterMap_eq_flatMap_toList]
  exact lastRead_overItems (fun a _ g hok => lastRead_globalKey hok) htop

end Netcfgd.Compile
