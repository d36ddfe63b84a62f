import Netcfgd.FirewallMeaning

/-!
# What a firewall starves

`src/plan/firewall_warn.c`. netcfgd adds no rule to a firewall of its own, and warns where the
chains as they are written drop what it runs on : the replies to what the machine or the network
behind it asks, a DHCPv6 client's answers, ICMPv6, a WireGuard peer's handshake. Each warning
rests on a search for a rule that could let the traffic in (`inputAccepts`, `acceptsReplies`).

The chain is read as the kernel reads it, the first rule that matches deciding and the policy at
the end (`deciding`, `chainDoes`) ; `chainVerdict_eq` says that the chain the builder makes does
that. A warning is true where no packet it is about is let in. `warning_true_iff` is exact : only
an accept rule that `acceptsReplies` passes over can make one false.
-/

namespace Netcfgd.FirewallWarn

open Compile Nft Nftables

/-! ## The document -/

/-- `ncfg_address_source_t`. -/
inductive AddressSource
  | static (address : Option String)
  | delegated
  | dhcp4
  | dhcp6
  | slaac
  | linkLocal
  | reported

/-- `ncfg_interface_t`, as far as the warnings read one. -/
structure Interface where
  name : String
  nat : Option Bool := none
  advertise : Bool := false
  addressing : List AddressSource := []

/-- `ncfg_device_t`, with the port it listens on where it is a WireGuard device that has one. -/
structure Device where
  name : String
  listenPort : Option ℤ := none

/-- `ncfg_document_t`, as far as the warnings read one. -/
structure Document where
  firewall : Option Firewall := none
  interfaces : List Interface := []
  devices : List Device := []

/-! ## What could let something in -/

/-- `names_state`. -/
def namesState (r : Rule) (state : String) : Bool := r.states.isEmpty || r.states.contains state

/-- `ncfg_plan_input_drops`. -/
def inputDrops (d : Document) : Bool :=
  d.firewall.any fun fw => fw.input.policy = .drop

/-- Whether a rule of the input chain accepts what is new, of a protocol, on an interface and to a
port. A port below 0 is none. -/
def ruleAccepts (iface : Option String) (protocol : Compile.Protocol) (port : ℤ) (r : Rule) :
    Bool :=
  r.action = .accept && (r.protocol = .any || r.protocol = protocol) &&
    !(r.interface.any fun name => iface.any fun wanted => name ≠ wanted) &&
    namesState r "new" &&
    (r.ports.isEmpty || (0 ≤ port && r.ports.any fun p => (p : ℤ) = port))

/-- `ncfg_plan_input_accepts`. -/
def inputAccepts (d : Document) (iface : Option String) (protocol : Compile.Protocol) (port : ℤ) :
    Bool :=
  !inputDrops d ||
    (d.firewall.any fun fw => fw.input.rules.any (ruleAccepts iface protocol port))

/-- `accepts_replies`. -/
def acceptsReplies (c : Chain) : Bool :=
  c.rules.any fun r => r.action = .accept && r.interface.isNone && !r.states.isEmpty &&
    namesState r "established"

/-- `speaks_ipv6`. -/
def speaksIpv6 (i : Interface) : Bool :=
  i.advertise || i.addressing.any fun
    | .dhcp6 => true
    | .slaac => true
    | .delegated => true
    | .static address => address.any fun text => text.toList.contains ':'
    | _ => false

/-- `asks_dhcp6`. -/
def asksDhcp6 (i : Interface) : Bool :=
  i.addressing.any fun
    | .dhcp6 => true
    | _ => false

/-! ## The warnings -/

/-- What a warning is about, and what of the document it names. -/
inductive Warning
  | forwardReplies (masquerading : String)
  | inputReplies
  | dhcp6 (name : String)
  | icmpv6 (name : String)
  | wireguard (device : String) (port : ℤ)
  deriving DecidableEq

/-- The interface or device the plan files a warning under. -/
def Warning.filed : Warning → Option String
  | .forwardReplies masquerading => some masquerading
  | .inputReplies => none
  | .dhcp6 name => some name
  | .icmpv6 name => some name
  | .wireguard device _ => some device

/-- The message of a warning. -/
def Warning.text : Warning → String
  | .forwardReplies masquerading =>
    masquerading ++
    " masquerades and the firewall's forward chain drops by default with nothing " ++
      "accepting replies, so every connection the network behind it opens is answered " ++
      "and the answer dropped. Add \x60accept \"established\" \x7b state = " ++
      "[\"established\", \"related\"] \x7d\x60 to \x60forward\x60, and a rule accepting what " ++
      "may go out"
  | .inputReplies =>
    "the firewall's input chain drops by default and accepts no replies, so " ++
      "everything this machine asks -- its own DNS, its DHCP renewals, every " ++
      "connection it opens -- is answered and the answer dropped. Add \x60accept " ++
      "\"established\" \x7b state = [\"established\", \"related\"] \x7d\x60 to \x60input\x60"
  | .dhcp6 name =>
    "the firewall's input chain drops by default with no rule accepting DHCPv6 " ++
      "replies on " ++ name ++ ", which conntrack does not see as replies, so the lease and " ++
      "any delegated prefix never arrive. Add \x60accept \"dhcpv6-" ++ name ++
      "\" \x7b protocol = " ++
      "\"udp\"; port = [546]; interface = \"" ++ name ++ "\" \x7d\x60 to \x60input\x60"
  | .icmpv6 name =>
    "the firewall's input chain drops by default with no rule accepting ICMPv6 " ++
      "on " ++ name ++ ", so neighbour discovery and router advertisements are dropped and " ++
      "IPv6 there stops working. Add \x60accept \"icmpv6-" ++ name ++ "\" \x7b protocol = " ++
      "\"icmpv6\"; interface = \"" ++ name ++ "\" \x7d\x60 to \x60input\x60"
  | .wireguard device port =>
    "the firewall's input chain drops by default with no rule accepting UDP " ++ toString port ++
      ", where " ++ device ++ " listens, so a peer that starts the handshake is never answered. " ++
      "Add \x60accept \"wireguard-" ++ device ++ "\" \x7b protocol = \"udp\"; port = [" ++
      toString port ++ "] \x7d\x60 to \x60input\x60"

/-- `warn_forward_replies` : the first interface that masquerades. -/
def warnForwardReplies (d : Document) : List Warning :=
  match d.firewall with
  | none => []
  | some fw =>
    if fw.forward.policy ≠ .drop ∨ acceptsReplies fw.forward then []
    else ((d.interfaces.find? fun i => i.nat = some true).map fun i =>
      Warning.forwardReplies i.name).toList

/-- What an interface asks for that the input chain does not let in. -/
def warnInterface (d : Document) (i : Interface) : List Warning :=
  (if asksDhcp6 i ∧ !inputAccepts d (some i.name) .udp 546 then [Warning.dhcp6 i.name] else []) ++
    (if speaksIpv6 i ∧ !inputAccepts d (some i.name) .icmpv6 (-1) then [Warning.icmpv6 i.name]
      else [])

/-- A WireGuard device whose port the input chain does not let in. -/
def warnDevice (d : Document) (device : Device) : List Warning :=
  match device.listenPort with
  | none => []
  | some port => if inputAccepts d none .udp port then [] else [.wireguard device.name port]

/-- `ncfg_plan_input_warnings`. -/
def inputWarnings (d : Document) : List Warning :=
  warnForwardReplies d ++
    if inputDrops d then
      (if d.firewall.any fun fw => acceptsReplies fw.input then [] else [Warning.inputReplies]) ++
        d.interfaces.flatMap (warnInterface d) ++ d.devices.flatMap (warnDevice d)
    else []

/-- The warnings as the plan has them : what each is filed under, and its message. -/
def planWarnings (d : Document) : List (Option String × String) :=
  (inputWarnings d).map fun w => (w.filed, w.text)

theorem filed_interface {d : Document} {i : Interface} {w : Warning} (h : w ∈ warnInterface d i) :
    w.filed = some i.name := by
  rcases List.mem_append.1 h with h | h
  all_goals
    obtain ⟨-, rfl⟩ := List.mem_ite_nil_right.1 h |>.imp_right List.mem_singleton.1
    rfl

theorem filed_device {d : Document} {device : Device} {w : Warning} (h : w ∈ warnDevice d device) :
    w.filed = some device.name := by
  unfold warnDevice at h
  cases hport : device.listenPort with
  | none => simp [hport] at h
  | some port =>
    simp only [hport] at h
    split_ifs at h
    · cases h
    · obtain rfl := List.mem_singleton.1 h
      rfl

/-- A warning that is filed under a name is filed under one the document has. -/
theorem filed_named {d : Document} {name : Option String} {text : String}
    (h : (name, text) ∈ planWarnings d) :
    ∀ n ∈ name, (∃ i ∈ d.interfaces, i.name = n) ∨ ∃ device ∈ d.devices, device.name = n := by
  rintro n rfl
  obtain ⟨w, hw, heq⟩ := List.mem_map.1 h
  have hfiled : w.filed = some n := (Prod.mk.inj heq).1
  rcases List.mem_append.1 hw with hw | hw
  · unfold warnForwardReplies at hw
    cases hfw : d.firewall with
    | none => simp [hfw] at hw
    | some fw =>
      simp only [hfw] at hw
      split_ifs at hw
      · cases hw
      · obtain ⟨i, hi, rfl⟩ := Option.map_eq_some_iff.1 (Option.mem_toList.1 hw)
        exact .inl ⟨i, List.mem_of_find?_eq_some hi, Option.some.inj hfiled⟩
  · by_cases hdrops : inputDrops d = true
    · rw [if_pos hdrops] at hw
      rcases List.mem_append.1 hw with hw | hw
      · rcases List.mem_append.1 hw with hw | hw
        · obtain ⟨-, rfl⟩ := List.mem_ite_nil_left.1 hw |>.imp_right List.mem_singleton.1
          cases hfiled
        · obtain ⟨i, hi, hw⟩ := List.mem_flatMap.1 hw
          exact .inl ⟨i, hi, Option.some.inj ((filed_interface hw).symm.trans hfiled)⟩
      · obtain ⟨device, hdevice, hw⟩ := List.mem_flatMap.1 hw
        exact .inr ⟨device, hdevice, Option.some.inj ((filed_device hw).symm.trans hfiled)⟩
    · rw [if_neg hdrops] at hw
      cases hw

/-! ## What a chain does -/

section Chains

variable (host : Host) (hook : ChainName)

open Classical in
/-- The first rule that matches a packet. -/
noncomputable def deciding (c : Chain) (p : Packet) : Option Rule :=
  c.rules.find? fun r => (asksOf r).Matches host p hook

/-- What a chain does with a packet. -/
noncomputable def chainDoes (c : Chain) (p : Packet) : Verdict :=
  ((deciding host hook c p).map fun r => verdictOf r.action).getD (policyVerdict c.policy)

variable {host hook}

/-- What decides a packet is a rule of the chain that matches it. -/
theorem deciding_some {c : Chain} {p : Packet} {r : Rule} (h : deciding host hook c p = some r) :
    r ∈ c.rules ∧ (asksOf r).Matches host p hook :=
  ⟨List.mem_of_find?_eq_some h, by simpa using List.find?_some h⟩

end Chains

/-! ## Ports have a protocol -/

/-- A rule that names ports is for a protocol that has them. -/
def PortsNamed (r : Rule) : Prop := r.ports ≠ [] → r.protocol = .tcp ∨ r.protocol = .udp

theorem portsNamed_of_lowerRule {name : String} {action : Compile.Action} {items : List Item}
    {r : Rule}
    {wrong : List String} (h : lowerRule name action items = (some r, wrong)) : PortsNamed r := by
  unfold lowerRule at h
  dsimp only at h
  split_ifs at h with hports
  · cases h
  obtain rfl := Option.some.inj (Prod.mk.inj h).1
  intro hne
  by_contra hno
  rw [not_or] at hno
  exact hports ⟨hne, hno⟩

/-- A property of every rule of every chain. -/
def AllRules (P : Rule → Prop) (fw : Firewall) : Prop := ∀ hook, ∀ r ∈ (fw.chain hook).rules, P r

theorem mem_keepRule {hook : ChainName} {c : ChainRead} {r r' : Rule}
    (h : r' ∈ (keepRule hook c r).1.chain.rules) : r' ∈ c.chain.rules ∨ r' = r := by
  have hcases : (keepRule hook c r).1 = c ∨ (keepRule hook c r).1.chain.rules =
      c.chain.rules ++ [r] := by
    unfold keepRule
    by_cases hout : r.outInterface.isSome ∧ hook ≠ .forward
    · exact Or.inl (by rw [if_pos hout])
    · by_cases hmac : hook = .output ∧ (r.mac ≠ [] ∨ r.macLists ≠ [])
      · exact Or.inl (by rw [if_neg hout, if_pos hmac])
      · by_cases hname : (c.chain.rules.any fun r' => r'.name = r.name) = true
        · exact Or.inl (by rw [if_neg hout, if_neg hmac, if_pos hname])
        · exact Or.inr (by rw [if_neg hout, if_neg hmac, if_neg hname])
  rcases hcases with heq | heq
  · exact Or.inl (heq ▸ h)
  · rw [heq, List.mem_append, List.mem_singleton] at h
    exact h

theorem portsNamed_chainItem {hook : ChainName} (c : ChainRead) (i : Item)
    (hc : ∀ r ∈ c.chain.rules, PortsNamed r) :
    ∀ r ∈ (chainItem hook c i).1.chain.rules, PortsNamed r := by
  cases i with
  | assignment key v =>
    rw [chainItem]
    split_ifs
    · cases hpolicy : asString v >>= Compile.policyOf <;> simpa [take, hpolicy] using hc
    · exact hc
  | block head label overrides items =>
    simp only [chainItem]
    cases haction : ruleAction head with
    | none => exact hc
    | some action =>
      cases label with
      | none => exact hc
      | some name =>
        dsimp only
        cases hlower : lowerRule name action items with
        | mk lowered wrong =>
          cases lowered with
          | none => exact hc
          | some r =>
            intro r' hr'
            rcases mem_keepRule hr' with hr' | rfl
            · exact hc r' hr'
            · exact portsNamed_of_lowerRule hlower
  | hook phase body => exact hc
  | incl path => exact hc

theorem portsNamed_lowerChain {hook : ChainName} {items : List Item} {c : Chain}
    {wrong : List String} (h : lowerChain hook items = (some c, wrong)) :
    ∀ r ∈ c.rules, PortsNamed r := by
  unfold lowerChain at h
  dsimp only at h
  split_ifs at h
  · cases h
  obtain rfl := Option.some.inj (Prod.mk.inj h).1
  exact overItems_invariant (P := fun c : ChainRead => ∀ r ∈ c.chain.rules, PortsNamed r) items
    (fun _ hr => (List.not_mem_nil hr).elim) fun i _ c hc => portsNamed_chainItem c i hc

theorem chain_setChain (fw : Firewall) (c : Chain) (hook hook' : ChainName) :
    (fw.setChain c hook).chain hook' = if hook = hook' then c else fw.chain hook' := by
  cases hook <;> cases hook' <;> rfl

theorem portsNamed_firewallItem (s : Firewall × List ChainName) (i : Item)
    (hs : AllRules PortsNamed s.1) : AllRules PortsNamed (firewallItem s i).1.1 := by
  cases i with
  | assignment key v => exact hs
  | block head label overrides items =>
    simp only [firewallItem]
    cases chainOf head with
    | none => exact hs
    | some hook =>
      dsimp only
      by_cases hmem : hook ∈ s.2
      · rw [if_pos hmem]
        exact hs
      · rw [if_neg hmem]
        cases hlower : lowerChain hook items with
        | mk lowered wrong =>
          cases lowered with
          | none => exact hs
          | some c =>
            intro hook' r hr
            dsimp only at hr
            rw [chain_setChain] at hr
            split_ifs at hr
            · exact portsNamed_lowerChain hlower r hr
            · exact hs hook' r hr
  | hook phase body => exact hs
  | incl path => exact hs

theorem portsNamed_firewallBlock (s : FirewallRead) (b : MergedBlock)
    (hs : ∀ fw ∈ s.firewall, AllRules PortsNamed fw) :
    ∀ fw ∈ (firewallBlock s b).1.firewall, AllRules PortsNamed fw := by
  unfold firewallBlock
  by_cases hfirewall : b.head = "firewall"
  · rw [if_pos hfirewall]
    split_ifs
    · exact hs
    · rintro fw hfw
      obtain rfl := Option.some.inj hfw
      refine overItems_invariant (P := fun s : Firewall × List ChainName =>
        AllRules PortsNamed s.1) b.items ?_ fun i _ s hs => portsNamed_firewallItem s i hs
      intro hook r hr
      cases hook <;> cases hr
  · rw [if_neg hfirewall]
    split_ifs
    · cases b.label with
      | none => exact hs
      | some name =>
        dsimp only
        cases lowerHostList name b.items with
        | mk lowered wrong =>
          cases lowered with
          | none => exact hs
          | some list =>
            dsimp only
            split_ifs <;> exact hs
    · exact hs

theorem portsNamed_resolveRule {hook : ChainName} {lists : List HostList} {r : Rule}
    (hr : PortsNamed r) : PortsNamed (resolveRule hook lists r).1 := by
  refine overItems_invariant (P := PortsNamed) r.macLists hr fun name _ r hr => ?_
  unfold resolveList
  cases findHostList lists name with
  | none => exact hr
  | some list => exact hr

/-- The compiler accepts no rule that names ports without a protocol for them. -/
theorem portsNamed_of_compile {file : List Item} {fw : Firewall}
    (h : compileFirewall file = .ok (some fw)) : AllRules PortsNamed fw := by
  have hread : ∀ fw ∈ (overItems firewallBlock {} (merge file).1).1.firewall,
      AllRules PortsNamed fw :=
    overItems_invariant (P := fun s : FirewallRead => ∀ fw ∈ s.firewall, AllRules PortsNamed fw)
      _ nofun fun b _ s hs => portsNamed_firewallBlock s b hs
  unfold compileFirewall at h
  dsimp only at h
  by_cases hmerge : (merge file).2 ≠ []
  · rw [if_pos hmerge] at h
    cases h
  rw [if_neg hmerge] at h
  cases hfirewall : (overItems firewallBlock {} (merge file).1).1.firewall with
  | none =>
    rw [hfirewall] at h
    dsimp only at h
    split_ifs at h
    cases h
  | some read =>
    rw [hfirewall] at h
    dsimp only at h
    split_ifs at h
    obtain rfl := Option.some.inj (Except.ok.inj h)
    intro hook r hr
    set lists := (overItems firewallBlock {} (merge file).1).1.hostLists
    have hmap : ((resolveFirewall lists read).1.chain hook).rules =
        (read.chain hook).rules.map fun r => (resolveRule hook lists r).1 := by
      cases hook <;> rfl
    rw [hmap] at hr
    obtain ⟨r', hr', rfl⟩ := List.mem_map.1 hr
    exact portsNamed_resolveRule (hread read hfirewall hook r' hr')

/-! ## What the warnings say -/

/-- The chain a warning is of. -/
def Warning.chain : Warning → ChainName
  | .forwardReplies _ => .forward
  | _ => .input

/-- The packets a warning says are dropped. -/
def Warning.About (w : Warning) (p : Packet) : Prop :=
  match w with
  | .forwardReplies _ => p.state = .established
  | .inputReplies => p.state = .established
  | .dhcp6 name => p.state = .new ∧ p.protocol = protocolNumber .udp ∧
      p.destinationPort = some 546 ∧ p.iifname.bytes = cBytes name
  | .icmpv6 name => p.state = .new ∧ p.protocol = protocolNumber .icmpv6 ∧
      p.iifname.bytes = cBytes name
  | .wireguard _ port => p.state = .new ∧ p.protocol = protocolNumber .udp ∧
      ∃ n : ℕ, p.destinationPort = some n ∧ (n : ℤ) = port

/-- Whether a warning rests on `acceptsReplies`. -/
def Warning.ofReplies : Warning → Bool
  | .forwardReplies _ => true
  | .inputReplies => true
  | _ => false

/-- An accept rule that `acceptsReplies` passes over : one of an interface, or of no state. -/
def PassedOver (r : Rule) : Prop := r.action = .accept ∧ (r.interface.isSome ∨ r.states = [])

theorem mem_of_stateOf {word : String} {state : CtState} (h : stateOf word = some state) :
    (state = .new → word = "new") ∧ (state = .established → word = "established") := by
  unfold stateOf at h
  split_ifs at h with h₁ h₂ h₃ h₄ <;> obtain rfl := Option.some.inj h
  · exact ⟨fun _ => h₁, nofun⟩
  · exact ⟨nofun, fun _ => h₂⟩
  · exact ⟨nofun, nofun⟩
  · exact ⟨nofun, nofun⟩

section True

variable {host : Host} {hook : ChainName} {r : Rule} {p : Packet}

theorem protocol_of_matches (h : (asksOf r).Matches host p hook) {protocol : Compile.Protocol}
    (hp : p.protocol = protocolNumber protocol) (hany : protocol ≠ .any) :
    r.protocol = .any ∨ r.protocol = protocol := by
  by_cases hr : r.protocol = .any
  · exact Or.inl hr
  · have heq := (h.protocol hr).symm.trans hp
    refine Or.inr ?_
    change protocolNumber r.protocol = _ at heq
    generalize r.protocol = asked at hr heq ⊢
    cases asked <;> cases protocol <;>
      first | rfl | exact absurd rfl hr | exact absurd rfl hany | exact absurd heq (by decide)

theorem namesState_of_matches (h : (asksOf r).Matches host p hook) :
    (p.state = .new → namesState r "new" = true) ∧
      (p.state = .established → namesState r "established" = true) := by
  unfold namesState
  have hstate := h.state
  change Nft.Chosen (listed r.states) _ at hstate
  cases hwords : r.states with
  | nil => exact ⟨fun _ => rfl, fun _ => rfl⟩
  | cons word words =>
    rw [hwords] at hstate
    obtain ⟨named, hmem, hof⟩ := hstate _ rfl
    have hword := mem_of_stateOf hof
    rw [List.isEmpty_cons, Bool.false_or, Bool.false_or, List.contains_iff_mem,
      List.contains_iff_mem]
    exact ⟨fun hnew => hword.1 hnew ▸ hmem, fun hold => hword.2 hold ▸ hmem⟩

theorem cBytes_inj {s t : String} (h : cBytes s = cBytes t) : s = t := by
  rw [← String.toByteArray_inj, ← String.utf8Encode_toList, ← String.utf8Encode_toList,
    List.utf8Encode, List.utf8Encode]
  exact congrArg List.toByteArray h

/-- A rule that accepts a new packet is found by the search for what that packet is. -/
theorem ruleAccepts_of_matches (hports : PortsNamed r) (haction : r.action = .accept)
    (h : (asksOf r).Matches host p .input) (iface : Option String) (protocol : Compile.Protocol)
    (port : ℤ)
    (hnew : p.state = .new) (hprotocol : p.protocol = protocolNumber protocol)
    (hany : protocol ≠ .any) (hiface : ∀ name ∈ iface, p.iifname.bytes = cBytes name)
    (hport : protocol = .tcp ∨ protocol = .udp →
      ∃ n : ℕ, p.destinationPort = some n ∧ (n : ℤ) = port) :
    ruleAccepts iface protocol port r = true := by
  have hnamed := protocol_of_matches h hprotocol hany
  have hinterface :
      (r.interface.any fun name => iface.any fun wanted => name ≠ wanted) = false := by
    have hdevice := h.interface
    change ∀ name ∈ r.interface, p.iifname.bytes = cBytes name at hdevice
    cases hr : r.interface with
    | none => rfl
    | some name =>
      cases iface with
      | none => rfl
      | some wanted =>
        have hsame := cBytes_inj ((hdevice name hr).symm.trans (hiface wanted rfl))
        simp [hsame]
  have hlisted : (r.ports.isEmpty ||
      (0 ≤ port && r.ports.any fun n => (n : ℤ) = port)) = true := by
    cases hr : r.ports with
    | nil => rfl
    | cons first rest =>
      have hne : r.ports ≠ [] := by rw [hr]; exact List.cons_ne_nil _ _
      -- the rule is for a protocol with ports, so the packet is of that one
      have hasked : protocol = .tcp ∨ protocol = .udp := by
        rcases hports hne with htcp | hudp
        · exact Or.inl (hnamed.resolve_left (by simp [htcp]) ▸ htcp)
        · exact Or.inr (hnamed.resolve_left (by simp [hudp]) ▸ hudp)
      obtain ⟨n, hn, rfl⟩ := hport hasked
      have hchosen := h.port
      change Nft.Chosen (listed r.ports) _ at hchosen
      rw [hr] at hchosen
      obtain ⟨m, hm, heq⟩ := hchosen _ rfl
      obtain rfl := Option.some.inj (hn.symm.trans heq)
      simp only [Bool.or_eq_true, Bool.and_eq_true, decide_eq_true_eq, List.any_eq_true]
      exact Or.inr ⟨Int.natCast_nonneg _, n, hm, rfl⟩
  rw [ruleAccepts, hinterface, (namesState_of_matches h).1 hnew, hlisted]
  rcases hnamed with hany | hsame
  · simp [haction, hany]
  · simp [haction, hsame]

/-- A rule that accepts a reply is found by `acceptsReplies`, unless it is passed over. -/
theorem acceptsReplies_of_matches {c : Chain} (hr : r ∈ c.rules) (haction : r.action = .accept)
    (h : (asksOf r).Matches host p hook) (hstate : p.state = .established)
    (hnot : ¬ PassedOver r) : acceptsReplies c = true := by
  have hfields : r.interface = none ∧ r.states ≠ [] := by
    rw [PassedOver, not_and, not_or] at hnot
    have := hnot haction
    exact ⟨by simpa using this.1, this.2⟩
  refine List.any_eq_true.2 ⟨r, hr, ?_⟩
  rw [(namesState_of_matches h).2 hstate]
  simp [haction, hfields.1, hfields.2]

/-- A chain that drops by default accepts what an accept rule decides. -/
theorem chainDoes_eq_accept {c : Chain} (hpolicy : c.policy = .drop) :
    chainDoes host hook c p = .accept ↔
      ∃ r, deciding host hook c p = some r ∧ r.action = .accept := by
  unfold chainDoes
  cases deciding host hook c p with
  | none => simp [hpolicy, policyVerdict]
  | some r =>
    simp only [Option.map_some, Option.getD_some, Option.some.injEq, exists_eq_left']
    cases r.action <;> simp [verdictOf]

/-- The search of a warning, with nothing found. -/
def Warning.Unanswered (fw : Firewall) : Warning → Prop
  | .forwardReplies _ => acceptsReplies fw.forward = false
  | .inputReplies => acceptsReplies fw.input = false
  | .dhcp6 name => fw.input.rules.any (ruleAccepts (some name) .udp 546) = false
  | .icmpv6 name => fw.input.rules.any (ruleAccepts (some name) .icmpv6 (-1)) = false
  | .wireguard _ port => fw.input.rules.any (ruleAccepts none .udp port) = false

/-- A warning is given where its chain drops by default and its search finds nothing. -/
theorem of_mem_inputWarnings {d : Document} {w : Warning} (h : w ∈ inputWarnings d) :
    ∃ fw, d.firewall = some fw ∧ (fw.chain w.chain).policy = .drop ∧ w.Unanswered fw := by
  cases hfw : d.firewall with
  | none => simp [inputWarnings, warnForwardReplies, inputDrops, hfw] at h
  | some fw =>
    refine ⟨fw, rfl, ?_⟩
    rcases List.mem_append.1 h with h | h
    · simp only [warnForwardReplies, hfw] at h
      split_ifs at h with hnot
      · cases h
      · rw [not_or, not_not] at hnot
        obtain ⟨i, -, rfl⟩ := Option.map_eq_some_iff.1 (Option.mem_toList.1 h)
        exact ⟨hnot.1, eq_false_of_ne_true hnot.2⟩
    · by_cases hdrops : inputDrops d = true
      · rw [if_pos hdrops] at h
        have hpolicy : fw.input.policy = .drop := by simpa [inputDrops, hfw] using hdrops
        have haccepts : ∀ iface protocol port, (!inputAccepts d iface protocol port) = true →
            fw.input.rules.any (ruleAccepts iface protocol port) = false := by
          intro iface protocol port haccept
          rw [inputAccepts, hdrops, hfw] at haccept
          exact eq_false_of_ne_true fun hany => by simp [hany] at haccept
        rcases List.mem_append.1 h with h | h
        · rcases List.mem_append.1 h with h | h
          · by_cases hreplies : (d.firewall.any fun fw => acceptsReplies fw.input) = true
            · rw [if_pos hreplies] at h
              cases h
            · rw [if_neg hreplies] at h
              obtain rfl := List.mem_singleton.1 h
              rw [hfw] at hreplies
              exact ⟨hpolicy, eq_false_of_ne_true hreplies⟩
          · obtain ⟨i, -, h⟩ := List.mem_flatMap.1 h
            rcases List.mem_append.1 h with h | h
            · obtain ⟨hasks, rfl⟩ := List.mem_ite_nil_right.1 h |>.imp_right List.mem_singleton.1
              exact ⟨hpolicy, haccepts _ _ _ hasks.2⟩
            · obtain ⟨hspeaks, rfl⟩ := List.mem_ite_nil_right.1 h |>.imp_right List.mem_singleton.1
              exact ⟨hpolicy, haccepts _ _ _ hspeaks.2⟩
        · obtain ⟨device, -, h⟩ := List.mem_flatMap.1 h
          unfold warnDevice at h
          cases hport : device.listenPort with
          | none => rw [hport] at h; cases h
          | some port =>
            rw [hport] at h
            dsimp only at h
            by_cases haccept : inputAccepts d none .udp port = true
            · rw [if_pos haccept] at h
              cases h
            · rw [if_neg haccept] at h
              obtain rfl := List.mem_singleton.1 h
              exact ⟨hpolicy, haccepts _ _ _ (by simpa using haccept)⟩
      · rw [if_neg hdrops] at h
        cases h

/-- Nothing was found for a warning, so an accept rule that lets in what it is about is one that is
passed over, and the warning is of replies. -/
theorem passedOver_of_unanswered {fw : Firewall} {w : Warning} (hports : AllRules PortsNamed fw)
    (hw : w.Unanswered fw) (hp : w.About p) (hr : r ∈ (fw.chain w.chain).rules)
    (haction : r.action = .accept) (h : (asksOf r).Matches host p w.chain) :
    w.ofReplies = true ∧ PassedOver r := by
  have hnamed := hports w.chain r hr
  have hreplies : ∀ {c : Chain}, r ∈ c.rules → acceptsReplies c = false →
      p.state = .established → PassedOver r := by
    intro c hc hnone hstate
    by_contra hnot
    rw [acceptsReplies_of_matches hc haction h hstate hnot] at hnone
    cases hnone
  cases w with
  | forwardReplies name => exact ⟨rfl, hreplies hr hw hp⟩
  | inputReplies => exact ⟨rfl, hreplies hr hw hp⟩
  | dhcp6 name =>
    obtain ⟨hnew, hprotocol, hport, hiface⟩ := hp
    have haccepts := ruleAccepts_of_matches hnamed haction h (some name) .udp 546
      hnew hprotocol nofun (fun wanted hwanted => Option.some.inj hwanted ▸ hiface)
      fun _ => ⟨546, hport, rfl⟩
    exact absurd (List.any_eq_true.2 ⟨r, hr, haccepts⟩) (ne_true_of_eq_false hw)
  | icmpv6 name =>
    obtain ⟨hnew, hprotocol, hiface⟩ := hp
    have haccepts := ruleAccepts_of_matches hnamed haction h (some name) .icmpv6 (-1)
      hnew hprotocol nofun (fun wanted hwanted => Option.some.inj hwanted ▸ hiface)
      (by rintro (hno | hno) <;> cases hno)
    exact absurd (List.any_eq_true.2 ⟨r, hr, haccepts⟩) (ne_true_of_eq_false hw)
  | wireguard device port =>
    obtain ⟨hnew, hprotocol, hport⟩ := hp
    have haccepts := ruleAccepts_of_matches hnamed haction h none .udp port
      hnew hprotocol nofun nofun fun _ => hport
    exact absurd (List.any_eq_true.2 ⟨r, hr, haccepts⟩) (ne_true_of_eq_false hw)

end True

/-- A warning of a document the compiler accepts is true, the chain it names letting in no packet
it is about, exactly where it is not of replies or no packet it is about is decided by an accept
rule of an interface or of no state. A rejected packet is dropped too, with an answer sent. -/
theorem warning_true_iff (file : List Item) (firewall : Option Firewall)
    (interfaces : List Interface) (devices : List Device) (host : Host)
    (hcompile : compileFirewall file = .ok firewall) (w : Warning)
    (hw : w ∈ inputWarnings ⟨firewall, interfaces, devices⟩) :
    (∀ p, w.About p → chainDoes host w.chain ((firewall.getD {}).chain w.chain) p ≠ .accept) ↔
      (w.ofReplies = true → ∀ p, w.About p →
        ∀ r ∈ deciding host w.chain ((firewall.getD {}).chain w.chain) p, ¬ PassedOver r) := by
  obtain ⟨fw, rfl, hpolicy, hunanswered⟩ := of_mem_inputWarnings hw
  rw [Option.getD_some]
  constructor
  · intro hdrops _ p hp r hr hover
    exact hdrops p hp ((chainDoes_eq_accept hpolicy).2 ⟨r, hr, hover.1⟩)
  · intro hnone p hp haccept
    obtain ⟨r, hr, haction⟩ := (chainDoes_eq_accept hpolicy).1 haccept
    obtain ⟨hmem, hmatch⟩ := deciding_some hr
    obtain ⟨hreplies, hover⟩ := passedOver_of_unanswered (portsNamed_of_compile hcompile)
      hunanswered hp hmem haction hmatch
    exact hnone hreplies p hp r hr hover

/-! ## A warning that is false -/

/-- A chain that drops, with a rule for everything that comes from the network behind it. -/
def perInterfaceFile : List Item :=
  [.block "firewall" none false
    [.block "input" none false
      [.assignment "policy" (.string "drop"),
        .block "accept" (some "lan") false [.assignment "interface" (.string "lan0")]]]]

def perInterface : Firewall where
  input :=
    { policy := .drop
      rules := [{ name := "lan", action := .accept, interface := some "lan0" }] }

theorem compile_perInterface : compileFirewall perInterfaceFile = .ok (some perInterface) := by
  have hmerge : (merge perInterfaceFile).2 = [] := by decide
  have hread : overItems firewallBlock {} (merge perInterfaceFile).1 =
      (⟨[], some perInterface⟩, []) := by decide
  have hresolve : resolveFirewall [] perInterface = (perInterface, []) := by
    simp [resolveFirewall, resolveChain, resolveRule, overItems, sortSet, perInterface]
  simp [compileFirewall, hmerge, hread, hresolve]

def lanReply : Packet where
  family := .ipv4
  protocol := 6
  network := fun _ => 0
  transport := none
  link := none
  iiftype := 1
  iifname := ⟨cBytes "lan0", by decide, by decide⟩
  oifname := ⟨[], by decide, nofun⟩
  state := .established
  status := 0
  day := 0
  second := 0

/-- The warning says that no replies are accepted, and the rule of the interface accepts them
there. -/
theorem lan_reply_accepted :
    compileFirewall perInterfaceFile = .ok (some perInterface) ∧
      Warning.inputReplies ∈ inputWarnings ⟨some perInterface, [], []⟩ ∧
      Warning.inputReplies.About lanReply ∧
      chainDoes unfilledHost .input perInterface.input lanReply = .accept := by
  have hmatch : (asksOf { name := "lan", action := .accept, interface := some "lan0" }).Matches
      unfilledHost lanReply .input :=
    { protocol := fun hany => absurd rfl hany
      port := nofun
      source := nofun
      destination := nofun
      interface := fun name hname => Option.some.inj hname ▸ rfl
      outInterface := nofun
      state := nofun
      translated := nofun
      station := nofun
      schedule := by rintro (h | h) <;> cases h }
  have hdecides : deciding unfilledHost .input perInterface.input lanReply =
      some { name := "lan", action := .accept, interface := some "lan0" } := by
    classical exact List.find?_cons_of_pos (decide_eq_true hmatch)
  exact ⟨compile_perInterface, by decide, rfl, (chainDoes_eq_accept rfl).2 ⟨_, hdecides, rfl⟩⟩

/-- Where the reply of the network behind it is accepted, the exact condition fails as well. -/
theorem lan_warning_true_iff :
    (∀ p, Warning.inputReplies.About p →
      chainDoes unfilledHost .input perInterface.input p ≠ .accept) ↔
      (Warning.inputReplies.ofReplies = true → ∀ p, Warning.inputReplies.About p →
        ∀ r ∈ deciding unfilledHost .input perInterface.input p, ¬ PassedOver r) :=
  warning_true_iff perInterfaceFile (some perInterface) [] [] unfilledHost compile_perInterface
    .inputReplies (by decide)

end Netcfgd.FirewallWarn
