import Netcfgd.Remake

/-!
# Settings and their inverses

The passes that change a setting of a link, a port or the host : MTU and MAC (`linkAttributes`),
the master (`masterAction`), the VLANs of a bridge port (`bridgeVlanActions`), the root qdisc and
the ingress redirect of `tc.c`, the three sysctls of `sysctl.c`, and the hostname. Each writes
beside its op the op that undoes it.

`Settings` is the state these ops act on, `exec` what an op makes of it, and `Undone` says that
each op of a plan followed by its inverse leaves what was observed. Where an op replaces
another value its inverse has to put that value back : three of the passes take the new value
away instead (`undone_iff`, `port_moved_not_undone`).
-/

namespace Netcfgd

/-! ## What the passes decide -/

section Actions

variable (d : Document) (o : Observed)

/-- `asks_for_slaac`. -/
def asksForSlaac (i : Interface) (temporaryOnly : Bool) : Bool :=
  i.addressing.any fun source =>
    match source with
    | .slaac preferTemporary => !temporaryOnly || preferTemporary
    | _ => false

/-- `accept_ra_observed` : how the plan describes what the kernel does with
advertisements. -/
def acceptRaObserved (name : String) : Option ObservedAcceptRa → String
  | none => "<absent>"
  | some state =>
    if state.effective then
      "accept_ra " ++ toString state.value ++ ", advertisements accepted"
    else if state.value = 1 then
      "accept_ra " ++ toString state.value ++ ", and " ++ name ++
        " forwards -- advertisements ignored"
    else "accept_ra " ++ toString state.value ++ ", advertisements ignored"

/-- `accept_ra_settled`, against the forwarding this plan will produce. -/
def acceptRaSettled (i : Interface) (state : Option ObservedAcceptRa) (asked : Bool)
    (wanted : ℤ) : Bool :=
  match state with
  | none => false
  | some state =>
    if asked then
      let forwards := i.forwarding.getD (state.value = 1 && !state.effective)
      state.value = 2 || (state.value = 1 && !forwards)
    else state.value = wanted

/-- `ncfg_plan_accept_ra` on one interface : `2` to accept whatever it forwards, `1` to hand it
back. -/
def acceptRaAction (i : Interface) : Option Planned :=
  let asked := asksForSlaac i false
  let wanted : Option ℤ :=
    if asked then some 2 else if i.name ∈ o.acceptRaApplied then some 1 else none
  wanted.bind fun wanted =>
    let link := o.link i.name
    let state := link.bind ObservedLink.acceptRa
    -- a sysctl that cannot be read is reported and not written
    if link.isSome ∧ state.isNone then none
    else if acceptRaSettled i state asked wanted then none
    else
      some
        { op := .sysctlSetAcceptRa i.name wanted
          reason := ⟨some i.name, "addressing[slaac]",
            if asked then "router advertisements accepted"
            else "accept_ra back to the kernel default", acceptRaObserved i.name state⟩
          inverse := state.map fun state => .sysctlSetAcceptRa i.name state.value }

/-- The MTU in `ncfg_plan_link_attributes`. -/
def mtuAction (i : Interface) : Option Planned :=
  (d.device i.name).bind fun x => x.mtu.bind fun mtu =>
    let link := o.link i.name
    if link.map ObservedLink.mtu = some mtu then none
    else
      some
        { op := .linkSetMtu i.name mtu
          reason := ⟨some i.name, "mtu", toString mtu,
            (link.map fun l => toString l.mtu).getD "<absent>"⟩
          inverse := link.map fun l => .linkSetMtu i.name l.mtu }

/-- The MAC in `ncfg_plan_link_attributes`. -/
def macAction (i : Interface) : Option Planned :=
  (d.device i.name).bind fun x => x.mac.bind fun mac =>
    let seen := (o.link i.name).bind ObservedLink.mac
    if seen = some mac then none
    else
      some
        { op := .linkSetMac i.name mac
          reason := ⟨some i.name, "mac", mac, seen.getD "<absent>"⟩
          inverse := seen.map fun seen => .linkSetMac i.name seen }

/-- `render_vlan`. -/
def renderVlan (v : BridgeVlan) : String :=
  toString v.vid ++ (if v.pvid then " pvid" else "") ++ if v.untagged then " untagged" else ""

def portVlans (x : Device) : List ObservedBridgeVlan :=
  (o.link x.name).elim [] fun l => o.bridgeVlans.filter fun v => v.index = l.index

/-- Whether there are VLANs to set on a device : it lists some, and is a bridge or in one. -/
def hasPort (x : Device) : Bool :=
  x.bridgeVlans ≠ [] ∧ (x.kind = .bridge ∨ x.master.isSome ∨
    ((o.link x.name).bind ObservedLink.master).isSome)

def vlanHeld (x : Device) (wanted : BridgeVlan) : Bool :=
  (portVlans o x).any fun v =>
    v.vid = wanted.vid ∧ v.pvid = wanted.pvid ∧ v.untagged = wanted.untagged

/-- `ncfg_plan_bridge_vlans` : the VLANs of a port are made to be exactly the ones the device
lists, where it lists any. -/
def bridgeVlanActions (x : Device) : List Planned :=
  let onSelf : Bool := x.kind = .bridge
  if hasPort o x then
    -- the kernel adds VLAN 1 to a port the moment it joins
    (if (o.link x.name).isNone ∧ ∀ v ∈ x.bridgeVlans, v.vid ≠ 1 then
      [{ op := .bridgeVlanDel x.name 1 false false onSelf
         reason := reasonUnwanted x.name "vlans" "1 (the kernel's default)"
         inverse := none }]
    else []) ++
    ((x.bridgeVlans.filter fun wanted => !vlanHeld o x wanted).map fun wanted =>
      { op := .bridgeVlanAdd x.name wanted.vid wanted.pvid wanted.untagged onSelf
        reason := reasonAbsent x.name "vlans" (renderVlan wanted)
        inverse := some (.bridgeVlanDel x.name wanted.vid false false onSelf) }) ++
    (((portVlans o x).filter fun v => ∀ wanted ∈ x.bridgeVlans, wanted.vid ≠ v.vid).map fun v =>
      { op := .bridgeVlanDel x.name v.vid false false onSelf
        reason := reasonUnwanted x.name "vlans" (toString v.vid)
        inverse := some (.bridgeVlanAdd x.name v.vid v.pvid v.untagged onSelf) })
  else []

/-- `ncfg_plan_qdisc_kind_word`. -/
def QdiscKind.word : QdiscKind → String
  | fqCodel => "fq_codel"
  | cake => "cake"
  | fq => "fq"
  | pfifoFast => "pfifo_fast"
  | noqueue => "noqueue"

/-- `describe` of `tc.c`. -/
def describeQdisc (kind : Option String) (rate : Option ℤ) : String :=
  match kind, rate with
  | none, _ => "<absent>"
  | some kind, none => kind
  | some kind, some rate => kind ++ " at " ++ toString rate ++ " bit/s"

/-- `ncfg_plan_qdisc` on one device. -/
def qdiscAction (x : Device) : Option Planned :=
  let link := o.link x.name
  let current := link.bind ObservedLink.qdisc
  let rate := link.bind ObservedLink.qdiscBandwidthBits
  let ingress := link.any ObservedLink.qdiscIngress
  match x.qdisc with
  | none =>
    if x.name ∉ o.qdiscApplied then none
    else
      current.map fun current =>
        { op := .qdiscReset x.name
          reason := reasonUnwanted x.name "qdisc" current
          inverse := some (.qdiscSet x.name current rate ingress) }
  | some wanted =>
    if current = some wanted.kind.word ∧ rate = wanted.bandwidthBits ∧ ingress = wanted.ingress then
      none
    else
      some
        { op := .qdiscSet x.name wanted.kind.word wanted.bandwidthBits wanted.ingress
          reason := ⟨some x.name, "qdisc",
            describeQdisc (some wanted.kind.word) wanted.bandwidthBits, describeQdisc current rate⟩
          inverse := current.map fun current => .qdiscSet x.name current rate ingress }

/-- `ncfg_plan_ingress` on one device. -/
def ingressAction (x : Device) : Option Planned :=
  let current := (o.link x.name).bind ObservedLink.ingressRedirect
  match x.ingressRedirect with
  | some target =>
    if current = some target then none
    else
      some
        { op := .ingressRedirect x.name target
          reason := ⟨some x.name, "ingress_redirect", target, current.getD "<absent>"⟩
          inverse := some (.ingressRedirectClear x.name) }
  | none =>
    if x.name ∉ o.ingressApplied then none
    else
      current.map fun current =>
        { op := .ingressRedirectClear x.name
          reason := reasonUnwanted x.name "ingress_redirect" current
          inverse := some (.ingressRedirect x.name current) }

/-- `ncfg_plan_forwarding` on one interface. -/
def forwardingAction (i : Interface) : Option Planned :=
  let wanted := i.forwarding <|> if i.name ∈ o.forwardingApplied then some false else none
  wanted.bind fun wanted =>
    let current := (o.link i.name).bind ObservedLink.forwarding
    if current = some wanted then none
    else
      some
        { op := .sysctlSetForwarding i.name wanted
          reason := ⟨some i.name, "forwarding", toString wanted,
            (current.map toString).getD "<unreadable>"⟩
          inverse := current.map fun current => .sysctlSetForwarding i.name current }

/-- The words for `use_tempaddr`. -/
def privacyWord (preferTemporary : Bool) : String :=
  if preferTemporary then "prefer_temporary" else "none"

/-- `ncfg_plan_privacy` on one interface. -/
def privacyAction (i : Interface) : Option Planned :=
  let wanted :=
    if asksForSlaac i true then some true
    else if i.name ∈ o.privacyApplied then some false else none
  wanted.bind fun wanted =>
    let link := o.link i.name
    let current := link.bind ObservedLink.privacy
    if link.isSome ∧ current.isNone then none
    else if current = some wanted then none
    else
      some
        { op := .sysctlSetPrivacy i.name wanted
          reason := ⟨some i.name, "addressing[slaac].privacy", privacyWord wanted,
            (current.map privacyWord).getD "<absent>"⟩
          inverse := current.map fun current => .sysctlSetPrivacy i.name current }

/-- `ncfg_plan_hostname`. -/
def hostnameAction : Option Planned :=
  match d.hostname, o.hostname with
  | .static name, some current =>
    if current = name then none
    else
      some
        { op := .hostnameSet name
          reason := ⟨none, "globals.hostname", name, current⟩
          inverse := some (.hostnameSet current) }
  | _, _ => none

end Actions

/-! ## The passes -/

section Passes

variable (c : Checks) (d : Document) (o : Observed)

def issue (dependsOn : List (Option ℕ)) (s : Planning) (p : Planned) : Planning :=
  (s.push c p.op p.reason dependsOn p.inverse).2

/-- The MTU and the MAC of `ncfg_plan_link_attributes`, or nothing for a link that cannot be
planned for. -/
def attributeActions (declined : List String) (i : Interface) : List Planned :=
  if linkIsPlannable (builderAt d o declined) i.name then
    (mtuAction d o i).toList ++ (macAction d o i).toList
  else []

/-- `ncfg_plan_link_attributes`. -/
def linkAttributes (s : Planning) (i : Interface) : Planning :=
  (attributeActions d o s.building.declined i).foldl (issue c (s.gate i.name)) s

/-- `ncfg_plan_bridge_vlans`. -/
def planBridgeVlans (x : Device) (s : Planning) : Planning :=
  (bridgeVlanActions o x).foldl (issue c (s.gate x.name)) s

/-- What the device loop of `ncfg_plan_build` does about masters and ports. -/
def devicePort (s : Planning) (x : Device) : Planning :=
  if linkIsPlannable (builderAt d o s.building.declined) x.name then
    planBridgeVlans c o x (planMaster c d o x s).2
  else s

/-- A pass of one setting over a list, which waits for the creation of what it is named
after. -/
def settingPass {α : Type} (action : α → Option Planned) (name : α → Option String) (l : List α)
    (s : Planning) : Planning :=
  l.foldl (fun s a => (action a).toList.foldl (issue c ((name a).elim [] s.gate)) s) s

/-- The setting passes of `ncfg_plan_build`, in its order, once links are created. -/
def settingPasses (s : Planning) : Planning :=
  let s := settingPass c (acceptRaAction o) (fun i => some i.name) d.interfaces s
  let s := d.interfaces.foldl (linkAttributes c d o) s
  let s := d.devices.foldl (devicePort c d o) s
  let s := settingPass c (qdiscAction o) (fun x => some x.name) d.devices s
  -- a redirect waits for its target, and taking one away for nothing
  let s := settingPass c (ingressAction o) Device.ingressRedirect d.devices s
  let s := settingPass c (forwardingAction o) (fun i => some i.name) d.interfaces s
  let s := settingPass c (privacyAction o) (fun i => some i.name) d.interfaces s
  settingPass c (fun _ : Unit => hostnameAction d o) (fun _ => none) [()] s

/-- The part of `ncfg_plan_build` that settings come from : remaking and creating links, and the
setting passes over what is then observed. -/
def settingPlan (options : PlanOptions) : Planning :=
  let c := prepare d options
  let (gone, s) := recreation c d o { building := Building.new }
  let o := observedWithout o gone
  settingPasses c d o (d.devices.foldl (linkCreation c o) s)

/-- Everything the setting passes decide, with these devices declined. -/
def settingActions (declined : List String) : List Planned :=
  d.interfaces.flatMap (fun i => (acceptRaAction o i).toList) ++
    d.interfaces.flatMap (attributeActions d o declined) ++
    d.devices.flatMap (fun x => if linkIsPlannable (builderAt d o declined) x.name then
      (wdsAction d o x).toList ++ (masterAction d o x).toList ++ bridgeVlanActions o x else []) ++
    d.devices.flatMap (fun x => (qdiscAction o x).toList) ++
    d.devices.flatMap (fun x => (ingressAction o x).toList) ++
    d.interfaces.flatMap (fun i => (forwardingAction o i).toList) ++
    d.interfaces.flatMap (fun i => (privacyAction o i).toList) ++ (hostnameAction d o).toList

end Passes

/-! ## What the passes issue -/

def Action.planned (a : Action) : Planned :=
  ⟨a.op, a.reason, a.inverse⟩

/-- From one builder to another, these actions were added, of those let in. -/
structure Issues (c : Checks) (declined : List String) (s s' : Planning) (ps : List Planned) :
    Prop where
  actions : ∃ new, s'.building.plan.actions = s.building.plan.actions ++ new ∧
    new.map Action.planned = ps.filter fun p => c.admits declined false p.op
  after : s'.building.declined = declined ∧ s'.building.tearingDown = false

section Issue

variable {c : Checks} {d : Document} {o : Observed} {declined : List String} {s s' s'' : Planning}

theorem Issues.refl (hs : s.building.declined = declined ∧ s.building.tearingDown = false) :
    Issues c declined s s [] :=
  ⟨⟨[], by simp⟩, hs⟩

theorem Issues.trans {ps ps' : List Planned} (h : Issues c declined s s' ps)
    (h' : Issues c declined s' s'' ps') : Issues c declined s s'' (ps ++ ps') := by
  obtain ⟨new, hnew, hps⟩ := h.actions
  obtain ⟨new', hnew', hps'⟩ := h'.actions
  refine ⟨⟨new ++ new', ?_, ?_⟩, h'.after⟩
  · rw [hnew', hnew, List.append_assoc]
  · rw [List.map_append, List.filter_append, hps, hps']

theorem issues_push (hs : s.building.declined = declined ∧ s.building.tearingDown = false)
    (p : Planned) (dependsOn : List (Option ℕ)) :
    Issues c declined s (s.push c p.op p.reason dependsOn p.inverse).2 [p] := by
  obtain ⟨rfl, htearing⟩ := hs
  obtain ⟨hdeclined, htearing'⟩ :=
    push_declined (c := c) (b := s.building) p.op p.reason dependsOn p.inverse
  refine ⟨?_, hdeclined, htearing'.trans htearing⟩
  have hfst := push_fst (c := c) (s := s) p.op p.reason dependsOn p.inverse
  rw [htearing] at hfst
  rcases push_cases (c := c) (b := s.building) p.op p.reason dependsOn p.inverse with
    ⟨hplan, hanswers⟩ | ⟨hadmitted, hplan, hanswers⟩
  · have hnot : ¬c.admits s.building.declined false p.op := by
      intro hadmits
      rw [if_pos hadmits, Planning.push] at hfst
      simp [hanswers] at hfst
    refine ⟨[], by simp [Planning.push, hplan], ?_⟩
    rw [List.filter_cons, if_neg hnot]
    rfl
  · have hadmits : c.admits s.building.declined false p.op :=
      admits_iff.2 ⟨htearing ▸ hadmitted.notOver, hadmitted.unlocked, hadmitted.unguarded⟩
    refine ⟨[⟨s.building.plan.actions.length, p.op, p.reason, dependsOn.filterMap id, p.inverse⟩],
      by simp only [Planning.push, hplan, Plan.add], ?_⟩
    rw [List.filter_cons, if_pos hadmits]
    rfl

theorem issues_foldl {α : Type*} {f : Planning → α → Planning} {g : α → List Planned}
    (h : ∀ s a, s.building.declined = declined ∧ s.building.tearingDown = false →
      Issues c declined s (f s a) (g a)) :
    ∀ (l : List α) (s : Planning),
      s.building.declined = declined ∧ s.building.tearingDown = false →
        Issues c declined s (l.foldl f s) (l.flatMap g)
  | [], _, hs => Issues.refl hs
  | a :: l, s, hs => (h s a hs).trans (issues_foldl h l (f s a) (h s a hs).after)

theorem issues_issue (dependsOn : List (Option ℕ)) (ps : List Planned)
    (hs : s.building.declined = declined ∧ s.building.tearingDown = false) :
    Issues c declined s (ps.foldl (issue c dependsOn) s) ps := by
  have h := issues_foldl (c := c) (f := issue c dependsOn) (g := fun p => [p])
    (fun s p hs => issues_push hs p dependsOn) ps s hs
  simpa using h

theorem issues_settingPass {α : Type} (action : α → Option Planned) (name : α → Option String)
    (l : List α) (hs : s.building.declined = declined ∧ s.building.tearingDown = false) :
    Issues c declined s (settingPass c action name l s) (l.flatMap fun a => (action a).toList) := by
  refine issues_foldl (fun s a hs => ?_) l s hs
  exact issues_issue _ _ hs

theorem issues_planMaster (hs : s.building.declined = declined ∧ s.building.tearingDown = false)
    (x : Device) : Issues c declined s (planMaster c d o x s).2
      ((wdsAction d o x).toList ++ (masterAction d o x).toList) := by
  have hwds : Issues c declined s (planWds c d o x s).2 (wdsAction d o x).toList := by
    unfold planWds
    rcases wdsAction d o x with _ | p
    · exact Issues.refl hs
    · exact issues_push hs p _
  unfold planMaster
  rcases masterAction d o x with _ | p
  · simpa using hwds
  · have hpush := hwds.trans (issues_push (c := c) hwds.after p
      (s.gate x.name ++ [(planWds c d o x s).1]))
    rcases x.master with _ | wanted
    · exact hpush
    · exact ⟨hpush.actions, hpush.after⟩

theorem issues_devicePort (hs : s.building.declined = declined ∧ s.building.tearingDown = false)
    (x : Device) : Issues c declined s (devicePort c d o s x)
      (if linkIsPlannable (builderAt d o declined) x.name then
        (wdsAction d o x).toList ++ (masterAction d o x).toList ++ bridgeVlanActions o x
      else []) := by
  unfold devicePort
  rw [hs.1]
  split_ifs
  · have hmaster := issues_planMaster (c := c) (d := d) (o := o) hs x
    exact hmaster.trans (issues_issue _ _ hmaster.after)
  · exact Issues.refl hs

theorem issues_settingPasses
    (hs : s.building.declined = declined ∧ s.building.tearingDown = false) :
    Issues c declined s (settingPasses c d o s) (settingActions d o declined) := by
  unfold settingPasses settingActions
  have h1 := issues_settingPass (c := c) (acceptRaAction o) (fun i => some i.name) d.interfaces hs
  have h2 := h1.trans (issues_foldl (c := c) (f := linkAttributes c d o)
    (g := attributeActions d o declined) (fun s i hs => by
      unfold linkAttributes
      rw [hs.1]
      exact issues_issue _ _ hs) d.interfaces _ h1.after)
  have h3 := h2.trans (issues_foldl (c := c) (f := devicePort c d o)
    (fun s x hs => issues_devicePort hs x) d.devices _ h2.after)
  have h4 := h3.trans (issues_settingPass (qdiscAction o) (fun x => some x.name) d.devices h3.after)
  have h5 :=
    h4.trans (issues_settingPass (ingressAction o) Device.ingressRedirect d.devices h4.after)
  have h6 := h5.trans
    (issues_settingPass (forwardingAction o) (fun i => some i.name) d.interfaces h5.after)
  have h7 := h6.trans
    (issues_settingPass (privacyAction o) (fun i => some i.name) d.interfaces h6.after)
  have h8 := h7.trans
    (issues_settingPass (fun _ : Unit => hostnameAction d o) (fun _ => none) [()] h7.after)
  simpa using h8

end Issue

/-- The ops the setting passes issue, and no other pass of `settingPlan`. -/
def Op.isSetting : Op → Bool
  | linkSetMtu .. | linkSetMac .. | linkSetMaster .. | linkUnsetMaster .. | linkSetWds ..
  | bridgeVlanAdd .. | bridgeVlanDel .. | qdiscSet .. | qdiscReset .. | ingressRedirect ..
  | ingressRedirectClear .. | sysctlSetForwarding .. | sysctlSetPrivacy .. | sysctlSetAcceptRa ..
  | hostnameSet .. => true
  | _ => false

section Plan

variable {d : Document} {o : Observed} {options : PlanOptions} {declined : List String}
  {p : Planned}

theorem mem_settingActions : p ∈ settingActions d o declined ↔
    (∃ i ∈ d.interfaces, acceptRaAction o i = some p) ∨
      (∃ i ∈ d.interfaces, linkIsPlannable (builderAt d o declined) i.name ∧
        (mtuAction d o i = some p ∨ macAction d o i = some p)) ∨
      (∃ x ∈ d.devices, linkIsPlannable (builderAt d o declined) x.name ∧
        (wdsAction d o x = some p ∨ masterAction d o x = some p ∨ p ∈ bridgeVlanActions o x)) ∨
      (∃ x ∈ d.devices, qdiscAction o x = some p) ∨
      (∃ x ∈ d.devices, ingressAction o x = some p) ∨
      (∃ i ∈ d.interfaces, forwardingAction o i = some p) ∨
      (∃ i ∈ d.interfaces, privacyAction o i = some p) ∨ hostnameAction d o = some p := by
  have hif : ∀ (b : Bool) (l : List Planned), (p ∈ if b then l else []) ↔ b = true ∧ p ∈ l := by
    intro b l
    cases b <;> simp
  simp only [settingActions, attributeActions, List.mem_append, List.mem_flatMap,
    Option.mem_toList, hif, or_assoc]

theorem isSetting_recreateOps {c : Checks} {x : Device} {op : Op}
    (h : op ∈ recreateOps c d o [] false x) : op.isSetting = false := by
  obtain ⟨-, ⟨b, -, -, h⟩ | h | ⟨-, rfl | h⟩⟩ := mem_recreateOps.1 h
  · obtain ⟨rfl, -⟩ := mem_admitted_iff.1 h
    rfl
  · obtain ⟨i, -, h⟩ := List.mem_flatMap.1 h
    obtain ⟨hook, -, -, rfl, -⟩ := mem_hookOps.1 h
    rfl
  · rfl
  · obtain ⟨i, -, h⟩ := List.mem_flatMap.1 h
    obtain ⟨hook, -, -, rfl, -⟩ := mem_hookOps.1 h
    rfl

theorem isSetting_created {a : Action}
    (h : a ∈ (d.devices.foldl (linkCreation (prepare d options) (seenAfter d o options))
      (recreation (prepare d options) d o { building := Building.new }).2).building.plan.actions) :
    a.op.isSetting = false := by
  obtain ⟨⟨new, hnew, hcreates⟩, -⟩ := linkCreation_foldl (c := prepare d options)
    (o := seenAfter d o options) d.devices
    (recreation (prepare d options) d o { building := Building.new }).2
  obtain ⟨recreated, hrecreated, hops⟩ :=
    (recreation_spec d o options { others := by simp }).2.actions
  have hstart : (recreation (prepare d options) d o
      { building := Building.new }).2.building.plan.actions = recreated :=
    hrecreated.trans (List.nil_append _)
  rw [hnew, hstart] at h
  rcases List.mem_append.1 h with h | h
  · have hop := List.mem_map_of_mem (f := Action.op) h
    rw [hops] at hop
    obtain ⟨_, x, _, -, -, hop⟩ := mem_recreationOps.1 hop
    exact isSetting_recreateOps hop
  · obtain ⟨x, -, hop, -⟩ := hcreates a h
    rw [hop]
    rfl

/-- What the plan says of settings is what was wanted and admitted. -/
theorem mem_settingPlan (hop : p.op.isSetting) :
    (∃ a ∈ (settingPlan d o options).building.plan.actions, a.planned = p) ↔
      p ∈ settingActions d (seenAfter d o options) (declinedBy d (seenAfter d o options)) ∧
        (prepare d options).admits (declinedBy d (seenAfter d o options)) false p.op := by
  obtain ⟨hgone, hemits⟩ := recreation_spec d o options { others := by simp }
  obtain ⟨creates, hcreation, -⟩ := moves_creation (c := prepare d options) (d := d)
    (o := seenAfter d o options)
    (s := (recreation (prepare d options) d o { building := Building.new }).2) hemits.after
  have hplan : settingPlan d o options = settingPasses (prepare d options) d (seenAfter d o options)
      (d.devices.foldl (linkCreation (prepare d options) (seenAfter d o options))
        (recreation (prepare d options) d o { building := Building.new }).2) := by
    unfold settingPlan seenAfter
    dsimp only
    rw [← hgone]
    rfl
  obtain ⟨new, hnew, hissued⟩ := (issues_settingPasses (c := prepare d options) (d := d)
    (o := seenAfter d o options) hcreation.after).actions
  rw [hplan]
  constructor
  · rintro ⟨a, ha, rfl⟩
    rw [hnew] at ha
    rcases List.mem_append.1 ha with ha | ha
    · rw [show a.planned.op = a.op from rfl, isSetting_created ha] at hop
      cases hop
    · have hmem := List.mem_map_of_mem (f := Action.planned) ha
      rw [hissued] at hmem
      exact List.mem_filter.1 hmem
  · rintro ⟨hmem, hadmits⟩
    have hp : p ∈ new.map Action.planned := hissued ▸ List.mem_filter.2 ⟨hmem, hadmits⟩
    obtain ⟨a, ha, rfl⟩ := List.mem_map.1 hp
    refine ⟨a, ?_, rfl⟩
    rw [hnew]
    exact List.mem_append_right _ ha

end Plan

/-! ## The state settings are in -/

structure LinkSettings where
  mtu : ℤ
  mac : Option String
  master : Option String
  wds : Bool
  qdisc : Option String
  bandwidthBits : Option ℤ
  qdiscIngress : Bool
  ingressRedirect : Option String
  forwarding : Option Bool
  privacy : Option Bool
  /-- The value of `accept_ra`. -/
  acceptRa : Option ℤ

@[ext] structure Settings where
  link : String → Option LinkSettings
  /-- The flags of a VLAN on a port, `pvid` and `untagged`. -/
  vlan : String → ℤ → Option (Bool × Bool)
  hostname : Option String

def ObservedLink.settings (l : ObservedLink) : LinkSettings where
  mtu := l.mtu
  mac := l.mac
  master := l.master
  wds := l.wds
  qdisc := l.qdisc
  bandwidthBits := l.qdiscBandwidthBits
  qdiscIngress := l.qdiscIngress
  ingressRedirect := l.ingressRedirect
  forwarding := l.forwarding
  privacy := l.privacy
  acceptRa := l.acceptRa.map ObservedAcceptRa.value

/-- The settings an observation shows. -/
def Observed.settings (o : Observed) : Settings where
  link n := (o.link n).map ObservedLink.settings
  vlan n vid := (o.link n).bind fun l =>
    (o.bridgeVlans.find? fun v => v.index = l.index ∧ v.vid = vid).map fun v =>
      (v.pvid, v.untagged)
  hostname := o.hostname

namespace Settings

variable (s : Settings)

def onLink (n : String) (f : LinkSettings → LinkSettings) : Settings :=
  { s with link := Function.update s.link n ((s.link n).map f) }

def onPort (n : String) (vid : ℤ) (flags : Option (Bool × Bool)) : Settings :=
  if (s.link n).isSome then
    { s with vlan := Function.update s.vlan n (Function.update (s.vlan n) vid flags) }
  else s

/-- What an op does, on a kernel whose qdisc is `fallback` where none is set. A value is
replaced by another. -/
def exec (fallback : String) : Op → Settings
  | .linkSetMtu n mtu => s.onLink n fun l => { l with mtu }
  | .linkSetMac n mac => s.onLink n fun l => { l with mac := some mac }
  | .linkSetMaster n master => s.onLink n fun l => { l with master := some master }
  | .linkUnsetMaster n => s.onLink n fun l => { l with master := none }
  | .linkSetWds n wds => s.onLink n fun l => { l with wds }
  | .bridgeVlanAdd n vid pvid untagged _ => s.onPort n vid (some (pvid, untagged))
  | .bridgeVlanDel n vid _ _ _ => s.onPort n vid none
  | .qdiscSet n kind bandwidthBits ingress => s.onLink n fun l =>
      { l with qdisc := some kind, bandwidthBits, qdiscIngress := ingress }
  | .qdiscReset n => s.onLink n fun l =>
      { l with qdisc := some fallback, bandwidthBits := none, qdiscIngress := false }
  | .ingressRedirect n target => s.onLink n fun l => { l with ingressRedirect := some target }
  | .ingressRedirectClear n => s.onLink n fun l => { l with ingressRedirect := none }
  | .sysctlSetForwarding n enabled => s.onLink n fun l => { l with forwarding := some enabled }
  | .sysctlSetPrivacy n on => s.onLink n fun l => { l with privacy := some on }
  | .sysctlSetAcceptRa n value => s.onLink n fun l => { l with acceptRa := some value }
  | .hostnameSet name => { s with hostname := some name }
  | _ => s

end Settings

section Exec

variable {s : Settings}

@[simp] theorem onLink_onLink (n : String) (f g : LinkSettings → LinkSettings) :
    (s.onLink n f).onLink n g = s.onLink n (g ∘ f) := by
  simp [Settings.onLink]

theorem onLink_eq_self_iff {n : String} {f : LinkSettings → LinkSettings} :
    s.onLink n f = s ↔ ∀ l, s.link n = some l → f l = l := by
  unfold Settings.onLink
  rw [Settings.ext_iff]
  simp only [and_true, Function.update_eq_self_iff]
  rcases s.link n with _ | l <;> simp

theorem onPort_onPort (n : String) (vid : ℤ) (a b : Option (Bool × Bool)) :
    (s.onPort n vid a).onPort n vid b = s.onPort n vid b := by
  unfold Settings.onPort
  split_ifs with h
  · simp
  · simp_all

theorem onPort_eq_self_iff {n : String} {vid : ℤ} {flags : Option (Bool × Bool)} :
    s.onPort n vid flags = s ↔ ((s.link n).isSome → s.vlan n vid = flags) := by
  unfold Settings.onPort
  split_ifs with h
  · rw [Settings.ext_iff]
    simp [h, eq_comm]
  · simp [h]

end Exec

/-! ## Undoing -/

/-- An inverse that puts back what its operation changed. -/
def Undoes (fallback : String) (s : Settings) (op inverse : Op) : Prop :=
  (s.exec fallback op).exec fallback inverse = s

/-- Every inverse of a plan undoes its operation. -/
def Undone (fallback : String) (d : Document) (o : Observed) (options : PlanOptions) : Prop :=
  ∀ a ∈ (settingPlan d o options).building.plan.actions, a.op.isSetting →
    ∀ inverse, a.inverse = some inverse → Undoes fallback o.settings a.op inverse

section Undo

variable {fallback : String} {d : Document} {o : Observed} {gone : List String} {p : Planned}
  {inverse : Op}

theorem link_of_seen {n : String} {l : ObservedLink}
    (h : (observedWithout o gone).link n = some l) :
    ∃ l', o.link n = some l' ∧ l = l'.without gone := by
  rw [link_observedWithout] at h
  split_ifs at h
  obtain ⟨l', hl', rfl⟩ := Option.map_eq_some_iff.1 h
  exact ⟨l', hl', rfl⟩

theorem undoes_of_link {n : String} {l : ObservedLink}
    (hl : (observedWithout o gone).link n = some l)
    {op : Op} {f g : LinkSettings → LinkSettings}
    (hop : ∀ s : Settings, s.exec fallback op = s.onLink n f)
    (hinverse : ∀ s : Settings, s.exec fallback inverse = s.onLink n g)
    (h : ∀ l' : ObservedLink, l = l'.without gone → g (f l'.settings) = l'.settings) :
    Undoes fallback o.settings op inverse := by
  obtain ⟨l', hl', hseen⟩ := link_of_seen hl
  rw [Undoes, hop, hinverse, onLink_onLink, onLink_eq_self_iff]
  intro settings hsettings
  simp only [Observed.settings, hl', Option.map_some] at hsettings
  obtain rfl := Option.some.inj hsettings
  exact h l' hseen

theorem undoes_mtu {i : Interface} (h : mtuAction d (observedWithout o gone) i = some p)
    (hinverse : p.inverse = some inverse) : Undoes fallback o.settings p.op inverse := by
  obtain ⟨x, -, h⟩ := Option.bind_eq_some_iff.1 h
  obtain ⟨mtu, -, h⟩ := Option.bind_eq_some_iff.1 h
  dsimp only at h
  split_ifs at h
  obtain rfl := Option.some.inj h
  obtain ⟨l, hl, rfl⟩ := Option.map_eq_some_iff.1 hinverse
  refine undoes_of_link hl (fun _ => rfl) (fun _ => rfl) ?_
  rintro l' rfl
  rfl

theorem undoes_mac {i : Interface} (h : macAction d (observedWithout o gone) i = some p)
    (hinverse : p.inverse = some inverse) : Undoes fallback o.settings p.op inverse := by
  obtain ⟨x, -, h⟩ := Option.bind_eq_some_iff.1 h
  obtain ⟨mac, -, h⟩ := Option.bind_eq_some_iff.1 h
  dsimp only at h
  split_ifs at h
  obtain rfl := Option.some.inj h
  obtain ⟨seen, hseen, rfl⟩ := Option.map_eq_some_iff.1 hinverse
  obtain ⟨l, hl, hmac⟩ := Option.bind_eq_some_iff.1 hseen
  refine undoes_of_link hl (fun _ => rfl) (fun _ => rfl) ?_
  rintro l' rfl
  simp only [ObservedLink.settings, ← hmac]
  rfl

theorem undoes_wds {x : Device} (h : wdsAction d (observedWithout o gone) x = some p)
    (hinverse : p.inverse = some inverse) : Undoes fallback o.settings p.op inverse := by
  obtain ⟨l, hl, h⟩ := Option.bind_eq_some_iff.1 h
  split_ifs at h with hdiffers
  obtain rfl := Option.some.inj h
  obtain rfl := Option.some.inj hinverse
  refine undoes_of_link hl (fun _ => rfl) (fun _ => rfl) ?_
  rintro l' rfl
  have hback : (!x.wds) = l'.wds := by
    have hne : x.wds ≠ l'.wds := hdiffers.2.1
    revert hne
    cases x.wds <;> cases l'.wds <;> simp
  simp only [ObservedLink.settings, hback]

theorem undoes_acceptRa {i : Interface} (h : acceptRaAction (observedWithout o gone) i = some p)
    (hinverse : p.inverse = some inverse) : Undoes fallback o.settings p.op inverse := by
  obtain ⟨wanted, -, h⟩ := Option.bind_eq_some_iff.1 h
  dsimp only at h
  split_ifs at h
  all_goals
    obtain rfl := Option.some.inj h
    obtain ⟨state, hstate, rfl⟩ := Option.map_eq_some_iff.1 hinverse
    obtain ⟨l, hl, hvalue⟩ := Option.bind_eq_some_iff.1 hstate
    refine undoes_of_link hl (fun _ => rfl) (fun _ => rfl) ?_
    rintro l' rfl
    have hvalue' : l'.acceptRa = some state := hvalue
    simp only [ObservedLink.settings, hvalue', Option.map_some]

theorem undoes_forwarding {i : Interface} (h : forwardingAction (observedWithout o gone) i = some p)
    (hinverse : p.inverse = some inverse) : Undoes fallback o.settings p.op inverse := by
  obtain ⟨wanted, -, h⟩ := Option.bind_eq_some_iff.1 h
  dsimp only at h
  split_ifs at h
  obtain rfl := Option.some.inj h
  obtain ⟨current, hcurrent, rfl⟩ := Option.map_eq_some_iff.1 hinverse
  obtain ⟨l, hl, hvalue⟩ := Option.bind_eq_some_iff.1 hcurrent
  refine undoes_of_link hl (fun _ => rfl) (fun _ => rfl) ?_
  rintro l' rfl
  have hvalue' : l'.forwarding = some current := hvalue
  simp only [ObservedLink.settings, hvalue']

theorem undoes_privacy {i : Interface} (h : privacyAction (observedWithout o gone) i = some p)
    (hinverse : p.inverse = some inverse) : Undoes fallback o.settings p.op inverse := by
  obtain ⟨wanted, -, h⟩ := Option.bind_eq_some_iff.1 h
  dsimp only at h
  split_ifs at h
  obtain rfl := Option.some.inj h
  obtain ⟨current, hcurrent, rfl⟩ := Option.map_eq_some_iff.1 hinverse
  obtain ⟨l, hl, hvalue⟩ := Option.bind_eq_some_iff.1 hcurrent
  refine undoes_of_link hl (fun _ => rfl) (fun _ => rfl) ?_
  rintro l' rfl
  have hvalue' : l'.privacy = some current := hvalue
  simp only [ObservedLink.settings, hvalue']

theorem undoes_hostname (h : hostnameAction d (observedWithout o gone) = some p)
    (hinverse : p.inverse = some inverse) : Undoes fallback o.settings p.op inverse := by
  unfold hostnameAction at h
  split at h
  · rename_i name current _ hcurrent
    split_ifs at h
    obtain rfl := Option.some.inj h
    obtain rfl := Option.some.inj hinverse
    have hcurrent' : o.hostname = some current := hcurrent
    simp only [Undoes, Settings.exec, ← hcurrent']
    rfl
  · cases h

theorem undoes_qdisc {x : Device} (h : qdiscAction (observedWithout o gone) x = some p)
    (hinverse : p.inverse = some inverse) : Undoes fallback o.settings p.op inverse := by
  unfold qdiscAction at h
  dsimp only at h
  split at h
  · split_ifs at h
    obtain ⟨current, hcurrent, rfl⟩ := Option.map_eq_some_iff.1 h
    obtain rfl := Option.some.inj hinverse
    obtain ⟨l, hl, hvalue⟩ := Option.bind_eq_some_iff.1 hcurrent
    refine undoes_of_link hl (fun _ => rfl) (fun _ => rfl) ?_
    rintro l' rfl
    have hvalue' : l'.qdisc = some current := hvalue
    simp [ObservedLink.settings, hvalue', hl, ObservedLink.without]
  · split_ifs at h
    obtain rfl := Option.some.inj h
    obtain ⟨current, hcurrent, rfl⟩ := Option.map_eq_some_iff.1 hinverse
    obtain ⟨l, hl, hvalue⟩ := Option.bind_eq_some_iff.1 hcurrent
    refine undoes_of_link hl (fun _ => rfl) (fun _ => rfl) ?_
    rintro l' rfl
    have hvalue' : l'.qdisc = some current := hvalue
    simp [ObservedLink.settings, hvalue', hl, ObservedLink.without]

theorem undoes_unsetMaster {n master : String}
    (h : ((observedWithout o gone).link n).bind ObservedLink.master = some master) :
    Undoes fallback o.settings (.linkUnsetMaster n) (.linkSetMaster n master) := by
  obtain ⟨l, hl, hmaster⟩ := Option.bind_eq_some_iff.1 h
  refine undoes_of_link hl (fun _ => rfl) (fun _ => rfl) ?_
  rintro l' rfl
  have hmaster' : l'.master = some master := (Option.filter_eq_some_iff.1 hmaster).1
  simp only [ObservedLink.settings, hmaster']

theorem undoes_setMaster_iff {n master : String} :
    Undoes fallback o.settings (.linkSetMaster n master) (.linkUnsetMaster n) ↔
      (o.link n).bind ObservedLink.master = none := by
  simp only [Undoes, Settings.exec, onLink_onLink, onLink_eq_self_iff]
  rcases hl : o.link n with _ | l
  · simp [Observed.settings, hl]
  · simp [Observed.settings, ObservedLink.settings, hl, eq_comm]

theorem undoes_redirectClear {n target : String}
    (h : ((observedWithout o gone).link n).bind ObservedLink.ingressRedirect = some target) :
    Undoes fallback o.settings (.ingressRedirectClear n) (.ingressRedirect n target) := by
  obtain ⟨l, hl, htarget⟩ := Option.bind_eq_some_iff.1 h
  refine undoes_of_link hl (fun _ => rfl) (fun _ => rfl) ?_
  rintro l' rfl
  have htarget' : l'.ingressRedirect = some target := (Option.filter_eq_some_iff.1 htarget).1
  simp only [ObservedLink.settings, htarget']

theorem undoes_redirect_iff {n target : String} :
    Undoes fallback o.settings (.ingressRedirect n target) (.ingressRedirectClear n) ↔
      (o.link n).bind ObservedLink.ingressRedirect = none := by
  simp only [Undoes, Settings.exec, onLink_onLink, onLink_eq_self_iff]
  rcases hl : o.link n with _ | l
  · simp [Observed.settings, hl]
  · simp [Observed.settings, ObservedLink.settings, hl, eq_comm]

theorem undoes_vlanAdd_iff {n : String} {vid : ℤ} {pvid untagged onSelf : Bool} :
    Undoes fallback o.settings (.bridgeVlanAdd n vid pvid untagged onSelf)
      (.bridgeVlanDel n vid false false onSelf) ↔ o.settings.vlan n vid = none := by
  simp only [Undoes, Settings.exec, onPort_onPort, onPort_eq_self_iff]
  rcases hl : o.link n with _ | l <;> simp [Observed.settings, hl]

theorem find_vlan {v : ObservedBridgeVlan} (hv : v ∈ o.bridgeVlans) :
    (o.bridgeVlans.find? fun w => w.index = v.index ∧ w.vid = v.vid) = some v := by
  obtain ⟨w, hw⟩ : ∃ w, (o.bridgeVlans.find? fun w => w.index = v.index ∧ w.vid = v.vid) = some w :=
    Option.isSome_iff_exists.1 (List.find?_isSome.2 ⟨v, hv, by simp⟩)
  have hkey := List.find?_some hw
  simp only [decide_eq_true_eq] at hkey
  rw [hw, List.inj_on_of_nodup_map o.vlanOnce (List.mem_of_find?_eq_some hw) hv
    (Prod.ext hkey.1 hkey.2)]

theorem undoes_vlanDel {x : Device} {v : ObservedBridgeVlan} {onSelf : Bool}
    (h : v ∈ portVlans (observedWithout o gone) x) :
    Undoes fallback o.settings (.bridgeVlanDel x.name v.vid false false onSelf)
      (.bridgeVlanAdd x.name v.vid v.pvid v.untagged onSelf) := by
  unfold portVlans at h
  rcases hl : (observedWithout o gone).link x.name with _ | l
  · simp [hl] at h
  · rw [hl] at h
    obtain ⟨hv, hindex⟩ := List.mem_filter.1 h
    rw [decide_eq_true_eq] at hindex
    obtain ⟨l', hl', rfl⟩ := link_of_seen hl
    have hport : l'.index = v.index := hindex.symm
    simp only [Undoes, Settings.exec, onPort_onPort, onPort_eq_self_iff]
    intro _
    simp only [Observed.settings, hl', Option.bind_some, hport]
    rw [find_vlan (o := o) hv]
    rfl

end Undo

/-! ## When a plan can be undone -/

/-- No op of a plan replaces a master, the flags of a VLAN or a redirect. -/
structure NothingReplaced (d : Document) (o : Observed) (options : PlanOptions) : Prop where
  /-- A device that is put in a master was in none. -/
  master : ∀ x ∈ d.devices, linkIsPlannable
      (builderAt d (seenAfter d o options) (declinedBy d (seenAfter d o options))) x.name →
    ∀ wanted, x.master = some wanted →
      ((seenAfter d o options).link x.name).bind ObservedLink.master ≠ some wanted →
      ¬accessPointWanted d x.name →
      (prepare d options).admits (declinedBy d (seenAfter d o options)) false
        (.linkSetMaster x.name wanted) →
      (o.link x.name).bind ObservedLink.master = none
  /-- A VLAN that is put on a port was not on it. -/
  vlan : ∀ x ∈ d.devices, linkIsPlannable
      (builderAt d (seenAfter d o options) (declinedBy d (seenAfter d o options))) x.name →
    hasPort (seenAfter d o options) x →
    ∀ wanted ∈ x.bridgeVlans, ¬vlanHeld (seenAfter d o options) x wanted →
      (prepare d options).admits (declinedBy d (seenAfter d o options)) false
        (.bridgeVlanAdd x.name wanted.vid wanted.pvid wanted.untagged (x.kind = .bridge)) →
      o.settings.vlan x.name wanted.vid = none
  /-- A device whose ingress is redirected had no redirect. -/
  redirect : ∀ x ∈ d.devices, ∀ target, x.ingressRedirect = some target →
    ((seenAfter d o options).link x.name).bind ObservedLink.ingressRedirect ≠ some target →
    (prepare d options).admits (declinedBy d (seenAfter d o options)) false
      (.ingressRedirect x.name target) →
    (o.link x.name).bind ObservedLink.ingressRedirect = none

section Whole

variable {d : Document} {o : Observed} {options : PlanOptions} {fallback : String}

theorem mem_bridgeVlanActions {x : Device} {p : Planned} (h : p ∈ bridgeVlanActions o x) :
    p.inverse = none ∨
      (∃ wanted ∈ x.bridgeVlans, hasPort o x ∧ ¬vlanHeld o x wanted ∧
        p.op = .bridgeVlanAdd x.name wanted.vid wanted.pvid wanted.untagged (x.kind = .bridge) ∧
        p.inverse = some (.bridgeVlanDel x.name wanted.vid false false (x.kind = .bridge))) ∨
      ∃ v ∈ portVlans o x,
        p.op = .bridgeVlanDel x.name v.vid false false (x.kind = .bridge) ∧
        p.inverse = some (.bridgeVlanAdd x.name v.vid v.pvid v.untagged (x.kind = .bridge)) := by
  unfold bridgeVlanActions at h
  split_ifs at h with hport hone
  · simp only [List.mem_append, List.mem_singleton, List.mem_map] at h
    rcases h with (rfl | ⟨wanted, hwanted, rfl⟩) | ⟨v, hv, rfl⟩
    · exact Or.inl rfl
    · obtain ⟨hmem, hheld⟩ := List.mem_filter.1 hwanted
      exact Or.inr (Or.inl ⟨wanted, hmem, hport, by simpa using hheld, rfl, rfl⟩)
    · exact Or.inr (Or.inr ⟨v, (List.mem_filter.1 hv).1, rfl, rfl⟩)
  · simp only [List.nil_append, List.mem_append, List.mem_map] at h
    rcases h with ⟨wanted, hwanted, rfl⟩ | ⟨v, hv, rfl⟩
    · obtain ⟨hmem, hheld⟩ := List.mem_filter.1 hwanted
      exact Or.inr (Or.inl ⟨wanted, hmem, hport, by simpa using hheld, rfl, rfl⟩)
    · exact Or.inr (Or.inr ⟨v, (List.mem_filter.1 hv).1, rfl, rfl⟩)
  · simp at h

/-- Where nothing is replaced, each inverse undoes. -/
theorem undoes_of_nothingReplaced (h : NothingReplaced d o options) {p : Planned}
    (hp : p ∈ settingActions d (seenAfter d o options) (declinedBy d (seenAfter d o options)))
    (hadmits : (prepare d options).admits (declinedBy d (seenAfter d o options)) false p.op)
    {inverse : Op} (hinverse : p.inverse = some inverse) :
    Undoes fallback o.settings p.op inverse := by
  rcases mem_settingActions.1 hp with ⟨i, -, ha⟩ | ⟨i, -, -, ha | ha⟩ |
    ⟨x, hx, hplan, ha | ha | ha⟩ | ⟨x, -, ha⟩ | ⟨x, hx, ha⟩ | ⟨i, -, ha⟩ | ⟨i, -, ha⟩ | ha
  · exact undoes_acceptRa ha hinverse
  · exact undoes_mtu ha hinverse
  · exact undoes_mac ha hinverse
  · exact undoes_wds ha hinverse
  · unfold masterAction at ha
    dsimp only at ha
    split at ha
    · rename_i wanted hwanted
      split_ifs at ha with hsame
      obtain rfl := Option.some.inj ha
      obtain rfl := Option.some.inj hinverse
      obtain ⟨hdiffers, hap⟩ := not_or.1 hsame
      exact undoes_setMaster_iff.2 (h.master x hx hplan wanted hwanted hdiffers hap hadmits)
    · obtain ⟨master, hmaster, rfl⟩ := Option.map_eq_some_iff.1 ha
      obtain rfl := Option.some.inj hinverse
      exact undoes_unsetMaster hmaster
  · rcases mem_bridgeVlanActions ha with hnone | ⟨wanted, hmem, hport, hheld, hop, hback⟩ |
      ⟨v, hv, hop, hback⟩
    · rw [hnone] at hinverse
      cases hinverse
    · rw [hback] at hinverse
      obtain rfl := Option.some.inj hinverse
      rw [hop] at hadmits ⊢
      exact undoes_vlanAdd_iff.2 (h.vlan x hx hplan hport wanted hmem hheld hadmits)
    · rw [hback] at hinverse
      obtain rfl := Option.some.inj hinverse
      rw [hop]
      exact undoes_vlanDel hv
  · exact undoes_qdisc ha hinverse
  · unfold ingressAction at ha
    dsimp only at ha
    split at ha
    · rename_i target htarget
      split_ifs at ha with hsame
      obtain rfl := Option.some.inj ha
      obtain rfl := Option.some.inj hinverse
      exact undoes_redirect_iff.2 (h.redirect x hx target htarget hsame hadmits)
    · split_ifs at ha
      obtain ⟨target, htarget, rfl⟩ := Option.map_eq_some_iff.1 ha
      obtain rfl := Option.some.inj hinverse
      exact undoes_redirectClear htarget
  · exact undoes_forwarding ha hinverse
  · exact undoes_privacy ha hinverse
  · exact undoes_hostname ha hinverse

theorem Undone.undoes (h : Undone fallback d o options) {p : Planned} (hop : p.op.isSetting)
    (hp : p ∈ settingActions d (seenAfter d o options) (declinedBy d (seenAfter d o options)))
    (hadmits : (prepare d options).admits (declinedBy d (seenAfter d o options)) false p.op)
    {inverse : Op} (hinverse : p.inverse = some inverse) :
    Undoes fallback o.settings p.op inverse := by
  obtain ⟨a, ha, rfl⟩ := (mem_settingPlan hop).2 ⟨hp, hadmits⟩
  exact h a ha hop inverse hinverse

/-- Where each inverse undoes, nothing is replaced. -/
theorem nothingReplaced_of_undone (h : Undone fallback d o options) :
    NothingReplaced d o options := by
  constructor
  · intro x hx hplan wanted hwanted hdiffers hap hadmits
    refine undoes_setMaster_iff.1 (h.undoes (p := ⟨.linkSetMaster x.name wanted, ⟨some x.name,
      "master", wanted, (((seenAfter d o options).link x.name).bind ObservedLink.master).getD
        "<absent>"⟩, some (.linkUnsetMaster x.name)⟩) rfl (mem_settingActions.2 ?_) hadmits rfl)
    refine Or.inr (Or.inr (Or.inl ⟨x, hx, hplan, Or.inr (Or.inl ?_)⟩))
    rw [masterAction, hwanted]
    dsimp only
    rw [if_neg (not_or.2 ⟨hdiffers, hap⟩)]
  · intro x hx hplan hport wanted hmem hheld hadmits
    refine undoes_vlanAdd_iff.1 (h.undoes (p := ⟨.bridgeVlanAdd x.name wanted.vid wanted.pvid
      wanted.untagged (x.kind = .bridge), reasonAbsent x.name "vlans" (renderVlan wanted),
      some (.bridgeVlanDel x.name wanted.vid false false (x.kind = .bridge))⟩) rfl
      (mem_settingActions.2 ?_) hadmits rfl)
    refine Or.inr (Or.inr (Or.inl ⟨x, hx, hplan, Or.inr (Or.inr ?_)⟩))
    rw [bridgeVlanActions, if_pos hport]
    refine List.mem_append_left _ (List.mem_append_right _ (List.mem_map.2 ⟨wanted, ?_, rfl⟩))
    exact List.mem_filter.2 ⟨hmem, by simpa using hheld⟩
  · intro x hx target htarget hdiffers hadmits
    refine undoes_redirect_iff.1 (h.undoes (p := ⟨.ingressRedirect x.name target, ⟨some x.name,
      "ingress_redirect", target, (((seenAfter d o options).link x.name).bind
        ObservedLink.ingressRedirect).getD "<absent>"⟩, some (.ingressRedirectClear x.name)⟩) rfl
      (mem_settingActions.2 ?_) hadmits rfl)
    refine Or.inr (Or.inr (Or.inr (Or.inr (Or.inl ⟨x, hx, ?_⟩))))
    rw [ingressAction, htarget]
    dsimp only
    rw [if_neg hdiffers]

end Whole

/-- Every setting of a plan is undone by its inverse exactly where no op replaces a master, the
flags of a VLAN or a redirect. -/
theorem undone_iff (fallback : String) (d : Document) (o : Observed) (options : PlanOptions) :
    Undone fallback d o options ↔ NothingReplaced d o options := by
  refine ⟨nothingReplaced_of_undone, fun h a ha hop inverse hinverse => ?_⟩
  obtain ⟨hp, hadmits⟩ := (mem_settingPlan (p := a.planned) hop).1 ⟨a, ha, rfl⟩
  exact undoes_of_nothingReplaced h hp hadmits hinverse

/-- A port that the document has in `br1`. -/
def portOfBr1 : Document where
  devices := [{ name := "eth0", kind := .physical, master := some "br1" }]
  names := renamedPeer.names

/-- The port, in `br0`. -/
def portInBr0 : Observed where
  links := [{ name := "eth0", carrier := true, master := some "br0" }]
  vlanOnce := no_vlans

/-- The port moves to `br1`, and undone it is in no bridge. -/
theorem port_moved_not_undone : ¬Undone "fq_codel" portOfBr1 portInBr0 {} := by
  intro h
  have hnone := (nothingReplaced_of_undone h).master _ (List.mem_singleton.2 rfl)
    (by decide +kernel) "br1" rfl (by decide +kernel) (by decide +kernel) (by decide +kernel)
  revert hnone
  decide +kernel

end Netcfgd
