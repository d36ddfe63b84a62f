import Netcfgd.Build
import Netcfgd.PlanAddress

/-!
# Planning links

The passes of `link.c` over the builder of `Build`, with the ids they thread : a link the
kernel will not change is deleted (`recreation`) and planned for as if it had never been there
(`observedWithout`), links are created (`linkCreation`), put in their masters (`planMaster`)
and brought up (`deviceUp`), and an interface goes up or down with its hooks around it
(`planDisable`, `interfaceLink`). `teardownLinks` deletes what the document no longer names.

The passes in between are clients of the builder that push no link transition and no lifecycle
hook, and that is all that is said of them (`OtherPasses`). `linkPlan` is the whole plan.
-/

namespace Netcfgd

/-! ## What the passes push -/

namespace Op

def lifecyclePhase : HookPhase → Bool
  | .preUp | .up | .preDown | .down | .postDown => true
  | _ => false

/-- What only the passes of `link.c` push, and the teardown of links. -/
def isTransition : Op → Bool
  | linkCreate .. | linkDelete .. | linkUp .. | linkDown .. => true
  | hookRun _ phase _ _ => lifecyclePhase phase
  | _ => false

end Op

def Request.isOther : Request → Bool
  | push op _ _ _ => !op.isTransition
  | decline _ => false
  | refuse _ => true

/-- The passes of `ncfg_plan_build` that are not modelled here, by the place they run at. -/
structure OtherPasses where
  /-- The lease hooks, the wedged backends, the confirm window, the stale tunnels. -/
  early : List Request := []
  /-- `ncfg_plan_accept_ra` and `ncfg_plan_link_attributes`. -/
  attributes : List Request := []
  /-- `ncfg_plan_session`. -/
  session : Device → List Request := fun _ => []
  /-- What the kind of a device says about itself, up to its VLANs. -/
  kind : Device → List Request := fun _ => []
  /-- `ncfg_plan_wifi`. -/
  wifi : List Request := []
  /-- Authentication, addressing, routes and services of an interface, `post_up` and
  `carrier`. -/
  contents : Interface → List Request := fun _ => []
  /-- From the resolver to the stranded credentials. -/
  late : List Request := []
  teardown : List Request := []
  others : (∀ r ∈ early ++ attributes ++ wifi ++ late ++ teardown, r.isOther) ∧
    (∀ x, ∀ r ∈ session x ++ kind x, r.isOther) ∧ ∀ i, ∀ r ∈ contents i, r.isOther

/-! ## The builder with its marks -/

/-- The builder, and the ids later passes wait for by name. -/
structure Planning where
  building : Building
  gates : List (String × Option ℕ) := []
  enslavements : List (String × Option ℕ) := []
  linkUps : List (String × Option ℕ) := []

namespace Planning

variable (c : Checks) (s : Planning)

/-- `ncfg_builder_gate`. -/
def gate (name : String) : List (Option ℕ) :=
  (s.gates.filter fun m => m.1 = name).map Prod.snd

/-- `ncfg_builder_push`, with what it answers. -/
def push (op : Op) (reason : Reason) (dependsOn : List (Option ℕ)) (inverse : Option Op) :
    Option ℕ × Planning :=
  let building := s.building.push c op reason dependsOn inverse
  (building.answers.getLast?.join, { s with building })

def run (requests : List Request) : Planning :=
  { s with building := s.building.run c requests }

end Planning

/-! ## Hooks -/

variable (c : Checks) (d : Document) (o : Observed)

/-- `plan_hooks` : every hook of a phase, and the ids that were given. -/
def planHooks (i : Interface) (phase : HookPhase) (dependsOn : List (Option ℕ)) (s : Planning) :
    List (Option ℕ) × Planning :=
  (i.hooks.filter fun h => h.phase = phase).foldl (fun acc h =>
    let (id, s) := acc.2.push c (.hookRun i.name phase h.path none)
      (reasonAbsent i.name ("hooks[" ++ phase.word ++ "]") h.path) dependsOn none
    (acc.1 ++ [id], s)) ([], s)

/-- `ncfg_plan_teardown_t` : why an interface is taken down. -/
structure Teardown where
  field : String
  desired : String
  observed : String

/-- The addresses of `plan_disable` : what netcfgd has put on the interface. -/
def withdraw (i : Interface) (dependsOn : List (Option ℕ)) (why : Teardown) (s : Planning) :
    List (Option ℕ) × Planning :=
  (o.addresses.filter fun a => a.interface = i.name && a.ownership.mayRemove).foldl (fun acc a =>
    let (id, s) := acc.2.push c (.addrDel i.name a.address)
      (reasonUnwanted i.name why.field a.address) dependsOn
      (some (.addrAdd i.name a.address none none))
    (acc.1 ++ [id], s)) ([], s)

/-- `plan_disable` : take an interface down, in the order of the phases. -/
def planDisable (i : Interface) (base : List (Option ℕ)) (why : Teardown) (s : Planning) :
    Option ℕ × Planning :=
  let (before, s) := planHooks c i .preDown base s
  let (gone, s) := withdraw c o i (base ++ before) why s
  let (last, s) := planHooks c i .down (base ++ before ++ gone) s
  let (id, s) := s.push c (.linkDown i.name)
    ⟨some i.name, why.field, why.desired, why.observed⟩ (base ++ before ++ gone ++ last)
    (some (.linkUp i.name))
  if id.isSome then (id, (planHooks c i .postDown [id] s).2) else (id, s)

/-! ## Remaking a link -/

/-- `ncfg_tunnel_kind_name`. -/
def TunnelKind.word : TunnelKind → String
  | gre => "gre"
  | gretap => "gretap"
  | ip6gre => "ip6gre"
  | ipip => "ipip"
  | sit => "sit"
  | ip6tnl => "ip6tnl"
  | geneve => "geneve"

/-- `ncfg_vlan_protocol_name`. -/
def VlanProtocol.word : VlanProtocol → String
  | dot1q => "dot1q"
  | dot1ad => "dot1ad"

/-- `recreatable_kind` : the kernel's word for a kind, `none` for one that is never remade. -/
def recreatableKind (x : Device) : Option String :=
  match x.kind with
  | .bridge => some "bridge"
  | .bond => some "bond"
  | .vlan => some "vlan"
  | .vxlan => some "vxlan"
  | .wireguard => some "wireguard"
  | .dummy => some "dummy"
  | .veth => some "veth"
  | .vrf => some "vrf"
  | .macvlan => some "macvlan"
  | .tunnel => some x.tunnel.word
  | .ifb => some "ifb"
  | .tun => some "tun"
  | .meshPoint | .radio | .physical | .pppoe | .openvpn => none

/-- `recreation_reason` : the field, what is wanted and what is seen, of a link the kernel
will not correct in place. -/
def recreationReason (x : Device) (link : ObservedLink) : Option (String × String × String) :=
  (recreatableKind x).bind fun kernel =>
    if link.kind ≠ "" ∧ link.kind ≠ kernel then some ("kind", kernel, link.kind)
    else
      let parent := if x.kind = .vlan ∨ x.kind = .macvlan then x.parent else none
      match parent, link.parent with
      | some wanted, some seen =>
        if wanted ≠ seen then some ("parent", wanted, seen) else vlanReason x link
      | _, _ => vlanReason x link
where
  /-- The id and the tag of a VLAN, where the kernel answered. -/
  vlanReason (x : Device) (link : ObservedLink) : Option (String × String × String) :=
    match x.kind, link.vlan with
    | .vlan, some vlan =>
      match vlan.id.filter fun seen => seen ≠ x.vlanId with
      | some seen => some ("vlan.id", toString x.vlanId, toString seen)
      | none =>
        (vlan.protocol.filter fun seen => x.vlanProtocol.word ≠ seen).map fun seen =>
          ("vlan.protocol", x.vlanProtocol.word, seen)
    | _, _ => none

/-- `NCFG_PLAN_RECREATE_MAX`. -/
def recreateMax : ℕ :=
  64

def stopBackends (x : Device) (reason : Reason) (s : Planning) : List (Option ℕ) × Planning :=
  (o.backends.filter fun b => b.interface = x.name).foldl (fun acc b =>
    let (id, s) := acc.2.push c (.backendStop b.kind x.name) reason []
      (some (.backendStart b.kind x.name))
    (acc.1 ++ [id], s)) ([], s)

/-- The hooks of a phase of the interface of a device, where it has one. -/
def deviceHooks (x : Device) (phase : HookPhase) (dependsOn : List (Option ℕ)) (s : Planning) :
    List (Option ℕ) × Planning :=
  match d.interface x.name with
  | some i => planHooks c i phase dependsOn s
  | none => ([], s)

/-- `ncfg_plan_recreation` on one device : what runs on it stops, the link is deleted, and
where the delete was let in the device counts as gone. -/
def recreateDevice (acc : List String × Planning) (x : Device) : List String × Planning :=
  if acc.1.length < recreateMax then
    match (o.link x.name).bind fun link =>
        if link.ownership.mayRemove then recreationReason x link else none with
    | none => acc
    | some (field, wanted, seen) =>
      let (stopped, s) := stopBackends c o x
        ⟨some x.name, field, wanted ++ ", which needs " ++ x.name ++ " remade", seen⟩ acc.2
      let (down, s) := deviceHooks c d x .down stopped s
      let (id, s) := s.push c (.linkDelete x.name) ⟨some x.name, field, wanted, seen⟩
        (stopped ++ down) none
      if id.isSome then
        let s := (deviceHooks c d x .postDown [id] s).2
        (acc.1 ++ [x.name], { s with gates := s.gates ++ [(x.name, id)] })
      else (acc.1, s)
  else acc

/-- `ncfg_plan_recreation` : the names that are gone. -/
def recreation (s : Planning) : List String × Planning :=
  d.devices.foldl (recreateDevice c d o) ([], s)

/-- A link once some others are gone : it points at none of them. -/
def ObservedLink.without (gone : List String) (l : ObservedLink) : ObservedLink :=
  { l with
    master := l.master.filter fun m => m ∉ gone
    ingressRedirect := l.ingressRedirect.filter fun t => t ∉ gone }

/-- `ncfg_plan_observed_without` : the observation without some links and what the kernel
holds on them. -/
def observedWithout (gone : List String) : Observed :=
  { o with
    links := (o.links.filter fun l => l.name ∉ gone).map (ObservedLink.without gone)
    addresses := o.addresses.filter fun a => a.interface ∉ gone
    routes := o.routes.filter fun r => r.interface ∉ gone
    backends := o.backends.filter fun b => b.interface ∉ gone }

/-! ## Creation, masters and ports -/

/-- `kind_word` : the configuration language's word for a kind. -/
def kindWord (x : Device) : String :=
  match x.kind with
  | .physical => "physical"
  | .bridge => "bridge"
  | .bond => "bond"
  | .vlan => "vlan"
  | .vxlan => "vxlan"
  | .wireguard => "wireguard"
  | .pppoe => "pppoe"
  | .openvpn => "openvpn"
  | .dummy => "dummy"
  | .veth => "veth"
  | .vrf => "vrf"
  | .macvlan => "macvlan"
  | .tunnel => x.tunnel.word
  | .tun => "tun"
  | .ifb => "ifb"
  | .meshPoint => "mesh_point"
  | .radio => "radio"

/-- `ncfg_plan_link_creation`. The executor can create every kind that gets this far. -/
def linkCreation (s : Planning) (x : Device) : Planning :=
  if (o.link x.name).isSome then s
  else if x.kind = .pppoe ∨ x.kind = .openvpn ∨ x.kind = .physical then s
  else if x.kind = .veth ∧ (x.vethPeer.bind o.link).isSome then
    { s with building := s.building.step c (.decline x.name) }
  else
    let (id, s) := s.push c (.linkCreate x.name x.kind) (reasonAbsent x.name "kind" (kindWord x))
      (s.gate x.name) (some (.linkDelete x.name))
    { s with gates := s.gates ++ [(x.name, id)] }

/-- `ncfg_plan_access_point_wanted`. -/
def accessPointWanted (name : String) : Bool :=
  name ∈ d.accessPoints

/-- What `plan_wds` does : a station's four-address mode, which a bridge needs of it. -/
def wdsAction (x : Device) : Option Planned :=
  (o.link x.name).bind fun link =>
    if link.wireless ∧ x.wds ≠ link.wds ∧ ¬accessPointWanted d x.name then
      some
        { op := .linkSetWds x.name x.wds
          reason := ⟨some x.name, "wifi.wds", toString x.wds, toString link.wds⟩
          inverse := some (.linkSetWds x.name !x.wds) }
    else none

/-- What `ncfg_plan_master` does about the master of a device. An access point's radio is
bridged by hostapd. -/
def masterAction (x : Device) : Option Planned :=
  let current := (o.link x.name).bind ObservedLink.master
  match x.master with
  | some wanted =>
    if current = some wanted ∨ accessPointWanted d x.name then none
    else
      some
        { op := .linkSetMaster x.name wanted
          reason := ⟨some x.name, "master", wanted, current.getD "<absent>"⟩
          inverse := some (.linkUnsetMaster x.name) }
  | none =>
    current.map fun master =>
      { op := .linkUnsetMaster x.name
        reason := reasonUnwanted x.name "master" master
        inverse := some (.linkSetMaster x.name master) }

/-- `plan_wds`. -/
def planWds (x : Device) (s : Planning) : Option ℕ × Planning :=
  match wdsAction d o x with
  | some p => s.push c p.op p.reason (s.gate x.name) p.inverse
  | none => (none, s)

/-- `ncfg_plan_master` : the id of an enslavement, which the master's own actions wait
for. -/
def planMaster (x : Device) (s : Planning) : Option ℕ × Planning :=
  let gate := s.gate x.name
  let (wds, s) := planWds c d o x s
  match masterAction d o x with
  | none => (none, s)
  | some p =>
    let (id, s) := s.push c p.op p.reason (gate ++ [wds]) p.inverse
    match x.master with
    | some wanted => (id, { s with enslavements := s.enslavements ++ [(wanted, id)] })
    | none => (none, s)

/-- `ncfg_plan_device_up` : a port or an `ifb` without an interface of its own. -/
def deviceUp (x : Device) (enslaved : Option ℕ) (s : Planning) : Planning :=
  if (x.master.isNone ∧ x.kind ≠ .ifb) ∨ (d.interface x.name).isSome ∨
      (o.link x.name).any ObservedLink.up then s
  else
    (s.push c (.linkUp x.name) ⟨some x.name, "link", "up", "down"⟩ (s.gate x.name ++ [enslaved])
      (some (.linkDown x.name))).2

/-- What `linkIsPlannable` reads while the plan is built. -/
def builderAt (declined : List String) : Builder where
  desired := d
  observed := o
  standby := standbyCollect d o
  declined := declined
  appearing := (d.devices.filter fun x => x.kind = .veth).filterMap Device.vethPeer

/-- The device loop of `ncfg_plan_build`. -/
def deviceStep (rest : OtherPasses) (s : Planning) (x : Device) : Planning :=
  let s := s.run c (rest.session x)
  if linkIsPlannable (builderAt d o s.building.declined) x.name then
    let (enslaved, s) := planMaster c d o x s
    (deviceUp c d o x enslaved s).run c (rest.kind x)
  else s

/-! ## An interface up and down -/

/-- Whether the caller asked for the link to be taken down and up again. -/
def cycling (options : PlanOptions) (i : Interface) : Bool :=
  i.enabled && (o.link i.name).any ObservedLink.up && i.name ∈ options.cycle

def bringingUp (options : PlanOptions) (i : Interface) : Bool :=
  i.enabled && (cycling o options i || !(o.link i.name).any ObservedLink.up)

/-- Bring an interface up : `pre_up`, the link, `up`. -/
def bringUp (i : Interface) (base : List (Option ℕ)) (s : Planning) : Planning :=
  let (before, s) := planHooks c i .preUp base s
  let (id, s) := s.push c (.linkUp i.name) ⟨some i.name, "enabled", "true", "false"⟩
    (base ++ before) (some (.linkDown i.name))
  (planHooks c i .up (base ++ [id]) { s with linkUps := s.linkUps ++ [(i.name, id)] }).2

/-- The link of an interface in `ncfg_plan_interface_contents` : down and up again where it is
cycled, up with its hooks where it is brought up, down where it is disabled. -/
def interfaceLink (options : PlanOptions) (i : Interface) (s : Planning) : Planning :=
  let base := s.gate i.name ++ (s.enslavements.filter fun m => m.1 = i.name).map Prod.snd
  let (base, s) :=
    if cycling o options i then
      let (id, s) := planDisable c o i base ⟨"modem.sim", "the next source", "the one it had"⟩ s
      (base ++ [id], s)
    else (base, s)
  if bringingUp o options i then bringUp c i base s
  else if !i.enabled && (o.link i.name).any ObservedLink.up then
    (planDisable c o i base ⟨"enabled", "false", "true"⟩ s).2
  else s

/-- `ncfg_plan_interface_contents`. -/
def interfaceContents (options : PlanOptions) (rest : OtherPasses) (s : Planning) (i : Interface) :
    Planning :=
  if linkIsPlannable (builderAt d o s.building.declined) i.name then
    (interfaceLink c o options i s).run c (rest.contents i)
  else s

/-! ## The whole plan -/

/-- `teardown_links`, over the devices the teardown still sees. -/
def teardownLinks (s : Planning) : Planning :=
  let devices := d.devices.filter fun x => x.name ∉ c.clearing
  (o.links.filter fun l => l.ownership.mayRemove && l.name ∉ devices.map Device.name).foldl
    (fun s l => (s.push c (.linkDelete l.name) (reasonUnwanted l.name "kind" l.kind) [] none).2) s

/-- The passes of `ncfg_plan_build` before the teardown, once the recreation has run. -/
def linkForward (options : PlanOptions) (rest : OtherPasses) (s : Planning) : Planning :=
  let s := (d.devices.foldl (linkCreation c o) s).run c rest.attributes
  let s := (d.devices.foldl (deviceStep c d o rest) s).run c rest.wifi
  (d.interfaces.foldl (interfaceContents c d o options rest) s).run c rest.late

/-- The teardown, which sees the devices to be cleared as out of the document. -/
def linkTeardown (rest : OtherPasses) (s : Planning) : Planning :=
  teardownLinks c d o
    ({ s with building := { s.building with tearingDown := true } }.run c rest.teardown)

/-- `ncfg_plan_build`. -/
def linkPlan (options : PlanOptions) (rest : OtherPasses) : Planning :=
  let c := prepare d options
  let (gone, s) := recreation c d o { building := Building.new.run c rest.early }
  let o := observedWithout o gone
  linkTeardown c d o rest (linkForward c d o options rest s)

/-! ## What a pass emits -/

/-- Whether the builder lets an op in, with these devices declined. -/
def Checks.admits (c : Checks) (declined : List String) (tearingDown : Bool) (op : Op) : Bool :=
  !c.passesOver declined tearingDown op && (c.lockOn op).isNone && (c.guardOn op).isNone

def Checks.admitted (c : Checks) (declined : List String) (tearingDown : Bool) (op : Op) :
    List Op :=
  if c.admits declined tearingDown op then [op] else []

namespace Planning

/-- The operations planned so far. -/
def ops (s : Planning) : List Op :=
  s.building.plan.actions.map Action.op

end Planning

/-- From one builder to another, actions of these ops were added, and the same devices are
declined before and after. -/
structure Emits (declined : List String) (tearingDown : Bool) (s s' : Planning) (ops : List Op) :
    Prop where
  actions : ∃ new, s'.building.plan.actions = s.building.plan.actions ++ new ∧
    new.map Action.op = ops
  before : s.building.declined = declined ∧ s.building.tearingDown = tearingDown
  after : s'.building.declined = declined ∧ s'.building.tearingDown = tearingDown

section Emit

variable {c : Checks} {declined : List String} {tearingDown : Bool} {s s' s'' : Planning}

theorem Emits.ops {ops : List Op} (h : Emits declined tearingDown s s' ops) :
    s'.ops = s.ops ++ ops := by
  obtain ⟨new, hnew, rfl⟩ := h.actions
  rw [Planning.ops, hnew, List.map_append]
  rfl

theorem Emits.refl
    (h : s.building.declined = declined ∧ s.building.tearingDown = tearingDown) :
    Emits declined tearingDown s s [] :=
  ⟨⟨[], by simp⟩, h, h⟩

theorem Emits.trans {ops ops' : List Op} (h : Emits declined tearingDown s s' ops)
    (h' : Emits declined tearingDown s' s'' ops') :
    Emits declined tearingDown s s'' (ops ++ ops') := by
  obtain ⟨new, hnew, rfl⟩ := h.actions
  obtain ⟨new', hnew', rfl⟩ := h'.actions
  refine ⟨⟨new ++ new', ?_, List.map_append⟩, h.before, h'.after⟩
  rw [hnew', hnew, List.append_assoc]

theorem Emits.marks {ops : List Op} (h : Emits declined tearingDown s s' ops)
    (h' : s''.building = s'.building) : Emits declined tearingDown s s'' ops :=
  ⟨by rw [h']; exact h.actions, h.before, by rw [h']; exact h.after⟩

theorem emits_foldl {α β : Type*} {f : β × Planning → α → β × Planning} {g : α → List Op}
    (h : ∀ acc a,
      acc.2.building.declined = declined ∧ acc.2.building.tearingDown = tearingDown →
        Emits declined tearingDown acc.2 (f acc a).2 (g a)) :
    ∀ (l : List α) (acc : β × Planning),
      acc.2.building.declined = declined ∧ acc.2.building.tearingDown = tearingDown →
        Emits declined tearingDown acc.2 (l.foldl f acc).2 (l.flatMap g)
  | [], _, hacc => Emits.refl hacc
  | a :: l, acc, hacc => (h acc a hacc).trans (emits_foldl h l (f acc a) (h acc a hacc).after)

theorem admits_iff {declined : List String} {tearingDown : Bool} {op : Op} :
    c.admits declined tearingDown op ↔ c.passesOver declined tearingDown op = false ∧
      c.lockOn op = none ∧ c.guardOn op = none := by
  simp [Checks.admits, and_assoc]

theorem push_fst (op : Op) (reason : Reason) (dependsOn : List (Option ℕ))
    (inverse : Option Op) : (s.push c op reason dependsOn inverse).1 =
      if c.admits s.building.declined s.building.tearingDown op then
        some s.building.plan.actions.length
      else none := by
  unfold Planning.push Building.push Checks.admits
  dsimp only
  by_cases hover : c.passesOver s.building.declined s.building.tearingDown op
  · simp [hover]
  · rcases hr : c.refusalOf op reason with _ | r
    · obtain ⟨hlock, hguard⟩ := refusalOf_eq_none.1 hr
      simp [hover, hlock, hguard]
    · have hnot : ¬(c.lockOn op = none ∧ c.guardOn op = none) := by
        intro hnone
        rw [refusalOf_eq_none.2 hnone] at hr
        cases hr
      rw [if_neg (by simpa using hover), if_neg (by simpa [hover] using hnot)]
      simp

theorem emits_push (h : s.building.declined = declined ∧ s.building.tearingDown = tearingDown)
    (op : Op) (reason : Reason) (dependsOn : List (Option ℕ)) (inverse : Option Op) :
    Emits declined tearingDown s (s.push c op reason dependsOn inverse).2
      (c.admitted declined tearingDown op) := by
  obtain ⟨hdeclined, htearing⟩ :=
    push_declined (c := c) (b := s.building) op reason dependsOn inverse
  refine ⟨?_, h, hdeclined.trans h.1, htearing.trans h.2⟩
  obtain ⟨rfl, rfl⟩ := h
  unfold Checks.admitted
  rcases push_cases (c := c) (b := s.building) op reason dependsOn inverse with
    ⟨hplan, hanswers⟩ | ⟨hadmitted, hplan, hanswers⟩
  · have hfst := push_fst (c := c) (s := s) op reason dependsOn inverse
    have hnone : (s.push c op reason dependsOn inverse).1 = none := by
      simp only [Planning.push, hanswers, List.getLast?_append, List.getLast?_singleton,
        Option.some_or, Option.join_some]
    rw [hnone] at hfst
    split_ifs at hfst with hadmits
    · rw [if_neg hadmits]
      exact ⟨[], by simp [Planning.push, hplan]⟩
  · have hadmits : c.admits s.building.declined s.building.tearingDown op :=
      admits_iff.2 ⟨hadmitted.notOver, hadmitted.unlocked, hadmitted.unguarded⟩
    rw [if_pos hadmits]
    refine ⟨[⟨s.building.plan.actions.length, op, reason, dependsOn.filterMap id, inverse⟩], ?_,
      rfl⟩
    simp only [Planning.push, hplan, Plan.add]

theorem push_isSome (h : s.building.declined = declined ∧ s.building.tearingDown = tearingDown)
    (op : Op) (reason : Reason) (dependsOn : List (Option ℕ)) (inverse : Option Op) :
    ((s.push c op reason dependsOn inverse).1).isSome = c.admits declined tearingDown op := by
  rw [push_fst, h.1, h.2]
  split_ifs with hadmits <;> simp [hadmits]

theorem emits_others {requests : List Request} (h : ∀ r ∈ requests, r.isOther) {s : Planning}
    (hs : s.building.declined = declined ∧ s.building.tearingDown = tearingDown) :
    ∃ ops, Emits declined tearingDown s (s.run c requests) ops ∧
      ∀ op ∈ ops, op.isTransition = false := by
  induction requests generalizing s with
  | nil => exact ⟨[], Emits.refl hs, by simp⟩
  | cons r rest ih =>
    have hr := h r List.mem_cons_self
    obtain ⟨ops, hstep, hops⟩ : ∃ ops, Emits declined tearingDown s
        { s with building := s.building.step c r } ops ∧ ∀ op ∈ ops, op.isTransition = false := by
      cases r with
      | push op reason waitsFor inverse =>
        refine ⟨_, emits_push hs op reason (waitsFor.map s.building.answer) inverse,
          fun x hx => ?_⟩
        unfold Checks.admitted at hx
        split_ifs at hx
        · rw [List.mem_singleton.1 hx]
          simpa [Request.isOther] using hr
        · simp at hx
      | decline name => simp [Request.isOther] at hr
      | refuse r => exact ⟨[], ⟨⟨[], by simp [Building.step]⟩, hs, hs⟩, by simp⟩
    obtain ⟨ops', hrest, hops'⟩ := ih (fun x hx => h x (List.mem_cons_of_mem _ hx)) hstep.after
    refine ⟨ops ++ ops', hstep.trans hrest, fun op hop => ?_⟩
    rcases List.mem_append.1 hop with hop | hop
    · exact hops op hop
    · exact hops' op hop

end Emit

/-! ## What the passes of links emit -/

section Specs

variable (c : Checks) (d : Document) (o : Observed) (declined : List String) (tearingDown : Bool)

def hookOps (i : Interface) (phase : HookPhase) : List Op :=
  (i.hooks.filter fun h => h.phase = phase).flatMap fun h =>
    c.admitted declined tearingDown (.hookRun i.name phase h.path none)

def withdrawOps (i : Interface) : List Op :=
  (o.addresses.filter fun a => a.interface = i.name && a.ownership.mayRemove).flatMap fun a =>
    c.admitted declined tearingDown (.addrDel i.name a.address)

/-- What `planDisable` emits. -/
def disableOps (i : Interface) : List Op :=
  hookOps c declined tearingDown i .preDown ++ withdrawOps c o declined tearingDown i ++
    hookOps c declined tearingDown i .down ++
    c.admitted declined tearingDown (.linkDown i.name) ++
    if c.admits declined tearingDown (.linkDown i.name) then
      hookOps c declined tearingDown i .postDown
    else []

def deviceHookOps (x : Device) (phase : HookPhase) : List Op :=
  (d.interface x.name).toList.flatMap fun i => hookOps c declined tearingDown i phase

/-- Why a device is remade, of one that may be removed. -/
def remakeReason (x : Device) : Option (String × String × String) :=
  (o.link x.name).bind fun link =>
    if link.ownership.mayRemove then recreationReason x link else none

def recreateOps (x : Device) : List Op :=
  if (remakeReason o x).isSome then
    (o.backends.filter fun b => b.interface = x.name).flatMap
        (fun b => c.admitted declined tearingDown (.backendStop b.kind x.name)) ++
      deviceHookOps c d declined tearingDown x .down ++
      c.admitted declined tearingDown (.linkDelete x.name) ++
      if c.admits declined tearingDown (.linkDelete x.name) then
        deviceHookOps c d declined tearingDown x .postDown
      else []
  else []

/-- Whether a device is remade : there is a reason to, and the delete is let in. -/
def remade (x : Device) : Bool :=
  (remakeReason o x).isSome && c.admits declined tearingDown (.linkDelete x.name)

/-- What the recreation of a list of devices emits, with room for so many. -/
def recreationOps : ℕ → List Device → List Op
  | _, [] => []
  | 0, _ :: _ => []
  | room + 1, x :: devices =>
    recreateOps c d o declined tearingDown x ++
      recreationOps (if remade c o declined tearingDown x then room else room + 1) devices

/-- What `bringUp` emits. -/
def bringUpOps (i : Interface) : List Op :=
  hookOps c declined tearingDown i .preUp ++ c.admitted declined tearingDown (.linkUp i.name) ++
    hookOps c declined tearingDown i .up

def interfaceOps (options : PlanOptions) (i : Interface) : List Op :=
  (if cycling o options i then disableOps c o declined tearingDown i else []) ++
    if bringingUp o options i then bringUpOps c declined tearingDown i
    else if !i.enabled && (o.link i.name).any ObservedLink.up then
      disableOps c o declined tearingDown i
    else []

variable {c d o declined tearingDown}

section Passes

variable {s : Planning}
  (hs : s.building.declined = declined ∧ s.building.tearingDown = tearingDown)

include hs

theorem emits_planHooks (i : Interface) (phase : HookPhase) (dependsOn : List (Option ℕ)) :
    Emits declined tearingDown s (planHooks c i phase dependsOn s).2
      (hookOps c declined tearingDown i phase) := by
  refine emits_foldl (fun acc h hacc => ?_) _ ([], s) hs
  exact emits_push hacc _ _ _ _

theorem emits_withdraw (i : Interface) (dependsOn : List (Option ℕ)) (why : Teardown) :
    Emits declined tearingDown s (withdraw c o i dependsOn why s).2
      (withdrawOps c o declined tearingDown i) := by
  refine emits_foldl (fun acc a hacc => ?_) _ ([], s) hs
  exact emits_push hacc _ _ _ _

theorem emits_deviceHooks (x : Device) (phase : HookPhase) (dependsOn : List (Option ℕ)) :
    Emits declined tearingDown s (deviceHooks c d x phase dependsOn s).2
      (deviceHookOps c d declined tearingDown x phase) := by
  unfold deviceHooks deviceHookOps
  rcases d.interface x.name with _ | i
  · exact Emits.refl hs
  · simpa using emits_planHooks hs i phase dependsOn

theorem emits_stopBackends (x : Device) (reason : Reason) :
    Emits declined tearingDown s (stopBackends c o x reason s).2
      ((o.backends.filter fun b => b.interface = x.name).flatMap fun b =>
        c.admitted declined tearingDown (.backendStop b.kind x.name)) := by
  refine emits_foldl (fun acc b hacc => ?_) _ ([], s) hs
  exact emits_push hacc _ _ _ _

theorem emits_planDisable (i : Interface) (base : List (Option ℕ)) (why : Teardown) :
    Emits declined tearingDown s (planDisable c o i base why s).2
      (disableOps c o declined tearingDown i) := by
  unfold planDisable disableOps
  dsimp only
  have h1 := emits_planHooks (c := c) hs i .preDown base
  have h2 := emits_withdraw (c := c) (o := o) h1.after i
    (base ++ (planHooks c i .preDown base s).1) why
  have h3 := emits_planHooks (c := c) h2.after i .down (base ++ (planHooks c i .preDown base s).1 ++
    (withdraw c o i (base ++ (planHooks c i .preDown base s).1) why
      (planHooks c i .preDown base s).2).1)
  have h123 := (h1.trans h2).trans h3
  rw [push_isSome h3.after]
  split_ifs with hadmits
  · exact (h123.trans (emits_push h3.after _ _ _ _)).trans
      (emits_planHooks (emits_push h3.after _ _ _ _).after _ _ _)
  · rw [List.append_nil]
    exact h123.trans (emits_push h3.after _ _ _ _)

theorem emits_bringUp (i : Interface) (base : List (Option ℕ)) :
    Emits declined tearingDown s (bringUp c i base s) (bringUpOps c declined tearingDown i) := by
  have h1 := emits_planHooks (c := c) hs i .preUp base
  have h2 := emits_push (c := c) h1.after (.linkUp i.name) ⟨some i.name, "enabled", "true", "false"⟩
    (base ++ (planHooks c i .preUp base s).1) (some (.linkDown i.name))
  have h3 : ∀ (marked : Planning) (deps : List (Option ℕ)),
      marked.building = (Planning.push c (planHooks c i .preUp base s).2 (.linkUp i.name)
        ⟨some i.name, "enabled", "true", "false"⟩ (base ++ (planHooks c i .preUp base s).1)
        (some (.linkDown i.name))).2.building →
      Emits declined tearingDown s (planHooks c i .up deps marked).2
        (bringUpOps c declined tearingDown i) := by
    intro marked deps hmarked
    refine (h1.trans (h2.marks hmarked)).trans (emits_planHooks ?_ i .up deps)
    rw [hmarked]
    exact h2.after
  exact h3 _ _ rfl

theorem emits_interfaceLink (options : PlanOptions) (i : Interface) :
    Emits declined tearingDown s (interfaceLink c o options i s)
      (interfaceOps c o declined tearingDown options i) := by
  unfold interfaceLink interfaceOps
  by_cases hcycle : cycling o options i
  · have hup : bringingUp o options i := by
      have henabled : i.enabled := by
        simp only [cycling, Bool.and_eq_true] at hcycle
        exact hcycle.1.1
      simp [bringingUp, hcycle, henabled]
    simp only [hcycle, hup, if_true]
    have h1 := emits_planDisable (c := c) (o := o) hs i
      (s.gate i.name ++ (s.enslavements.filter fun m => m.1 = i.name).map Prod.snd)
      ⟨"modem.sim", "the next source", "the one it had"⟩
    exact h1.trans (emits_bringUp h1.after i _)
  · simp only [hcycle, if_false, Bool.false_eq_true, List.nil_append]
    split_ifs with hup hdown
    · exact emits_bringUp hs i _
    · exact emits_planDisable hs _ _ _
    · exact Emits.refl hs

end Passes

theorem emits_recreateDevice {acc : List String × Planning} (hroom : acc.1.length < recreateMax)
    (hs : acc.2.building.declined = declined ∧ acc.2.building.tearingDown = tearingDown)
    (x : Device) :
    (recreateDevice c d o acc x).1 =
        acc.1 ++ (if remade c o declined tearingDown x then [x.name] else []) ∧
      Emits declined tearingDown acc.2 (recreateDevice c d o acc x).2
        (recreateOps c d o declined tearingDown x) := by
  unfold recreateDevice recreateOps remade
  rw [if_pos hroom]
  change (match remakeReason o x with
    | none => acc
    | some (field, wanted, seen) => _).1 = _ ∧ Emits _ _ _ (match remakeReason o x with
    | none => acc
    | some (field, wanted, seen) => _).2 _
  rcases remakeReason o x with _ | ⟨field, wanted, seen⟩
  · exact ⟨by simp, Emits.refl hs⟩
  · dsimp only [Option.isSome_some]
    have h1 := emits_stopBackends (c := c) (o := o) hs x
      ⟨some x.name, field, wanted ++ ", which needs " ++ x.name ++ " remade", seen⟩
    have h2 := emits_deviceHooks (c := c) (d := d) h1.after x .down (stopBackends c o x
      ⟨some x.name, field, wanted ++ ", which needs " ++ x.name ++ " remade", seen⟩ acc.2).1
    simp only [push_isSome h2.after, if_true, Bool.true_and]
    split_ifs with hadmits
    · refine ⟨rfl, (((h1.trans h2).trans (emits_push h2.after _ _ _ _)).trans
        (emits_deviceHooks (emits_push h2.after _ _ _ _).after _ _ _)).marks rfl⟩
    · refine ⟨by simp, ?_⟩
      rw [List.append_nil]
      exact (h1.trans h2).trans (emits_push h2.after _ _ _ _)

/-- The recreation of a list of devices : those that are remade, as far as there is room, and
what it emits for them. -/
theorem emits_recreateDevices :
    ∀ (devices : List Device) (acc : List String × Planning) (room : ℕ),
      acc.1.length + room = recreateMax →
      acc.2.building.declined = declined ∧ acc.2.building.tearingDown = tearingDown →
      (devices.foldl (recreateDevice c d o) acc).1 =
          acc.1 ++ ((devices.filter (remade c o declined tearingDown)).take room).map Device.name ∧
        Emits declined tearingDown acc.2 (devices.foldl (recreateDevice c d o) acc).2
          (recreationOps c d o declined tearingDown room devices)
  | [], acc, room, _, hs => by
    exact ⟨by simp, by simpa [recreationOps] using Emits.refl hs⟩
  | x :: devices, acc, 0, hroom, hs => by
    have hfull : recreateDevice c d o acc x = acc := by
      rw [recreateDevice, if_neg (by omega)]
    have ih := emits_recreateDevices devices acc 0 hroom hs
    have hnone : recreationOps c d o declined tearingDown 0 devices = [] := by
      cases devices <;> rfl
    rw [List.foldl_cons, hfull, recreationOps]
    rw [hnone] at ih
    simpa using ih
  | x :: devices, acc, room + 1, hroom, hs => by
    obtain ⟨hgone, hemits⟩ := emits_recreateDevice (c := c) (d := d) (o := o)
      (by omega : acc.1.length < recreateMax) hs x
    rw [List.foldl_cons, recreationOps, List.filter_cons]
    split_ifs at hgone ⊢ with hremade
    · obtain ⟨hnames, hrest⟩ := emits_recreateDevices devices _ room
        (by rw [hgone, List.length_append, List.length_singleton]; omega) hemits.after
      refine ⟨?_, hemits.trans hrest⟩
      rw [hnames, hgone, List.take_succ_cons, List.map_cons, List.append_assoc]
      rfl
    · rw [List.append_nil] at hgone
      obtain ⟨hnames, hrest⟩ := emits_recreateDevices devices _ (room + 1)
        (by rw [hgone]; omega) hemits.after
      exact ⟨by rw [hnames, hgone], hemits.trans hrest⟩

end Specs

end Netcfgd
