import Netcfgd.Document
import Netcfgd.Trace

/-!
# The builder and what stops an action

`ncfg_builder_push` of `build.c` is the one place an action enters a plan, and what it asks
before : whether the device is unmanaged or was declined, whether the subject of the op
(`Op.subject`) is locked, whether the op is disruptive (`Op.isDisruptive`) on a guarded
interface. A push that a lock or a guard stops leaves a refusal and no action.

The passes of the planner are clients of the builder : whatever they decide, they can push an
action that waits for answers earlier pushes gave, note a device as declined, and refuse
something no push asked for (`Request`). A plan is a list of such requests, those of the
teardown last (`planBuild`), and `planBuild_respects` is what holds of every one of them.
-/

namespace Netcfgd

/-! ## What an op is about -/

/-- `ncfg_backend_kind_name`. -/
def BackendKind.word : BackendKind → String
  | dhcp4 => "dhcp4"
  | dhcp6 => "dhcp6"
  | supplicant => "supplicant"
  | accessPoint => "access_point"
  | wireguard => "wire_guard"
  | pppoe => "pppoe"
  | openvpn => "open_vpn"
  | dns => "dns"
  | routerAdvert => "router_advert"
  | linkLocal => "link_local"
  | dhcpServer => "dhcp_server"
  | upnp => "upnp"

/-- `ncfg_hook_phase_name`. -/
def HookPhase.word : HookPhase → String
  | preUp => "pre_up"
  | up => "up"
  | postUp => "post_up"
  | preDown => "pre_down"
  | down => "down"
  | postDown => "post_down"
  | carrier => "carrier"
  | lease => "lease"
  | roam => "roam"
  | portal => "portal"
  | drift => "drift"

namespace Op

/-- `ncfg_op_is_disruptive` : whether it can interrupt traffic on the interface. -/
def isDisruptive : Op → Bool
  | linkDelete .. | linkDown .. | linkSetMaster .. | linkUnsetMaster .. | linkSetMac ..
  | linkSetMtu .. | addrDel .. | routeDel .. | backendStop .. | backendReload ..
  | wifiDisassociate .. | wifiAssociate .. | wgSetDevice .. | wgSetPeers .. | linkSetBridge ..
  | linkSetBond .. | linkSetMacvlan .. | linkSetTunnel .. | linkSetVxlan .. | bridgeVlanDel ..
  | ruleDel .. | ingressRedirectClear .. => true
  | sysctlSetForwarding _ enabled => !enabled
  | accessControlAdd _ list _ => list = .deny
  | accessControlDel _ list _ => list = .allow
  | stationSteer _ _ _ imminent => imminent
  -- the down phases go with the transition that takes the interface away
  | hookRun _ phase _ _ => phase = .preDown ∨ phase = .down ∨ phase = .postDown
  | linkCreate .. | linkUp .. | addrAdd .. | routeAdd .. | backendStart .. | wifiSetProfiles ..
  | wifiSetRegdom .. | dnsApply .. | commitArm .. | commitConfirm | bridgeVlanAdd ..
  | qdiscSet .. | qdiscReset .. | ingressRedirect .. | nftablesReplace | ruleAdd ..
  | linkSetIpv6Token .. | hostnameSet .. | sysctlSetPrivacy .. | sysctlSetAcceptRa ..
  | linkSetOffloads .. | linkSetWds .. | neighbourAdd .. | neighbourDel .. | commitRevert .. =>
    false

/-- `subject_class`. The commit family has none, so nothing can lock it. -/
def subjectClass : Op → Option String
  | linkCreate .. | linkDelete .. | linkUp .. | linkDown .. => some "link"
  | linkSetMtu .. => some "mtu"
  | linkSetMac .. => some "mac"
  | linkSetMaster .. | linkUnsetMaster .. => some "master"
  | linkSetBond .. => some "bond"
  | linkSetBridge .. => some "bridge"
  | linkSetMacvlan .. => some "macvlan"
  | linkSetTunnel .. => some "tunnel"
  | linkSetVxlan .. => some "vxlan"
  | linkSetOffloads .. => some "offloads"
  | linkSetWds .. => some "wds"
  | linkSetIpv6Token .. => some "token"
  | addrAdd .. | addrDel .. => some "addr"
  | routeAdd .. | routeDel .. => some "route"
  | ruleAdd .. | ruleDel .. => some "iprule"
  | backendStart .. | backendStop .. | backendReload .. => some "backend"
  | bridgeVlanAdd .. | bridgeVlanDel .. => some "vlan"
  | wifiSetProfiles .. | wifiAssociate .. | wifiDisassociate .. => some "wifi"
  | wifiSetRegdom .. => some "regdom"
  | accessControlAdd .. | accessControlDel .. => some "acl"
  | neighbourAdd .. | neighbourDel .. => some "neighbour"
  | stationSteer .. => some "station"
  | wgSetDevice .. | wgSetPeers .. => some "wireguard"
  | qdiscSet .. | qdiscReset .. => some "qdisc"
  | ingressRedirect .. | ingressRedirectClear .. => some "ingress"
  | sysctlSetForwarding .. => some "forwarding"
  | sysctlSetPrivacy .. => some "privacy"
  | sysctlSetAcceptRa .. => some "accept_ra"
  | dnsApply .. => some "dns"
  | nftablesReplace => some "nftables"
  | hostnameSet .. => some "hostname"
  | hookRun .. => some "hook"
  | commitArm .. | commitConfirm | commitRevert .. => none

def subjectDetail : Op → String
  | addrAdd _ addr _ _ | addrDel _ addr => addr
  | routeAdd _ route | routeDel _ route => route.destination
  | ruleAdd priority | ruleDel priority => toString priority
  | backendStart kind _ | backendStop kind _ | backendReload kind _ => kind.word
  | bridgeVlanAdd _ vid _ _ _ | bridgeVlanDel _ vid _ _ _ => toString vid
  | accessControlAdd _ _ station | accessControlDel _ _ station | stationSteer _ station _ _ =>
    station
  | neighbourAdd _ bssid _ _ | neighbourDel _ bssid _ _ => bssid
  | hookRun _ phase _ _ => phase.word
  | _ => ""

/-- `NCFG_OP_SUBJECT_MAX`. -/
def subjectMax : ℕ :=
  192

/-- The room for a detail, which `snprintf` cuts to. -/
def detailMax : ℕ :=
  95

def bytes (s : String) : List UInt8 :=
  s.toUTF8.toList

/-- `ncfg_op_subject` : `class:scope/detail` in bytes, `none` where there is no class or no
room for it. -/
def subject (op : Op) : Option (List UInt8) :=
  op.subjectClass.bind fun kind =>
    let detail := (bytes op.subjectDetail).take detailMax
    let text := bytes (kind ++ ":" ++ op.interface.getD "host") ++
      if detail = [] then [] else bytes "/" ++ detail
    if text.length < subjectMax then some text else none

end Op

/-! ## What a push asks -/

/-- `ncfg_plan_guard_t`. -/
structure Guard where
  interface : String
  reason : String
  deriving DecidableEq, Repr

/-- `ncfg_refusal_t` : something netcfgd declined to do. -/
structure Refusal where
  interface : Option String
  op : String
  guard : String
  reason : Reason
  overrideWith : String
  deriving DecidableEq, Repr

/-- What `ncfg_builder_push` consults, as `prepare` and `ncfg_plan_clearing_collect` leave
it. -/
structure Checks where
  guards : List Guard
  allowDisruption : List String
  locked : List String
  unmanaged : List String
  /-- The unmanaged devices that are to be cleared. -/
  clearing : List String
  deriving DecidableEq, Repr

/-- `prepare` and `ncfg_plan_clearing_collect`. -/
def prepare (d : Document) (options : PlanOptions) : Checks where
  guards := d.interfaces.filterMap fun i => i.guard.map fun reason => ⟨i.name, reason⟩
  allowDisruption := options.allowDisruption
  locked := d.locked
  unmanaged := (d.devices.filter fun x => !x.managed).map Device.name
  clearing := (d.devices.filter fun x => !x.managed && x.onUnmanage = .clear).map Device.name

namespace Checks

variable (c : Checks)

/-- `locked` : the entry that locks the op's subject. -/
def lockOn (op : Op) : Option String :=
  op.subject.bind fun subject => c.locked.find? fun entry => Op.bytes entry = subject

/-- `refused` : the guard a disruptive op meets. -/
def guardOn (op : Op) : Option Guard :=
  if op.isDisruptive then
    op.interface.bind fun interface =>
      if interface ∈ c.allowDisruption then none
      else c.guards.find? fun g => g.interface = interface
  else none

def refusalOf (op : Op) (reason : Reason) : Option Refusal :=
  match c.lockOn op with
  | some entry =>
    some
      { interface := op.interface
        op := op.name
        guard := "`" ++ entry ++ "` is locked"
        reason
        overrideWith := "remove `" ++ entry ++ "` from `global \x7b locked = [...] \x7d`" }
  | none =>
    (c.guardOn op).map fun g =>
      { interface := op.interface
        op := op.name
        guard := g.reason
        reason
        overrideWith := "ncfg apply --allow-disruption " ++ g.interface }

/-- Whether a push drops the op and says nothing : an unmanaged device outside its
clearing, or a declined one. -/
def passesOver (declined : List String) (tearingDown : Bool) (op : Op) : Bool :=
  op.interface.any fun name =>
    (name ∈ c.unmanaged ∧ ¬(tearingDown ∧ name ∈ c.clearing)) ∨ name ∈ declined

end Checks

/-! ## The builder -/

/-- The part of `ncfg_builder_t` that changes while the passes run. -/
structure Building where
  plan : Plan
  refusals : List Refusal
  declined : List String
  tearingDown : Bool
  /-- What each push answered, `none` for `NCFG_PLAN_NO_ACTION`. -/
  answers : List (Option ℕ)

def Building.new : Building :=
  ⟨.empty, [], [], false, []⟩

inductive Request
  /-- An action, the earlier pushes it waits for by their number, and its inverse. -/
  | push (op : Op) (reason : Reason) (waitsFor : List ℕ) (inverse : Option Op)
  /-- A device the creation pass will not create. -/
  | decline (name : String)
  /-- `ncfg_plan_wedged_backends` : a refusal of what no push asked for. -/
  | refuse (r : Refusal)

namespace Building

variable (c : Checks) (b : Building)

def answer (n : ℕ) : Option ℕ :=
  b.answers[n]?.join

/-- `ncfg_builder_push`. The ids of actions that were not emitted are dropped by
`ncfg_plan_add`. -/
def push (op : Op) (reason : Reason) (dependsOn : List (Option ℕ)) (inverse : Option Op) :
    Building :=
  if c.passesOver b.declined b.tearingDown op then { b with answers := b.answers ++ [none] }
  else
    match c.refusalOf op reason with
    | some r => { b with refusals := b.refusals ++ [r], answers := b.answers ++ [none] }
    | none =>
      { b with
        plan := b.plan.add op reason (dependsOn.filterMap id) inverse
        answers := b.answers ++ [some b.plan.actions.length] }

def step : Request → Building
  | .push op reason waitsFor inverse => b.push c op reason (waitsFor.map b.answer) inverse
  | .decline name => { b with declined := b.declined ++ [name] }
  | .refuse r => { b with refusals := b.refusals ++ [r] }

def run (requests : List Request) : Building :=
  Trace.run (step c) b requests

end Building

/-! ## What a push adds -/

section Push

variable {c : Checks} {b : Building}

/-- What a pass can still add is what none of the checks stops. -/
structure Admitted (c : Checks) (b : Building) (op : Op) : Prop where
  notOver : c.passesOver b.declined b.tearingDown op = false
  unlocked : c.lockOn op = none
  unguarded : c.guardOn op = none

theorem refusalOf_eq_none {op : Op} {reason : Reason} :
    c.refusalOf op reason = none ↔ c.lockOn op = none ∧ c.guardOn op = none := by
  unfold Checks.refusalOf
  rcases hl : c.lockOn op with _ | entry
  · simp
  · simp

theorem push_cases (op : Op) (reason : Reason) (dependsOn : List (Option ℕ))
    (inverse : Option Op) :
    (b.push c op reason dependsOn inverse).plan = b.plan ∧
        (b.push c op reason dependsOn inverse).answers = b.answers ++ [none] ∨
      Admitted c b op ∧
        (b.push c op reason dependsOn inverse).plan =
          b.plan.add op reason (dependsOn.filterMap id) inverse ∧
        (b.push c op reason dependsOn inverse).answers =
          b.answers ++ [some b.plan.actions.length] := by
  unfold Building.push
  split_ifs with hover
  · exact Or.inl ⟨rfl, rfl⟩
  · rcases hr : c.refusalOf op reason with _ | r
    · obtain ⟨hlock, hguard⟩ := refusalOf_eq_none.1 hr
      exact Or.inr ⟨⟨by simpa using hover, hlock, hguard⟩, rfl, rfl⟩
    · exact Or.inl ⟨rfl, rfl⟩

theorem push_declined (op : Op) (reason : Reason) (dependsOn : List (Option ℕ))
    (inverse : Option Op) :
    (b.push c op reason dependsOn inverse).declined = b.declined ∧
      (b.push c op reason dependsOn inverse).tearingDown = b.tearingDown := by
  unfold Building.push
  split_ifs
  · exact ⟨rfl, rfl⟩
  · rcases c.refusalOf op reason with _ | r <;> exact ⟨rfl, rfl⟩

end Push

/-! ## Runs of requests -/

section Run

variable (c : Checks)

theorem Admitted.mono {b b' : Building} {op : Op} (h : Admitted c b' op)
    (hdeclined : b.declined ⊆ b'.declined) (htearing : b'.tearingDown = b.tearingDown) :
    Admitted c b op := by
  refine ⟨?_, h.unlocked, h.unguarded⟩
  have hover := h.notOver
  simp only [Checks.passesOver, Option.any_eq_false, decide_eq_false_iff_not, not_or,
    htearing] at hover ⊢
  intro name hname
  exact ⟨(hover name hname).1, fun hd => (hover name hname).2 (hdeclined hd)⟩

/-- What a run leaves of a builder : the actions that were there, and after them only
actions the builder admits. -/
structure Extends (b b' : Building) : Prop where
  declined : b.declined ⊆ b'.declined
  tearingDown : b'.tearingDown = b.tearingDown
  actions : ∃ new, b'.plan.actions = b.plan.actions ++ new ∧ ∀ a ∈ new, Admitted c b a.op

theorem Extends.refl (b : Building) : Extends c b b :=
  ⟨List.Subset.refl _, rfl, [], by simp, by simp⟩

theorem Extends.trans {b b' b'' : Building} (h : Extends c b b') (h' : Extends c b' b'') :
    Extends c b b'' := by
  obtain ⟨new, hnew, hadmits⟩ := h.actions
  obtain ⟨new', hnew', hadmits'⟩ := h'.actions
  refine ⟨List.Subset.trans h.declined h'.declined, h'.tearingDown.trans h.tearingDown, new ++ new',
    ?_, ?_⟩
  · rw [hnew', hnew, List.append_assoc]
  · intro a ha
    rcases List.mem_append.1 ha with ha | ha
    · exact hadmits a ha
    · exact (hadmits' a ha).mono c h.declined h.tearingDown

theorem Extends.mem {b b' : Building} (h : Extends c b b') {a : Action}
    (ha : a ∈ b'.plan.actions) :
    a ∈ b.plan.actions ∨ b.plan.actions.length ≤ a.id ∧ Admitted c b a.op := by
  obtain ⟨new, hnew, hadmits⟩ := h.actions
  rw [hnew] at ha
  rcases List.mem_append.1 ha with ha | ha
  · exact Or.inl ha
  · obtain ⟨n, hn, rfl⟩ := List.getElem_of_mem ha
    have hlt : b.plan.actions.length + n < b'.plan.actions.length := by
      rw [hnew, List.length_append]
      omega
    have hid := b'.plan.ids _ hlt
    simp only [hnew, List.getElem_append_right (Nat.le_add_right _ _), Nat.add_sub_cancel_left]
      at hid
    exact Or.inr ⟨by omega, hadmits _ ha⟩

theorem extends_step (b : Building) (r : Request) : Extends c b (b.step c r) := by
  cases r with
  | push op reason waitsFor inverse =>
    obtain ⟨hdeclined, htearing⟩ := push_declined (c := c) (b := b) op reason
      (waitsFor.map b.answer) inverse
    refine ⟨hdeclined.symm ▸ List.Subset.refl _, htearing, ?_⟩
    rcases push_cases (c := c) (b := b) op reason (waitsFor.map b.answer) inverse with
      ⟨hplan, -⟩ | ⟨hadmitted, hplan, -⟩
    · exact ⟨[], by simp [Building.step, hplan], by simp⟩
    · refine ⟨[⟨b.plan.actions.length, op, reason, (waitsFor.map b.answer).filterMap id, inverse⟩],
        ?_, ?_⟩
      · simp only [Building.step, hplan, Plan.add]
      · intro a ha
        rw [List.mem_singleton.1 ha]
        exact hadmitted
  | decline name =>
    exact ⟨List.subset_append_left _ _, rfl, [], by simp [Building.step], by simp⟩
  | refuse r => exact ⟨List.Subset.refl _, rfl, [], by simp [Building.step], by simp⟩

theorem extends_run (b : Building) (requests : List Request) :
    Extends c b (b.run c requests) := by
  have hrun := Trace.forall_mem_states (I := Extends c b) requests b (Extends.refl c b)
    (fun x _ hx => hx.trans c (extends_step c x.1 x.2))
  exact hrun _ (Trace.run_mem_states _ _ _)

/-- The edges of a builder's plan go back, and so does every answer it gave. -/
structure Linked (b : Building) : Prop where
  edges : ∀ a ∈ b.plan.actions, ∀ e ∈ a.dependsOn, e < a.id
  answers : ∀ e, some e ∈ b.answers → e < b.plan.actions.length

theorem linked_new : Linked .new :=
  ⟨by simp [Building.new, Plan.empty], by simp [Building.new]⟩

theorem Linked.answer_lt {b : Building} (h : Linked b) {n e : ℕ} (hn : b.answer n = some e) :
    e < b.plan.actions.length :=
  h.answers e (List.mem_of_getElem? (Option.join_eq_some_iff.1 hn))

theorem Linked.step {b : Building} (h : Linked b) (r : Request) : Linked (b.step c r) := by
  cases r with
  | push op reason waitsFor inverse =>
    rcases push_cases (c := c) (b := b) op reason (waitsFor.map b.answer) inverse with
      ⟨hplan, hanswers⟩ | ⟨-, hplan, hanswers⟩
    · refine ⟨by simpa only [Building.step, hplan] using h.edges, fun e he => ?_⟩
      simp only [Building.step, hplan, hanswers] at he ⊢
      exact h.answers e (by simpa using he)
    · simp only [Building.step]
      refine ⟨fun a ha e he => ?_, fun e he => ?_⟩
      · rw [hplan] at ha
        rcases List.mem_append.1 ha with ha | ha
        · exact h.edges a ha e he
        · obtain rfl := List.mem_singleton.1 ha
          obtain ⟨x, hx, rfl⟩ := List.mem_filterMap.1 he
          obtain ⟨n, -, hn⟩ := List.mem_map.1 hx
          exact h.answer_lt hn
      · have hlength : (b.plan.add op reason
            ((waitsFor.map b.answer).filterMap id) inverse).actions.length =
              b.plan.actions.length + 1 := by
          simp [Plan.add]
        rw [hanswers] at he
        rw [hplan, hlength]
        rcases List.mem_append.1 he with he | he
        · exact (h.answers e he).trans (Nat.lt_succ_self _)
        · obtain rfl := Option.some.inj (List.mem_singleton.1 he)
          exact Nat.lt_succ_self _
  | decline name => exact ⟨h.edges, h.answers⟩
  | refuse r => exact ⟨h.edges, h.answers⟩

theorem Linked.run {b : Building} (h : Linked b) (requests : List Request) :
    Linked (b.run c requests) :=
  Trace.forall_mem_states (I := Linked) requests b h (fun x _ hx => hx.step c x.2) _
    (Trace.run_mem_states _ _ _)

def Building.stops (b : Building) (op : Op) : Bool :=
  !c.passesOver b.declined b.tearingDown op && ((c.lockOn op).isSome || (c.guardOn op).isSome)

/-- The op and the interface a request leaves a refusal for : a push that a lock or a guard
stops, and a refusal of what no push asked for. -/
def refusedBy : Building × Request → List (String × Option String)
  | (b, .push op _ _ _) => if b.stops c op then [(op.name, op.interface)] else []
  | (_, .refuse r) => [(r.op, r.interface)]
  | (_, .decline _) => []

def Refusal.names (r : Refusal) : String × Option String :=
  (r.op, r.interface)

theorem refusalOf_names {op : Op} {reason : Reason} {r : Refusal}
    (h : c.refusalOf op reason = some r) : r.names = (op.name, op.interface) := by
  unfold Checks.refusalOf at h
  rcases hl : c.lockOn op with _ | entry
  · rw [hl] at h
    obtain ⟨g, -, rfl⟩ := Option.map_eq_some_iff.1 h
    rfl
  · rw [hl] at h
    obtain rfl := Option.some.inj h
    rfl

theorem refusals_step (b : Building) (r : Request) :
    (b.step c r).refusals.map Refusal.names =
      b.refusals.map Refusal.names ++ refusedBy c (b, r) := by
  cases r with
  | push op reason waitsFor inverse =>
    simp only [Building.step, Building.push, refusedBy, Building.stops]
    by_cases hover : c.passesOver b.declined b.tearingDown op
    · simp [hover]
    · rcases hr : c.refusalOf op reason with _ | r
      · obtain ⟨hlock, hguard⟩ := refusalOf_eq_none.1 hr
        simp [hover, hlock, hguard]
      · have hstopped : (c.lockOn op).isSome ∨ (c.guardOn op).isSome := by
          by_contra hnot
          have hnone : c.refusalOf op reason = none :=
            refusalOf_eq_none.2 (by simpa using hnot)
          rw [hr] at hnone
          cases hnone
        have hnames := refusalOf_names c hr
        simp [hover, hstopped, hnames]
  | decline name => simp [Building.step, refusedBy]
  | refuse r => simp [Building.step, refusedBy, Refusal.names]

theorem refusals_run (b : Building) (requests : List Request) :
    (b.run c requests).refusals.map Refusal.names =
      b.refusals.map Refusal.names ++
        (Trace.steps (Building.step c) b requests).flatMap (refusedBy c) :=
  Trace.log_run (fun b : Building => b.refusals.map Refusal.names)
    (fun b r => refusals_step c b r) requests b

end Run

/-! ## The plan -/

/-- The builder when the forward passes of `ncfg_plan_build` have run. -/
def planForward (d : Document) (options : PlanOptions) (forward : List Request) : Building :=
  Building.new.run (prepare d options) forward

/-- `ncfg_plan_build` : the forward passes, then the teardown between
`ncfg_plan_clearing_begin` and `ncfg_plan_clearing_end`. -/
def planBuild (d : Document) (options : PlanOptions) (forward teardown : List Request) : Building :=
  { planForward d options forward with tearingDown := true }.run (prepare d options) teardown

/-- What every plan respects, whatever the passes asked for. -/
structure Respects (d : Document) (options : PlanOptions) (forward teardown : List Request) :
    Prop where
  /-- Nothing disruptive on a guarded interface, unless the caller allowed it. -/
  guarded : ∀ a ∈ (planBuild d options forward teardown).plan.actions, a.op.isDisruptive →
    ∀ i ∈ d.interfaces, i.guard.isSome → a.op.interface = some i.name →
      i.name ∈ options.allowDisruption
  unlocked : ∀ a ∈ (planBuild d options forward teardown).plan.actions, ∀ entry ∈ d.locked,
    a.op.subject ≠ some (Op.bytes entry)
  /-- Nothing on an unmanaged device, but for the teardown of one that is to be cleared. -/
  managed : ∀ a ∈ (planBuild d options forward teardown).plan.actions, ∀ x ∈ d.devices,
    x.managed = false → a.op.interface = some x.name →
      x.onUnmanage = .clear ∧ (planForward d options forward).plan.actions.length ≤ a.id
  /-- Nothing on a declined device after it was declined. -/
  declined : ∀ before name after, forward = before ++ Request.decline name :: after →
    ∀ a ∈ (planBuild d options forward teardown).plan.actions, a.op.interface = some name →
      a.id < (planForward d options before).plan.actions.length
  /-- One refusal for every push a lock or a guard dropped, and none for another. -/
  refusals : (planBuild d options forward teardown).refusals.map Refusal.names =
    (Trace.steps (Building.step (prepare d options)) .new forward ++
      Trace.steps (Building.step (prepare d options))
        { planForward d options forward with tearingDown := true } teardown).flatMap
      (refusedBy (prepare d options))
  edges : ∀ a ∈ (planBuild d options forward teardown).plan.actions, ∀ e ∈ a.dependsOn,
    e < a.id ∧ ∃ x ∈ (planBuild d options forward teardown).plan.actions, x.id = e

section Plan

variable (d : Document) (options : PlanOptions) (forward teardown : List Request)

theorem mem_unmanaged {x : Device} (hx : x ∈ d.devices) (h : x.managed = false) :
    x.name ∈ (prepare d options).unmanaged :=
  List.mem_map_of_mem (List.mem_filter.2 ⟨hx, by simp [h]⟩)

theorem mem_clearing {x : Device} (hx : x ∈ d.devices)
    (h : x.name ∈ (prepare d options).clearing) : x.onUnmanage = .clear := by
  obtain ⟨y, hy, hname⟩ := List.mem_map.1 h
  obtain ⟨hyd, hcond⟩ := List.mem_filter.1 hy
  have hxy : y = x := List.inj_on_of_nodup_map d.deviceNames hyd hx hname
  simp only [Bool.and_eq_true, decide_eq_true_eq] at hcond
  exact hxy ▸ hcond.2

/-- An unguarded disruption is allowed by name. -/
theorem allowed_of_unguarded {op : Op} (h : (prepare d options).guardOn op = none)
    (hop : op.isDisruptive) {i : Interface} (hi : i ∈ d.interfaces) (hg : i.guard.isSome)
    (hname : op.interface = some i.name) : i.name ∈ options.allowDisruption := by
  by_contra hnot
  obtain ⟨reason, hreason⟩ := Option.isSome_iff_exists.1 hg
  have hmem : Guard.mk i.name reason ∈ (prepare d options).guards :=
    List.mem_filterMap.2 ⟨i, hi, by simp [hreason]⟩
  simp only [Checks.guardOn, hop, if_true, hname, Option.bind_some] at h
  rw [if_neg (by exact hnot), List.find?_eq_none] at h
  exact h _ hmem (by simp)

/-- An operation no lock stops touches nothing locked. -/
theorem unlocked_of_lockOn {op : Op} (h : (prepare d options).lockOn op = none) {entry : String}
    (hentry : entry ∈ d.locked) : op.subject ≠ some (Op.bytes entry) := by
  intro hsubject
  simp only [Checks.lockOn, hsubject, Option.bind_some, List.find?_eq_none] at h
  exact h entry hentry (by simp)

theorem admitted_of_mem {a : Action}
    (ha : a ∈ (planBuild d options forward teardown).plan.actions) :
    (a ∈ (planForward d options forward).plan.actions ∧ Admitted (prepare d options) .new a.op) ∨
      ((planForward d options forward).plan.actions.length ≤ a.id ∧
        Admitted (prepare d options)
          { planForward d options forward with tearingDown := true } a.op) := by
  rcases (extends_run (prepare d options)
    { planForward d options forward with tearingDown := true } teardown).mem _ ha with ha | ha
  · refine Or.inl ⟨ha, ?_⟩
    rcases (extends_run (prepare d options) .new forward).mem _ ha with ha | ⟨-, ha⟩
    · exact absurd ha (by simp [Building.new, Plan.empty])
    · exact ha
  · exact Or.inr ha

/-- What stands in a built plan has passed the lock and the guard. -/
theorem checks_of_mem {a : Action} (ha : a ∈ (planBuild d options forward teardown).plan.actions) :
    (prepare d options).lockOn a.op = none ∧ (prepare d options).guardOn a.op = none := by
  rcases admitted_of_mem d options forward teardown ha with ⟨-, h⟩ | ⟨-, h⟩
  · exact ⟨h.unlocked, h.unguarded⟩
  · exact ⟨h.unlocked, h.unguarded⟩

theorem clear_of_admitted {b : Building} {op : Op} (h : Admitted (prepare d options) b op)
    {x : Device} (hx : x ∈ d.devices) (hmanaged : x.managed = false)
    (hname : op.interface = some x.name) : b.tearingDown ∧ x.onUnmanage = .clear := by
  have hover := h.notOver
  simp only [Checks.passesOver, hname, Option.any_some, decide_eq_false_iff_not, not_or] at hover
  have hclearing : b.tearingDown ∧ x.name ∈ (prepare d options).clearing := by
    by_contra hnot
    exact hover.1 ⟨mem_unmanaged d options hx hmanaged, hnot⟩
  exact ⟨hclearing.1, mem_clearing d options hx hclearing.2⟩

/-- A device that is not managed is only cleared, and only in the teardown. -/
theorem managed_of_mem {a : Action} (ha : a ∈ (planBuild d options forward teardown).plan.actions)
    {x : Device} (hx : x ∈ d.devices) (hmanaged : x.managed = false)
    (hname : a.op.interface = some x.name) :
    x.onUnmanage = .clear ∧ (planForward d options forward).plan.actions.length ≤ a.id := by
  rcases admitted_of_mem d options forward teardown ha with ⟨-, h⟩ | ⟨hid, h⟩
  · exact absurd (clear_of_admitted d options h hx hmanaged hname).1 (by simp [Building.new])
  · exact ⟨(clear_of_admitted d options h hx hmanaged hname).2, hid⟩

theorem not_declined {b : Building} {name : String} (hname : name ∈ b.declined) {op : Op}
    (h : Admitted (prepare d options) b op) : op.interface ≠ some name := by
  intro hop
  have hover := h.notOver
  simp only [Checks.passesOver, hop, Option.any_some, decide_eq_false_iff_not, not_or] at hover
  exact hover.2 hname

/-- A declined device gets nothing after it was declined. -/
theorem lt_of_declined {before after : List Request} {name : String}
    (hforward : forward = before ++ .decline name :: after) {a : Action}
    (ha : a ∈ (planBuild d options forward teardown).plan.actions)
    (hname : a.op.interface = some name) :
    a.id < (planForward d options before).plan.actions.length := by
  have hsplit : planForward d options forward =
      ((planForward d options before).step (prepare d options) (.decline name)).run
        (prepare d options) after := by
    rw [planForward, hforward]
    exact Trace.run_append _ _ _ _
  have hext := extends_run (prepare d options)
    ((planForward d options before).step (prepare d options) (.decline name)) after
  have hdeclined : name ∈ ((planForward d options before).step (prepare d options)
      (.decline name)).declined := List.mem_append_right _ (List.mem_singleton_self name)
  rcases admitted_of_mem d options forward teardown ha with ⟨ha, -⟩ | ⟨-, h⟩
  · rw [hsplit] at ha
    rcases hext.mem _ ha with ha | ⟨-, h⟩
    · obtain ⟨n, hn, rfl⟩ := List.getElem_of_mem ha
      rw [Plan.ids]
      exact hn
    · exact absurd hname (not_declined d options hdeclined h)
  · refine absurd hname (not_declined d options ?_ h)
    rw [hsplit]
    exact hext.declined hdeclined

/-- An action waits only for earlier actions of the plan. -/
theorem edges_of_mem {a : Action} (ha : a ∈ (planBuild d options forward teardown).plan.actions)
    {e : ℕ} (he : e ∈ a.dependsOn) :
    e < a.id ∧ ∃ x ∈ (planBuild d options forward teardown).plan.actions, x.id = e := by
  have hforward : Linked (planForward d options forward) := linked_new.run _ forward
  have hlinked : Linked (planBuild d options forward teardown) :=
    Linked.run (b := { planForward d options forward with tearingDown := true }) _
      ⟨hforward.edges, hforward.answers⟩ teardown
  have hlt : e < a.id := hlinked.edges a ha e he
  obtain ⟨n, hn, rfl⟩ := List.getElem_of_mem ha
  rw [Plan.ids] at hlt
  have hlength : e < (planBuild d options forward teardown).plan.actions.length := hlt.trans hn
  exact ⟨by rwa [Plan.ids], _, List.getElem_mem hlength, Plan.ids _ e hlength⟩

/-- The refusals of a build are those of its steps, in order. -/
theorem refusals_planBuild : (planBuild d options forward teardown).refusals.map Refusal.names =
    (Trace.steps (Building.step (prepare d options)) .new forward ++
      Trace.steps (Building.step (prepare d options))
        { planForward d options forward with tearingDown := true } teardown).flatMap
      (refusedBy (prepare d options)) := by
  rw [planBuild, refusals_run, planForward, refusals_run, List.flatMap_append]
  simp [Building.new]

/-- No pass can route around the guards : whatever the passes ask for, the plan respects the
guards, the locks, the unmanaged and the declined devices, says once what it refused, and has
no edge to an action it does not hold. -/
theorem planBuild_respects : Respects d options forward teardown where
  guarded _ ha hop _ hi hg hname :=
    allowed_of_unguarded d options (checks_of_mem d options forward teardown ha).2 hop hi hg hname
  unlocked _ ha _ hentry :=
    unlocked_of_lockOn d options (checks_of_mem d options forward teardown ha).1 hentry
  managed _ ha _ hx hmanaged hname :=
    managed_of_mem d options forward teardown ha hx hmanaged hname
  declined _ _ _ hforward _ ha hname :=
    lt_of_declined d options forward teardown hforward ha hname
  refusals := refusals_planBuild d options forward teardown
  edges _ ha _ he := edges_of_mem d options forward teardown ha he

end Plan

end Netcfgd
