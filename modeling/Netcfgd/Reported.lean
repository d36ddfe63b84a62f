import Netcfgd.Address
import Netcfgd.Convergence

/-!
# Reported addresses and routes

A tunnel or a bearer reports the addresses, the gateways and the routes it was given, as
texts (`ObservedReport`). The sources of `ncfg_plan_source` that `Convergence` leaves out are
here, the delegated and the reported ones, and with them the whole plan of addresses and
routes (`contentsPlan`), read through the codec of `value.c`.

The kernel here has spellings of its own : an address is held in the canonical one, a
destination with its host bits cleared and as `default` where it has no length, and a text it
cannot read is refused (`storedAddress`, `storedDestination`). `reported_settles_iff` is when
one plan settles an interface against it. A report whose text the kernel spells otherwise is
planned again for ever (`reported_host_bits_planned_again`).
-/

namespace Netcfgd

open Reconcile

/-! ## The sources of an interface -/

section Passes

variable (codec : AddressCodec) (b : Builder)

/-- Whether an address is observed on an interface, in whatever spelling. -/
def addressSeen (interface address : String) : Bool :=
  b.observed.addresses.any fun seen =>
    seen.interface = interface ∧ addressEqual codec seen.address address

/-- `ncfg_plan_delegated`. -/
def planDelegated (i : Interface) (index : ℕ) (ref : PrefixRef) (suffix : String) : List Planned :=
  match delegatedAddress codec b ref suffix with
  | none => []
  | some derived =>
    if addressSeen codec b i.name derived then []
    else
      push b
        { op := .addrAdd i.name derived none none
          reason := reasonAbsent i.name s!"addressing[{index}]" s!"{derived} (from {ref.source})"
          inverse := some (.addrDel i.name derived) }

/-- One address of `ncfg_plan_reported`. -/
def planReportedAddress (i : Interface) (index : ℕ) (address : String) : List Planned :=
  if addressSeen codec b i.name address then []
  else
    push b
      { op := .addrAdd i.name address none none
        reason := reasonAbsent i.name s!"addressing[{index}]" s!"{address} (reported)"
        inverse := some (.addrDel i.name address) }

/-- `ncfg_plan_reported` : every address of the report, unless it is there. -/
def planReported (i : Interface) (index : ℕ) : List Planned :=
  match b.observed.report i.name with
  | none => []
  | some report => report.addresses.flatMap (planReportedAddress codec b i index)

/-- `ncfg_plan_source`, of which the clients it starts change no address. -/
def planAnySource (i : Interface) (source : AddressSource × ℕ) : List Planned :=
  match source.1 with
  | .static address => planStatic b i source.2 address
  | .delegated ref suffix => planDelegated codec b i source.2 ref suffix
  | .reported => planReported codec b i source.2
  | .dhcp4 | .dhcp6 | .slaac _ | .linkLocal => []

/-- The addresses and the routes of one interface, as `ncfg_plan_interface_contents` walks
them. -/
def planContents (i : Interface) : List Planned :=
  if linkIsPlannable b i.name then
    i.addressing.zipIdx.flatMap (planAnySource codec b i) ++
      (routesFor codec b i).flatMap (planRoute b i)
  else []

/-- The address pass on the contents alone. -/
def contentsPlan : List Planned :=
  b.desired.interfaces.flatMap (planContents codec b) ++
    (teardownRoutes codec b ++ teardownAddresses codec b)

end Passes

/-! ## A kernel with its own spelling -/

def storedAddress (interface text : String) : Option ObservedAddress :=
  (Address.canonical text).map (addedAddress interface)

/-- A destination as the kernel keeps it. -/
def storedDestination (text : String) : Option String :=
  if text = "default" then some "default"
  else
    (Address.parse text).bind fun a =>
      a.length.map fun n => if n = 0 then "default" else a.masked.render

def storedRoute (interface : String) (r : Route) : Option ObservedRoute :=
  (storedDestination r.destination).map fun destination =>
    addedRoute interface { r with destination }

def storedAddressChange : Op → Option (Change ObservedAddress (String × String))
  | .addrAdd i a _ _ => (storedAddress i a).map .add
  | .addrDel i a => some (.remove (i, a))
  | _ => none

def storedRouteChange : Op → Option (Change ObservedRoute RouteKey)
  | .routeAdd i r => (storedRoute i r).map .add
  | .routeDel i r => some (.remove (addedRoute i r).id)
  | _ => none

def storeRun (o : Observed) (op : Op) : Observed :=
  { o with
    addresses := (storedAddressChange op).elim o.addresses
      (Change.apply ObservedAddress.id o.addresses)
    routes := (storedRouteChange op).elim o.routes (Change.apply ObservedRoute.id o.routes) }

/-- The store, on a plan. -/
def storeRunAll (plan : List Planned) (o : Observed) : Observed :=
  (plan.map Planned.op).foldl storeRun o

theorem foldl_storeRun : ∀ (ops : List Op) (o : Observed), ops.foldl storeRun o =
    { o with
      addresses := (ops.filterMap storedAddressChange).foldl (Change.apply ObservedAddress.id)
        o.addresses
      routes := (ops.filterMap storedRouteChange).foldl (Change.apply ObservedRoute.id) o.routes }
  | [], _ => rfl
  | op :: ops, o => by
    rw [List.foldl_cons, foldl_storeRun ops]
    simp only [storeRun, List.filterMap_cons]
    rcases storedAddressChange op with _ | _ <;> rcases storedRouteChange op with _ | _ <;> rfl

/-! ## Wants -/

/-- An address an interface wants : as it is written, or in any spelling. -/
inductive WantedAddress
  | exactly (address : StaticAddress)
  | anySpelling (text : String)

def WantedAddress.text : WantedAddress → String
  | exactly address => address.address
  | anySpelling text => text

def WantedAddress.isHeldAs (held : String) : WantedAddress → Bool
  | exactly address => held = address.address
  | anySpelling text => addressEqual valueCodec held text

def WantedAddress.op (interface : String) : WantedAddress → Op
  | exactly a => .addrAdd interface a.address a.preferredLifetime a.validLifetime
  | anySpelling text => .addrAdd interface text none none

section Wants

variable (b : Builder)

def wantedOf (i : Interface) : AddressSource → List WantedAddress
  | .static address => [.exactly address]
  | .delegated ref suffix => (delegatedAddress valueCodec b ref suffix).toList.map .anySpelling
  | .reported => (b.observed.report i.name).toList.flatMap fun r => r.addresses.map .anySpelling
  | _ => []

def contentsWantsOf (i : Interface) : List (String × WantedAddress) :=
  if linkIsPlannable b i.name then
    i.addressing.flatMap fun source => (wantedOf b i source).map (i.name, ·)
  else []

/-- What the contents want of addresses. -/
def contentsWants : List (String × WantedAddress) :=
  b.desired.interfaces.flatMap (contentsWantsOf b)

/-- The addresses as a store. -/
def addressStore : Stored (String × WantedAddress) ObservedAddress (String × String) where
  key := ObservedAddress.id
  entry w := storedAddress w.1 w.2.text
  covers w e := e.interface = w.1 ∧ w.2.isHeldAs e.address
  removable e := fromConfig e.origin e.ownership && e.interface ∉ b.declined
  keeps := addressWanted valueCodec b

/-- The routes as a store. -/
def routeStore : Stored (String × Route) ObservedRoute RouteKey where
  key := ObservedRoute.id
  entry w := storedRoute w.1 w.2
  covers w e := e.interface = w.1 ∧ routeMatches w.2 e
  removable e := fromConfig e.origin e.ownership && e.interface ∉ b.declined
  keeps := routeWanted valueCodec b

end Wants

/-! ## The two halves agree -/

section Agree

variable (b : Builder)

theorem addressEqual_comm (codec : AddressCodec) (left right : String) :
    addressEqual codec left right = addressEqual codec right left := by
  unfold addressEqual
  rcases codec.canonical left with _ | first <;> rcases codec.canonical right with _ | second <;>
    simp [eq_comm]

theorem canonical_of_isHeldAs {held : String} (hheld : Address.canonical held = some held)
    {w : WantedAddress} (h : w.isHeldAs held) : Address.canonical w.text = some held := by
  cases w with
  | exactly address =>
    obtain rfl : held = address.address := by simpa [WantedAddress.isHeldAs] using h
    exact hheld
  | anySpelling text =>
    simp only [WantedAddress.isHeldAs, addressEqual, valueCodec, hheld] at h
    rcases hc : Address.canonical text with _ | c
    · rw [hc] at h
      obtain rfl : held = text := by simpa using h
      rw [hheld] at hc
      cases hc
    · rw [hc] at h
      obtain rfl : held = c := by simpa using h
      exact hc

theorem storedAddress_eq_some {interface text : String} {e : ObservedAddress}
    (h : storedAddress interface text = some e) :
    e.interface = interface ∧ Address.canonical text = some e.address ∧
      Address.canonical e.address = some e.address := by
  obtain ⟨c, hc, rfl⟩ := Option.map_eq_some_iff.1 h
  exact ⟨rfl, hc, Address.canonical_canonical hc⟩

theorem storedDestination_default : storedDestination "default" = some "default" :=
  if_pos rfl

theorem storedDestination_stored {text destination : String}
    (h : storedDestination text = some destination) :
    storedDestination destination = some destination := by
  unfold storedDestination at h
  split_ifs at h with hdefault
  · obtain rfl := Option.some.inj h
    exact storedDestination_default
  · obtain ⟨a, -, ha⟩ := Option.bind_eq_some_iff.1 h
    obtain ⟨n, hn, rfl⟩ := Option.map_eq_some_iff.1 ha
    by_cases hzero : n = 0
    · rw [if_pos hzero]
      exact storedDestination_default
    · rw [if_neg hzero]
      unfold storedDestination
      split_ifs with hword
      · rw [hword]
      · have hlength : a.masked.length = some n := hn
        simp [Address.parse_render, hlength, hzero, Address.masked_masked]

theorem storedRoute_eq_some {interface : String} {r : Route} {e : ObservedRoute}
    (h : storedRoute interface r = some e) :
    e.interface = interface ∧ storedDestination r.destination = some e.destination ∧
      storedDestination e.destination = some e.destination := by
  obtain ⟨destination, hd, rfl⟩ := Option.map_eq_some_iff.1 h
  exact ⟨rfl, hd, storedDestination_stored hd⟩

theorem sourceWants_of_mem {i : Interface} {source : AddressSource} {w : WantedAddress}
    (hw : w ∈ wantedOf b i source) {e : ObservedAddress} (hi : e.interface = i.name)
    (he : w.isHeldAs e.address) : sourceWants valueCodec b e source := by
  cases source with
  | static address =>
    obtain rfl := List.mem_singleton.1 hw
    simpa [sourceWants, WantedAddress.isHeldAs, eq_comm] using he
  | delegated ref suffix =>
    obtain ⟨derived, hd, rfl⟩ := List.mem_map.1 hw
    simp only [sourceWants, Option.mem_toList.1 hd, Option.any_some,
      addressEqual_comm valueCodec derived]
    exact he
  | reported =>
    obtain ⟨report, hr, hw⟩ := List.mem_flatMap.1 hw
    obtain ⟨text, ht, rfl⟩ := List.mem_map.1 hw
    simp only [sourceWants, reportedHolds, hi, Option.mem_toList.1 hr, Option.any_some,
      List.any_eq_true]
    exact ⟨text, ht, by rw [addressEqual_comm]; exact he⟩
  | _ => simp [wantedOf] at hw

theorem mem_contentsWants {w : String × WantedAddress} (hw : w ∈ contentsWants b) :
    ∃ i ∈ b.desired.interfaces, i.name = w.1 ∧ linkIsPlannable b i.name ∧
      ∃ source ∈ i.addressing, w.2 ∈ wantedOf b i source := by
  obtain ⟨i, hi, hw⟩ := List.mem_flatMap.1 hw
  unfold contentsWantsOf at hw
  split_ifs at hw with hplan
  · obtain ⟨source, hs, hw⟩ := List.mem_flatMap.1 hw
    obtain ⟨x, hx, rfl⟩ := List.mem_map.1 hw
    exact ⟨i, hi, rfl, hplan, source, hs, hx⟩
  · simp at hw

theorem addressStore_lawful : (addressStore b).Lawful (contentsWants b) where
  covers_key w e e' h := by
    simp only [addressStore, ObservedAddress.id, Prod.mk.injEq] at h ⊢
    simp [h.1, h.2]
  keeps_key := (addressPolicy_lawful valueCodec b).keeps_key
  keeps_of_covers w hw e hc := by
    obtain ⟨i, hi, hname, -, source, hs, hx⟩ := mem_contentsWants b hw
    simp only [addressStore, decide_eq_true_eq] at hc
    simp only [addressStore, addressWanted, hc.1, ← hname, b.desired.interface_of_mem hi,
      Option.any_some, List.any_eq_true]
    exact ⟨source, hs, sourceWants_of_mem b hx (hc.1.trans hname.symm) hc.2⟩
  answered w w' e he hc := by
    obtain ⟨-, -, hcanonical⟩ := storedAddress_eq_some he
    simp only [addressStore, decide_eq_true_eq] at hc ⊢
    refine ⟨addedAddress w.1 e.address, ?_, rfl, hc.2⟩
    rw [storedAddress, canonical_of_isHeldAs hcanonical hc.2, Option.map_some]

theorem routeStore_lawful : (routeStore b).Lawful (routeWants valueCodec b) where
  covers_key := (routePolicy_lawful valueCodec b).covers_key
  keeps_key := (routePolicy_lawful valueCodec b).keeps_key
  keeps_of_covers := (routePolicy_lawful valueCodec b).keeps_of_covers
  answered w w' e he hc := by
    obtain ⟨-, -, hstored⟩ := storedRoute_eq_some he
    simp only [routeStore, decide_eq_true_eq] at hc ⊢
    have hdestination : w.2.destination = e.destination := by
      have := hc.2
      simp only [routeMatches, decide_eq_true_eq] at this
      exact this.1
    refine ⟨addedRoute w.1 w.2, ?_, rfl, routeMatches_addedRoute w.1 w.2⟩
    rw [storedRoute, hdestination, hstored, Option.map_some, ← hdestination]

end Agree

/-! ## The passes as changes -/

section Forward

variable (d : Document) (o : Observed)

theorem covers_exactly (b : Builder) (name : String) (address : StaticAddress) :
    (addressStore b).covers (name, .exactly address) =
      (addressPolicy valueCodec b).covers (name, address) := by
  funext e
  simp [addressStore, addressPolicy, WantedAddress.isHeldAs]

theorem map_op_planAnySource {i : Interface} (hi : linkIsPlannable (builderOf d o) i.name)
    (source : AddressSource × ℕ) :
    (planAnySource valueCodec (builderOf d o) i source).map Planned.op =
      ((addressStore (builderOf d o)).pending
        ((wantedOf (builderOf d o) i source.1).map (i.name, ·)) o.addresses).map
          fun w => w.2.op w.1 := by
  rw [Stored.map_pending]
  obtain ⟨source, index⟩ := source
  cases source with
  | static address =>
    simp only [planAnySource, wantedOf, List.flatMap_singleton, covers_exactly,
      map_op_planStatic valueCodec d o hi]
    rfl
  | delegated ref suffix =>
    simp only [planAnySource, planDelegated, wantedOf]
    rcases delegatedAddress valueCodec (builderOf d o) ref suffix with _ | derived
    · rfl
    · dsimp only
      rw [push_of_plannable d o rfl hi, apply_ite (List.map Planned.op)]
      simp only [Option.toList_some, List.map_singleton, List.flatMap_singleton]
      rfl
  | reported =>
    simp only [planAnySource, planReported, wantedOf]
    rcases (builderOf d o).observed.report i.name with _ | report
    · rfl
    · simp only [Option.toList_some, List.flatMap_singleton, List.flatMap_map, List.map_flatMap]
      refine congrArg (List.flatMap · report.addresses) (funext fun text => ?_)
      rw [planReportedAddress, push_of_plannable d o rfl hi, apply_ite (List.map Planned.op)]
      rfl
  | _ => rfl

theorem map_op_planContents (i : Interface) :
    (planContents valueCodec (builderOf d o) i).map Planned.op =
      ((addressStore (builderOf d o)).pending (contentsWantsOf (builderOf d o) i)
        o.addresses).map (fun w => w.2.op w.1) ++
      ((routeStore (builderOf d o)).pending (routeWantsOf valueCodec (builderOf d o) i)
        o.routes).map (fun w => Op.routeAdd w.1 w.2) := by
  unfold planContents contentsWantsOf routeWantsOf
  by_cases hi : linkIsPlannable (builderOf d o) i.name
  · rw [if_pos hi, if_pos hi, List.map_append, List.map_flatMap, List.map_flatMap,
      Stored.pending_flatMap, List.map_flatMap, funext (map_op_planAnySource d o hi),
      flatMap_zipIdx_fst (fun source => ((addressStore (builderOf d o)).pending
        ((wantedOf (builderOf d o) i source).map (i.name, ·)) o.addresses).map
          fun w => w.2.op w.1)]
    refine congrArg₂ _ rfl ?_
    by_cases hw : withheld (builderOf d o) i
    · simp [map_op_planRoute valueCodec d o hi, hi, hw, Stored.pending]
    · rw [if_pos (by simp [hi, hw]), Stored.map_pending]
      simp only [map_op_planRoute valueCodec d o hi, if_neg hw]
      rfl
  · rw [if_neg hi, if_neg hi, if_neg (by simp [hi])]
    rfl

theorem map_op_contentsPlan :
    (contentsPlan valueCodec (builderOf d o)).map Planned.op =
      d.interfaces.flatMap (fun i =>
        ((addressStore (builderOf d o)).pending (contentsWantsOf (builderOf d o) i)
          o.addresses).map (fun w => w.2.op w.1) ++
        ((routeStore (builderOf d o)).pending (routeWantsOf valueCodec (builderOf d o) i)
          o.routes).map (fun w => Op.routeAdd w.1 w.2)) ++
      (((routeStore (builderOf d o)).surplus o.routes).map
        (fun e => Op.routeDel e.interface e.model) ++
        ((addressStore (builderOf d o)).surplus o.addresses).map
          fun e => Op.addrDel e.interface e.address) := by
  rw [contentsPlan, List.map_append, List.map_append, List.map_flatMap, map_op_teardownRoutes,
    map_op_teardownAddresses, funext (map_op_planContents d o)]
  rfl

theorem storedAddressChange_plan :
    ((contentsPlan valueCodec (builderOf d o)).map Planned.op).filterMap storedAddressChange =
      (addressStore (builderOf d o)).changes (contentsWants (builderOf d o)) o.addresses := by
  have hop : ∀ w : String × WantedAddress,
      storedAddressChange (w.2.op w.1) = ((addressStore (builderOf d o)).entry w).map .add := by
    rintro ⟨name, address | text⟩ <;> rfl
  rw [map_op_contentsPlan, List.filterMap_append, List.filterMap_append, List.filterMap_flatMap,
    Stored.changes, contentsWants, Stored.pending_flatMap, List.filterMap_flatMap,
    List.map_flatMap]
  have hroutes : (((routeStore (builderOf d o)).surplus o.routes).map
      fun e => Op.routeDel e.interface e.model).filterMap storedAddressChange = [] := by
    rw [List.filterMap_map]
    exact List.filterMap_eq_nil_iff.2 fun _ _ => rfl
  have haddresses : (((addressStore (builderOf d o)).surplus o.addresses).map
      fun e => Op.addrDel e.interface e.address).filterMap storedAddressChange =
        ((addressStore (builderOf d o)).surplus o.addresses).map fun e => .remove e.id := by
    rw [List.filterMap_map, ← List.filterMap_eq_map]
    rfl
  rw [hroutes, haddresses, List.nil_append]
  refine congrArg₂ _ (congrArg (List.flatMap · d.interfaces) (funext fun i => ?_)) rfl
  have hnone : (((routeStore (builderOf d o)).pending (routeWantsOf valueCodec (builderOf d o) i)
      o.routes).map fun w => Op.routeAdd w.1 w.2).filterMap storedAddressChange = [] := by
    rw [List.filterMap_map]
    exact List.filterMap_eq_nil_iff.2 fun _ _ => rfl
  rw [List.filterMap_append, hnone, List.append_nil, List.filterMap_map, List.map_filterMap]
  exact congrArg (List.filterMap · _) (funext hop)

theorem storedRouteChange_plan :
    ((contentsPlan valueCodec (builderOf d o)).map Planned.op).filterMap storedRouteChange =
      (routeStore (builderOf d o)).changes (routeWants valueCodec (builderOf d o)) o.routes := by
  rw [map_op_contentsPlan, List.filterMap_append, List.filterMap_append, List.filterMap_flatMap,
    Stored.changes, routeWants, Stored.pending_flatMap, List.filterMap_flatMap,
    List.map_flatMap]
  have haddresses : (((addressStore (builderOf d o)).surplus o.addresses).map
      fun e => Op.addrDel e.interface e.address).filterMap storedRouteChange = [] := by
    rw [List.filterMap_map]
    exact List.filterMap_eq_nil_iff.2 fun _ _ => rfl
  have hroutes : (((routeStore (builderOf d o)).surplus o.routes).map
      fun e => Op.routeDel e.interface e.model).filterMap storedRouteChange =
        ((routeStore (builderOf d o)).surplus o.routes).map fun e => .remove e.id := by
    rw [List.filterMap_map, ← List.filterMap_eq_map]
    rfl
  rw [hroutes, haddresses, List.append_nil]
  refine congrArg₂ _ (congrArg (List.flatMap · d.interfaces) (funext fun i => ?_)) rfl
  have hnone : (((addressStore (builderOf d o)).pending (contentsWantsOf (builderOf d o) i)
      o.addresses).map fun w => w.2.op w.1).filterMap storedRouteChange = [] := by
    rw [List.filterMap_map]
    refine List.filterMap_eq_nil_iff.2 ?_
    rintro ⟨name, address | text⟩ - <;> rfl
  rw [List.filterMap_append, hnone, List.nil_append, List.filterMap_map, List.map_filterMap]
  rfl

end Forward

/-! ## Planning again -/

/-- The text of a destination without the white space around it. -/
def trimmed (text : String) : String :=
  String.ofList ((text.toList.dropWhile isBlank).reverse.dropWhile isBlank).reverse

/-- A destination the kernel holds as the planner reads it : one of the three spellings of the
default route, or a network with a length and no host bits. -/
def KeptAsRead (text : String) : Prop :=
  (trimmed text = "default" ∨ trimmed text = "0.0.0.0/0" ∨ trimmed text = "::/0") ∨
    ∀ a n, Address.parse (trimmed text) = some a → a.length = some n → n ≠ 0 ∧ a.masked = a

/-- A wanted route that is seen. -/
def RouteSeen (b : Builder) (i : Interface) (r : Route) : Prop :=
  ∃ seen ∈ b.observed.routes, seen.interface = i.name ∧ routeMatches (withMetric b r i) seen

/-- What an interface asks for and does not have, the kernel holds as it is asked for. -/
structure SpelledAsHeld (b : Builder) (i : Interface) : Prop where
  static : ∀ a, .static a ∈ i.addressing →
    (∃ seen ∈ b.observed.addresses, seen.interface = i.name ∧ seen.address = a.address) ∨
      Address.canonical a.address = some a.address
  reported : .reported ∈ i.addressing → ∀ report, b.observed.report i.name = some report →
    ∀ text ∈ report.addresses, addressSeen valueCodec b i.name text ∨ (Address.parse text).isSome
  routes : withheld b i = false → ∀ r ∈ i.routes,
    RouteSeen b i r ∨ storedDestination r.destination = some r.destination
  reportedRoutes : withheld b i = false → takesReports b.desired i →
    ∀ report, b.observed.report i.name = some report → ∀ r ∈ report.routes,
      ∀ route, reportedRoute valueCodec r = some route →
        RouteSeen b i route ∨ KeptAsRead r.destination

/-- One plan settles an interface : the plan made from what it left has no address and no
route op for it, and what the forward pass counts as there is what the teardown keeps. -/
structure Settles (d : Document) (o : Observed) (i : Interface) : Prop where
  quiet : ∀ p ∈ contentsPlan valueCodec
    (builderOf d (storeRunAll (contentsPlan valueCodec (builderOf d o)) o)),
      p.op.interface ≠ some i.name
  addresses : linkIsPlannable (builderOf d o) i.name → ∀ seen : ObservedAddress,
    seen.interface = i.name → (addressWanted valueCodec (builderOf d o) seen ↔
      ∃ source ∈ i.addressing, ∃ w ∈ wantedOf (builderOf d o) i source, w.isHeldAs seen.address)
  routes : ∀ seen : ObservedRoute, seen.interface = i.name →
    (routeWanted valueCodec (builderOf d o) seen ↔ withheld (builderOf d o) i = false ∧
      ∃ r ∈ routesFor valueCodec (builderOf d o) i,
      routeMatches (withMetric (builderOf d o) r i) seen)

section Again

variable (b : Builder)

theorem address_covers_iff (name : String) (w : WantedAddress) (e : ObservedAddress) :
    (addressStore b).covers (name, w) e ↔ e.interface = name ∧ w.isHeldAs e.address :=
  decide_eq_true_iff

/-- What the kernel makes of a wanted address is that address, for one as it is written where
it is written as the kernel spells it, and in any spelling where there is one. -/
theorem entry_covers_iff (name : String) (w : WantedAddress) :
    (∃ e, (addressStore b).entry (name, w) = some e ∧ (addressStore b).covers (name, w) e) ↔
      ∃ c, Address.canonical w.text = some c ∧ w.isHeldAs c := by
  constructor
  · rintro ⟨e, he, hc⟩
    simp only [addressStore, decide_eq_true_eq] at hc
    exact ⟨e.address, (storedAddress_eq_some he).2.1, hc.2⟩
  · rintro ⟨c, hc, hheld⟩
    refine ⟨addedAddress name c, ?_, ?_⟩
    · simp [addressStore, storedAddress, hc]
    · simpa [addressStore, addedAddress] using hheld

theorem held_exactly_iff (a : StaticAddress) :
    (∃ c, Address.canonical (WantedAddress.exactly a).text = some c ∧
      (WantedAddress.exactly a).isHeldAs c) ↔ Address.canonical a.address = some a.address := by
  simp [WantedAddress.text, WantedAddress.isHeldAs]

theorem held_anySpelling_iff (text : String) :
    (∃ c, Address.canonical (WantedAddress.anySpelling text).text = some c ∧
      (WantedAddress.anySpelling text).isHeldAs c) ↔ (Address.parse text).isSome := by
  simp only [WantedAddress.text, WantedAddress.isHeldAs, addressEqual, valueCodec]
  constructor
  · rintro ⟨c, hc, -⟩
    obtain ⟨a, ha, -⟩ := Option.map_eq_some_iff.1 hc
    simp [ha]
  · intro h
    obtain ⟨a, ha⟩ := Option.isSome_iff_exists.1 h
    have hc : Address.canonical text = some a.render := by simp [Address.canonical, ha]
    exact ⟨a.render, hc, by simp [hc, Address.canonical_canonical hc]⟩

theorem route_entry_covers_iff (w : String × Route) :
    (∃ e, (routeStore b).entry w = some e ∧ (routeStore b).covers w e) ↔
      storedDestination w.2.destination = some w.2.destination := by
  constructor
  · rintro ⟨e, he, hc⟩
    simp only [routeStore, routeMatches, decide_eq_true_eq] at hc
    rw [hc.2.1]
    exact (storedRoute_eq_some he).2.2
  · intro h
    refine ⟨addedRoute w.1 w.2, ?_, ?_⟩
    · simp [routeStore, storedRoute, h]
    · simp only [routeStore, decide_eq_true_eq]
      exact ⟨rfl, routeMatches_addedRoute w.1 w.2⟩

theorem destinationOf_eq (codec : AddressCodec) (text : String) :
    destinationOf codec text =
      if (trimmed text).utf8ByteSize = 0 ∨ addressMax ≤ (trimmed text).utf8ByteSize then none
      else if trimmed text = "default" ∨ trimmed text = "0.0.0.0/0" ∨ trimmed text = "::/0" then
        some "default"
      else codec.network (trimmed text) := by
  unfold destinationOf trimmed
  rfl

theorem storedDestination_iff {text destination : String}
    (h : destinationOf valueCodec text = some destination) :
    storedDestination destination = some destination ↔ KeptAsRead text := by
  rw [destinationOf_eq] at h
  unfold KeptAsRead
  split_ifs at h with hsize hword
  · obtain rfl := Option.some.inj h
    exact ⟨fun _ => Or.inl hword, fun _ => storedDestination_default⟩
  · simp only [valueCodec, Address.withLength] at h
    obtain ⟨a, ha, hrender⟩ := Option.bind_eq_some_iff.1 h
    rcases hn : a.length with _ | n
    · simp [hn] at hrender
    · obtain rfl : a.render = destination := by simpa [hn] using hrender
      have hdefault : a.render ≠ "default" := by
        intro heq
        have hparse := Address.parse_render a
        rw [heq, show Address.parse "default" = none by decide +kernel] at hparse
        cases hparse
      have hinj : a.masked.render = a.render ↔ a.masked = a := by
        refine ⟨fun heq => ?_, fun heq => by rw [heq]⟩
        have hparse := Address.parse_render a.masked
        rw [heq, Address.parse_render] at hparse
        exact (Option.some.inj hparse).symm
      have hstored : storedDestination a.render =
          some (if n = 0 then "default" else a.masked.render) := by
        simp only [storedDestination, if_neg hdefault, Address.parse_render, Option.bind_some, hn,
          Option.map_some]
      have hkept : storedDestination a.render = some a.render ↔ n ≠ 0 ∧ a.masked = a := by
        rw [hstored, Option.some.injEq, ← hinj]
        by_cases hzero : n = 0
        · simp [hzero, hdefault.symm]
        · simp [hzero]
      rw [hkept, or_iff_right hword]
      constructor
      · rintro hna a' n' ha' hn'
        obtain rfl := Option.some.inj (ha.symm.trans ha')
        obtain rfl := Option.some.inj (hn.symm.trans hn')
        exact hna
      · exact fun hall => hall a n ha hn

theorem withMetric_destination (r : Route) (i : Interface) :
    (withMetric b r i).destination = r.destination := by
  unfold withMetric
  split_ifs
  · rfl
  · split <;> rfl

variable {i : Interface}

theorem mem_contentsWants_iff (hi : i ∈ b.desired.interfaces) {w : WantedAddress} :
    (i.name, w) ∈ contentsWants b ↔ linkIsPlannable b i.name ∧
      ∃ source ∈ i.addressing, w ∈ wantedOf b i source := by
  constructor
  · intro hw
    obtain ⟨i', hi', hname, hplan, source, hs, hx⟩ := mem_contentsWants b hw
    obtain rfl : i' = i := List.inj_on_of_nodup_map b.desired.names hi' hi hname
    exact ⟨hplan, source, hs, hx⟩
  · rintro ⟨hplan, source, hs, hx⟩
    refine List.mem_flatMap.2 ⟨i, hi, ?_⟩
    rw [contentsWantsOf, if_pos hplan]
    exact List.mem_flatMap.2 ⟨source, hs, List.mem_map.2 ⟨w, hx, rfl⟩⟩

theorem mem_routeWants_iff (hi : i ∈ b.desired.interfaces) {r : Route} :
    (i.name, r) ∈ routeWants valueCodec b ↔ linkIsPlannable b i.name ∧ withheld b i = false ∧
      ∃ r' ∈ routesFor valueCodec b i, withMetric b r' i = r := by
  constructor
  · intro hw
    obtain ⟨i', hi', hw⟩ := List.mem_flatMap.1 hw
    unfold routeWantsOf at hw
    split_ifs at hw with h
    · obtain ⟨r', hr, heq⟩ := List.mem_map.1 hw
      obtain ⟨hname, rfl⟩ := Prod.mk.inj heq
      obtain rfl : i' = i := List.inj_on_of_nodup_map b.desired.names hi' hi hname
      simp only [Bool.and_eq_true, Bool.not_eq_true'] at h
      exact ⟨h.1, h.2, r', hr, rfl⟩
    · simp at hw
  · rintro ⟨hplan, hheld, r', hr, rfl⟩
    refine List.mem_flatMap.2 ⟨i, hi, ?_⟩
    rw [routeWantsOf, if_pos (by simp [hplan, hheld])]
    exact List.mem_map_of_mem hr

/-- Each wanted address has its answer where it is seen or in the spelling the kernel gives. -/
theorem addresses_answered_iff (hi : i ∈ b.desired.interfaces) :
    (∀ w ∈ contentsWants b, w.1 = i.name →
        (∃ e ∈ b.observed.addresses, (addressStore b).covers w e) ∨
          ∃ e, (addressStore b).entry w = some e ∧ (addressStore b).covers w e) ↔
      (linkIsPlannable b i.name →
        (∀ a, .static a ∈ i.addressing →
          (∃ seen ∈ b.observed.addresses, seen.interface = i.name ∧ seen.address = a.address) ∨
            Address.canonical a.address = some a.address) ∧
        (.reported ∈ i.addressing → ∀ report, b.observed.report i.name = some report →
          ∀ text ∈ report.addresses,
            addressSeen valueCodec b i.name text ∨ (Address.parse text).isSome)) := by
  have hwants : (∀ w ∈ contentsWants b, w.1 = i.name →
        (∃ e ∈ b.observed.addresses, (addressStore b).covers w e) ∨
          ∃ e, (addressStore b).entry w = some e ∧ (addressStore b).covers w e) ↔
      (linkIsPlannable b i.name → ∀ source ∈ i.addressing, ∀ w ∈ wantedOf b i source,
        (∃ e ∈ b.observed.addresses, (addressStore b).covers (i.name, w) e) ∨
          ∃ c, Address.canonical w.text = some c ∧ w.isHeldAs c) := by
    constructor
    · intro h hplan source hs w hw
      rw [← entry_covers_iff b i.name]
      exact h _ ((mem_contentsWants_iff b hi).2 ⟨hplan, source, hs, hw⟩) rfl
    · rintro h ⟨name, w⟩ hw rfl
      obtain ⟨hplan, source, hs, hw⟩ := (mem_contentsWants_iff b hi).1 hw
      rw [entry_covers_iff]
      exact h hplan source hs w hw
  rw [hwants]
  refine imp_congr_right fun hplan =>
    ⟨fun h => ⟨fun a ha => ?_, fun hr report hreport text ht => ?_⟩,
    fun h source hs w hw => ?_⟩
  · have := h _ ha _ (List.mem_singleton_self _)
    rw [held_exactly_iff, covers_exactly] at this
    simpa [addressPolicy] using this
  · have := h _ hr (.anySpelling text)
      (List.mem_flatMap.2 ⟨report, by simp [hreport], List.mem_map_of_mem ht⟩)
    rw [held_anySpelling_iff] at this
    simp only [address_covers_iff, WantedAddress.isHeldAs] at this
    simpa [addressSeen] using this
  · cases source with
    | static a =>
      obtain rfl := List.mem_singleton.1 hw
      rw [held_exactly_iff, covers_exactly]
      simpa [addressPolicy] using h.1 a hs
    | delegated ref suffix =>
      -- what a delegation gives is rendered, and so canonical
      obtain ⟨derived, hd, rfl⟩ := List.mem_map.1 hw
      obtain ⟨delegation, -, hd⟩ := Option.bind_eq_some_iff.1 (Option.mem_toList.1 hd)
      split_ifs at hd
      obtain ⟨block, -, hd⟩ := Option.bind_eq_some_iff.1 hd
      have hcanonical : Address.canonical derived = some derived :=
        Address.canonical_fromDelegation hd
      refine Or.inr ⟨derived, hcanonical, ?_⟩
      simp [WantedAddress.isHeldAs, addressEqual, valueCodec, hcanonical]
    | reported =>
      obtain ⟨report, hr, hw⟩ := List.mem_flatMap.1 hw
      obtain ⟨text, ht, rfl⟩ := List.mem_map.1 hw
      rw [held_anySpelling_iff]
      simp only [address_covers_iff, WantedAddress.isHeldAs]
      simpa [addressSeen] using h.2 hs report (Option.mem_toList.1 hr) text ht
    | _ => simp [wantedOf] at hw

theorem reportedRoute_destination {r : ReportedRoute} {route : Route}
    (h : reportedRoute valueCodec r = some route) :
    destinationOf valueCodec r.destination = some route.destination := by
  obtain ⟨destination, hd, h⟩ := Option.bind_eq_some_iff.1 h
  rw [hd]
  split at h
  · obtain rfl := Option.some.inj h
    rfl
  · obtain ⟨via, -, rfl⟩ := Option.map_eq_some_iff.1 h
    rfl

/-- Each wanted route has its answer where it is seen or in the spelling the kernel gives. -/
theorem routes_answered_iff (hi : i ∈ b.desired.interfaces) :
    (∀ w ∈ routeWants valueCodec b, w.1 = i.name →
        (∃ e ∈ b.observed.routes, (routeStore b).covers w e) ∨
          ∃ e, (routeStore b).entry w = some e ∧ (routeStore b).covers w e) ↔
      (linkIsPlannable b i.name →
        (withheld b i = false → ∀ r ∈ i.routes,
          RouteSeen b i r ∨ storedDestination r.destination = some r.destination) ∧
        (withheld b i = false → takesReports b.desired i →
          ∀ report, b.observed.report i.name = some report → ∀ r ∈ report.routes,
            ∀ route, reportedRoute valueCodec r = some route →
              RouteSeen b i route ∨ KeptAsRead r.destination)) := by
  have hwants : (∀ w ∈ routeWants valueCodec b, w.1 = i.name →
        (∃ e ∈ b.observed.routes, (routeStore b).covers w e) ∨
          ∃ e, (routeStore b).entry w = some e ∧ (routeStore b).covers w e) ↔
      (linkIsPlannable b i.name → withheld b i = false → ∀ r ∈ routesFor valueCodec b i,
        RouteSeen b i r ∨ storedDestination r.destination = some r.destination) := by
    constructor
    · intro h hplan hheld r hr
      have := h _ ((mem_routeWants_iff b hi).2 ⟨hplan, hheld, r, hr, rfl⟩) rfl
      rw [route_entry_covers_iff, withMetric_destination] at this
      simpa [routeStore, RouteSeen] using this
    · rintro h ⟨name, r⟩ hw rfl
      obtain ⟨hplan, hheld, r, hr, rfl⟩ := (mem_routeWants_iff b hi).1 hw
      rw [route_entry_covers_iff, withMetric_destination]
      simpa [routeStore, RouteSeen] using h hplan hheld r hr
  rw [hwants]
  refine imp_congr_right fun hplan => ⟨fun h => ⟨fun hheld r hr => ?_,
    fun hheld htakes report hreport r hr route hroute => ?_⟩, fun h hheld r hr => ?_⟩
  · exact h hheld r (List.mem_append_left _ hr)
  · rw [← storedDestination_iff (reportedRoute_destination hroute)]
    refine h hheld route (List.mem_append_right _ ?_)
    simp only [htakes, if_true, hreport]
    exact List.mem_append_right _ (List.mem_filterMap.2 ⟨r, hr, hroute⟩)
  · rcases List.mem_append.1 hr with hr | hr
    · exact h.1 hheld r hr
    · split_ifs at hr with htakes
      · rcases hreport : b.observed.report i.name with _ | report
        · simp [hreport] at hr
        · simp only [hreport] at hr
          rcases List.mem_append.1 hr with hr | hr
          · -- a gateway asks for the default route
            obtain ⟨gateway, -, hg⟩ := List.mem_filterMap.1 hr
            obtain ⟨via, -, rfl⟩ := Option.map_eq_some_iff.1 hg
            exact Or.inr storedDestination_default
          · obtain ⟨x, hx, hroute⟩ := List.mem_filterMap.1 hr
            rw [storedDestination_iff (reportedRoute_destination hroute)]
            exact h.2 hheld htakes report hreport x hx r hroute
      · simp at hr

theorem quiet_plan_iff (d : Document) (o : Observed) (name : String) :
    (∀ p ∈ contentsPlan valueCodec (builderOf d o), p.op.interface ≠ some name) ↔
      ((∀ w ∈ (addressStore (builderOf d o)).pending (contentsWants (builderOf d o)) o.addresses,
          ¬w.1 = name) ∧
        ∀ e ∈ (addressStore (builderOf d o)).surplus o.addresses, ¬e.interface = name) ∧
      ((∀ w ∈ (routeStore (builderOf d o)).pending (routeWants valueCodec (builderOf d o)) o.routes,
          ¬w.1 = name) ∧
        ∀ e ∈ (routeStore (builderOf d o)).surplus o.routes, ¬e.interface = name) := by
  have hmap : (∀ p ∈ contentsPlan valueCodec (builderOf d o), p.op.interface ≠ some name) ↔
      ∀ op ∈ (contentsPlan valueCodec (builderOf d o)).map Planned.op,
        op.interface ≠ some name := by
    simp
  have hop : ∀ w : String × WantedAddress, (w.2.op w.1).interface = some w.1 := by
    rintro ⟨name, address | text⟩ <;> rfl
  rw [hmap, map_op_contentsPlan, contentsWants, routeWants, Stored.pending_flatMap,
    Stored.pending_flatMap]
  constructor
  · intro h
    refine ⟨⟨fun w hw hname => ?_, fun e he hname => ?_⟩, fun w hw hname => ?_, fun e he hname =>
      ?_⟩
    · obtain ⟨i, hi, hw⟩ := List.mem_flatMap.1 hw
      exact h _ (List.mem_append_left _ (List.mem_flatMap.2 ⟨i, hi,
        List.mem_append_left _ (List.mem_map_of_mem hw)⟩)) ((hop w).trans (congrArg some hname))
    · exact h _ (List.mem_append_right _ (List.mem_append_right _ (List.mem_map_of_mem he)))
        (congrArg some hname)
    · obtain ⟨i, hi, hw⟩ := List.mem_flatMap.1 hw
      exact h _ (List.mem_append_left _ (List.mem_flatMap.2 ⟨i, hi,
        List.mem_append_right _ (List.mem_map_of_mem hw)⟩)) (congrArg some hname)
    · exact h _ (List.mem_append_right _ (List.mem_append_left _ (List.mem_map_of_mem he)))
        (congrArg some hname)
  · rintro ⟨⟨hadd, hdel⟩, hroute, hdrop⟩ op hmem hname
    rcases List.mem_append.1 hmem with hmem | hmem
    · obtain ⟨i, hi, hmem⟩ := List.mem_flatMap.1 hmem
      rcases List.mem_append.1 hmem with hmem | hmem
      · obtain ⟨w, hw, rfl⟩ := List.mem_map.1 hmem
        exact hadd w (List.mem_flatMap.2 ⟨i, hi, hw⟩)
          (Option.some.inj ((hop w).symm.trans hname))
      · obtain ⟨w, hw, rfl⟩ := List.mem_map.1 hmem
        exact hroute w (List.mem_flatMap.2 ⟨i, hi, hw⟩) (Option.some.inj hname)
    · rcases List.mem_append.1 hmem with hmem | hmem
      · obtain ⟨e, he, rfl⟩ := List.mem_map.1 hmem
        exact hdrop e he (Option.some.inj hname)
      · obtain ⟨e, he, rfl⟩ := List.mem_map.1 hmem
        exact hdel e he (Option.some.inj hname)

/-- The second plan leaves an interface alone exactly where all that is wanted has its answer. -/
theorem quiet_again_iff (d : Document) (o : Observed) (name : String) :
    (∀ p ∈ contentsPlan valueCodec
        (builderOf d (storeRunAll (contentsPlan valueCodec (builderOf d o)) o)),
      p.op.interface ≠ some name) ↔
      (∀ w ∈ contentsWants (builderOf d o), w.1 = name →
        (∃ e ∈ o.addresses, (addressStore (builderOf d o)).covers w e) ∨
          ∃ e, (addressStore (builderOf d o)).entry w = some e ∧
            (addressStore (builderOf d o)).covers w e) ∧
      (∀ w ∈ routeWants valueCodec (builderOf d o), w.1 = name →
        (∃ e ∈ o.routes, (routeStore (builderOf d o)).covers w e) ∨
          ∃ e, (routeStore (builderOf d o)).entry w = some e ∧
            (routeStore (builderOf d o)).covers w e) := by
  have hafter : storeRunAll (contentsPlan valueCodec (builderOf d o)) o =
      { o with
        addresses := (addressStore (builderOf d o)).settled (contentsWants (builderOf d o))
          o.addresses
        routes := (routeStore (builderOf d o)).settled (routeWants valueCodec (builderOf d o))
          o.routes } := by
    rw [storeRunAll, foldl_storeRun, storedAddressChange_plan, storedRouteChange_plan]
    rfl
  rw [hafter, quiet_plan_iff, builderOf_kernel]
  refine and_congr ?_ ?_
  · exact Stored.quiet_iff (addressStore_lawful (builderOf d o))
      (fun w e he hown => (storedAddress_eq_some he).1.symm.trans hown)
  · exact Stored.quiet_iff (routeStore_lawful (builderOf d o))
      (fun w e he hown => (storedRoute_eq_some he).1.symm.trans hown)

/-- An address is wanted by a source that wants what it is held as. -/
theorem addressWanted_iff (hi : i ∈ b.desired.interfaces) {seen : ObservedAddress}
    (hname : seen.interface = i.name) : addressWanted valueCodec b seen ↔
      ∃ source ∈ i.addressing, ∃ w ∈ wantedOf b i source, w.isHeldAs seen.address := by
  simp only [addressWanted, hname, b.desired.interface_of_mem hi, Option.any_some,
    List.any_eq_true]
  refine exists_congr fun source => and_congr_right fun _ => ⟨fun h => ?_, fun h => ?_⟩
  · cases source with
    | static address =>
      exact ⟨_, List.mem_singleton_self _, by
        simpa [sourceWants, WantedAddress.isHeldAs, eq_comm] using h⟩
    | delegated ref suffix =>
      obtain ⟨derived, hd, h⟩ := (Option.any_eq_true _ _).1 h
      exact ⟨.anySpelling derived, List.mem_map_of_mem (Option.mem_toList.2 hd), by
        simpa [WantedAddress.isHeldAs, addressEqual_comm] using h⟩
    | reported =>
      obtain ⟨report, hr, h⟩ := (Option.any_eq_true _ _).1 h
      obtain ⟨text, ht, h⟩ := List.any_eq_true.1 h
      rw [hname] at hr
      exact ⟨.anySpelling text,
        List.mem_flatMap.2 ⟨report, Option.mem_toList.2 hr, List.mem_map_of_mem ht⟩, by
          simpa [WantedAddress.isHeldAs, addressEqual_comm] using h⟩
    | _ => simp [sourceWants] at h
  · obtain ⟨w, hw, h⟩ := h
    exact sourceWants_of_mem b hw hname h

/-- A route is wanted by a route it matches. -/
theorem routeWanted_iff (hi : i ∈ b.desired.interfaces) {seen : ObservedRoute}
    (hname : seen.interface = i.name) : routeWanted valueCodec b seen ↔ withheld b i = false ∧
      ∃ r ∈ routesFor valueCodec b i, routeMatches (withMetric b r i) seen := by
  simp only [routeWanted, hname, b.desired.interface_of_mem hi]
  by_cases h : withheld b i
  · simp [h]
  · simp [h, List.any_eq_true]

end Again

/-- One plan settles the addresses and the routes of an interface exactly where what it asks
for and does not have is spelled as the kernel holds it. -/
theorem reported_settles_iff (d : Document) (o : Observed) (i : Interface)
    (hi : i ∈ d.interfaces) : Settles d o i ↔
      (linkIsPlannable (builderOf d o) i.name → SpelledAsHeld (builderOf d o) i) := by
  have hquiet := quiet_again_iff d o i.name
  have haddresses := addresses_answered_iff (builderOf d o) hi
  have hroutes := routes_answered_iff (builderOf d o) hi
  constructor
  · intro h hplan
    obtain ⟨ha, hr⟩ := hquiet.1 h.quiet
    obtain ⟨hstatic, hreported⟩ := haddresses.1 ha hplan
    obtain ⟨hdocument, hreport⟩ := hroutes.1 hr hplan
    exact ⟨hstatic, hreported, hdocument, hreport⟩
  · intro h
    refine ⟨hquiet.2 ⟨haddresses.2 fun hplan => ?_, hroutes.2 fun hplan => ?_⟩,
      fun _ seen hname => addressWanted_iff (builderOf d o) hi hname,
      fun seen hname => routeWanted_iff (builderOf d o) hi hname⟩
    · exact ⟨(h hplan).static, (h hplan).reported⟩
    · exact ⟨(h hplan).routes, (h hplan).reportedRoutes⟩

/-! ## A report that never settles -/

/-- A tunnel that takes its addresses and routes from its report. -/
def tunnelDocument : Document where
  devices := [{ name := "tun0", kind := .openvpn }]
  interfaces := [{ name := "tun0", addressing := [.reported] }]
  names := by decide

/-- The tunnel is up, and its server pushed an address and a route. -/
def tunnelObserved (destination : String) : Observed where
  links := [{ name := "tun0", carrier := true }]
  reports :=
    [{ interface := "tun0", addresses := ["10.8.0.2/24"], routes := [⟨destination, none⟩] }]

/-- A network without host bits settles. -/
theorem reported_network_settles : Settles tunnelDocument (tunnelObserved "10.0.0.0/8")
    { name := "tun0", addressing := [.reported] } :=
  (reported_settles_iff tunnelDocument (tunnelObserved "10.0.0.0/8") _ (by decide)).2 fun _ =>
    { static := fun a ha => by simp at ha
      reported := fun _ report hreport text htext => by
        obtain rfl : _ = report := Option.some.inj hreport
        obtain rfl := List.mem_singleton.1 htext
        exact Or.inr (by decide +kernel)
      routes := fun _ r hr => by simp at hr
      reportedRoutes := fun _ _ report hreport r hr route hroute => by
        obtain rfl : _ = report := Option.some.inj hreport
        obtain rfl := List.mem_singleton.1 hr
        have hall : (Address.parse (trimmed "10.0.0.0/8")).all fun a =>
            a.length ≠ some 0 ∧ a.masked = a := by decide +kernel
        refine Or.inr (Or.inr fun a n ha hn => ?_)
        rw [ha, Option.all_some, decide_eq_true_eq, hn] at hall
        exact ⟨fun h => hall.1 (congrArg some h), hall.2⟩ }

/-- A pushed `10.1.2.3/8` is held as `10.0.0.0/8`, so the next plan adds it again and removes
what the kernel holds. -/
theorem reported_host_bits_planned_again :
    ¬Settles tunnelDocument (tunnelObserved "10.1.2.3/8")
      { name := "tun0", addressing := [.reported] } := by
  intro h
  have hquiet := h.quiet
  revert hquiet
  decide +kernel

end Netcfgd
