import Netcfgd.PlanAddress

/-!
# One plan settles addresses and routes

The ideal kernel holds one address per interface and text, and one route per interface,
destination, gateway, table, metric and source, and what it is told to add it holds as
netcfgd's own from config (`kernelRun`).

Seen through it, the address passes and the route passes are each an instance of
`Reconcile.settle` : `addressPolicy` and `routePolicy` say what the forward pass wants, which
entry answers it and what the teardown keeps. That the two halves agree is
`addressPolicy_lawful` and `routePolicy_lawful`, and for routes it is where the metric, the
carrier, the probe, the linkset and the table have to be read alike on both sides.
`addressPlan_settles` : the plan made from the kernel the plan left is empty.
-/

namespace Netcfgd

open Reconcile

/-! ## The ideal kernel -/

/-- What the kernel knows an address by. -/
def ObservedAddress.id (a : ObservedAddress) : String × String :=
  (a.interface, a.address)

/-- What the kernel knows a route by. -/
structure RouteKey where
  interface : String
  destination : String
  via : Option String
  table : ℤ
  metric : Option ℤ
  src : Option String
  deriving DecidableEq, Repr

def ObservedRoute.id (r : ObservedRoute) : RouteKey :=
  ⟨r.interface, r.destination, r.via, r.inTable, r.metric, r.src⟩

/-- An address as the kernel reports it once netcfgd has added it. -/
def addedAddress (interface address : String) : ObservedAddress :=
  ⟨interface, address, some .static, .ours⟩

def addedRoute (interface : String) (r : Route) : ObservedRoute :=
  ⟨interface, r.destination, r.via, r.metric, some r.inTable, r.src, r.scope, r.proto,
    some .static, .ours⟩

/-- What an operation changes of the addresses. -/
def addressChange : Op → Option (Change ObservedAddress (String × String))
  | .addrAdd i a _ _ => some (.add (addedAddress i a))
  | .addrDel i a => some (.remove (i, a))
  | _ => none

/-- What an operation changes of the routes. -/
def routeChange : Op → Option (Change ObservedRoute RouteKey)
  | .routeAdd i r => some (.add (addedRoute i r))
  | .routeDel i r => some (.remove (addedRoute i r).id)
  | _ => none

/-- The kernel, on one operation. -/
def kernelRun (o : Observed) (op : Op) : Observed :=
  { o with
    addresses := (addressChange op).elim o.addresses (Change.apply ObservedAddress.id o.addresses)
    routes := (routeChange op).elim o.routes (Change.apply ObservedRoute.id o.routes) }

/-- The kernel, on a plan. -/
def kernelRunAll (plan : List Planned) (o : Observed) : Observed :=
  (plan.map Planned.op).foldl kernelRun o

/-- A run changes the addresses and the routes apart. -/
theorem foldl_kernelRun : ∀ (ops : List Op) (o : Observed), ops.foldl kernelRun o =
    { o with
      addresses := (ops.filterMap addressChange).foldl (Change.apply ObservedAddress.id) o.addresses
      routes := (ops.filterMap routeChange).foldl (Change.apply ObservedRoute.id) o.routes }
  | [], _ => rfl
  | op :: ops, o => by
    rw [List.foldl_cons, foldl_kernelRun ops]
    simp only [kernelRun, List.filterMap_cons]
    cases addressChange op <;> cases routeChange op <;> rfl

/-! ## Wants -/

variable (codec : AddressCodec) (b : Builder)

/-- The static addresses the forward pass wants on an interface. -/
def addressWantsOf (i : Interface) : List (String × StaticAddress) :=
  if linkIsPlannable b i.name then
    i.addressing.flatMap fun source =>
      match source with
      | .static address => [(i.name, address)]
      | _ => []
  else []

/-- The routes the forward pass wants on an interface, with their metrics. -/
def routeWantsOf (i : Interface) : List (String × Route) :=
  if linkIsPlannable b i.name && !withheld b i then
    (routesFor codec b i).map fun r => (i.name, withMetric b r i)
  else []

/-- The static addresses a document wants. -/
def addressWants : List (String × StaticAddress) :=
  b.desired.interfaces.flatMap (addressWantsOf b)

/-- The routes a document wants. -/
def routeWants : List (String × Route) :=
  b.desired.interfaces.flatMap (routeWantsOf codec b)

/-- What the address pass wants, keeps and removes. -/
def addressPolicy : Policy (String × StaticAddress) ObservedAddress (String × String) where
  key := ObservedAddress.id
  entry w := addedAddress w.1 w.2.address
  covers w e := e.interface = w.1 ∧ e.address = w.2.address
  removable e := fromConfig e.origin e.ownership && e.interface ∉ b.declined
  keeps := addressWanted codec b

/-- What the route pass wants, keeps and removes. -/
def routePolicy : Policy (String × Route) ObservedRoute RouteKey where
  key := ObservedRoute.id
  entry w := addedRoute w.1 w.2
  covers w e := e.interface = w.1 ∧ routeMatches w.2 e
  removable e := fromConfig e.origin e.ownership && e.interface ∉ b.declined
  keeps := routeWanted codec b

/-! ## The two halves agree -/

theorem mem_addressWants {w : String × StaticAddress} (hw : w ∈ addressWants b) :
    ∃ i ∈ b.desired.interfaces, i.name = w.1 ∧ .static w.2 ∈ i.addressing := by
  obtain ⟨i, hi, hw⟩ := List.mem_flatMap.1 hw
  unfold addressWantsOf at hw
  split_ifs at hw
  · obtain ⟨source, hs, heq⟩ := List.mem_flatMap.1 hw
    cases source with
    | static address =>
      obtain rfl := List.mem_singleton.1 heq
      exact ⟨i, hi, rfl, hs⟩
    | _ => simp at heq
  · simp at hw

theorem mem_routeWants {w : String × Route} (hw : w ∈ routeWants codec b) :
    ∃ i ∈ b.desired.interfaces, i.name = w.1 ∧ withheld b i = false ∧
      ∃ r ∈ routesFor codec b i, withMetric b r i = w.2 := by
  obtain ⟨i, hi, hw⟩ := List.mem_flatMap.1 hw
  unfold routeWantsOf at hw
  split_ifs at hw with h
  · obtain ⟨r, hr, rfl⟩ := List.mem_map.1 hw
    simp only [Bool.and_eq_true, Bool.not_eq_true'] at h
    exact ⟨i, hi, rfl, h.2, r, hr, rfl⟩
  · simp at hw

theorem sourceWants_congr {e e' : ObservedAddress} (h : e.id = e'.id) :
    sourceWants codec b e = sourceWants codec b e' := by
  simp only [ObservedAddress.id, Prod.mk.injEq] at h
  funext source
  cases source <;> simp [sourceWants, h.1, h.2]

/-- An added address covers what wanted it. -/
theorem addressPolicy_lawful : (addressPolicy codec b).Lawful (addressWants b) where
  covers_entry w := by simp [addressPolicy, addedAddress]
  covers_key w e e' h := by
    simp only [addressPolicy, ObservedAddress.id, Prod.mk.injEq] at h ⊢
    simp [h.1, h.2]
  keeps_key := by
    intro e e' h hk
    have hid : e.id = e'.id := h
    have hi : e.interface = e'.interface := congrArg Prod.fst hid
    simp only [addressPolicy, addressWanted, sourceWants_congr codec b hid, hi] at hk ⊢
    exact hk
  keeps_of_covers w hw e hc := by
    obtain ⟨i, hi, hname, hs⟩ := mem_addressWants b hw
    simp only [addressPolicy, decide_eq_true_eq] at hc
    simp only [addressPolicy, addressWanted, hc.1, ← hname, b.desired.interface_of_mem hi,
      Option.any_some, List.any_eq_true]
    exact ⟨_, hs, by simp [sourceWants, hc.2]⟩

theorem routeMatches_congr {e e' : ObservedRoute} (h : e.id = e'.id) (r : Route) :
    routeMatches r e = routeMatches r e' := by
  simp only [ObservedRoute.id, RouteKey.mk.injEq] at h
  obtain ⟨-, hd, hv, ht, hm, hs⟩ := h
  simp only [routeMatches, hd, hv, ht, hm, hs]

theorem routeMatches_addedRoute (interface : String) (r : Route) :
    routeMatches r (addedRoute interface r) := by
  simp [routeMatches, addedRoute, ObservedRoute.inTable]

/-- An added route covers what wanted it. -/
theorem routePolicy_lawful : (routePolicy codec b).Lawful (routeWants codec b) where
  covers_entry w := by
    simp only [routePolicy, decide_eq_true_eq]
    exact ⟨rfl, routeMatches_addedRoute w.1 w.2⟩
  covers_key w e e' h := by
    have hid : e.id = e'.id := h
    have hi : e.interface = e'.interface := congrArg RouteKey.interface hid
    simp only [routePolicy, hi, routeMatches_congr hid]
    exact id
  keeps_key := by
    intro e e' h hk
    have hid : e.id = e'.id := h
    have hi : e.interface = e'.interface := congrArg RouteKey.interface hid
    simp only [routePolicy, routeWanted, hi, routeMatches_congr hid] at hk ⊢
    exact hk
  keeps_of_covers w hw e hc := by
    obtain ⟨i, hi, hname, hheld, r, hr, hmetric⟩ := mem_routeWants codec b hw
    simp only [routePolicy, decide_eq_true_eq] at hc
    simp only [routePolicy, routeWanted, hc.1, ← hname, b.desired.interface_of_mem hi, hheld,
      Bool.false_eq_true, if_false, List.any_eq_true]
    exact ⟨r, hr, hmetric ▸ hc.2⟩

/-! ## The passes as changes -/

theorem flatMap_ite_singleton {α β : Type*} (p : α → Bool) (f : α → β) (l : List α) :
    (l.flatMap fun a => if p a then [f a] else []) = (l.filter p).map f := by
  induction l with
  | nil => rfl
  | cons a l ih => by_cases h : p a <;> simp [h, ih]

theorem push_of_plannable (d : Document) (o : Observed) {p : Planned} {name : String}
    (hp : p.op.interface = some name) (hname : linkIsPlannable (builderOf d o) name) :
    push (builderOf d o) p = [p] := by
  have hnot : name ∉ (builderOf d o).declined := by
    intro hmem
    have hlink : (o.link name).isSome = false := by
      obtain ⟨x, hx, rfl⟩ := List.mem_map.1 hmem
      have := (List.mem_filter.1 hx).2
      simp only [declines, Bool.and_eq_true] at this
      simpa using this.1.1
    unfold linkIsPlannable at hname
    rw [if_neg (by simpa [builderOf] using hlink)] at hname
    split at hname
    · simp at hname
    · simp at hname
    · simp [hmem] at hname
  simp [push, hp, hnot]

theorem map_op_teardownAddresses : (teardownAddresses codec b).map Planned.op =
    (removals (addressPolicy codec b) b.observed.addresses).map
      fun e => .addrDel e.interface e.address := by
  unfold teardownAddresses removals
  rw [← flatMap_ite_singleton, List.map_flatMap]
  refine congrArg (List.flatMap · b.observed.addresses) (funext fun seen => ?_)
  by_cases hd : seen.interface ∈ b.declined <;>
    by_cases hk : addressWanted codec b seen <;>
    by_cases hc : fromConfig seen.origin seen.ownership <;>
    simp [addressPolicy, push, Op.interface, hd, hk, hc]

theorem map_op_teardownRoutes : (teardownRoutes codec b).map Planned.op =
    (removals (routePolicy codec b) b.observed.routes).map
      fun e => .routeDel e.interface e.model := by
  unfold teardownRoutes removals
  rw [← flatMap_ite_singleton, List.map_flatMap]
  refine congrArg (List.flatMap · b.observed.routes) (funext fun seen => ?_)
  by_cases hd : seen.interface ∈ b.declined <;>
    by_cases hk : routeWanted codec b seen <;>
    by_cases hc : fromConfig seen.origin seen.ownership <;>
    simp [routePolicy, push, Op.interface, hd, hk, hc]


theorem flatMap_zipIdx_fst {α β : Type*} (f : α → List β) (l : List α) (k : ℕ) :
    ((l.zipIdx k).flatMap fun x => f x.1) = l.flatMap f := by
  rw [← List.flatMap_map Prod.fst f, List.zipIdx_map_fst]

theorem additions_flatMap {α ω ε κ : Type*} (p : Policy ω ε κ) (f : α → List ω) (l : List α)
    (held : List ε) :
    additions p (l.flatMap f) held = l.flatMap fun a => additions p (f a) held := by
  simp only [additions, List.filter_flatMap, List.map_flatMap]

theorem additions_eq_flatMap {ω ε κ : Type*} (p : Policy ω ε κ) (wants : List ω) (held : List ε) :
    additions p wants held =
      wants.flatMap fun w => if held.any (p.covers w) then [] else [p.entry w] := by
  unfold additions
  rw [← flatMap_ite_singleton]
  refine congrArg (List.flatMap · wants) (funext fun w => ?_)
  by_cases h : held.any (p.covers w) <;> simp [h]

section Forward

variable (d : Document) (o : Observed) {i : Interface}

theorem map_op_planStatic (hi : linkIsPlannable (builderOf d o) i.name) (index : ℕ)
    (source : StaticAddress) : (planStatic (builderOf d o) i index source).map Planned.op =
      if o.addresses.any ((addressPolicy codec (builderOf d o)).covers (i.name, source)) then []
      else [.addrAdd i.name source.address source.preferredLifetime source.validLifetime] := by
  unfold planStatic
  rw [push_of_plannable d o rfl hi]
  by_cases h : o.addresses.any ((addressPolicy codec (builderOf d o)).covers (i.name, source))
  · exact (congrArg (List.map Planned.op) (if_pos h)).trans (if_pos h).symm
  · exact (congrArg (List.map Planned.op) (if_neg h)).trans (if_neg h).symm

theorem map_op_planRoute (hi : linkIsPlannable (builderOf d o) i.name) (r : Route) :
    (planRoute (builderOf d o) i r).map Planned.op =
      if withheld (builderOf d o) i then []
      else if o.routes.any ((routePolicy codec (builderOf d o)).covers
        (i.name, withMetric (builderOf d o) r i)) then []
      else [.routeAdd i.name (withMetric (builderOf d o) r i)] := by
  unfold planRoute
  dsimp only
  rw [push_of_plannable d o rfl hi, apply_ite (List.map Planned.op)]
  refine congrArg (ite _ _) ?_
  by_cases h : o.routes.any ((routePolicy codec (builderOf d o)).covers
      (i.name, withMetric (builderOf d o) r i))
  · exact (congrArg (List.map Planned.op) (if_pos h)).trans (if_pos h).symm
  · exact (congrArg (List.map Planned.op) (if_neg h)).trans (if_neg h).symm

theorem addressChange_planInterface (i : Interface) :
    ((planInterface codec (builderOf d o) i).map Planned.op).filterMap addressChange =
      (additions (addressPolicy codec (builderOf d o)) (addressWantsOf (builderOf d o) i)
        o.addresses).map .add := by
  unfold planInterface addressWantsOf
  by_cases hi : linkIsPlannable (builderOf d o) i.name
  · have hroute : ∀ r, ((planRoute (builderOf d o) i r).map Planned.op).filterMap addressChange =
        [] := by
      intro r
      rw [map_op_planRoute codec d o hi]
      split_ifs <;> rfl
    have hsource : ∀ x : AddressSource × ℕ,
        ((planSource (builderOf d o) i x).map Planned.op).filterMap addressChange =
          (additions (addressPolicy codec (builderOf d o))
            (match x.1 with
              | .static address => [(i.name, address)]
              | _ => []) o.addresses).map .add := by
      rintro ⟨source, index⟩
      cases source with
      | static address =>
        simp only [planSource, map_op_planStatic codec d o hi, additions_eq_flatMap,
          List.flatMap_singleton]
        split_ifs <;> rfl
      | _ => rfl
    rw [if_pos hi, if_pos hi, additions_flatMap, List.map_append, List.filterMap_append,
      List.map_flatMap, List.map_flatMap, List.filterMap_flatMap, List.filterMap_flatMap,
      List.map_flatMap, funext hsource, funext hroute, ← flatMap_zipIdx_fst _ i.addressing 0]
    simp
  · rw [if_neg hi, if_neg hi]
    rfl

theorem routeChange_planInterface (i : Interface) :
    ((planInterface codec (builderOf d o) i).map Planned.op).filterMap routeChange =
      (additions (routePolicy codec (builderOf d o)) (routeWantsOf codec (builderOf d o) i)
        o.routes).map .add := by
  unfold planInterface routeWantsOf
  by_cases hi : linkIsPlannable (builderOf d o) i.name
  · have hsource : ∀ x : AddressSource × ℕ,
        ((planSource (builderOf d o) i x).map Planned.op).filterMap routeChange = [] := by
      rintro ⟨source, index⟩
      cases source with
      | static address =>
        simp only [planSource, map_op_planStatic codec d o hi]
        split_ifs <;> rfl
      | _ => rfl
    rw [if_pos hi, List.map_append, List.filterMap_append, List.map_flatMap, List.map_flatMap,
      List.filterMap_flatMap, List.filterMap_flatMap, funext hsource]
    by_cases hw : withheld (builderOf d o) i
    · simp [map_op_planRoute codec d o hi, hi, hw, additions]
    · rw [additions_eq_flatMap, if_pos (by simp [hi, hw]), List.flatMap_map, List.map_flatMap]
      simp only [map_op_planRoute codec d o hi, if_neg hw]
      have hnone :
          (i.addressing.zipIdx.flatMap fun _ => ([] : List (Change ObservedRoute RouteKey)))
          = [] := by simp
      rw [hnone, List.nil_append]
      refine congrArg (List.flatMap · _) (funext fun r => ?_)
      split_ifs <;> rfl
  · rw [if_neg hi, if_neg (by simp [hi])]
    rfl

/-- The address pass is one round of its policy. -/
theorem addressChange_plan :
    ((addressPlan codec (builderOf d o)).map Planned.op).filterMap addressChange =
      round (addressPolicy codec (builderOf d o)) (addressWants (builderOf d o)) o.addresses := by
  have hroutes : ((teardownRoutes codec (builderOf d o)).map Planned.op).filterMap addressChange =
      [] := by
    rw [map_op_teardownRoutes, List.filterMap_map]
    exact List.filterMap_eq_nil_iff.2 fun _ _ => rfl
  have haddresses : ((teardownAddresses codec (builderOf d o)).map Planned.op).filterMap
      addressChange = (removals (addressPolicy codec (builderOf d o)) o.addresses).map
        fun e => .remove e.id := by
    rw [map_op_teardownAddresses, List.filterMap_map, ← List.filterMap_eq_map]
    rfl
  rw [addressPlan, List.map_append, List.map_append, List.filterMap_append,
    List.filterMap_append, hroutes, haddresses, List.nil_append, List.map_flatMap,
    List.filterMap_flatMap, funext (addressChange_planInterface codec d o), Reconcile.round,
    addressWants, additions_flatMap, List.map_flatMap]
  rfl

/-- The route pass is one round of its policy. -/
theorem routeChange_plan :
    ((addressPlan codec (builderOf d o)).map Planned.op).filterMap routeChange =
      round (routePolicy codec (builderOf d o)) (routeWants codec (builderOf d o)) o.routes := by
  have haddresses : ((teardownAddresses codec (builderOf d o)).map Planned.op).filterMap
      routeChange = [] := by
    rw [map_op_teardownAddresses, List.filterMap_map]
    exact List.filterMap_eq_nil_iff.2 fun _ _ => rfl
  have hroutes : ((teardownRoutes codec (builderOf d o)).map Planned.op).filterMap routeChange =
      (removals (routePolicy codec (builderOf d o)) o.routes).map fun e => .remove e.id := by
    rw [map_op_teardownRoutes, List.filterMap_map, ← List.filterMap_eq_map]
    rfl
  rw [addressPlan, List.map_append, List.map_append, List.filterMap_append,
    List.filterMap_append, hroutes, haddresses, List.append_nil, List.map_flatMap,
    List.filterMap_flatMap, funext (routeChange_planInterface codec d o), Reconcile.round,
    routeWants, additions_flatMap, List.map_flatMap]
  rfl

end Forward

def ChangesSomething (p : Planned) : Prop :=
  (addressChange p.op).isSome ∨ (routeChange p.op).isSome

theorem changes_of_mem_push {p q : Planned} (hp : ChangesSomething p) (hq : q ∈ push b p) :
    ChangesSomething q := by
  unfold push at hq
  split at hq
  · split_ifs at hq
    · simp at hq
    · exact List.mem_singleton.1 hq ▸ hp
  · exact List.mem_singleton.1 hq ▸ hp

theorem changes_of_mem_planInterface {i : Interface} {q : Planned}
    (hq : q ∈ planInterface codec b i) : ChangesSomething q := by
  unfold planInterface at hq
  split_ifs at hq
  · rcases List.mem_append.1 hq with hq | hq
    · obtain ⟨⟨source, index⟩, -, hq⟩ := List.mem_flatMap.1 hq
      cases source with
      | static address =>
        simp only [planSource, planStatic] at hq
        split_ifs at hq
        · simp at hq
        · exact changes_of_mem_push b (Or.inl rfl) hq
      | _ => simp [planSource] at hq
    · obtain ⟨r, -, hq⟩ := List.mem_flatMap.1 hq
      simp only [planRoute] at hq
      split_ifs at hq
      · simp at hq
      · simp at hq
      · exact changes_of_mem_push b (Or.inr rfl) hq
  · simp at hq

/-- Whatever the pass plans changes an address or a route. -/
theorem changes_of_mem_addressPlan {q : Planned} (hq : q ∈ addressPlan codec b) :
    ChangesSomething q := by
  rcases List.mem_append.1 hq with hq | hq
  · obtain ⟨i, -, hq⟩ := List.mem_flatMap.1 hq
    exact changes_of_mem_planInterface codec b hq
  · rcases List.mem_append.1 hq with hq | hq
    · obtain ⟨seen, -, hq⟩ := List.mem_flatMap.1 hq
      split_ifs at hq
      · exact changes_of_mem_push b (Or.inr rfl) hq
      · simp at hq
    · obtain ⟨seen, -, hq⟩ := List.mem_flatMap.1 hq
      split_ifs at hq
      · exact changes_of_mem_push b (Or.inl rfl) hq
      · simp at hq

/-! ## Planning again -/

/-- The kernel's changes leave all else the planner reads. -/
theorem builderOf_kernel (d : Document) (o : Observed) (addresses : List ObservedAddress)
    (routes : List ObservedRoute) :
    builderOf d { o with addresses := addresses, routes := routes } =
      { builderOf d o with observed := { o with addresses := addresses, routes := routes } } := by
  have h : standbyCollect d { o with addresses := addresses, routes := routes } =
      standbyCollect d o :=
    standbyCollect_congr rfl d
  unfold builderOf
  rw [h]
  rfl

/-- Planner convergence for addresses and routes : carry the plan out on the ideal kernel,
and the plan made from what it left is empty. -/
theorem addressPlan_settles (d : Document) (o : Observed) :
    addressPlan codec (builderOf d (kernelRunAll (addressPlan codec (builderOf d o)) o)) = [] := by
  have hafter : kernelRunAll (addressPlan codec (builderOf d o)) o =
      { o with
        addresses := settle (addressPolicy codec (builderOf d o)) (addressWants (builderOf d o))
          o.addresses
        routes := settle (routePolicy codec (builderOf d o)) (routeWants codec (builderOf d o))
          o.routes } := by
    rw [kernelRunAll, foldl_kernelRun, addressChange_plan, routeChange_plan, ← foldl_round,
      ← foldl_round]
    rfl
  rw [hafter]
  set o' : Observed := { o with
    addresses := settle (addressPolicy codec (builderOf d o)) (addressWants (builderOf d o))
      o.addresses
    routes := settle (routePolicy codec (builderOf d o)) (routeWants codec (builderOf d o))
      o.routes } with ho'
  have hb : builderOf d o' = { builderOf d o with observed := o' } := builderOf_kernel d o _ _
  have haddress : ((addressPlan codec (builderOf d o')).map Planned.op).filterMap addressChange =
      [] := by
    rw [addressChange_plan, hb]
    exact round_settle (addressPolicy_lawful codec (builderOf d o))
  have hroute : ((addressPlan codec (builderOf d o')).map Planned.op).filterMap routeChange =
      [] := by
    rw [routeChange_plan, hb]
    exact round_settle (routePolicy_lawful codec (builderOf d o))
  refine List.eq_nil_iff_forall_not_mem.2 fun q hq => ?_
  have hop : q.op ∈ (addressPlan codec (builderOf d o')).map Planned.op := List.mem_map_of_mem hq
  rcases changes_of_mem_addressPlan codec _ hq with h | h
  · rw [List.filterMap_eq_nil_iff.1 haddress q.op hop] at h
    simp at h
  · rw [List.filterMap_eq_nil_iff.1 hroute q.op hop] at h
    simp at h

end Netcfgd
