import Netcfgd.Document
import Netcfgd.Reconcile

/-!
# Planning addresses and routes

The forward passes of `address.c` over one interface (`planSource` on a static address,
`planRoute`), the teardown of what config put there and no longer wants (`teardownRoutes`,
`teardownAddresses`), and the pass over all interfaces that calls them (`addressPlan`). An
action is planned with its reason and its inverse (`Planned`). The edges between actions are
left out, and so are guards, locks and unmanaged devices.

The forward passes and the teardown each decide what is wanted. Both ask `withMetric` for a
route's metric and `routesFor` for the routes of an interface, the document's and those a
tunnel or a bearer reported.

The text of an address is read and written by `value.c` (`AddressCodec`).
-/

namespace Netcfgd

/-- What `value.c` makes of the text of an address. -/
structure AddressCodec where
  /-- `ncfg_address_canonical`. -/
  canonical : String → Option String
  /-- `ncfg_address_parse` of a text with a prefix length, and `ncfg_address_render`. -/
  network : String → Option String
  /-- `ncfg_address_from_delegation` : a delegated prefix, a subnet and a suffix. -/
  fromDelegation : String → ℤ → String → Option String

/-- An operation with its reason and its inverse. -/
structure Planned where
  op : Op
  reason : Reason
  inverse : Option Op
  deriving DecidableEq, Repr

/-- `ncfg_builder_t` : what the passes read. -/
structure Builder where
  desired : Document
  observed : Observed
  standby : List Standby
  declined : List String
  /-- Veth peers, which creating the other end brings into being. -/
  appearing : List String

/-- A device the creation pass declines : a veth whose peer's name is taken. -/
def declines (o : Observed) (d : Device) : Bool :=
  (o.link d.name).isNone && d.kind = .veth && (d.vethPeer.bind o.link).isSome

/-- The planner's view of a document and an observation. -/
def builderOf (d : Document) (o : Observed) : Builder where
  desired := d
  observed := o
  standby := standbyCollect d o
  declined := (d.devices.filter (declines o)).map Device.name
  appearing := (d.devices.filter fun x => x.kind = .veth).filterMap Device.vethPeer

variable (codec : AddressCodec) (b : Builder)

/-- `ncfg_builder_push`, with no guard, lock or unmanaged device : nothing is emitted
against a device that was declined. -/
def push (p : Planned) : List Planned :=
  match p.op.interface with
  | some name => if name ∈ b.declined then [] else [p]
  | none => [p]

/-- `ncfg_plan_reason_absent`. -/
def reasonAbsent (interface field desired : String) : Reason :=
  ⟨some interface, field, desired, "<absent>"⟩

/-- `ncfg_plan_reason_unwanted`. -/
def reasonUnwanted (interface field observed : String) : Reason :=
  ⟨some interface, field, "<absent>", observed⟩

/-- `ncfg_plan_link_is_plannable`. -/
def linkIsPlannable (name : String) : Bool :=
  if (b.observed.link name).isSome then true
  else
    match (b.desired.device name).map Device.kind with
    | some .pppoe | some .openvpn => false
    | kind =>
      if name ∈ b.declined then false
      else if (kind = none ∨ kind = some .physical) ∧ name ∉ b.appearing then false
      else true

/-! ## Comparisons -/

/-- `ncfg_plan_address_equal` : as the model compares, and as text where neither parses. -/
def addressEqual (left right : String) : Bool :=
  match codec.canonical left, codec.canonical right with
  | some first, some second => first = second
  | _, _ => left = right

def ObservedRoute.inTable (r : ObservedRoute) : ℤ :=
  r.table.getD routeMainTable

/-- `ncfg_plan_route_matches` : the metric is compared only where the document states
one. -/
def routeMatches (desired : Route) (observed : ObservedRoute) : Bool :=
  desired.destination = observed.destination ∧ desired.via = observed.via ∧
    desired.inTable = observed.inTable ∧ desired.src = observed.src ∧
    (desired.metric.isNone ∨ desired.metric = observed.metric)

/-- `ncfg_plan_render_route`. -/
def renderRoute (r : Route) : String :=
  r.destination ++ (r.via.map (" via " ++ ·)).getD "" ++
    (r.metric.map fun m => " metric " ++ toString m).getD ""

/-- `with_metric` : a route's own metric, and else the interface's effective one. -/
def withMetric (r : Route) (i : Interface) : Route :=
  if r.metric.isSome then r
  else
    match effectiveMetric b.desired b.observed i with
    | some metric => { r with metric := some metric }
    | none => r

/-! ## The routes of an interface -/

/-- `ncfg_plan_takes_reports`. -/
def takesReports (d : Document) (i : Interface) : Bool :=
  i.addressing.any (· = .reported) ||
    match (d.device i.name).map Device.kind with
    | some .openvpn | some .pppoe => true
    | _ => false

/-- `NCFG_ADDRESS_MAX`. -/
def addressMax : ℕ :=
  50

/-- Whether a character is white space to `destination_of`. -/
def isBlank (c : Char) : Bool :=
  c = ' ' || c = '\t' || c = '\n' || c = '\r'

/-- `destination_of` : the destination of a reported route, trimmed and canonical. -/
def destinationOf (text : String) : Option String :=
  let trimmed := String.ofList
    ((text.toList.dropWhile isBlank).reverse.dropWhile isBlank).reverse
  if trimmed.utf8ByteSize = 0 ∨ addressMax ≤ trimmed.utf8ByteSize then none
  else if trimmed = "default" ∨ trimmed = "0.0.0.0/0" ∨ trimmed = "::/0" then some "default"
  else codec.network trimmed

def gatewayRoute (gateway : String) : Option Route :=
  (codec.canonical gateway).map fun via =>
    { destination := "default", via := some via, onlink := true }

/-- A reported route as the planner asks for it. -/
def reportedRoute (r : ReportedRoute) : Option Route :=
  (destinationOf codec r.destination).bind fun destination =>
    match r.via with
    | none => some { destination }
    | some via =>
      (codec.canonical via).map fun via => { destination, via := some via, onlink := true }

/-- `ncfg_plan_routes_for` : the document's routes, then the report's gateways and
routes. -/
def routesFor (i : Interface) : List Route :=
  i.routes ++
    if takesReports b.desired i then
      match b.observed.report i.name with
      | some report =>
        report.gateways.filterMap (gatewayRoute codec) ++
          report.routes.filterMap (reportedRoute codec)
      | none => []
    else []

/-- Whether routes are withheld from an interface : no carrier or a probe that fails, where
it has a preference, or a linkset that is using something else. -/
def withheld (i : Interface) : Bool :=
  let link := b.observed.link i.name
  (i.preference.isSome && link.any fun l => !l.carrier) ||
    (i.preference.isSome && link.any fun l => l.reachable = some false) ||
    (standbyOf b.standby i.name).isSome

/-! ## Forward -/

/-- The static arm of `ncfg_plan_source`. -/
def planStatic (i : Interface) (index : ℕ) (source : StaticAddress) : List Planned :=
  if b.observed.addresses.any fun seen =>
      seen.interface = i.name ∧ seen.address = source.address then []
  else
    push b
      { op := .addrAdd i.name source.address source.preferredLifetime source.validLifetime
        reason := reasonAbsent i.name s!"addressing[{index}]" source.address
        inverse := some (.addrDel i.name source.address) }

/-- `ncfg_plan_source` on a source and its index. The arms that start a client, derive an
address from a delegation or take it from a report are left out. -/
def planSource (i : Interface) (source : AddressSource × ℕ) : List Planned :=
  match source.1 with
  | .static address => planStatic b i source.2 address
  | _ => []

/-- `ncfg_plan_route`. -/
def planRoute (i : Interface) (r : Route) : List Planned :=
  let wanted := withMetric b r i
  if withheld b i then []
  else if b.observed.routes.any fun seen =>
      seen.interface = i.name ∧ routeMatches wanted seen then []
  else
    push b
      { op := .routeAdd i.name wanted
        reason := reasonAbsent i.name "routes" (renderRoute wanted)
        inverse := some (.routeDel i.name wanted) }

/-- The static addresses and the routes of one interface, as `ncfg_plan_interface_contents`
walks them. -/
def planInterface (i : Interface) : List Planned :=
  if linkIsPlannable b i.name then
    i.addressing.zipIdx.flatMap (planSource b i) ++ (routesFor codec b i).flatMap (planRoute b i)
  else []

/-! ## Teardown -/

def fromConfig (origin : Option Origin) (ownership : Ownership) : Bool :=
  ownership.mayRemove && origin = some .static

def routeWanted (seen : ObservedRoute) : Bool :=
  match b.desired.interface seen.interface with
  | none => false
  | some i =>
    if withheld b i then false
    else (routesFor codec b i).any fun r => routeMatches (withMetric b r i) seen

def ObservedRoute.model (seen : ObservedRoute) : Route where
  destination := seen.destination
  via := seen.via
  metric := seen.metric
  table := seen.table
  src := seen.src
  scope := seen.scope
  onlink := false
  proto := seen.proto

/-- `teardown_routes`. -/
def teardownRoutes : List Planned :=
  b.observed.routes.flatMap fun seen =>
    if fromConfig seen.origin seen.ownership && !routeWanted codec b seen then
      push b
        { op := .routeDel seen.interface seen.model
          reason := reasonUnwanted seen.interface "routes" (renderRoute seen.model)
          inverse := some (.routeAdd seen.interface seen.model) }
    else []

/-- `ncfg_plan_delegated_address`. -/
def delegatedAddress (ref : PrefixRef) (suffix : String) : Option String :=
  (b.observed.delegation ref.source).bind fun delegation =>
    if ref.index < 0 then none
    else delegation.prefixes[ref.index.toNat]?.bind fun block =>
      codec.fromDelegation block ref.subnet suffix

/-- `ncfg_plan_reported_holds`. -/
def reportedHolds (interface address : String) : Bool :=
  (b.observed.report interface).any fun report =>
    report.addresses.any fun held => addressEqual codec held address

def sourceWants (seen : ObservedAddress) : AddressSource → Bool
  | .static source => source.address = seen.address
  | .delegated ref suffix =>
    (delegatedAddress codec b ref suffix).any fun derived => addressEqual codec derived seen.address
  | .reported => reportedHolds codec b seen.interface seen.address
  | _ => false

def addressWanted (seen : ObservedAddress) : Bool :=
  (b.desired.interface seen.interface).any fun i => i.addressing.any (sourceWants codec b seen)

/-- `teardown_addresses`. -/
def teardownAddresses : List Planned :=
  b.observed.addresses.flatMap fun seen =>
    if fromConfig seen.origin seen.ownership && !addressWanted codec b seen then
      push b
        { op := .addrDel seen.interface seen.address
          reason := reasonUnwanted seen.interface "addressing" seen.address
          inverse := some (.addrAdd seen.interface seen.address none none) }
    else []

/-- The address and route actions of a plan, in its order : every interface, then the
teardown. -/
def addressPlan : List Planned :=
  b.desired.interfaces.flatMap (planInterface codec b) ++
    (teardownRoutes codec b ++ teardownAddresses codec b)

end Netcfgd
