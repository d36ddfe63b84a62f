import Netcfgd.Build

/-!
# Station lists and neighbours of an access point

`ncfg_plan_access_control` and `ncfg_plan_neighbours` of `plan/wifi.c`, and what carrying out
their actions does to the hostapds (`apply/wifi_ops.c`). hostapd holds exact addresses, so a prefix
is expanded against the stations the observation saw; a neighbour is an access point of the same
network, one of this machine's or one the document declares.

A radio runs one hostapd. An address is in its normal form wherever it comes from, the compiler,
hostapd's reply or fuzznet's records, and the action's own normalising keeps it. Whether the rest
of a hostapd's configuration is the document's is a parameter (`changed`) : it is read off what the
hostapd was started with (`started`), which no action of these two passes touches.
-/

namespace Netcfgd.Stations

/-! ## The document -/

/-- `ncfg_station_is_prefix`. -/
def isPrefix (text : String) : Bool := text.toList.getLast? = some '*'

/-- `ncfg_station_entry_matches`, with the lengths of a prefix and of an address. -/
def entryMatches (entry address : String) : Bool :=
  if isPrefix entry then
    entry.length = 10 && address.length = 17 && entry.toList.take 9 = address.toList.take 9
  else entry = address

/-- `ncfg_access_control_t`. The compiler puts a prefix, wherever it was written, beside the
stations and not among them. -/
structure AccessControl where
  policy : AclPolicy
  stations : List String
  prefixes : List String
  exact_ : ∀ s ∈ stations, isPrefix s = false

/-- `ncfg_access_control_names`. -/
def AccessControl.names (acl : AccessControl) (address : String) : Bool :=
  (acl.stations ++ acl.prefixes).any fun entry => entryMatches entry address

/-- `ncfg_neighbour_t`. -/
structure Neighbour where
  bssid : String
  channel : ℤ
  deriving DecidableEq

/-- `ncfg_access_point_t`, as far as the two passes read it. A second block for one neighbour is
refused. -/
structure AccessPoint where
  id : String
  device : String
  ssid : List UInt8
  neighbourReports : Bool := false
  neighbours : List Neighbour := []
  accessControl : Option AccessControl := none
  once : (neighbours.map Neighbour.bssid).Nodup := by decide

/-! ## What is observed -/

/-- `ncfg_observed_policy_t`. -/
inductive Policy
  | unknown
  | unset
  | set (policy : AclPolicy)
  deriving DecidableEq

/-- `ncfg_observed_neighbour_t`. -/
structure Entry where
  bssid : String
  ssid : String
  nr : String
  deriving DecidableEq

/-- A hostapd's neighbour table, which is keyed by BSSID. -/
structure Table where
  entries : List Entry
  keyed : (entries.map Entry.bssid).Nodup

/-- `ncfg_observed_access_control_t`. -/
structure Control where
  policy : Policy
  denied : List String
  accepted : List String
  associated : List String
  neighbours : Table

/-- A running hostapd. -/
structure Hostapd (σ : Type*) where
  /-- `started_with`, and the observation's word on the secrets. -/
  started : σ
  control : Option Control

/-- What is observed : the hostapd of each radio, the address of each link, and the stations
fuzznet's records know. -/
structure Observed (σ : Type*) where
  hostapd : String → Option (Hostapd σ)
  mac : String → Option String
  seen : List String

/-! ## Addresses and elements -/

/-- `hex_digit`. -/
def hexDigit (c : Char) : Bool :=
  ('0' ≤ c && c ≤ '9') || ('a' ≤ c && c ≤ 'f') || ('A' ≤ c && c ≤ 'F')

/-- The octets that are left, each of two digits and a separator or the end. -/
def octets (separator : Char) : ℕ → List Char → Option (List Char)
  | 0, _ => some []
  | n + 1, a :: b :: rest =>
    if hexDigit a && hexDigit b && rest.head?.all (· = separator) then
      (octets separator n (rest.drop 1)).map fun more =>
        a.toLower :: b.toLower :: (if n = 0 then [] else ':' :: more)
    else none
  | _ + 1, _ => none

/-- `ncfg_station_address_normalize`. -/
def normalize (text : String) : Option String :=
  let separator := if '-' ∈ text.toList then '-' else ':'
  if text.toList.count separator + 1 ≠ 6 then none
  else (octets separator 6 text.toList).map String.ofList

/-- `ncfg_neighbour_class`. -/
def neighbourClass (channel : ℤ) : ℕ :=
  if 1 ≤ channel ∧ channel ≤ 13 then 81
  else if channel = 14 then 82
  else if 36 ≤ channel ∧ channel ≤ 48 then 115
  else if 52 ≤ channel ∧ channel ≤ 64 then 118
  else if 100 ≤ channel ∧ channel ≤ 144 then 121
  else if 149 ≤ channel ∧ channel ≤ 161 then 124
  else if 165 ≤ channel ∧ channel ≤ 177 then 125
  else 0

/-- A byte as `%02x` writes it. -/
def hexByte (n : ℕ) : List Char := [(n / 16).digitChar, (n % 16).digitChar]

/-- `declared_element` : an element for a neighbour, made of the access point's own. -/
def declaredElement (ownNr : String) (n : Neighbour) : Option String :=
  let hex := (n.bssid.toList.filter (· ≠ ':')).take 12
  if ownNr.length < 26 ∨ hex.length ≠ 12 then none
  else some (String.ofList (hex ++ (ownNr.toList.drop 12).take 8 ++
    hexByte (neighbourClass n.channel) ++ hexByte n.channel.toNat ++ (ownNr.toList.drop 24).take 2))

/-- `strcasecmp` of two elements. -/
def sameNr (a b : String) : Prop := a.toList.map Char.toLower = b.toList.map Char.toLower

instance (a b : String) : Decidable (sameNr a b) := inferInstanceAs (Decidable (_ = _))

/-! ## The two passes -/

/-- What `ncfg_builder_push` emits. -/
def admits (c : Checks) (declined : List String) (op : Op) : Bool :=
  !c.passesOver declined false op && (c.lockOn op).isNone && (c.guardOn op).isNone

section Passes

variable {σ : Type*} (c : Checks) (declined : List String) (changed : AccessPoint → σ → Bool)

/-- `restart` : nothing where the stop is not emitted. -/
def restart (device : String) : Option (List Op) :=
  if admits c declined (.backendStop .accessPoint device) then
    some (.backendStop .accessPoint device ::
      [Op.backendStart .accessPoint device].filter (admits c declined))
  else none

/-- `converge_list`. -/
def convergeList (device : String) (list : AclPolicy) (want live : List String) : List Op :=
  (want.filter (· ∉ live)).map (.accessControlAdd device list) ++
    (live.filter (· ∉ want)).map (.accessControlDel device list)

def absorb (acl : AccessControl) (set found : List String) : List String :=
  found.foldl (fun set x => if acl.names x ∧ x ∉ set then set ++ [x] else set) set

/-- `expand_prefixes`, and the stations as they are where no prefix is written. -/
def wantedStations (acl : AccessControl) (live : Control) (held seen : List String) :
    List String :=
  if acl.prefixes = [] then acl.stations
  else absorb acl (absorb acl (absorb acl acl.stations held) live.associated) seen

/-- `ncfg_observed_access_control_list`. -/
def Control.list (live : Control) : AclPolicy → List String
  | .deny => live.denied
  | .allow => live.accepted

/-- What one of the two lists should hold : nothing, unless it is the one the document means. -/
def wantedOn (wanted : Option AccessControl) (live : Control) (seen : List String)
    (list : AclPolicy) : List String :=
  match wanted.filter fun acl => acl.policy = list with
  | none => []
  | some acl => wantedStations acl live (live.list list) seen

def agreed : Policy → Option AccessControl → Bool
  | .set p, some acl => p = acl.policy
  | .unset, none => true
  | _, _ => false

/-- The body of `ncfg_plan_access_control`, for an access point that runs. -/
def controlOps (o : Observed σ) (p : AccessPoint) : List Op :=
  match o.hostapd p.device with
  | none => []
  | some running =>
    match (if changed p running.started then restart c declined p.device else none) with
    | some ops => ops
    | none =>
      match running.control with
      | none => []
      | some live =>
        if live.policy = .unknown then []
        else if agreed live.policy p.accessControl then
          ([AclPolicy.deny, AclPolicy.allow].flatMap fun list =>
            convergeList p.device list (wantedOn p.accessControl live o.seen list)
              (live.list list)).filter (admits c declined)
        else (restart c declined p.device).getD []

/-- The access points that run : one radio is one BSS, and of several the first runs. -/
def running : List AccessPoint → List AccessPoint
  | [] => []
  | p :: rest => p :: (running rest).filter fun q => q.device ≠ p.device

/-- `ncfg_plan_access_control`. -/
def planAccessControl (points : List AccessPoint) (o : Observed σ) : List Op :=
  (running points).flatMap (controlOps c declined changed o)

/-- The neighbours an access point holds. -/
def Observed.table (o : Observed σ) (device : String) : Option Table :=
  (o.hostapd device).bind fun running => running.control.map Control.neighbours

/-- `own_entry` : the entry of a hostapd for itself, that of its radio's address. -/
def ownEntry (o : Observed σ) (device : String) : Option Entry :=
  (o.mac device).bind fun mac => (normalize mac).bind fun bssid =>
    (o.table device).bind fun table => table.entries.find? fun e => e.bssid = bssid

/-- This machine's other access points of the network, as each one's hostapd says it. -/
def ownOthers (points : List AccessPoint) (o : Observed σ) (p : AccessPoint) : List Entry :=
  (points.filter fun q => q.device ≠ p.device ∧ q.ssid = p.ssid).filterMap fun q =>
    ownEntry o q.device

/-- One declared neighbour, unless it is this radio or there already. -/
def declare (own : Entry) (wanted : List Entry) (n : Neighbour) : List Entry :=
  if n.bssid = own.bssid ∨ n.bssid ∈ wanted.map Entry.bssid then wanted
  else match declaredElement own.nr n with
    | none => wanted
    | some nr => wanted ++ [⟨n.bssid, own.ssid, nr⟩]

/-- The neighbours an access point is to hold. -/
def wantedNeighbours (points : List AccessPoint) (o : Observed σ) (p : AccessPoint) (own : Entry) :
    List Entry :=
  p.neighbours.foldl (declare own) (ownOthers points o p)

def heldAs (table : Table) (w : Entry) : Bool :=
  table.entries.any fun h => h.bssid = w.bssid ∧ sameNr h.nr w.nr

/-- Add what is wanted and not held so, and remove what is held and not wanted, the radio's own
entry apart. -/
def convergeTable (device : String) (own : Entry) (wanted : List Entry) (table : Table) : List Op :=
  ((wanted.filter fun w => !heldAs table w).map fun w =>
    Op.neighbourAdd device w.bssid w.ssid w.nr) ++
  ((table.entries.filter fun h => h.bssid ≠ own.bssid ∧ h.bssid ∉ wanted.map Entry.bssid).map
    fun h => Op.neighbourDel device h.bssid h.ssid h.nr)

/-- The body of `ncfg_plan_neighbours`. -/
def neighbourOps (points : List AccessPoint) (o : Observed σ) (p : AccessPoint) : List Op :=
  if p.neighbourReports then
    match o.table p.device, ownEntry o p.device with
    | some table, some own =>
      (convergeTable p.device own (wantedNeighbours points o p own) table).filter
        (admits c declined)
    | _, _ => []
  else []

/-- `ncfg_plan_neighbours`. -/
def planNeighbours (points : List AccessPoint) (o : Observed σ) : List Op :=
  points.flatMap (neighbourOps c declined points o)

/-- The plan for the stations and the neighbours. -/
def plan (points : List AccessPoint) (o : Observed σ) : List Op :=
  planAccessControl c declined changed points o ++ planNeighbours c declined points o

/-- An operation on a running hostapd. -/
def isLive : Op → Bool
  | .accessControlAdd .. | .accessControlDel .. | .neighbourAdd .. | .neighbourDel .. => true
  | _ => false

end Passes

/-! ## Carrying the actions out -/

def Table.put (t : Table) (e : Entry) : Table where
  entries := t.entries.filter (fun h => h.bssid ≠ e.bssid) ++ [e]
  keyed := by
    rw [List.map_append, List.nodup_append]
    refine ⟨t.keyed.sublist (List.filter_sublist.map _), by simp, ?_⟩
    intro a ha b hb hab
    obtain ⟨h, hh, rfl⟩ := List.mem_map.1 ha
    rw [List.map_singleton, List.mem_singleton] at hb
    simp only [List.mem_filter, decide_eq_true_eq] at hh
    exact hh.2 (hab.trans hb)

def Table.drop (t : Table) (bssid : String) : Table where
  entries := t.entries.filter fun h => h.bssid ≠ bssid
  keyed := t.keyed.sublist (List.filter_sublist.map _)

/-- `ncfg_service_access_control` on a list : an address already there, or not there, is done. -/
def setStation (adding : Bool) (station : String) (list : List String) : List String :=
  if adding then (if station ∈ list then list else list ++ [station])
  else list.filter (· ≠ station)

def Control.onList (live : Control) (f : List String → List String) : AclPolicy → Control
  | .deny => { live with denied := f live.denied }
  | .allow => { live with accepted := f live.accepted }

def Observed.on {σ : Type*} (o : Observed σ) (device : String) (f : Control → Control) :
    Observed σ :=
  { o with hostapd := fun d =>
      if d = device then (o.hostapd d).map fun h => { h with control := h.control.map f }
      else o.hostapd d }

/-- A radio's own address, which hostapd keeps the entry of whatever it is told. -/
def Observed.isOwn {σ : Type*} (o : Observed σ) (device bssid : String) : Bool :=
  (o.mac device).bind normalize = some bssid

def carry {σ : Type*} (o : Observed σ) : Op → Observed σ
  | .accessControlAdd device list station =>
    o.on device fun live => live.onList (setStation true station) list
  | .accessControlDel device list station =>
    o.on device fun live => live.onList (setStation false station) list
  | .neighbourAdd device bssid ssid nr =>
    if o.isOwn device bssid then o
    else o.on device fun live => { live with neighbours := live.neighbours.put ⟨bssid, ssid, nr⟩ }
  | .neighbourDel device bssid _ _ =>
    if o.isOwn device bssid then o
    else o.on device fun live => { live with neighbours := live.neighbours.drop bssid }
  | _ => o

/-- Of the stations that were associated, some are not any longer : hostapd puts out the ones it
denies. -/
def Observed.leaving {σ : Type*} (o : Observed σ) (stays : String → String → Bool) : Observed σ :=
  { o with hostapd := fun d => (o.hostapd d).map fun h =>
      { h with control := h.control.map fun live =>
          { live with associated := live.associated.filter (stays d) } } }

/-- The machine once the actions of a plan on running hostapds are carried out. -/
def settled {σ : Type*} (stays : String → String → Bool) (ops : List Op) (o : Observed σ) :
    Observed σ :=
  ((ops.filter isLive).foldl carry o).leaving stays

end Netcfgd.Stations
