import Netcfgd.PrivilegeGate

/-!
# What the privilege gate misses

Three paths of the lowering lead to a grant the table does not have : a `dot1x` block is
lowered by the function of the `wifi` keys, but the table knows these keys only under `wifi`;
a `tap` block is lowered as a `tun`, but the table has only `tun`; and the `agent` of a
`remote` block is not in the table. A later block or key replaces an earlier one, so what
counts is the last of each (`lastSome`). `gateCovers_iff` says that these three are all : the
gate keeps its promise exactly where none of them is taken (`GapFree`).
-/

namespace Netcfgd.Compile

variable {key c : String} {v : Value} {items : List Item} {b : MergedBlock} {d : Grants}

/-! ## The paths the table does not have -/

def Item.assigned (key : String) : Item → Option Value
  | .assignment key' v => if key' = key then some v else none
  | _ => none

def Item.under (head : String) : Item → Option (List Item)
  | .block head' _ _ items => if head' = head then some items else none
  | _ => none

/-- What an item of a `device` block sets the kind by : a kind block, or the word of a `kind`,
which has no items. -/
def Item.kind : Item → Option (String × List Item)
  | .block head _ _ items => if isKindBlock head then some (head, items) else none
  | .assignment key _ => if key = "kind" then some (key, []) else none
  | _ => none

/-- The `agent` the `remote` sub-blocks of a `global` block end up with. -/
def Item.agent (i : Item) : Option Value :=
  (i.under "remote").bind (lastSome (Item.assigned "agent"))

/-- The `dot1x` block in force names no certificate by its path. -/
def MergedBlock.PortPathless (b : MergedBlock) : Prop :=
  ∀ items ∈ lastSome (Item.under "dot1x") b.items, ∀ key ∈ certKeys,
    ∀ v ∈ lastSome (Item.assigned key) items, certIsAPath v = false

/-- What is in force of the kinds is no `tap` block with an owner or a group. -/
def MergedBlock.TapUnowned (b : MergedBlock) : Prop :=
  ∀ items, lastSome Item.kind b.items = some ("tap", items) →
    lastSome (Item.assigned "owner") items = none ∧ lastSome (Item.assigned "group") items = none

/-- The `agent` a text ends up with. -/
def agentIn (merged : List MergedBlock) : Option Value :=
  lastSome (fun b => if b.head = "global" then lastSome Item.agent b.items else none) merged

/-- None of the three paths is taken : no `dot1x` block in force of an interface names a
certificate or a key by its path, no kind in force of a device is a `tap` block with an owner
or a group, and the `agent` in force is root. -/
structure GapFree (file : List Item) : Prop where
  port : ∀ b ∈ (merge file).1, b.head = "interface" → b.PortPathless
  tap : ∀ b ∈ (merge file).1, b.head = "device" → b.TapUnowned
  agent : ∀ v ∈ agentIn (merge file).1, asString v = .ok "root"

/-! ## The certificates of a port -/

def WifiKeys.cert (k : WifiKeys) (key : String) : Option CertSource :=
  if key = "ca_cert" then k.caCert
  else if key = "client_cert" then k.clientCert
  else if key = "private_key" then k.privateKey
  else none

def SameCert (c : String) (k k' : WifiKeys) : Prop := k'.cert c = k.cert c

/-- The `agent` a merged block ends up with. -/
def MergedBlock.agent (b : MergedBlock) : Option Value :=
  if b.head = "global" then lastSome Item.agent b.items else none

/-- What is left to ask of a document the gate let through. -/
structure Grants.Closed (d : Grants) : Prop where
  port : ∀ i ∈ d.interfaces, ∀ e ∈ i.dot1x, ∀ file, .path file ∉ e.certs
  tap : ∀ kind ∈ d.devices, ∀ owner group, kind = .tun true owner group →
    owner = none ∧ group = none
  agent : d.policy.remote.agent = .root

theorem wifiKey_cert_ne {k : WifiKeys} (h : key ≠ c) :
    (wifiKey k key v).1.cert c = k.cert c := by
  unfold wifiKey
  refine ite_invariant (P := SameCert c k) (fun _ => ?_) fun _ => ?_
  · exact take_invariant (P := SameCert c k) rfl fun _ _ => rfl
  refine ite_invariant (P := SameCert c k) (fun _ => ?_) fun _ => ?_
  · exact take_invariant (P := SameCert c k) rfl fun _ _ => rfl
  refine ite_invariant (P := SameCert c k) (fun hkey => ?_) fun _ => ?_
  · refine take_invariant (P := SameCert c k) rfl fun _ _ => ?_
    rw [hkey] at h
    simp [SameCert, WifiKeys.cert, h.symm]
  refine ite_invariant (P := SameCert c k) (fun hkey => ?_) fun _ => ?_
  · refine take_invariant (P := SameCert c k) rfl fun _ _ => ?_
    rw [hkey] at h
    simp [SameCert, WifiKeys.cert, h.symm]
  refine ite_invariant (P := SameCert c k) (fun hkey => ?_) fun _ => ?_
  · refine take_invariant (P := SameCert c k) rfl fun _ _ => ?_
    rw [hkey] at h
    simp [SameCert, WifiKeys.cert, h.symm]
  repeat' refine ite_invariant (P := SameCert c k) (fun _ => ?_) fun _ => ?_
  all_goals first
    | rfl
    | exact take_invariant (P := SameCert c k) rfl fun _ _ => rfl

theorem wifiKey_cert_self {k : WifiKeys} (hc : c ∈ certKeys) (h : (wifiKey k c v).2 = []) :
    ∃ source, asCertSource v = .ok source ∧ (wifiKey k c v).1.cert c = some source := by
  simp only [certKeys, List.mem_cons, List.not_mem_nil, or_false] at hc
  rcases hc with rfl | rfl | rfl
  · have heq : wifiKey k "ca_cert" v =
        take k (asCertSource v) fun c => { k with caCert := some c } := by simp [wifiKey]
    rw [heq] at h ⊢
    obtain ⟨source, hread, hset⟩ := exists_of_take h
    exact ⟨source, hread, by rw [hset]; rfl⟩
  · have heq : wifiKey k "client_cert" v =
        take k (asCertSource v) fun c => { k with clientCert := some c } := by simp [wifiKey]
    rw [heq] at h ⊢
    obtain ⟨source, hread, hset⟩ := exists_of_take h
    exact ⟨source, hread, by rw [hset]; rfl⟩
  · have heq : wifiKey k "private_key" v =
        take k (asCertSource v) fun c => { k with privateKey := some c } := by simp [wifiKey]
    rw [heq] at h ⊢
    obtain ⟨source, hread, hset⟩ := exists_of_take h
    exact ⟨source, hread, by rw [hset]; rfl⟩

theorem wifiKey_psk {k : WifiKeys} (h : key ≠ "psk") (hk : k.psk = none) :
    (wifiKey k key v).1.psk = none := by
  unfold wifiKey
  rw [if_neg h]
  repeat' refine ite_invariant (P := fun k' : WifiKeys => k'.psk = none) (fun _ => ?_) fun _ => ?_
  all_goals first
    | exact hk
    | exact take_invariant (P := fun k' : WifiKeys => k'.psk = none) hk fun _ _ => hk

theorem dot1xBlock_ok (h : (dot1xBlock items).2 = []) :
    (overItems dot1xItem {} items).2 = [] ∧ ∃ e, (dot1xBlock items).1 = some e ∧
      e.caCert = (overItems dot1xItem {} items).1.caCert ∧
      e.clientCert = (overItems dot1xItem {} items).1.clientCert ∧
      e.privateKey = (overItems dot1xItem {} items).1.privateKey := by
  have hpsk : (overItems dot1xItem {} items).1.psk = none := by
    refine overItems_invariant (P := fun k : WifiKeys => k.psk = none) items rfl fun i _ k hk => ?_
    cases i with
    | assignment key v =>
      refine ite_invariant (P := fun k : WifiKeys => k.psk = none) (fun _ => hk) fun hkey => ?_
      exact wifiKey_psk (fun h => hkey (.inl h)) hk
    | _ => exact hk
  simp only [dot1xBlock, buildSecurity, hpsk] at h ⊢
  cases heap : (overItems dot1xItem {} items).1.eap with
  | none => simp [heap] at h
  | some method =>
    simp only [heap, reduceCtorEq, if_false] at h ⊢
    cases hid : (overItems dot1xItem {} items).1.identity with
    | none => simp [hid] at h
    | some identity =>
      simp only [hid] at h ⊢
      exact ⟨h, _, rfl, rfl, rfl, rfl⟩

theorem dot1xItem_cert (hc : c ∈ certKeys) (k : WifiKeys) (i : Item) (h : (dot1xItem k i).2 = []) :
    (dot1xItem k i).1.cert c =
      ((i.assigned c).map fun v => (asCertSource v).toOption).getD (k.cert c) := by
  cases i with
  | assignment key v =>
    rw [dot1xItem, dot1xKey] at h ⊢
    split_ifs at h ⊢ with hradio
    rw [Item.assigned]
    split_ifs with hkey
    · subst hkey
      obtain ⟨source, hread, hset⟩ := wifiKey_cert_self hc h
      rw [hset, Option.map_some, Option.getD_some, hread]
      rfl
    · exact wifiKey_cert_ne hkey
  | block head label overrides items => cases h
  | hook phase body => rfl
  | incl path => rfl

theorem asCertSource_ok_of_dot1xItem {k : WifiKeys} {i : Item}
    (hc : c ∈ certKeys) (h : (dot1xItem k i).2 = []) (hi : i.assigned c = some v) :
    ∃ source, asCertSource v = .ok source := by
  cases i with
  | assignment key v' =>
    rw [Item.assigned] at hi
    split_ifs at hi with hkey
    cases hi
    subst hkey
    rw [dot1xItem, dot1xKey] at h
    split_ifs at h
    obtain ⟨source, hread, -⟩ := wifiKey_cert_self hc h
    exact ⟨source, hread⟩
  | block head label overrides items => cases hi
  | hook phase body => cases hi
  | incl path => cases hi

theorem dot1xBlock_path_iff {e : Eap} (h : (dot1xBlock items).2 = [])
    (he : (dot1xBlock items).1 = some e) :
    (∀ file, .path file ∉ e.certs) ↔ ∀ key ∈ certKeys,
      ∀ v ∈ lastSome (Item.assigned key) items, certIsAPath v = false := by
  obtain ⟨hok, e', he', hca, hclient, hkey⟩ := dot1xBlock_ok h
  obtain rfl : e = e' := Option.some_inj.1 (he.symm.trans he')
  -- what each of the three fields holds at the end
  have hcert : ∀ c ∈ certKeys, (overItems dot1xItem {} items).1.cert c =
      (lastSome (Item.assigned c) items).bind fun v => (asCertSource v).toOption := by
    intro c hc
    rw [overItems_last (fun k => k.cert c) _ (dot1xItem_cert hc) items _ hok, lastSome_map]
    cases lastSome (Item.assigned c) items with
    | none =>
      simp only [certKeys, List.mem_cons, List.not_mem_nil, or_false] at hc
      rcases hc with rfl | rfl | rfl <;> rfl
    | some v => rfl
  have hmem : ∀ source, source ∈ e.certs ↔
      ∃ c ∈ certKeys, (overItems dot1xItem {} items).1.cert c = some source := by
    intro source
    simp [Eap.certs, certKeys, WifiKeys.cert, hca, hclient, hkey]
  constructor
  · intro hpath c hc v hv
    obtain ⟨i, hi, hassigned⟩ := exists_of_lastSome hv
    obtain ⟨k, hk⟩ := overItems_ok hok i hi
    obtain ⟨source, hsource⟩ := asCertSource_ok_of_dot1xItem hc hk hassigned
    rcases asCertSource_cases hsource with ⟨-, -, -, hv'⟩ | ⟨⟨file, rfl⟩, -⟩
    · exact hv'
    · refine absurd ((hmem _).2 ⟨c, hc, ?_⟩) (hpath file)
      rw [hcert c hc, hv, Option.bind_some, hsource]
      rfl
  · intro hpath file hfile
    obtain ⟨c, hc, hset⟩ := (hmem _).1 hfile
    rw [hcert c hc] at hset
    obtain ⟨v, hv, hread⟩ := Option.bind_eq_some_iff.1 hset
    cases hsource : asCertSource v with
    | error why => simp [hsource, Except.toOption] at hread
    | ok source =>
      rw [hsource] at hread
      obtain rfl : source = .path file := Option.some_inj.1 hread
      rcases asCertSource_cases hsource with ⟨s, hs, -, -⟩ | ⟨-, hv'⟩
      · cases hs
      · rw [hpath c hc v hv] at hv'
        cases hv'

theorem interfaceItem_dot1x (face : Interface) (i : Item) (h : (interfaceItem face i).2 = []) :
    (interfaceItem face i).1.dot1x =
      ((i.under "dot1x").map fun items => (dot1xBlock items).1).getD face.dot1x := by
  cases i with
  | block head label overrides items =>
    rw [interfaceItem] at h ⊢
    split_ifs at h ⊢ with hprobe hport
    · simp [Item.under, hprobe]
    · obtain ⟨-, e, he, -⟩ := dot1xBlock_ok h
      simp [Item.under, hport, he]
    · simp [Item.under, hport]
  | hook phase body => rfl
  | incl path => rfl
  | assignment key v => rfl

theorem dot1xBlock_of_interfaceItem {face : Interface} {i : Item}
    (h : (interfaceItem face i).2 = []) (hi : i.under "dot1x" = some items) :
    (dot1xBlock items).2 = [] := by
  cases i with
  | block head label overrides items' =>
    rw [Item.under] at hi
    split_ifs at hi with hhead
    cases hi
    subst hhead
    simpa [interfaceItem] using h
  | hook phase body => cases hi
  | incl path => cases hi
  | assignment key v => cases hi

theorem interface_path_iff {name : String} (h : (overItems interfaceItem { name } b.items).2 = []) :
    (∀ e ∈ (overItems interfaceItem { name } b.items).1.dot1x, ∀ file, .path file ∉ e.certs) ↔
      b.PortPathless := by
  rw [overItems_last Interface.dot1x _ interfaceItem_dot1x _ _ h, lastSome_map,
    MergedBlock.PortPathless]
  cases hlast : lastSome (Item.under "dot1x") b.items with
  | none => simp
  | some items =>
    obtain ⟨i, hi, hunder⟩ := exists_of_lastSome hlast
    obtain ⟨face, hface⟩ := overItems_ok h i hi
    have hok := dot1xBlock_of_interfaceItem hface hunder
    obtain ⟨-, e, he, -⟩ := dot1xBlock_ok hok
    simp only [Option.map_some, Option.getD_some, he, Option.mem_def, Option.some.injEq,
      forall_eq']
    exact dot1xBlock_path_iff hok he

/-! ## The owner of a tap -/

theorem tunItem_owner (t : Option String × Option String) (i : Item) (h : (tunItem t i).2 = []) :
    (tunItem t i).1.1 = ((i.assigned "owner").map fun v => (asString v).toOption).getD t.1 := by
  cases i with
  | assignment key v =>
    rw [tunItem] at h ⊢
    split_ifs at h ⊢ with howner hgroup
    · obtain ⟨s, hread, hset⟩ := exists_of_takeOrClear h
      rw [hset]
      simp [Item.assigned, howner, hread, Except.toOption]
    · obtain ⟨s, hread, hset⟩ := exists_of_takeOrClear h
      rw [hset]
      simp [Item.assigned, howner]
  | _ => rfl

theorem tunItem_group (t : Option String × Option String) (i : Item) (h : (tunItem t i).2 = []) :
    (tunItem t i).1.2 = ((i.assigned "group").map fun v => (asString v).toOption).getD t.2 := by
  cases i with
  | assignment key v =>
    rw [tunItem] at h ⊢
    split_ifs at h ⊢ with howner hgroup
    · obtain ⟨s, hread, hset⟩ := exists_of_takeOrClear h
      rw [hset]
      simp [Item.assigned, howner]
    · obtain ⟨s, hread, hset⟩ := exists_of_takeOrClear h
      rw [hset]
      simp [Item.assigned, hgroup, hread, Except.toOption]
  | _ => rfl

theorem asString_ok_of_tunItem {t : Option String × Option String} {i : Item}
    (hkey : key = "owner" ∨ key = "group") (h : (tunItem t i).2 = [])
    (hi : i.assigned key = some v) : ∃ s, asString v = .ok s := by
  cases i with
  | assignment key' v' =>
    rw [Item.assigned] at hi
    split_ifs at hi with heq
    cases hi
    subst heq
    rw [tunItem] at h
    split_ifs at h with howner hgroup
    · obtain ⟨s, hread, -⟩ := exists_of_takeOrClear h
      exact ⟨s, hread⟩
    · obtain ⟨s, hread, -⟩ := exists_of_takeOrClear h
      exact ⟨s, hread⟩
  | _ => cases hi

theorem assigned_eq_none_iff
    (hkey : key = "owner" ∨ key = "group") (h : (overItems tunItem (none, none) items).2 = []) :
    (lastSome (fun i => (i.assigned key).map fun v => (asString v).toOption) items).getD none =
      none ↔ lastSome (Item.assigned key) items = none := by
  rw [lastSome_map]
  cases hlast : lastSome (Item.assigned key) items with
  | none => simp
  | some v =>
    obtain ⟨i, hi, hassigned⟩ := exists_of_lastSome hlast
    obtain ⟨t, ht⟩ := overItems_ok h i hi
    obtain ⟨s, hs⟩ := asString_ok_of_tunItem hkey ht hassigned
    simp [hs, Except.toOption]

/-- A device of a `tun` or a `tap` block with nothing wrong has an owner or a group exactly
where one is assigned. -/
theorem tunBlock_owner_iff {tap : Bool} (h : (tunBlock tap items).2 = []) :
    (∀ owner group, (tunBlock tap items).1 = .tun tap owner group → owner = none ∧ group = none) ↔
      lastSome (Item.assigned "owner") items = none ∧
        lastSome (Item.assigned "group") items = none := by
  have hok : (overItems tunItem (none, none) items).2 = [] := h
  rw [← assigned_eq_none_iff (.inl rfl) hok, ← assigned_eq_none_iff (.inr rfl) hok,
    ← overItems_last Prod.fst _ tunItem_owner items _ hok,
    ← overItems_last Prod.snd _ tunItem_group items _ hok]
  simp [tunBlock]

theorem kindBlock_ok {head : String} (h : (kindBlock head items).2 = []) :
    ∃ kind, (kindBlock head items).1 = some kind := by
  have hwrong : ∀ {wrong : List String} {message : String}, wrong ++ [message] ≠ [] :=
    List.append_ne_nil_of_right_ne_nil _ (List.cons_ne_nil _ _)
  unfold kindBlock at h ⊢
  split_ifs at h ⊢ with htun hwg hppp hvpn
  · exact ⟨_, rfl⟩
  · simp only [wireguardBlock] at h ⊢
    split at h
    case h_1 => exact ⟨_, rfl⟩
    case h_2 => exact absurd h hwrong
  · simp only [pppoeBlock] at h ⊢
    split_ifs at h ⊢ with hparent
    · exact absurd h hwrong
    · split at h
      case h_1 => exact ⟨_, rfl⟩
      case h_2 => exact absurd h hwrong
  · simp only [openvpnBlock] at h ⊢
    split at h
    case h_1 => exact absurd h hwrong
    case h_2 =>
      split_ifs at h with hpath hboth
      · exact absurd h hwrong
      · exact absurd h hwrong
      · exact ⟨_, by rw [if_neg hpath, if_neg hboth]⟩
  · exact ⟨_, rfl⟩

theorem head_of_kindBlock_tap {head : String} {owner group : Option String}
    (h : (kindBlock head items).1 = some (.tun true owner group)) : head = "tap" := by
  unfold kindBlock at h
  split_ifs at h with htun hwg hppp hvpn
  · simp [tunBlock] at h
    exact h.1
  · simp only [wireguardBlock] at h
    split at h <;> simp at h
  · simp only [pppoeBlock] at h
    split_ifs at h
    split at h <;> simp at h
  · simp only [openvpnBlock] at h
    split at h
    · cases h
    · split_ifs at h
      simp at h
  · simp at h

/-- The owner and the group of a `tap` device. -/
def Kind.tap : Kind → Option (Option String × Option String)
  | .tun true owner group => some (owner, group)
  | _ => none

theorem Kind.tap_eq_some {kind : Kind} {owner group : Option String} :
    kind.tap = some (owner, group) ↔ kind = .tun true owner group := by
  cases kind with
  | tun tap owner' group' => cases tap <;> simp [Kind.tap]
  | _ => simp [Kind.tap]

theorem deviceItem_tap (kind : Kind) (i : Item) (h : (deviceItem kind i).2 = []) :
    (deviceItem kind i).1.tap =
      (i.kind.map fun p => ((kindBlock p.1 p.2).1.getD .physical).tap).getD kind.tap := by
  cases i with
  | block head label overrides items =>
    rw [deviceItem] at h ⊢
    rw [Item.kind]
    split_ifs at h ⊢ with hhead
    · obtain ⟨lowered, hlow⟩ := kindBlock_ok h
      simp [hlow]
    · rfl
  | assignment key v =>
    rw [deviceItem] at h ⊢
    rw [Item.kind]
    split_ifs at h ⊢ with hkey
    · -- a word names no `tap`, and neither does the block of no items it stands for
      subst hkey
      cases hword : asString v >>= kindNamed with
      | error why => simp [take, hword] at h
      | ok named =>
        rcases kind_of_word hword with rfl | rfl <;> rfl
    · rfl
  | hook phase body => rfl
  | incl path => rfl

theorem kindBlock_of_deviceItem {kind : Kind} {i : Item} {items : List Item}
    (h : (deviceItem kind i).2 = []) (hi : i.kind = some ("tap", items)) :
    (tunBlock true items).2 = [] := by
  cases i with
  | block head label overrides inner =>
    rw [Item.kind] at hi
    split_ifs at hi with hhead
    cases hi
    simpa [deviceItem, hhead, kindBlock] using h
  | assignment key v =>
    rw [Item.kind] at hi
    split_ifs at hi with hkey
    simp [hkey] at hi
  | hook phase body => cases hi
  | incl path => cases hi

theorem device_owner_iff (h : (overItems deviceItem .physical b.items).2 = []) :
    (∀ owner group, (overItems deviceItem .physical b.items).1 = .tun true owner group →
      owner = none ∧ group = none) ↔ b.TapUnowned := by
  have hkind := overItems_last Kind.tap _ deviceItem_tap b.items .physical h
  simp only [← Kind.tap_eq_some, hkind, lastSome_map]
  rw [MergedBlock.TapUnowned]
  cases hlast : lastSome Item.kind b.items with
  | none => simp [Kind.tap]
  | some p =>
    obtain ⟨head, items⟩ := p
    simp only [Option.map_some, Option.getD_some, Option.some.injEq, Prod.mk.injEq]
    by_cases hhead : head = "tap"
    · subst hhead
      obtain ⟨i, hi, hk⟩ := exists_of_lastSome hlast
      obtain ⟨kind, hkindok⟩ := overItems_ok h i hi
      have hokt : (tunBlock true items).2 = [] := kindBlock_of_deviceItem hkindok hk
      have htun : (kindBlock "tap" items).1.getD .physical = (tunBlock true items).1 := by
        simp [kindBlock]
      simp only [Kind.tap_eq_some, htun, tunBlock_owner_iff hokt]
      simp
    · refine ⟨fun _ items' h => absurd h.1 hhead, fun _ owner group hl => ?_⟩
      rw [Kind.tap_eq_some] at hl
      cases hlow : (kindBlock head items).1 with
      | none => simp [hlow] at hl
      | some lowered =>
        rw [hlow, Option.getD_some] at hl
        exact absurd (head_of_kindBlock_tap (hl ▸ hlow)) hhead

/-! ## The agent -/

theorem agentOf_eq_root : agentOf v = .ok .root ↔ asString v = .ok "root" := by
  unfold agentOf
  cases hv : asString v with
  | error why => simp
  | ok text =>
    simp only [Except.ok.injEq]
    unfold principalParse
    split_ifs with h1 h2 h3 h4 h5 h6 <;> simp_all [Except.mapError]

/-- Who an `agent` reads as. -/
def agentRead (v : Value) : Principal := (agentOf v).toOption.getD .root

/-- One item of a `remote` block. -/
def remoteItem (r : Remote) : Item → Remote × List String
  | .assignment key v => remoteKey r key v
  | _ => (r, [])

theorem overAssignments_remote (r : Remote) (items : List Item) :
    overAssignments remoteKey r items = overItems remoteItem r items := by
  rfl

theorem remoteItem_agent (r : Remote) (i : Item) (h : (remoteItem r i).2 = []) :
    (remoteItem r i).1.agent = ((i.assigned "agent").map agentRead).getD r.agent := by
  cases i with
  | assignment key v =>
    rw [remoteItem, remoteKey] at h ⊢
    rw [Item.assigned]
    split_ifs at h ⊢ with hkey
    · obtain ⟨agent, hread, hset⟩ := exists_of_take h
      rw [hset, Option.map_some, Option.getD_some, agentRead, hread]
      rfl
    · exact take_invariant (P := fun r' : Remote => r'.agent = r.agent) rfl fun _ _ => rfl
    · exact take_invariant (P := fun r' : Remote => r'.agent = r.agent) rfl fun _ _ => rfl
    · exact take_invariant (P := fun r' : Remote => r'.agent = r.agent) rfl fun _ _ => rfl
  | _ => rfl

theorem agentOf_ok_of_remoteItem {r : Remote} {i : Item} (h : (remoteItem r i).2 = [])
    (hi : i.assigned "agent" = some v) : ∃ agent, agentOf v = .ok agent := by
  cases i with
  | assignment key v' =>
    rw [Item.assigned] at hi
    split_ifs at hi with hkey
    cases hi
    subst hkey
    obtain ⟨agent, hread, -⟩ := exists_of_take (by simpa [remoteItem, remoteKey] using h)
    exact ⟨agent, hread⟩
  | _ => cases hi

theorem globalItem_agent (p : Policy) (i : Item) (h : (globalItem p i).2 = []) :
    (globalItem p i).1.remote.agent = (i.agent.map agentRead).getD p.remote.agent := by
  cases i with
  | block head label overrides items =>
    rw [globalItem] at h ⊢
    rw [Item.agent, Item.under]
    by_cases hremote : head = "remote"
    · subst hremote
      simp only [String.reduceEq, if_false, if_true, overAssignments_remote] at h ⊢
      rw [overItems_last Remote.agent _ remoteItem_agent items _ h, lastSome_map]
      rfl
    · rw [if_neg hremote, if_neg hremote]
      let P (p' : Policy) : Prop := p'.remote.agent = p.remote.agent
      have hp : P p := rfl
      exact ite_invariant (P := P) (fun _ => hp) fun _ =>
        ite_invariant (P := P) (fun _ => hp) fun _ => hp
  | hook phase body => rfl
  | incl path => rfl
  | assignment key v => rfl

theorem agentOf_ok_of_globalItem {p : Policy} {i : Item} (h : (globalItem p i).2 = [])
    (hi : i.agent = some v) : ∃ agent, agentOf v = .ok agent := by
  obtain ⟨items, hunder, hlast⟩ := Option.bind_eq_some_iff.1 hi
  cases i with
  | block head label overrides items' =>
    rw [Item.under] at hunder
    split_ifs at hunder with hhead
    cases hunder
    subst hhead
    obtain ⟨j, hj, hassigned⟩ := exists_of_lastSome hlast
    have hok : (overItems remoteItem p.remote items).2 = [] := by
      simpa [globalItem, overAssignments_remote] using h
    obtain ⟨r, hr⟩ := overItems_ok hok j hj
    exact agentOf_ok_of_remoteItem hr hassigned
  | hook phase body => cases hunder
  | incl path => cases hunder
  | assignment key v => cases hunder

theorem lowerBlock_agent (d : Grants) (b : MergedBlock) (h : (lowerBlock d b).2 = []) :
    (lowerBlock d b).1.policy.remote.agent =
      (b.agent.map agentRead).getD d.policy.remote.agent := by
  rw [MergedBlock.agent]
  by_cases hglobal : b.head = "global"
  · rw [if_pos hglobal]
    rw [lowerBlock, if_pos hglobal] at h ⊢
    rw [← lastSome_map]
    exact overItems_last (fun p : Policy => p.remote.agent) _ globalItem_agent b.items _ h
  · rw [if_neg hglobal, lowerBlock, if_neg hglobal]
    let P (d' : Grants) : Prop := d'.policy.remote.agent = d.policy.remote.agent
    have hd : P d := rfl
    repeat' refine ite_invariant (P := P) (fun _ => ?_) fun _ => ?_
    all_goals first
      | exact hd
      | exact labelled_invariant (P := P) hd fun _ => hd
      | exact labelled_invariant (P := P) hd fun _ =>
          ite_invariant (P := P) (fun _ => hd) fun _ => hd

/-! ## The gate -/

def MergedBlock.faces (b : MergedBlock) : List Interface :=
  if b.head = "interface" then
    b.label.toList.map fun name => (overItems interfaceItem { name } b.items).1
  else []

def MergedBlock.kinds (b : MergedBlock) : List Kind :=
  if b.head = "device" then b.label.toList.map fun _ => (overItems deviceItem .physical b.items).1
  else []

theorem lowerBlock_faces (d : Grants) (b : MergedBlock) :
    (lowerBlock d b).1.interfaces = d.interfaces ++ b.faces := by
  rw [MergedBlock.faces]
  by_cases hface : b.head = "interface"
  · simp only [lowerBlock, hface, String.reduceEq, if_false, if_true, labelled]
    cases b.label <;> simp
  · rw [if_neg hface, List.append_nil, lowerBlock, if_neg hface]
    let P (d' : Grants) : Prop := d'.interfaces = d.interfaces
    have hd : P d := rfl
    repeat' refine ite_invariant (P := P) (fun _ => ?_) fun _ => ?_
    all_goals first
      | exact hd
      | exact labelled_invariant (P := P) hd fun _ => hd
      | exact labelled_invariant (P := P) hd fun _ =>
          ite_invariant (P := P) (fun _ => hd) fun _ => hd

theorem lowerBlock_kinds (d : Grants) (b : MergedBlock) :
    (lowerBlock d b).1.devices = d.devices ++ b.kinds := by
  rw [MergedBlock.kinds]
  by_cases hdev : b.head = "device"
  · simp only [lowerBlock, hdev, String.reduceEq, if_false, if_true, labelled]
    cases b.label <;> simp
  · rw [if_neg hdev, List.append_nil, lowerBlock, if_neg hdev]
    let P (d' : Grants) : Prop := d'.devices = d.devices
    have hd : P d := rfl
    repeat' refine ite_invariant (P := P) (fun _ => ?_) fun _ => ?_
    all_goals first
      | exact hd
      | exact labelled_invariant (P := P) hd fun _ => hd
      | exact labelled_invariant (P := P) hd fun _ =>
          ite_invariant (P := P) (fun _ => hd) fun _ => hd

theorem faces_of_lowerBlock (h : (lowerBlock d b).2 = []) (hb : b.head = "interface") :
    ∃ name, (overItems interfaceItem { name } b.items).2 = [] ∧
      b.faces = [(overItems interfaceItem { name } b.items).1] := by
  cases hlabel : b.label with
  | none => simp [lowerBlock, labelled, hb, hlabel] at h
  | some name =>
    refine ⟨name, ?_, by simp [MergedBlock.faces, hb, hlabel]⟩
    simpa [lowerBlock, labelled, hb, hlabel] using h

theorem kinds_of_lowerBlock (h : (lowerBlock d b).2 = []) (hb : b.head = "device") :
    (overItems deviceItem .physical b.items).2 = [] ∧
      b.kinds = [(overItems deviceItem .physical b.items).1] := by
  cases hlabel : b.label with
  | none => simp [lowerBlock, labelled, hb, hlabel] at h
  | some name =>
    refine ⟨?_, by simp [MergedBlock.kinds, hb, hlabel]⟩
    simpa [lowerBlock, labelled, hb, hlabel] using h

theorem Eap.Clean.secrets {e : Eap} {ok : CertSource → Prop} (h : e.Clean ok)
    (hok : ∀ c, ok c → c.Held) : ∀ s ∈ e.secrets, s.provider ≠ .exec := by
  intro s hs
  rcases List.mem_append.1 hs with hs | hs
  · exact h.password s (Option.mem_toList.1 hs)
  · obtain ⟨c, hc, hs⟩ := List.mem_flatMap.1 hs
    exact hok c (h.certs c hc) s hs

theorem Security.Clean.secrets {security : Security} (h : security.Clean CertSource.Kept) :
    ∀ s ∈ security.secrets, s.provider ≠ .exec := by
  cases security with
  | none => simp [Security.secrets]
  | owe => simp [Security.secrets]
  | psk passphrase proto =>
    intro s hs
    obtain rfl := List.mem_singleton.1 hs
    exact h
  | eap config => exact Eap.Clean.secrets h fun _ hc => hc.1

theorem Grants.Covered.securities (h : d.Covered) :
    ∀ s ∈ d.securities, s.Clean CertSource.Kept := by
  intro s hs
  simp only [Grants.securities, List.mem_append, List.mem_filterMap] at hs
  rcases hs with (⟨n, hn, hs⟩ | ⟨a, ha, hs⟩) | ⟨a, ha, hs⟩
  · exact (h.networks n hn).security s hs
  · exact (h.accessPoints a ha).security s hs
  · exact (h.meshes a ha).security s hs

theorem Grants.Covered.secrets (h : d.Covered) :
    ∀ s ∈ d.secrets, s.provider ≠ .exec := by
  intro s hs
  simp only [Grants.secrets, List.mem_append, List.mem_flatMap, List.mem_filterMap] at hs
  rcases hs with ((⟨kind, hk, hs⟩ | ⟨security, hsec, hs⟩) | ⟨e, ⟨i, hi, he⟩, hs⟩) | ⟨a, ha, hs⟩
  · exact (h.devices kind hk).noExec s hs
  · exact (h.securities security hsec).secrets s hs
  · exact Eap.Clean.secrets ((h.interfaces i hi).dot1x e he) (fun _ hc => hc) s hs
  · rcases ha with ha | ha
    · exact (h.accessPoints a ha).roamingKey s hs
    · exact (h.meshes a ha).roamingKey s hs

/-- What is covered is unprivileged exactly where the gaps are closed. -/
theorem Grants.Covered.unprivileged_iff (h : d.Covered) :
    d.Unprivileged ↔ d.Closed := by
  constructor
  · intro hu
    refine ⟨fun i hi e he => hu.noPath e ?_, ?_, by rw [hu.noPolicy]⟩
    · exact List.mem_append_right _ (List.mem_filterMap.2 ⟨i, hi, he⟩)
    · rintro kind hk owner group rfl
      exact hu.noOwner true owner group hk
  · intro hc
    constructor
    case noHook =>
      simp only [Grants.hooks, List.append_eq_nil_iff, List.flatMap_eq_nil_iff]
      exact ⟨fun i hi => (h.interfaces i hi).noHook, fun n hn => (h.networks n hn).noHook⟩
    case noProbe => exact fun i hi => (h.interfaces i hi).noProbe
    case noExec => exact h.secrets
    case noPath =>
      intro e he file
      rcases List.mem_append.1 he with he | he
      · obtain ⟨security, hs, he⟩ := List.mem_flatMap.1 he
        have hclean := h.securities security hs
        cases security with
        | eap config =>
          obtain rfl := List.mem_singleton.1 he
          intro hfile
          exact (hclean.certs _ hfile).2 file rfl
        | _ => cases he
      · obtain ⟨i, hi, he⟩ := List.mem_filterMap.1 he
        exact hc.port i hi e he file
    case noForeignConfig =>
      intro config password hk
      exact (h.devices _ hk).noForeignConfig config password rfl
    case noOwner =>
      rintro (_ | _) owner group hk
      · exact (h.devices _ hk).noOwner owner group rfl
      · exact hc.tap _ hk owner group rfl
    case noPolicy =>
      have hremote := h.policy.remote
      rw [hc.agent] at hremote
      exact congrArg₂ Policy.mk h.policy.control hremote

theorem faces_path_iff (h : (lowerBlock d b).2 = []) :
    (∀ i ∈ b.faces, ∀ e ∈ i.dot1x, ∀ file, .path file ∉ e.certs) ↔
      (b.head = "interface" → b.PortPathless) := by
  by_cases hb : b.head = "interface"
  · obtain ⟨name, hok, hfaces⟩ := faces_of_lowerBlock h hb
    rw [hfaces, ← interface_path_iff hok]
    simp [hb]
  · simp [MergedBlock.faces, hb]

theorem kinds_owner_iff (h : (lowerBlock d b).2 = []) :
    (∀ kind ∈ b.kinds, ∀ owner group, kind = .tun true owner group →
      owner = none ∧ group = none) ↔ (b.head = "device" → b.TapUnowned) := by
  by_cases hb : b.head = "device"
  · obtain ⟨hok, hkinds⟩ := kinds_of_lowerBlock h hb
    rw [hkinds, ← device_owner_iff hok]
    simp [hb]
  · simp [MergedBlock.kinds, hb]

theorem agentOf_ok_of_agentIn {merged : List MergedBlock}
    (h : (overItems lowerBlock d merged).2 = []) (hv : agentIn merged = some v) :
    ∃ agent, agentOf v = .ok agent := by
  obtain ⟨b, hb, hagent⟩ := exists_of_lastSome hv
  split_ifs at hagent with hglobal
  obtain ⟨i, hi, hi'⟩ := exists_of_lastSome hagent
  obtain ⟨d', hd'⟩ := overItems_ok h b hb
  rw [lowerBlock, if_pos hglobal] at hd'
  obtain ⟨p, hp⟩ := overItems_ok hd' i hi
  exact agentOf_ok_of_globalItem hp hi'

/-- A compiled document closes the gaps exactly where its file has none. -/
theorem closed_iff_gapFree {file : List Item} (h : compile file = .ok d) :
    d.Closed ↔ GapFree file := by
  obtain ⟨hok, hd⟩ := compile_ok h
  have hfaces := overItems_adds Grants.interfaces MergedBlock.faces
    (fun d b _ => lowerBlock_faces d b) _ _ hok
  have hkinds := overItems_adds Grants.devices MergedBlock.kinds
    (fun d b _ => lowerBlock_kinds d b) _ _ hok
  have hagent := overItems_last (fun d : Grants => d.policy.remote.agent) _ lowerBlock_agent _ _ hok
  rw [← hd] at hfaces hkinds hagent
  have hport : (∀ i ∈ d.interfaces, ∀ e ∈ i.dot1x, ∀ file, .path file ∉ e.certs) ↔
      ∀ b ∈ (merge file).1, b.head = "interface" → b.PortPathless := by
    rw [hfaces]
    simp only [List.nil_append, List.mem_flatMap, forall_exists_index, and_imp]
    constructor
    · intro hp b hb
      obtain ⟨d', hd'⟩ := overItems_ok hok b hb
      exact (faces_path_iff hd').1 fun i hi => hp i b hb hi
    · intro hp i b hb hi
      obtain ⟨d', hd'⟩ := overItems_ok hok b hb
      exact (faces_path_iff hd').2 (hp b hb) i hi
  have htap : (∀ kind ∈ d.devices, ∀ owner group, kind = .tun true owner group →
      owner = none ∧ group = none) ↔
      ∀ b ∈ (merge file).1, b.head = "device" → b.TapUnowned := by
    rw [hkinds]
    simp only [List.nil_append, List.mem_flatMap, forall_exists_index, and_imp]
    constructor
    · intro hp b hb
      obtain ⟨d', hd'⟩ := overItems_ok hok b hb
      exact (kinds_owner_iff hd').1 fun kind hk => hp kind b hb hk
    · intro hp kind b hb hk
      obtain ⟨d', hd'⟩ := overItems_ok hok b hb
      exact (kinds_owner_iff hd').2 (hp b hb) kind hk
  have hroot : d.policy.remote.agent = .root ↔
      ∀ v ∈ agentIn (merge file).1, asString v = .ok "root" := by
    rw [hagent, lastSome_map]
    change (((agentIn (merge file).1).map agentRead).getD .root = .root) ↔ _
    cases hin : agentIn (merge file).1 with
    | none => simp
    | some v =>
      obtain ⟨agent, hread⟩ := agentOf_ok_of_agentIn hok hin
      simp only [Option.map_some, Option.getD_some, Option.mem_def, Option.some.injEq, forall_eq',
        ← agentOf_eq_root, agentRead, hread, Except.ok.injEq]
      rfl
  exact ⟨fun hc => ⟨hport.1 hc.port, htap.1 hc.tap, hroot.1 hc.agent⟩,
    fun hg => ⟨hport.2 hg.port, htap.2 hg.tap, hroot.2 hg.agent⟩⟩

/-- The gate keeps its promise of exactly the texts that take none of the three paths, among
those that compile and in which nothing is found. -/
theorem gateCovers_iff (file : List Item) :
    GateCovers file ↔
      ((∃ d, compile file = .ok d) → privilegeFindings file = [] → GapFree file) := by
  constructor
  · rintro hgate ⟨d, hd⟩ hf
    have hcovered := covered_of_findings hd hf
    exact (closed_iff_gapFree hd).1 (hcovered.unprivileged_iff.1 (hgate d hd hf).1)
  · intro hgap d hd hf
    have hcovered := covered_of_findings hd hf
    refine ⟨hcovered.unprivileged_iff.2 ?_, includesAny_of_walk file hf⟩
    exact (closed_iff_gapFree hd).2 (hgap ⟨d, hd⟩ hf)

def ownedTap : List Item :=
  [.block "device" (some "tap0") false
    [.block "tap" none false [.assignment "owner" (.string "mallory")]]]

/-- Nothing is found in it, it compiles, and the device is the user's. -/
theorem gate_misses_tap_owner : ¬GateCovers ownedTap := by
  intro h
  have hcompile : compile ownedTap =
      .ok { devices := [.tun true (some "mallory") none] } := by decide
  have hf : privilegeFindings ownedTap = [] := by decide
  have hu := (h _ hcompile hf).1
  have := hu.noOwner true (some "mallory") none (by decide)
  simp at this

end Netcfgd.Compile
