import Netcfgd.Stations

/-!
# Station lists settle, neighbours where a radio's access points agree

Once the actions of a plan on the running hostapds are carried out, a second plan has none on a
station list : what is wanted of a list grows from what it holds (`not_mem_planAccessControl`), so
a station a deny rule covers is not released either (`not_released`).

The neighbours are planned for every access point, and not only for the one that runs on its
radio. Two of a radio that ask for different neighbours undo each other's, so the second plan has
none on a neighbour exactly where they agree (`Agree`, `lists_and_neighbours_settle`).
-/

namespace Netcfgd.Stations

/-- The lists of an access point are converged, the hostapd that runs it being this. -/
structure Converges (c : Checks) (declined : List String) (changed : AccessPoint → σ → Bool)
    (o : Observed σ) (p : AccessPoint) (h : Hostapd σ) (live : Control) : Prop where
  runs : o.hostapd p.device = some h
  stands : changed p h.started → restart c declined p.device = none
  told : h.control = some live
  known : live.policy ≠ .unknown
  agrees : agreed live.policy p.accessControl = true

/-! ## What is wanted of a list -/

section Lists

variable {acl : AccessControl} {live : Control} {x : String}

theorem mem_absorb : ∀ {found set : List String},
    x ∈ absorb acl set found ↔ x ∈ set ∨ acl.names x ∧ x ∈ found
  | [], set => by simp [absorb]
  | y :: found, set => by
    have hnext : x ∈ absorb acl (if acl.names y ∧ y ∉ set then set ++ [y] else set) found ↔ _ :=
      mem_absorb
    unfold absorb at hnext ⊢
    rw [List.foldl_cons, hnext, List.mem_cons]
    by_cases hy : acl.names y ∧ y ∉ set
    · rw [if_pos hy, List.mem_append, List.mem_singleton]
      constructor
      · rintro ((h | rfl) | ⟨hname, hx⟩)
        · exact .inl h
        · exact .inr ⟨hy.1, .inl rfl⟩
        · exact .inr ⟨hname, .inr hx⟩
      · rintro (h | ⟨hname, rfl | hx⟩)
        · exact .inl (.inl h)
        · exact .inl (.inr rfl)
        · exact .inr ⟨hname, hx⟩
    · rw [if_neg hy]
      constructor
      · rintro (h | ⟨hname, hx⟩)
        · exact .inl h
        · exact .inr ⟨hname, .inr hx⟩
      · rintro (h | ⟨hname, rfl | hx⟩)
        · exact .inl h
        · rw [not_and_not_right] at hy
          exact .inl (hy hname)
        · exact .inr ⟨hname, hx⟩

/-- A station is wanted on the list the document means where it is written, or a prefix covers it
and it is held, associated or was seen. -/
theorem mem_wantedOn {wanted : Option AccessControl} {seen : List String} {list : AclPolicy} :
    x ∈ wantedOn wanted live seen list ↔ ∃ acl, wanted = some acl ∧ acl.policy = list ∧
      (x ∈ acl.stations ∨ acl.prefixes ≠ [] ∧ acl.names x ∧
        (x ∈ live.list list ∨ x ∈ live.associated ∨ x ∈ seen)) := by
  unfold wantedOn
  cases wanted with
  | none => simp
  | some acl =>
    by_cases hlist : acl.policy = list
    · simp only [Option.filter_some, hlist, decide_true, if_true, Option.some.injEq,
        exists_eq_left', true_and]
      unfold wantedStations
      split_ifs with hnone
      · simp [hnone]
      · rw [mem_absorb, mem_absorb, mem_absorb]
        tauto
    · simp [Option.filter_some, hlist]

theorem mem_wantedOn_of_names {seen : List String} (hnames : acl.names x)
    (hheld : x ∈ live.list acl.policy) : x ∈ wantedOn (some acl) live seen acl.policy := by
  rw [mem_wantedOn]
  refine ⟨acl, rfl, rfl, ?_⟩
  by_cases hnone : acl.prefixes = []
  · unfold AccessControl.names at hnames
    rw [hnone, List.append_nil, List.any_eq_true] at hnames
    obtain ⟨entry, hentry, hmatch⟩ := hnames
    unfold entryMatches at hmatch
    rw [acl.exact_ entry hentry, if_neg (by simp), decide_eq_true_eq] at hmatch
    exact .inl (hmatch ▸ hentry)
  · exact .inr ⟨hnone, hnames, .inl hheld⟩

end Lists

/-! ## What the actions do to one hostapd -/

/-- hostapd, on one operation. -/
def act (own : String → Bool) (d : String) (live : Control) : Op → Control
  | .accessControlAdd device list station =>
    if d = device then live.onList (setStation true station) list else live
  | .accessControlDel device list station =>
    if d = device then live.onList (setStation false station) list else live
  | .neighbourAdd device bssid ssid nr =>
    if own bssid = false ∧ d = device then
      { live with neighbours := live.neighbours.put ⟨bssid, ssid, nr⟩ }
    else live
  | .neighbourDel device bssid _ _ =>
    if own bssid = false ∧ d = device then
      { live with neighbours := live.neighbours.drop bssid }
    else live
  | _ => live

section Act

variable {σ : Type*} {o : Observed σ} {own : String → Bool} {d : String} {live : Control}

theorem on_hostapd (device : String) (f : Control → Control) :
    (o.on device f).hostapd d = (o.hostapd d).map fun h =>
      { h with control := h.control.map fun live => if d = device then f live else live } := by
  unfold Observed.on
  dsimp only
  split_ifs with hd
  · rfl
  · cases o.hostapd d with
    | none => rfl
    | some h => simp

theorem on_hostapd_own (device bssid : String) (f : Control → Control) :
    (if o.isOwn device bssid then o else o.on device f).hostapd d = (o.hostapd d).map fun h =>
      { h with control := h.control.map fun live =>
          if o.isOwn d bssid = false ∧ d = device then f live else live } := by
  by_cases hd : d = device
  · subst hd
    by_cases hown : o.isOwn d bssid
    · cases hh : o.hostapd d <;> simp [hown, hh]
    · rw [if_neg hown, on_hostapd]
      simp [hown]
  · simp only [hd, and_false, if_false]
    split_ifs
    · cases o.hostapd d <;> simp
    · rw [on_hostapd]
      simp [hd]

theorem carry_hostapd (op : Op) :
    (carry o op).hostapd d = (o.hostapd d).map fun h =>
      { h with control := h.control.map fun live => act (o.isOwn d) d live op } := by
  have hsame : o.hostapd d = (o.hostapd d).map fun h =>
      { h with control := h.control.map fun live => live } := by
    cases o.hostapd d <;> simp
  cases op with
  | accessControlAdd device list station => exact on_hostapd device _
  | accessControlDel device list station => exact on_hostapd device _
  | neighbourAdd device bssid ssid nr => exact on_hostapd_own device bssid _
  | neighbourDel device bssid ssid nr => exact on_hostapd_own device bssid _
  | _ => exact hsame

variable (o) in
theorem carry_mac (op : Op) : (carry o op).mac = o.mac ∧ (carry o op).seen = o.seen := by
  unfold carry
  split
  · exact ⟨rfl, rfl⟩
  · exact ⟨rfl, rfl⟩
  · split_ifs <;> exact ⟨rfl, rfl⟩
  · split_ifs <;> exact ⟨rfl, rfl⟩
  · exact ⟨rfl, rfl⟩

theorem foldl_carry : ∀ (ops : List Op) (o : Observed σ),
    (ops.foldl carry o).mac = o.mac ∧ (ops.foldl carry o).seen = o.seen ∧
      ∀ d, (ops.foldl carry o).hostapd d = (o.hostapd d).map fun h =>
        { h with control := h.control.map fun live => ops.foldl (act (o.isOwn d) d) live }
  | [], o => by
    refine ⟨rfl, rfl, fun d => ?_⟩
    simp only [List.foldl_nil]
    cases o.hostapd d <;> simp
  | op :: ops, o => by
    obtain ⟨hmac, hseen, hhostapd⟩ := foldl_carry ops (carry o op)
    obtain ⟨hmac', hseen'⟩ := carry_mac o op
    rw [List.foldl_cons]
    refine ⟨hmac.trans hmac', hseen.trans hseen', fun d => ?_⟩
    have hown : (carry o op).isOwn d = o.isOwn d := by
      unfold Observed.isOwn
      rw [hmac']
    rw [hhostapd, carry_hostapd, hown, Option.map_map]
    simp [Function.comp_def]

/-! The lists -/

theorem mem_onList {f : List String → List String} {list list' : AclPolicy} {x : String} :
    x ∈ (live.onList f list').list list ↔
      if list = list' then x ∈ f (live.list list) else x ∈ live.list list := by
  cases list <;> cases list' <;> simp [Control.onList, Control.list]

theorem mem_setStation {adding : Bool} {s x : String} {l : List String} :
    x ∈ setStation adding s l ↔ if x = s then adding = true else x ∈ l := by
  unfold setStation
  by_cases hx : x = s <;> cases adding <;> by_cases hs : s ∈ l <;> simp_all

theorem mem_act_list {list : AclPolicy} {x : String} (op : Op) :
    x ∈ (act own d live op).list list ↔
      op = .accessControlAdd d list x ∨
        op ≠ .accessControlDel d list x ∧ x ∈ live.list list := by
  cases op with
  | accessControlAdd device list' s =>
    dsimp only [act]
    split_ifs with hd
    · rw [mem_onList, mem_setStation]
      by_cases hlist : list = list' <;> by_cases hx : x = s <;> simp_all [eq_comm]
    · simp [Ne.symm hd]
  | accessControlDel device list' s =>
    dsimp only [act]
    split_ifs with hd
    · rw [mem_onList, mem_setStation]
      by_cases hlist : list = list' <;> by_cases hx : x = s <;> simp_all [eq_comm]
    · simp [Ne.symm hd]
  | neighbourAdd device bssid ssid nr =>
    dsimp only [act]
    split_ifs <;> cases list <;> simp [Control.list]
  | neighbourDel device bssid ssid nr =>
    dsimp only [act]
    split_ifs <;> cases list <;> simp [Control.list]
  | _ => simp [act]

/-- A run of actions that does not both add and remove a station leaves it on the list where it
added it, or it was there and was not removed. -/
theorem mem_foldl_list {list : AclPolicy} {x : String} : ∀ {ops : List Op} {live : Control},
    (Op.accessControlAdd d list x ∉ ops ∨ Op.accessControlDel d list x ∉ ops) →
    (x ∈ (ops.foldl (act own d) live).list list ↔ .accessControlAdd d list x ∈ ops ∨
      x ∈ live.list list ∧ .accessControlDel d list x ∉ ops)
  | [], live, _ => by simp
  | op :: ops, live, honce => by
    have hrest : Op.accessControlAdd d list x ∉ ops ∨ Op.accessControlDel d list x ∉ ops := by
      simp only [List.mem_cons, not_or] at honce
      tauto
    rw [List.foldl_cons, mem_foldl_list hrest, mem_act_list]
    simp only [List.mem_cons, not_or] at honce ⊢
    by_cases hadd : op = .accessControlAdd d list x
    · subst hadd
      simp_all
    · by_cases hdel : op = .accessControlDel d list x
      · subst hdel
        simp_all
      · simp only [hadd, ne_eq, hdel, not_false_eq_true, true_and, false_or, Ne.symm hadd,
          Ne.symm hdel]

variable (own d live) in
theorem act_kept (op : Op) : (act own d live op).policy = live.policy ∧
    (act own d live op).associated = live.associated := by
  unfold act
  split <;> try split_ifs
  all_goals first
    | exact ⟨rfl, rfl⟩
    | (rename_i list _ _; cases list <;> exact ⟨rfl, rfl⟩)

theorem foldl_act_kept : ∀ (ops : List Op) (live : Control),
    (ops.foldl (act own d) live).policy = live.policy ∧
      (ops.foldl (act own d) live).associated = live.associated
  | [], live => ⟨rfl, rfl⟩
  | op :: ops, live => by
    obtain ⟨hpolicy, hassoc⟩ := foldl_act_kept ops (act own d live op)
    obtain ⟨hpolicy', hassoc'⟩ := act_kept own d live op
    exact ⟨hpolicy.trans hpolicy', hassoc.trans hassoc'⟩

/-! The table -/

theorem Table.find_iff (t : Table) {k : String} {e : Entry} :
    t.entries.find? (fun h => h.bssid = k) = some e ↔ e ∈ t.entries ∧ e.bssid = k := by
  constructor
  · intro h
    exact ⟨List.mem_of_find?_eq_some h, by simpa using List.find?_some h⟩
  · rintro ⟨he, rfl⟩
    cases hfind : t.entries.find? fun h => h.bssid = e.bssid with
    | none => simpa using List.find?_eq_none.1 hfind e he
    | some h =>
      have hh := List.mem_of_find?_eq_some hfind
      have hkey : h.bssid = e.bssid := by simpa using List.find?_some hfind
      rw [List.inj_on_of_nodup_map t.keyed hh he hkey]

theorem mem_act_table {e : Entry} (op : Op) :
    e ∈ (act own d live op).neighbours.entries ↔
      (own e.bssid = false ∧ op = .neighbourAdd d e.bssid e.ssid e.nr) ∨
      e ∈ live.neighbours.entries ∧ (own e.bssid = true ∨
        ∀ ssid nr, op ≠ .neighbourAdd d e.bssid ssid nr ∧
          op ≠ .neighbourDel d e.bssid ssid nr) := by
  cases op with
  | accessControlAdd device list s =>
    dsimp only [act]
    split_ifs <;> cases list <;> simp [Control.onList]
  | accessControlDel device list s =>
    dsimp only [act]
    split_ifs <;> cases list <;> simp [Control.onList]
  | neighbourAdd device bssid ssid nr =>
    dsimp only [act]
    split_ifs with h
    · obtain ⟨hown, rfl⟩ := h
      obtain ⟨k, s, n⟩ := e
      by_cases hk : k = bssid
      · subst hk
        simp [Table.put, hown, eq_comm]
      · simp [Table.put, hk, Ne.symm hk]
    · by_cases hd : d = device
      · have hown : own bssid = true := by simpa [hd] using h
        by_cases hk : e.bssid = bssid
        · simp [hk, hown]
        · simp [Ne.symm hk]
      · simp [Ne.symm hd]
  | neighbourDel device bssid ssid nr =>
    dsimp only [act]
    split_ifs with h
    · obtain ⟨hown, rfl⟩ := h
      by_cases hk : e.bssid = bssid
      · simp [Table.drop, hk, hown]
      · simp [Table.drop, hk, Ne.symm hk]
    · by_cases hd : d = device
      · have hown : own bssid = true := by simpa [hd] using h
        by_cases hk : e.bssid = bssid
        · simp [hk, hown]
        · simp [Ne.symm hk]
      · simp [Ne.symm hd]
  | _ => simp [act]

/-- No operation changes the entry that is its own. -/
theorem mem_foldl_own {e : Entry} (hown : own e.bssid = true) : ∀ (ops : List Op) {live : Control},
    e ∈ (ops.foldl (act own d) live).neighbours.entries ↔ e ∈ live.neighbours.entries
  | [], live => Iff.rfl
  | op :: ops, live => by
    rw [List.foldl_cons, mem_foldl_own hown ops, mem_act_table]
    simp [hown]

/-- A run of actions that does not remove a key, and adds it with what is asked for if at all,
leaves it with that where it adds it or it was there so. -/
theorem exists_foldl_table {k : String} {P : String → Prop} (hown : own k = false) :
    ∀ {ops : List Op} {live : Control}, (∀ ssid nr, .neighbourDel d k ssid nr ∉ ops) →
    (∀ ssid nr, .neighbourAdd d k ssid nr ∈ ops → P nr) →
    ((∃ e ∈ live.neighbours.entries, e.bssid = k ∧ P e.nr) ∨
      ∃ ssid nr, .neighbourAdd d k ssid nr ∈ ops) →
    ∃ e ∈ (ops.foldl (act own d) live).neighbours.entries, e.bssid = k ∧ P e.nr
  | [], live, _, _, h => by
    rcases h with h | ⟨ssid, nr, h⟩
    · exact h
    · cases h
  | op :: ops, live, hdel, hadd, h => by
    rw [List.foldl_cons]
    refine exists_foldl_table hown (fun ssid nr hmem => hdel ssid nr (List.mem_cons_of_mem _ hmem))
      (fun ssid nr hmem => hadd ssid nr (List.mem_cons_of_mem _ hmem)) ?_
    by_cases hop : ∃ ssid nr, op = .neighbourAdd d k ssid nr
    · obtain ⟨ssid, nr, rfl⟩ := hop
      refine .inl ⟨⟨k, ssid, nr⟩, (mem_act_table _).2 (.inl ⟨hown, rfl⟩), rfl, ?_⟩
      exact hadd ssid nr List.mem_cons_self
    · push Not at hop
      rcases h with ⟨e, he, rfl, hP⟩ | ⟨ssid, nr, hmem⟩
      · refine .inl ⟨e, (mem_act_table _).2 (.inr ⟨he, .inr fun ssid nr => ⟨hop ssid nr, ?_⟩⟩), rfl,
          hP⟩
        rintro rfl
        exact hdel ssid nr List.mem_cons_self
      · rcases List.mem_cons.1 hmem with rfl | hmem
        · exact absurd rfl (hop ssid nr)
        · exact .inr ⟨ssid, nr, hmem⟩

theorem not_mem_foldl_table {k : String} (hown : own k = false) :
    ∀ {ops : List Op} {live : Control}, (∀ ssid nr, .neighbourAdd d k ssid nr ∉ ops) →
    ((∀ e ∈ live.neighbours.entries, e.bssid ≠ k) ∨ ∃ ssid nr, .neighbourDel d k ssid nr ∈ ops) →
    ∀ e ∈ (ops.foldl (act own d) live).neighbours.entries, e.bssid ≠ k
  | [], live, _, h => by
    rcases h with h | ⟨ssid, nr, h⟩
    · exact h
    · cases h
  | op :: ops, live, hadd, h => by
    rw [List.foldl_cons]
    refine not_mem_foldl_table hown
      (fun ssid nr hmem => hadd ssid nr (List.mem_cons_of_mem _ hmem)) ?_
    by_cases hop : ∃ ssid nr, op = .neighbourDel d k ssid nr
    · obtain ⟨ssid, nr, rfl⟩ := hop
      left
      rintro e he rfl
      rcases (mem_act_table _).1 he with ⟨-, h'⟩ | ⟨-, h' | h'⟩
      · cases h'
      · rw [hown] at h'
        cases h'
      · exact (h' ssid nr).2 rfl
    · push Not at hop
      rcases h with h | ⟨ssid, nr, hmem⟩
      · left
        rintro e he rfl
        rcases (mem_act_table _).1 he with ⟨-, rfl⟩ | ⟨he', -⟩
        · exact hadd _ _ List.mem_cons_self
        · exact h e he' rfl
      · rcases List.mem_cons.1 hmem with rfl | hmem
        · exact absurd rfl (hop ssid nr)
        · exact .inr ⟨ssid, nr, hmem⟩

end Act

/-! ## The machine once the actions are carried out -/

section Settled

variable {σ : Type*} {o : Observed σ} {stays : String → String → Bool} {ops : List Op}

/-- What is live once a plan has run. -/
def Control.after (live : Control) (own : String → Bool) (d : String)
    (stays : String → String → Bool) (ops : List Op) : Control :=
  let acted := (ops.filter isLive).foldl (act own d) live
  { acted with associated := acted.associated.filter (stays d) }

theorem settled_kept : (settled stays ops o).mac = o.mac ∧ (settled stays ops o).seen = o.seen :=
  ⟨(foldl_carry _ o).1, (foldl_carry _ o).2.1⟩

theorem settled_hostapd (d : String) :
    (settled stays ops o).hostapd d = (o.hostapd d).map fun h =>
      { h with control := h.control.map fun live => live.after (o.isOwn d) d stays ops } := by
  unfold settled Observed.leaving
  dsimp only
  rw [(foldl_carry _ o).2.2 d, Option.map_map]
  simp [Function.comp_def, Control.after]

/-- The neighbours once a plan has run. -/
theorem settled_table (d : String) :
    (settled stays ops o).table d = (o.hostapd d).bind fun h => h.control.map fun live =>
      (live.after (o.isOwn d) d stays ops).neighbours := by
  unfold Observed.table
  rw [settled_hostapd]
  cases o.hostapd d with
  | none => rfl
  | some h => simp [Function.comp_def]

/-- Its own entry stays. -/
theorem settled_ownEntry (d : String) : ownEntry (settled stays ops o) d = ownEntry o d := by
  unfold ownEntry
  rw [settled_kept.1, settled_table]
  unfold Observed.table
  cases hmac : o.mac d with
  | none => rfl
  | some mac =>
    cases hbssid : normalize mac with
    | none => simp [hbssid]
    | some bssid =>
      have hown : o.isOwn d bssid = true := by
        unfold Observed.isOwn
        rw [hmac]
        simp [hbssid]
      simp only [Option.bind_some, hbssid]
      cases o.hostapd d with
      | none => rfl
      | some h =>
        cases hcontrol : h.control with
        | none => simp [hcontrol]
        | some live =>
          simp only [Option.bind_some, hcontrol, Option.map_some]
          ext e
          rw [Table.find_iff, Table.find_iff]
          constructor
          · rintro ⟨he, rfl⟩
            exact ⟨(mem_foldl_own hown _).1 he, rfl⟩
          · rintro ⟨he, rfl⟩
            exact ⟨(mem_foldl_own hown _).2 he, rfl⟩

end Settled

/-! ## The station lists settle -/

section Plan

variable {σ : Type*} {c : Checks} {declined : List String} {changed : AccessPoint → σ → Bool}
variable {o : Observed σ} {p q : AccessPoint} {points : List AccessPoint} {op : Op}

theorem not_live_of_restart {device : String} {ops : List Op}
    (h : restart c declined device = some ops) (hop : op ∈ ops) : isLive op = false := by
  unfold restart at h
  split_ifs at h
  cases h
  rcases List.mem_cons.1 hop with rfl | hop
  · rfl
  · rw [List.mem_singleton.1 (List.mem_of_mem_filter hop)]
    rfl

theorem mem_controlOps (hlive : isLive op) :
    op ∈ controlOps c declined changed o p ↔ ∃ h live, Converges c declined changed o p h live ∧
      admits c declined op ∧ ∃ list, op ∈ convergeList p.device list
        (wantedOn p.accessControl live o.seen list) (live.list list) := by
  constructor
  · intro hop
    unfold controlOps at hop
    cases hh : o.hostapd p.device with
    | none =>
      rw [hh] at hop
      cases hop
    | some h =>
      rw [hh] at hop
      dsimp only at hop
      cases hr : (if changed p h.started then restart c declined p.device else none) with
      | some ops =>
        rw [hr] at hop
        split_ifs at hr
        rw [not_live_of_restart hr hop] at hlive
        cases hlive
      | none =>
        rw [hr] at hop
        dsimp only at hop
        have hstands : changed p h.started → restart c declined p.device = none := by
          intro hchanged
          rwa [if_pos hchanged] at hr
        cases hcontrol : h.control with
        | none =>
          rw [hcontrol] at hop
          cases hop
        | some live =>
          rw [hcontrol] at hop
          dsimp only at hop
          split_ifs at hop with hunknown hagreed
          · cases hop
          · obtain ⟨hmem, hadmits⟩ := List.mem_filter.1 hop
            obtain ⟨list, -, hlist⟩ := List.mem_flatMap.1 hmem
            exact ⟨h, live, ⟨hh, hstands, hcontrol, hunknown, hagreed⟩, hadmits, list, hlist⟩
          · cases hrestart : restart c declined p.device with
            | none =>
              rw [hrestart] at hop
              cases hop
            | some ops =>
              rw [hrestart] at hop
              rw [not_live_of_restart hrestart hop] at hlive
              cases hlive
  · rintro ⟨h, live, ⟨hruns, hstands, htold, hknown, hagrees⟩, hadmits, list, hlist⟩
    have hr : (if changed p h.started then restart c declined p.device else none) = none := by
      split_ifs with hchanged
      · exact hstands hchanged
      · rfl
    unfold controlOps
    rw [hruns]
    dsimp only
    rw [hr, htold]
    dsimp only
    rw [if_neg hknown, if_pos hagrees]
    refine List.mem_filter.2 ⟨List.mem_flatMap.2 ⟨list, ?_, hlist⟩, hadmits⟩
    cases list <;> simp

theorem mem_convergeList {device : String} {list : AclPolicy} {want live : List String} :
    op ∈ convergeList device list want live ↔
      (∃ x, x ∈ want ∧ x ∉ live ∧ op = .accessControlAdd device list x) ∨
      ∃ x, x ∈ live ∧ x ∉ want ∧ op = .accessControlDel device list x := by
  unfold convergeList
  rw [List.mem_append, List.mem_map, List.mem_map]
  refine or_congr (exists_congr fun x => ?_) (exists_congr fun x => ?_)
  · rw [List.mem_filter, decide_eq_true_eq, and_assoc, @eq_comm _ op]
  · rw [List.mem_filter, decide_eq_true_eq, and_assoc, @eq_comm _ op]

theorem running_inj : ∀ {points : List AccessPoint} {p q : AccessPoint}, p ∈ running points →
    q ∈ running points → p.device = q.device → p = q
  | [], _, _, h, _, _ => by cases h
  | a :: points, p, q, hp, hq, hsame => by
    rw [running, List.mem_cons, List.mem_filter, decide_eq_true_eq] at hp hq
    rcases hp with rfl | ⟨hp, hpa⟩ <;> rcases hq with rfl | ⟨hq, hqa⟩
    · rfl
    · exact absurd hsame.symm hqa
    · exact absurd hsame hpa
    · exact running_inj hp hq hsame

/-- What the plan does of neighbours. -/
theorem mem_neighbourOps :
    op ∈ neighbourOps c declined points o p ↔ p.neighbourReports ∧ ∃ table own,
      o.table p.device = some table ∧ ownEntry o p.device = some own ∧ admits c declined op ∧
      ((∃ w ∈ wantedNeighbours points o p own, heldAs table w = false ∧
          op = .neighbourAdd p.device w.bssid w.ssid w.nr) ∨
        ∃ h ∈ table.entries, h.bssid ≠ own.bssid ∧
          h.bssid ∉ (wantedNeighbours points o p own).map Entry.bssid ∧
          op = .neighbourDel p.device h.bssid h.ssid h.nr) := by
  unfold neighbourOps
  by_cases hreports : p.neighbourReports
  · rw [if_pos hreports]
    cases htable : o.table p.device with
    | none => simp
    | some table =>
      cases hown : ownEntry o p.device with
      | none => simp
      | some own =>
        simp only [hreports, true_and, Option.some.injEq, exists_and_left, exists_eq_left',
          List.mem_filter, convergeTable, List.mem_append, List.mem_map, Bool.not_eq_true',
          decide_eq_true_eq, and_assoc]
        rw [and_comm]
        refine and_congr_right fun _ => or_congr ?_ ?_
        · exact exists_congr fun w => and_congr_right fun _ => and_congr_right fun _ => eq_comm
        · exact exists_congr fun h => and_congr_right fun _ => and_congr_right fun _ =>
            and_congr_right fun _ => eq_comm
  · rw [if_neg hreports]
    simp [hreports]

theorem mem_plan_list {d x : String} {list : AclPolicy} :
    (.accessControlAdd d list x ∈ plan c declined changed points o ↔ ∃ p ∈ running points,
      p.device = d ∧ ∃ h live, Converges c declined changed o p h live ∧
        admits c declined (.accessControlAdd d list x) ∧
        x ∈ wantedOn p.accessControl live o.seen list ∧ x ∉ live.list list) ∧
    (.accessControlDel d list x ∈ plan c declined changed points o ↔ ∃ p ∈ running points,
      p.device = d ∧ ∃ h live, Converges c declined changed o p h live ∧
        admits c declined (.accessControlDel d list x) ∧
        x ∈ live.list list ∧ x ∉ wantedOn p.accessControl live o.seen list) := by
  have hnone : ∀ {op : Op}, op ∈ planNeighbours c declined points o →
      ∀ d list x, op ≠ .accessControlAdd d list x ∧ op ≠ .accessControlDel d list x := by
    intro op hop d list x
    obtain ⟨p, -, hop⟩ := List.mem_flatMap.1 hop
    obtain ⟨-, table, own, -, -, -, ⟨w, -, -, rfl⟩ | ⟨h, -, -, -, rfl⟩⟩ := mem_neighbourOps.1 hop
    · exact ⟨by simp, by simp⟩
    · exact ⟨by simp, by simp⟩
  constructor
  · constructor
    · intro hop
      rcases List.mem_append.1 hop with hop | hop
      · obtain ⟨p, hp, hop⟩ := List.mem_flatMap.1 hop
        obtain ⟨h, live, hconv, hadmits, list', hlist⟩ := (mem_controlOps rfl).1 hop
        rcases mem_convergeList.1 hlist with ⟨y, hwant, hlive, heq⟩ | ⟨y, -, -, heq⟩
        · cases heq
          exact ⟨p, hp, rfl, h, live, hconv, hadmits, hwant, hlive⟩
        · cases heq
      · exact absurd rfl (hnone hop d list x).1
    · rintro ⟨p, hp, rfl, h, live, hconv, hadmits, hwant, hlive⟩
      refine List.mem_append_left _ (List.mem_flatMap.2 ⟨p, hp, (mem_controlOps rfl).2 ?_⟩)
      exact ⟨h, live, hconv, hadmits, list, mem_convergeList.2 (.inl ⟨x, hwant, hlive, rfl⟩)⟩
  · constructor
    · intro hop
      rcases List.mem_append.1 hop with hop | hop
      · obtain ⟨p, hp, hop⟩ := List.mem_flatMap.1 hop
        obtain ⟨h, live, hconv, hadmits, list', hlist⟩ := (mem_controlOps rfl).1 hop
        rcases mem_convergeList.1 hlist with ⟨y, -, -, heq⟩ | ⟨y, hlive, hwant, heq⟩
        · cases heq
        · cases heq
          exact ⟨p, hp, rfl, h, live, hconv, hadmits, hlive, hwant⟩
      · exact absurd rfl (hnone hop d list x).2
    · rintro ⟨p, hp, rfl, h, live, hconv, hadmits, hlive, hwant⟩
      refine List.mem_append_left _ (List.mem_flatMap.2 ⟨p, hp, (mem_controlOps rfl).2 ?_⟩)
      exact ⟨h, live, hconv, hadmits, list, mem_convergeList.2 (.inr ⟨x, hlive, hwant, rfl⟩)⟩

theorem Converges.unique {h h' : Hostapd σ} {live live' : Control}
    (hc : Converges c declined changed o p h live)
    (hc' : Converges c declined changed o p h' live') :
    live = live' := by
  have hruns := hc.runs.symm.trans hc'.runs
  cases hruns
  exact Option.some.inj (hc.told.symm.trans hc'.told)

/-- A station that is denied is not released. -/
theorem not_released {acl : AccessControl} (hp : p ∈ running points)
    (hacl : p.accessControl = some acl) (hpolicy : acl.policy = .deny) {x : String}
    (hnames : acl.names x) :
    .accessControlDel p.device .deny x ∉ plan c declined changed points o := by
  intro hop
  obtain ⟨q, hq, hdevice, h, live, hconv, -, hheld, hwant⟩ := mem_plan_list.2.1 hop
  obtain rfl := running_inj hq hp hdevice
  rw [hacl, ← hpolicy] at hwant
  rw [← hpolicy] at hheld
  exact hwant (mem_wantedOn_of_names hnames hheld)

section After

variable {stays : String → String → Bool}

theorem converges_settled {h' : Hostapd σ} {live' : Control} {ops : List Op}
    (hc : Converges c declined changed (settled stays ops o) p h' live') :
    ∃ h live, Converges c declined changed o p h live ∧
      live' = live.after (o.isOwn p.device) p.device stays ops := by
  obtain ⟨hruns, hstands, htold, hknown, hagrees⟩ := hc
  rw [settled_hostapd] at hruns
  obtain ⟨h, hh, rfl⟩ := Option.map_eq_some_iff.1 hruns
  obtain ⟨live, hlive, rfl⟩ := Option.map_eq_some_iff.1 htold
  have hpolicy : (live.after (o.isOwn p.device) p.device stays ops).policy = live.policy :=
    (foldl_act_kept _ _).1
  rw [hpolicy] at hknown hagrees
  exact ⟨h, live, ⟨hh, hstands, hlive, hknown, hagrees⟩, rfl⟩

theorem mem_after_list (stays : String → String → Bool) (list : AclPolicy) (x : String)
    (hp : p ∈ running points) {h : Hostapd σ} {live : Control}
    (hc : Converges c declined changed o p h live) :
    x ∈ (live.after (o.isOwn p.device) p.device stays
        (plan c declined changed points o)).list list ↔
      (x ∈ wantedOn p.accessControl live o.seen list ∧ x ∉ live.list list ∧
        admits c declined (.accessControlAdd p.device list x)) ∨
      (x ∈ live.list list ∧ (x ∈ wantedOn p.accessControl live o.seen list ∨
        ¬admits c declined (.accessControlDel p.device list x))) := by
  have hadd : .accessControlAdd p.device list x ∈
      (plan c declined changed points o).filter isLive ↔
      admits c declined (.accessControlAdd p.device list x) ∧
        x ∈ wantedOn p.accessControl live o.seen list ∧ x ∉ live.list list := by
    rw [List.mem_filter, mem_plan_list.1]
    constructor
    · rintro ⟨⟨q, hq, hdevice, h', live', hc', hrest⟩, -⟩
      obtain rfl := running_inj hq hp hdevice
      obtain rfl := hc.unique hc'
      exact hrest
    · exact fun hrest => ⟨⟨p, hp, rfl, h, live, hc, hrest⟩, rfl⟩
  have hdel : .accessControlDel p.device list x ∈
      (plan c declined changed points o).filter isLive ↔
      admits c declined (.accessControlDel p.device list x) ∧
        x ∈ live.list list ∧ x ∉ wantedOn p.accessControl live o.seen list := by
    rw [List.mem_filter, mem_plan_list.2]
    constructor
    · rintro ⟨⟨q, hq, hdevice, h', live', hc', hrest⟩, -⟩
      obtain rfl := running_inj hq hp hdevice
      obtain rfl := hc.unique hc'
      exact hrest
    · exact fun hrest => ⟨⟨p, hp, rfl, h, live, hc, hrest⟩, rfl⟩
  have hlist : (live.after (o.isOwn p.device) p.device stays
      (plan c declined changed points o)).list list =
      (((plan c declined changed points o).filter isLive).foldl
        (act (o.isOwn p.device) p.device) live).list list := by
    cases list <;> rfl
  rw [hlist, mem_foldl_list (by rw [hadd, hdel]; exact not_and_or.1 fun h => h.1.2.2 h.2.2.1),
    hadd, hdel]
  clear hadd hdel hlist hc
  by_cases hheld : x ∈ live.list list <;> simp [hheld, and_comm, or_comm, imp_iff_not_or]

/-- A second plan has nothing to do on the lists. -/
theorem not_mem_planAccessControl (hlive : isLive op) :
    op ∉ planAccessControl c declined changed points
      (settled stays (plan c declined changed points o) o) := by
  intro hop
  obtain ⟨p, hp, hop⟩ := List.mem_flatMap.1 hop
  obtain ⟨h', live', hc', hadmits, list, hmem⟩ := (mem_controlOps hlive).1 hop
  obtain ⟨h, live, hc, rfl⟩ := converges_settled hc'
  have hheld := fun x => mem_after_list stays list x hp hc
  have hassoc : ∀ x, x ∈ (live.after (o.isOwn p.device) p.device stays
      (plan c declined changed points o)).associated → x ∈ live.associated := by
    intro x hx
    have := List.mem_of_mem_filter hx
    rwa [(foldl_act_kept _ _).2] at this
  rw [settled_kept.2] at hmem
  generalize live.after (o.isOwn p.device) p.device stays (plan c declined changed points o) = live'
    at hmem hheld hassoc
  -- What is wanted afterwards was wanted, and what was wanted and is held is wanted.
  have hwant : ∀ x, x ∈ wantedOn p.accessControl live' o.seen list →
      x ∈ wantedOn p.accessControl live o.seen list := by
    intro x hx
    obtain ⟨acl, hacl, hpolicy, hstation | ⟨hsome, hnames, hfound⟩⟩ := mem_wantedOn.1 hx
    · exact mem_wantedOn.2 ⟨acl, hacl, hpolicy, .inl hstation⟩
    · rcases hfound with hfound | hfound | hfound
      · rcases (hheld x).1 hfound with ⟨hx', -⟩ | ⟨hx', -⟩
        · exact hx'
        · exact mem_wantedOn.2 ⟨acl, hacl, hpolicy, .inr ⟨hsome, hnames, .inl hx'⟩⟩
      · exact mem_wantedOn.2
          ⟨acl, hacl, hpolicy, .inr ⟨hsome, hnames, .inr (.inl (hassoc x hfound))⟩⟩
      · exact mem_wantedOn.2 ⟨acl, hacl, hpolicy, .inr ⟨hsome, hnames, .inr (.inr hfound)⟩⟩
  have hstill : ∀ x, x ∈ wantedOn p.accessControl live o.seen list → x ∈ live'.list list →
      x ∈ wantedOn p.accessControl live' o.seen list := by
    intro x hx hx'
    obtain ⟨acl, hacl, hpolicy, hstation | ⟨hsome, hnames, -⟩⟩ := mem_wantedOn.1 hx
    · exact mem_wantedOn.2 ⟨acl, hacl, hpolicy, .inl hstation⟩
    · exact mem_wantedOn.2 ⟨acl, hacl, hpolicy, .inr ⟨hsome, hnames, .inl hx'⟩⟩
  rcases mem_convergeList.1 hmem with ⟨x, hx, hnot, rfl⟩ | ⟨x, hx, hnot, rfl⟩
  · refine hnot ((hheld x).2 ?_)
    by_cases hbefore : x ∈ live.list list
    · exact .inr ⟨hbefore, .inl (hwant x hx)⟩
    · exact .inl ⟨hwant x hx, hbefore, hadmits⟩
  · rcases (hheld x).1 hx with ⟨hx', -⟩ | ⟨-, hx' | hx'⟩
    · exact hnot (hstill x hx' hx)
    · exact hnot (hstill x hx' hx)
    · exact hx' hadmits

end After

/-! ## The neighbours -/

/-- Another access point of the network on this machine, which says of itself that it is this. -/
def SaysSo (points : List AccessPoint) (o : Observed σ) (p : AccessPoint) (e : Entry) : Prop :=
  ∃ q ∈ points, (q.device ≠ p.device ∧ q.ssid = p.ssid) ∧ ownEntry o q.device = some e

/-- An access point asks for a neighbour with an element : one of this machine's, as it says of
itself, or one the document declares, unless that is the radio itself or one of this machine's. -/
def Asks (points : List AccessPoint) (o : Observed σ) (p : AccessPoint) (own : Entry)
    (bssid nr : String) : Prop :=
  (∃ e, SaysSo points o p e ∧ e.bssid = bssid ∧ e.nr = nr) ∨
    bssid ≠ own.bssid ∧ (∀ e, SaysSo points o p e → e.bssid ≠ bssid) ∧
      ∃ n ∈ p.neighbours, n.bssid = bssid ∧ declaredElement own.nr n = some nr

/-- The planner may change a radio's entry of this BSSID : the device is managed and not declined,
and the entry not locked. -/
def mayChange (c : Checks) (declined : List String) (device bssid : String) : Bool :=
  admits c declined (.neighbourAdd device bssid "" "")

/-- Any two access points of a radio that report their neighbours ask for the same ones, with the
same elements, and for nothing else of the radio itself than it says. -/
def Agree (c : Checks) (declined : List String) (points : List AccessPoint) (o : Observed σ) :
    Prop :=
  ∀ p ∈ points, ∀ q ∈ points, p.neighbourReports → q.neighbourReports → p.device = q.device →
    ∀ own, ownEntry o p.device = some own →
    ∀ bssid nr, mayChange c declined p.device bssid → Asks points o p own bssid nr →
      (bssid = own.bssid → sameNr own.nr nr) ∧
      (bssid ≠ own.bssid → (∃ nr', Asks points o q own bssid nr') ∧
        ∀ nr', Asks points o q own bssid nr' → sameNr nr' nr)

theorem mem_foldl_declare {own : Entry} {k nr : String} : ∀ {ns : List Neighbour} {ws : List Entry},
    (ns.map Neighbour.bssid).Nodup →
    ((∃ w ∈ ns.foldl (declare own) ws, w.bssid = k ∧ w.nr = nr) ↔
      (∃ w ∈ ws, w.bssid = k ∧ w.nr = nr) ∨ k ≠ own.bssid ∧ (∀ w ∈ ws, w.bssid ≠ k) ∧
        ∃ n ∈ ns, n.bssid = k ∧ declaredElement own.nr n = some nr)
  | [], ws, _ => by simp
  | n :: ns, ws, hnodup => by
    rw [List.map_cons, List.nodup_cons] at hnodup
    obtain ⟨hfresh, hnodup⟩ := hnodup
    have hother : ∀ n' ∈ ns, n'.bssid ≠ n.bssid := fun n' hn' h =>
      hfresh (List.mem_map.2 ⟨n', hn', h⟩)
    rw [List.foldl_cons, mem_foldl_declare hnodup]
    unfold declare
    split_ifs with hskip
    · constructor
      · rintro (h | ⟨hk, hws, n', hn', h⟩)
        · exact .inl h
        · exact .inr ⟨hk, hws, n', List.mem_cons_of_mem _ hn', h⟩
      · rintro (h | ⟨hk, hws, n', hn', rfl, h⟩)
        · exact .inl h
        · rcases List.mem_cons.1 hn' with rfl | hn'
          · rcases hskip with hskip | hskip
            · exact absurd hskip hk
            · obtain ⟨w, hw, hsame⟩ := List.mem_map.1 hskip
              exact absurd hsame (hws w hw)
          · exact .inr ⟨hk, hws, n', hn', rfl, h⟩
    · push Not at hskip
      cases helement : declaredElement own.nr n with
      | none =>
        dsimp only
        constructor
        · rintro (h | ⟨hk, hws, n', hn', h⟩)
          · exact .inl h
          · exact .inr ⟨hk, hws, n', List.mem_cons_of_mem _ hn', h⟩
        · rintro (h | ⟨hk, hws, n', hn', rfl, h⟩)
          · exact .inl h
          · rcases List.mem_cons.1 hn' with rfl | hn'
            · rw [helement] at h
              cases h
            · exact .inr ⟨hk, hws, n', hn', rfl, h⟩
      | some element =>
        dsimp only
        constructor
        · rintro (⟨w, hw, hk, hnr⟩ | ⟨hk, hws, n', hn', h⟩)
          · rcases List.mem_append.1 hw with hw | hw
            · exact .inl ⟨w, hw, hk, hnr⟩
            · rw [List.mem_singleton] at hw
              subst hw
              subst hk hnr
              refine .inr ⟨hskip.1, fun w hw h => ?_, n, List.mem_cons_self, rfl, helement⟩
              exact hskip.2 (List.mem_map.2 ⟨w, hw, h⟩)
          · refine .inr ⟨hk, fun w hw => hws w (List.mem_append_left _ hw), n',
              List.mem_cons_of_mem _ hn', h⟩
        · rintro (⟨w, hw, h⟩ | ⟨hk, hws, n', hn', rfl, h⟩)
          · exact .inl ⟨w, List.mem_append_left _ hw, h⟩
          · rcases List.mem_cons.1 hn' with rfl | hn'
            · rw [helement, Option.some.injEq] at h
              exact .inl ⟨_, List.mem_append_right _ (List.mem_singleton.2 rfl), rfl, h⟩
            · refine .inr ⟨hk, fun w hw => ?_, n', hn', rfl, h⟩
              rcases List.mem_append.1 hw with hw | hw
              · exact hws w hw
              · rw [List.mem_singleton.1 hw]
                exact (hother n' hn').symm

theorem mem_wantedNeighbours {own : Entry} {k nr : String} :
    (∃ w ∈ wantedNeighbours points o p own, w.bssid = k ∧ w.nr = nr) ↔
      Asks points o p own k nr := by
  have hothers : ∀ e, e ∈ ownOthers points o p ↔ SaysSo points o p e := by
    intro e
    unfold ownOthers SaysSo
    rw [List.mem_filterMap]
    refine exists_congr fun q => ?_
    rw [List.mem_filter, decide_eq_true_eq, and_assoc]
  unfold wantedNeighbours Asks
  rw [mem_foldl_declare p.once]
  simp only [hothers]

/-- What is wanted stays the same. -/
theorem settled_wanted {stays : String → String → Bool} {ops : List Op} {own : Entry} :
    wantedNeighbours points (settled stays ops o) p own = wantedNeighbours points o p own := by
  unfold wantedNeighbours ownOthers
  simp only [settled_ownEntry]

theorem of_ownEntry {d : String} {own : Entry} (h : ownEntry o d = some own) :
    ∃ host live, o.hostapd d = some host ∧ host.control = some live ∧
      own ∈ live.neighbours.entries ∧ ∀ k, o.isOwn d k = decide (k = own.bssid) := by
  unfold ownEntry at h
  obtain ⟨mac, hmac, h⟩ := Option.bind_eq_some_iff.1 h
  obtain ⟨bssid, hbssid, h⟩ := Option.bind_eq_some_iff.1 h
  obtain ⟨table, htable, h⟩ := Option.bind_eq_some_iff.1 h
  obtain ⟨host, hhost, htable⟩ := Option.bind_eq_some_iff.1 htable
  obtain ⟨live, hlive, rfl⟩ := Option.map_eq_some_iff.1 htable
  obtain ⟨hmem, rfl⟩ := (Table.find_iff _).1 h
  refine ⟨host, live, hhost, hlive, hmem, fun k => ?_⟩
  unfold Observed.isOwn
  rw [hmac, Option.bind_some, hbssid]
  simp [eq_comm]

section Table

variable {stays : String → String → Bool} {own : Entry} {host : Hostapd σ} {live : Control}

/-- The second plan has nothing to do for an access point's neighbours. -/
def Quiet (c : Checks) (declined : List String) (d : String) (own : Entry) (wanted : List Entry)
    (table : Table) : Prop :=
  (∀ w ∈ wanted, mayChange c declined d w.bssid → heldAs table w) ∧
    ∀ h ∈ table.entries, h.bssid ≠ own.bssid → mayChange c declined d h.bssid →
      h.bssid ∈ wanted.map Entry.bssid

/-- Nothing is planned of neighbours exactly where the table is quiet. -/
theorem neighbourOps_eq_nil (hreports : p.neighbourReports) {table : Table}
    (htable : o.table p.device = some table) (hown : ownEntry o p.device = some own) :
    neighbourOps c declined points o p = [] ↔
      Quiet c declined p.device own (wantedNeighbours points o p own) table := by
  rw [List.eq_nil_iff_forall_not_mem]
  constructor
  · intro hnone
    refine ⟨fun w hw hmay => ?_, fun h hh hkey hmay => ?_⟩
    · by_contra hheld
      exact hnone (.neighbourAdd p.device w.bssid w.ssid w.nr) (mem_neighbourOps.2 ⟨hreports, table,
        own, htable, hown, hmay, .inl ⟨w, hw, by simpa using hheld, rfl⟩⟩)
    · by_contra hwant
      exact hnone (.neighbourDel p.device h.bssid h.ssid h.nr) (mem_neighbourOps.2 ⟨hreports, table,
        own, htable, hown, hmay, .inr ⟨h, hh, hkey, hwant, rfl⟩⟩)
  · rintro ⟨hwanted, hheld⟩ op hop
    obtain ⟨-, table', own', htable', hown', hadmits, hop⟩ := mem_neighbourOps.1 hop
    cases htable.symm.trans htable'
    cases hown.symm.trans hown'
    rcases hop with ⟨w, hw, hnot, rfl⟩ | ⟨h, hh, hkey, hnot, rfl⟩
    · have := hwanted w hw hadmits
      rw [hnot] at this
      cases this
    · exact hnot (hheld h hh hkey hadmits)

theorem table_of (hhost : o.hostapd p.device = some host) (hlive : host.control = some live) :
    o.table p.device = some live.neighbours := by
  unfold Observed.table
  rw [hhost, Option.bind_some, hlive, Option.map_some]

variable (c declined changed points) in
theorem mem_plan_neighbour {d : String} (k ssid nr : String) (hown : ownEntry o d = some own)
    (hhost : o.hostapd d = some host) (hlive : host.control = some live) :
    (.neighbourAdd d k ssid nr ∈ (plan c declined changed points o).filter isLive ↔ ∃ q ∈ points,
      q.device = d ∧ q.neighbourReports ∧ mayChange c declined d k ∧
      ∃ w ∈ wantedNeighbours points o q own, heldAs live.neighbours w = false ∧
        w = ⟨k, ssid, nr⟩) ∧
    (.neighbourDel d k ssid nr ∈ (plan c declined changed points o).filter isLive ↔ ∃ q ∈ points,
      q.device = d ∧ q.neighbourReports ∧ mayChange c declined d k ∧
      (⟨k, ssid, nr⟩ : Entry) ∈ live.neighbours.entries ∧ k ≠ own.bssid ∧
      k ∉ (wantedNeighbours points o q own).map Entry.bssid) := by
  have htable : ∀ {q : AccessPoint}, q.device = d → o.table q.device = some live.neighbours := by
    rintro q rfl
    exact table_of hhost hlive
  have hpass : ∀ {op : Op}, (op = .neighbourAdd d k ssid nr ∨ op = .neighbourDel d k ssid nr) →
      (op ∈ (plan c declined changed points o).filter isLive ↔
        ∃ q ∈ points, op ∈ neighbourOps c declined points o q) := by
    intro op hop
    have hisLive : isLive op = true := by rcases hop with rfl | rfl <;> rfl
    rw [List.mem_filter, plan, List.mem_append, and_iff_left hisLive, planNeighbours,
      List.mem_flatMap, or_iff_right]
    intro hmem
    obtain ⟨q, -, hmem⟩ := List.mem_flatMap.1 hmem
    obtain ⟨h, live', -, -, list, hlist⟩ := (mem_controlOps hisLive).1 hmem
    rcases mem_convergeList.1 hlist with ⟨x, -, -, rfl⟩ | ⟨x, -, -, rfl⟩
    · rcases hop with hop | hop <;> cases hop
    · rcases hop with hop | hop <;> cases hop
  constructor
  · rw [hpass (.inl rfl)]
    constructor
    · rintro ⟨q, hq, hop⟩
      obtain ⟨hreports, table, own', htable', hown', hadmits, hop⟩ := mem_neighbourOps.1 hop
      rcases hop with ⟨w, hw, hnot, heq⟩ | ⟨h, -, -, -, heq⟩
      · cases heq
        cases (htable rfl).symm.trans htable'
        cases hown.symm.trans hown'
        exact ⟨q, hq, rfl, hreports, hadmits, w, hw, hnot, rfl⟩
      · cases heq
    · rintro ⟨q, hq, rfl, hreports, hmay, w, hw, hnot, rfl⟩
      exact ⟨q, hq, mem_neighbourOps.2 ⟨hreports, live.neighbours, own, htable rfl, hown, hmay,
        .inl ⟨_, hw, hnot, rfl⟩⟩⟩
  · rw [hpass (.inr rfl)]
    constructor
    · rintro ⟨q, hq, hop⟩
      obtain ⟨hreports, table, own', htable', hown', hadmits, hop⟩ := mem_neighbourOps.1 hop
      rcases hop with ⟨w, -, -, heq⟩ | ⟨h, hh, hkey, hnot, heq⟩
      · cases heq
      · cases heq
        cases (htable rfl).symm.trans htable'
        cases hown.symm.trans hown'
        exact ⟨q, hq, rfl, hreports, hadmits, hh, hkey, hnot⟩
    · rintro ⟨q, hq, rfl, hreports, hmay, hh, hkey, hnot⟩
      exact ⟨q, hq, mem_neighbourOps.2 ⟨hreports, live.neighbours, own, htable rfl, hown, hmay,
        .inr ⟨_, hh, hkey, hnot, rfl⟩⟩⟩

variable (changed stays) in
/-- Where the points agree, the table is quiet after the plan. -/
theorem quiet_of_agree (hagree : Agree c declined points o) (hp : p ∈ points)
    (hreports : p.neighbourReports) (hown : ownEntry o p.device = some own)
    (hhost : o.hostapd p.device = some host) (hlive : host.control = some live) :
    Quiet c declined p.device own (wantedNeighbours points o p own)
      (live.after (o.isOwn p.device) p.device stays
        (plan c declined changed points o)).neighbours := by
  obtain ⟨host', live', hhost', hlive', hmem, hkeys⟩ := of_ownEntry hown
  cases hhost.symm.trans hhost'
  cases hlive.symm.trans hlive'
  have hops := fun k ssid nr =>
    mem_plan_neighbour c declined changed points k ssid nr hown hhost hlive
  have hasks : ∀ {q : AccessPoint} {w : Entry}, w ∈ wantedNeighbours points o q own →
      Asks points o q own w.bssid w.nr := fun hw => mem_wantedNeighbours.1 ⟨_, hw, rfl, rfl⟩
  have hwanted : ∀ {q : AccessPoint} {k nr : String}, Asks points o q own k nr →
      k ∈ (wantedNeighbours points o q own).map Entry.bssid := by
    intro q k nr h
    obtain ⟨w, hw, hk, -⟩ := mem_wantedNeighbours.2 h
    exact List.mem_map.2 ⟨w, hw, hk⟩
  refine ⟨fun w hw hmay => ?_, fun h hh hkey hmay => ?_⟩
  · unfold heldAs
    rw [List.any_eq_true]
    simp only [decide_eq_true_eq]
    by_cases hk : w.bssid = own.bssid
    · refine ⟨own, (mem_foldl_own (by simp [hkeys]) _).2 hmem, hk.symm, ?_⟩
      exact (hagree p hp p hp hreports hreports rfl own hown _ _ hmay (hasks hw)).1 hk
    · refine exists_foldl_table (P := fun nr => sameNr nr w.nr) (by simp [hkeys, hk]) ?_ ?_ ?_
      · intro ssid nr hdel
        obtain ⟨q, hq, hdevice, hqreports, -, -, -, hnot⟩ := (hops _ _ _).2.1 hdel
        obtain ⟨⟨nr', hnr'⟩, -⟩ :=
          (hagree p hp q hq hreports hqreports hdevice.symm own hown _ _ hmay (hasks hw)).2 hk
        exact hnot (hwanted hnr')
      · intro ssid nr hadd
        obtain ⟨q, hq, hdevice, hqreports, -, w', hw', -, hw'eq⟩ := (hops _ _ _).1.1 hadd
        obtain ⟨-, hall⟩ :=
          (hagree p hp q hq hreports hqreports hdevice.symm own hown _ _ hmay (hasks hw)).2 hk
        have := hall _ (by have := hasks hw'; rwa [hw'eq] at this)
        exact this
      · by_cases hheld : heldAs live.neighbours w
        · unfold heldAs at hheld
          rw [List.any_eq_true] at hheld
          obtain ⟨e, he, hsame⟩ := hheld
          exact .inl ⟨e, he, by simpa using hsame⟩
        · exact .inr ⟨w.ssid, w.nr, (hops _ _ _).1.2
            ⟨p, hp, rfl, hreports, hmay, w, hw, by simpa using hheld, rfl⟩⟩
  · by_contra hnot
    refine not_mem_foldl_table (by simp [hkeys, hkey]) ?_ ?_ h hh rfl
    · intro ssid nr hadd
      obtain ⟨q, hq, hdevice, hqreports, -, w', hw', -, hw'eq⟩ := (hops _ _ _).1.1 hadd
      have hk' : w'.bssid = h.bssid := by rw [hw'eq]
      have hask := hasks hw'
      rw [hk'] at hask
      rw [← hdevice] at hown hmay
      obtain ⟨⟨nr', hnr'⟩, -⟩ :=
        (hagree q hq p hp hqreports hreports hdevice own hown _ _ hmay hask).2 hkey
      exact hnot (hwanted hnr')
    · by_cases hthere : ∃ e ∈ live.neighbours.entries, e.bssid = h.bssid
      · obtain ⟨e, he, hk⟩ := hthere
        refine .inr ⟨e.ssid, e.nr, (hops _ _ _).2.2 ⟨p, hp, rfl, hreports, hmay, ?_, hkey, hnot⟩⟩
        rw [← hk]
        exact he
      · push Not at hthere
        exact .inl hthere

/-- Where both tables are quiet, the points agree on a neighbour. -/
theorem agree_of_quiet {table : Table} (hmem : own ∈ table.entries)
    (hp : Quiet c declined p.device own (wantedNeighbours points o p own) table)
    (hq : Quiet c declined p.device own (wantedNeighbours points o q own) table)
    {k nr : String} (hmay : mayChange c declined p.device k) (hasks : Asks points o p own k nr) :
    (k = own.bssid → sameNr own.nr nr) ∧
      (k ≠ own.bssid → (∃ nr', Asks points o q own k nr') ∧
        ∀ nr', Asks points o q own k nr' → sameNr nr' nr) := by
  have hheld : ∀ {r : AccessPoint} {nr : String},
      Quiet c declined p.device own (wantedNeighbours points o r own) table →
      Asks points o r own k nr → ∃ h ∈ table.entries, h.bssid = k ∧ sameNr h.nr nr := by
    intro r nr hr hasks
    obtain ⟨w, hw, rfl, rfl⟩ := mem_wantedNeighbours.2 hasks
    have := hr.1 w hw hmay
    unfold heldAs at this
    rw [List.any_eq_true] at this
    obtain ⟨h, hh, hsame⟩ := this
    exact ⟨h, hh, by simpa using hsame⟩
  have hone : ∀ {h h' : Entry}, h ∈ table.entries → h' ∈ table.entries → h.bssid = h'.bssid →
      h = h' := fun hh hh' => List.inj_on_of_nodup_map table.keyed hh hh'
  obtain ⟨h, hh, hk, hsame⟩ := hheld hp hasks
  refine ⟨fun hself => ?_, fun hother => ⟨?_, fun nr' hasks' => ?_⟩⟩
  · rw [hone hh hmem (hk.trans hself)] at hsame
    exact hsame
  · have := hq.2 h hh (by rwa [hk]) (by rwa [hk])
    obtain ⟨w, hw, hkey⟩ := List.mem_map.1 this
    exact ⟨w.nr, mem_wantedNeighbours.1 ⟨w, hw, hkey.trans hk, rfl⟩⟩
  · obtain ⟨h', hh', hk', hsame'⟩ := hheld hq hasks'
    rw [hone hh' hh (hk'.trans hk.symm)] at hsame'
    exact hsame'.symm.trans hsame

end Table

/-- **Station lists and neighbours converge where the access points of a radio agree.** A second
plan, over the machine the first one's actions leave and with whichever stations still associated,
has no action on a list or a neighbour, and no plan ever releases a station that a deny rule of the
access point its radio runs covers, exactly where any two access points of one radio ask for the
same neighbours. -/
theorem lists_and_neighbours_settle (c : Checks) (declined : List String)
    (changed : AccessPoint → σ → Bool) (points : List AccessPoint) (o : Observed σ)
    (stays : String → String → Bool) :
    ((∀ op ∈ plan c declined changed points
        (settled stays (plan c declined changed points o) o), isLive op = false) ∧
      ∀ (later : Observed σ), ∀ p ∈ running points, ∀ acl, p.accessControl = some acl →
        acl.policy = .deny → ∀ station, acl.names station →
        .accessControlDel p.device .deny station ∉ plan c declined changed points later) ↔
      Agree c declined points o := by
  have hreleased : ∀ (later : Observed σ), ∀ p ∈ running points, ∀ acl,
      p.accessControl = some acl → acl.policy = .deny → ∀ station, acl.names station →
      .accessControlDel p.device .deny station ∉ plan c declined changed points later :=
    fun later p hp acl hacl hpolicy station hnames => not_released hp hacl hpolicy hnames
  rw [and_iff_left hreleased]
  constructor
  · intro hquiet p hp q hq hpreports hqreports hdevice own hown k nr hmay hasks
    obtain ⟨host, live, hhost, hlive, hmem, hkeys⟩ := of_ownEntry hown
    have hnone : ∀ r ∈ points, r.device = p.device → r.neighbourReports →
        Quiet c declined p.device own (wantedNeighbours points o r own)
          (live.after (o.isOwn p.device) p.device stays
            (plan c declined changed points o)).neighbours := by
      intro r hr hsame hreports
      have htable : (settled stays (plan c declined changed points o) o).table r.device =
          some (live.after (o.isOwn p.device) p.device stays
            (plan c declined changed points o)).neighbours := by
        rw [settled_table, hsame, hhost, Option.bind_some, hlive, Option.map_some]
      have hown' : ownEntry (settled stays (plan c declined changed points o) o) r.device =
          some own := by rw [settled_ownEntry, hsame, hown]
      have hempty : neighbourOps c declined points
          (settled stays (plan c declined changed points o) o) r = [] := by
        rw [List.eq_nil_iff_forall_not_mem]
        intro op hop
        have hlive' := hquiet op (List.mem_append_right _ (List.mem_flatMap.2 ⟨r, hr, hop⟩))
        obtain ⟨-, -, -, -, -, -, ⟨w, -, -, rfl⟩ | ⟨h, -, -, -, rfl⟩⟩ := mem_neighbourOps.1 hop
        · cases hlive'
        · cases hlive'
      have hdone := (neighbourOps_eq_nil hreports htable hown').1 hempty
      rw [settled_wanted, hsame] at hdone
      exact hdone
    exact agree_of_quiet ((mem_foldl_own (by simp [hkeys]) _).2 hmem) (hnone p hp rfl hpreports)
      (hnone q hq hdevice.symm hqreports) hmay hasks
  · intro hagree op hop
    rcases List.mem_append.1 hop with hop | hop
    · by_contra hlive
      rw [Bool.not_eq_false] at hlive
      exact not_mem_planAccessControl hlive hop
    · obtain ⟨p, hp, hop⟩ := List.mem_flatMap.1 hop
      obtain ⟨hreports, table, own, htable, hown, -⟩ := mem_neighbourOps.1 hop
      rw [settled_ownEntry] at hown
      obtain ⟨host, live, hhost, hlive, -, -⟩ := of_ownEntry hown
      rw [settled_table, hhost, Option.bind_some, hlive, Option.map_some] at htable
      cases htable
      have hquiet := quiet_of_agree changed stays hagree hp hreports hown hhost hlive
      rw [← settled_wanted] at hquiet
      rw [(neighbourOps_eq_nil hreports (by rw [settled_table, hhost, Option.bind_some, hlive,
        Option.map_some]) (by rw [settled_ownEntry, hown])).2 hquiet] at hop
      cases hop

end Plan

/-- A radio two access points name, both of which report their neighbours; only `guest` declares
one. -/
def twoOnOneRadio : List AccessPoint :=
  [{ id := "guest", device := "wlan0", ssid := Op.bytes "guest", neighbourReports := true,
     neighbours := [⟨"02:00:00:00:00:09", 36⟩] },
   { id := "home", device := "wlan0", ssid := Op.bytes "home", neighbourReports := true }]

def aloneOnAir : Observed Unit where
  hostapd := fun d =>
    if d = "wlan0" then
      some ⟨(), some ⟨.unset, [], [], [],
        ⟨[⟨"02:00:00:00:00:01", "686f6d65", "020000000001af0000005101070603"⟩], by decide⟩⟩⟩
    else none
  mac := fun d => if d = "wlan0" then some "02:00:00:00:00:01" else none
  seen := []

/-- The second plan removes what the first one added. -/
theorem home_removes_guests_neighbour :
    ¬∀ op ∈ plan ⟨[], [], [], [], []⟩ [] (fun _ _ => false) twoOnOneRadio
        (settled (fun _ _ => true)
          (plan ⟨[], [], [], [], []⟩ [] (fun _ _ => false) twoOnOneRadio aloneOnAir)
          aloneOnAir), isLive op = false := by
  decide +kernel

end Netcfgd.Stations
