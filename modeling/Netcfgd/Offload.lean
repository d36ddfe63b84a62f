import Mathlib.Data.List.Sort
import Mathlib.Data.String.Basic
import Netcfgd.Build

/-!
# Offloads

`src/plan/offload.c`. An `ethtool` block turns an offload on or off, and an offload is one or more
features of the kernel : it is on where any of its features is, and turning it off asks for all of
them. Features the device holds fixed are left out of what is asked (`fieldFeatures`).

They still count as on. An offload that is turned off keeps asking where one of its features is
held on and another can be moved (`Stuck`), and `offloads_converge_iff` says that nothing else
does.
-/

namespace Netcfgd.Offload

/-! ## The document and the link -/

/-- `ncfg_toggle_t`. -/
inductive Toggle
  | unmanaged | on | off
  deriving DecidableEq, Repr

/-- `ncfg_offload_field_t`. -/
inductive Field
  | gro | gso | tso | rxChecksum | txChecksum
  deriving DecidableEq, Repr

def fields : List Field := [.gro, .gso, .tso, .rxChecksum, .txChecksum]

/-- `ncfg_offload_field_names` : the features of a field. -/
def fieldNames : Field → List String
  | .gro => ["rx-gro"]
  | .gso => ["tx-generic-segmentation"]
  | .tso => ["tx-tcp-segmentation"]
  | .rxChecksum => ["rx-checksum"]
  | .txChecksum => ["tx-checksum-ip-generic", "tx-checksum-ipv4", "tx-checksum-ipv6"]

/-- `ncfg_link_settings_t`. -/
structure LinkSettings where
  autoneg : Toggle := .unmanaged
  speed : Option ℤ := none
  duplex : Option String := none
  wol : Option String := none
  rxRing : Option ℤ := none
  txRing : Option ℤ := none
  gro : Toggle := .unmanaged
  gso : Toggle := .unmanaged
  tso : Toggle := .unmanaged
  rxChecksum : Toggle := .unmanaged
  txChecksum : Toggle := .unmanaged
  deriving DecidableEq, Repr

/-- `ncfg_link_settings_offload`. -/
def LinkSettings.offload (s : LinkSettings) : Field → Toggle
  | .gro => s.gro
  | .gso => s.gso
  | .tso => s.tso
  | .rxChecksum => s.rxChecksum
  | .txChecksum => s.txChecksum

structure Link where
  offloads : List String
  /-- The features that are what they are whatever is asked. -/
  offloadsFixed : List String
  deriving DecidableEq, Repr

/-- `ncfg_offload_t` : a feature and what is asked of it. -/
abbrev Feature := String × Bool

/-! ## The plan -/

/-- `is_fixed`. -/
def isFixed (link : Option Link) (name : String) : Bool :=
  link.any fun l => name ∈ l.offloadsFixed

/-- `held_on`. -/
def heldOn (link : Option Link) (name : String) : Bool :=
  link.any fun l => name ∈ l.offloads

def heldField (link : Option Link) (field : Field) : Bool :=
  (fieldNames field).any (heldOn link)

/-- Whether a field is asked for, and how : what is stated and is not what the link holds. -/
def asks (s : LinkSettings) (link : Option Link) (field : Field) : Option Bool :=
  match s.offload field with
  | .unmanaged => none
  | .on => if link.isSome ∧ heldField link field = true then none else some true
  | .off => if link.isSome ∧ heldField link field = false then none else some false

def fieldFeatures (s : LinkSettings) (link : Option Link) (field : Field) : List Feature :=
  match asks s link field with
  | none => []
  | some on => ((fieldNames field).filter fun name => !isFixed link name).map fun name => (name, on)

/-- `compare_features`, as an order. -/
def featureLe (a b : Feature) : Bool :=
  a.1 < b.1 ∨ a.1 = b.1 ∧ (a.2 → b.2)

/-- The features of a `link.set_offloads`. -/
def wanted (s : LinkSettings) (link : Option Link) : List Feature :=
  (fields.flatMap (fieldFeatures s link)).insertionSort fun a b => featureLe a b

def inverseOf (link : Option Link) (features : List Feature) : List Feature :=
  features.map fun f => (f.1, heldOn link f.1)

/-- `describe`. -/
def describe (features : List Feature) : String :=
  " ".intercalate (features.map fun f => f.1 ++ "=" ++ if f.2 then "true" else "false")

/-- A device with an `ethtool` block, its link where there is one, and the creation it waits
for. -/
structure Block where
  name : String
  settings : LinkSettings
  link : Option Link
  gate : List (Option ℕ) := []

/-- `ncfg_plan_offloads`, of one device. -/
def planDevice (c : Checks) (b : Building) (d : Block) : Building :=
  match wanted d.settings d.link with
  | [] => b
  | features =>
    b.push c (.linkSetOffloads d.name features)
      ⟨some d.name, "ethtool", describe features, describe (inverseOf d.link features)⟩ d.gate
      (some (.linkSetOffloads d.name (inverseOf d.link features)))

/-! ## What a pass emits -/

/-- What a device has planned. -/
def emitted (c : Checks) (b : Building) (d : Block) : List Op :=
  ((planDevice c b d).plan.actions.drop b.plan.actions.length).map Action.op

theorem push_of_admitted {c : Checks} {b : Building} {op : Op} (h : Admitted c b op)
    {reason : Reason} {dependsOn : List (Option ℕ)} {inverse : Option Op} :
    b.push c op reason dependsOn inverse =
      { b with
        plan := b.plan.add op reason (dependsOn.filterMap id) inverse
        answers := b.answers ++ [some b.plan.actions.length] } := by
  rw [Building.push, if_neg (by simp [h.notOver]), refusalOf_eq_none.2 ⟨h.unlocked, h.unguarded⟩]

/-- A device plans nothing, or one operation that was admitted. -/
theorem emitted_cases (c : Checks) (b : Building) (d : Block) :
    emitted c b d = [] ∧
        (wanted d.settings d.link = [] ∨
          ¬Admitted c b (.linkSetOffloads d.name (wanted d.settings d.link))) ∨
      Admitted c b (.linkSetOffloads d.name (wanted d.settings d.link)) ∧
        wanted d.settings d.link ≠ [] ∧
        emitted c b d = [.linkSetOffloads d.name (wanted d.settings d.link)] := by
  unfold emitted planDevice
  split
  · rename_i hnil
    exact .inl ⟨by simp, .inl hnil⟩
  · rename_i hne
    rcases push_cases (c := c) (b := b) (.linkSetOffloads d.name (wanted d.settings d.link))
      ⟨some d.name, "ethtool", describe (wanted d.settings d.link),
        describe (inverseOf d.link (wanted d.settings d.link))⟩ d.gate
      (some (.linkSetOffloads d.name (inverseOf d.link (wanted d.settings d.link)))) with
      ⟨hplan, hanswers⟩ | ⟨hadmitted, hplan, -⟩
    · refine .inl ⟨by rw [hplan]; simp, .inr fun hadmitted => ?_⟩
      rw [push_of_admitted hadmitted] at hanswers
      simp at hanswers
    · exact .inr ⟨hadmitted, hne, by rw [hplan]; simp [Plan.add]⟩

/-! ## The device -/

namespace Link

/-- What a device holds once it has been asked : each named feature takes the value asked. -/
def ask (l : Link) (features : List Feature) : Link :=
  { l with
    offloads := (l.offloads.filter fun name => (name, false) ∉ features) ++
      (features.filter Prod.snd).map Prod.fst }

/-- The kernel, on a plan's operations. -/
def run (l : Link) (ops : List Op) : Link :=
  ops.foldl (fun l op =>
    match op with
    | .linkSetOffloads _ features => l.ask features
    | _ => l) l

theorem mem_offloads_ask {l : Link} {features : List Feature} {name : String} :
    name ∈ (l.ask features).offloads ↔
      name ∈ l.offloads ∧ (name, false) ∉ features ∨ (name, true) ∈ features := by
  simp [ask]

end Link

/-- A field that is turned off and stays on : the device holds one of its features on, and there
is another to ask for. -/
def Stuck (l : Link) (field : Field) : Prop :=
  (∃ name ∈ fieldNames field, name ∈ l.offloads ∧ name ∈ l.offloadsFixed) ∧
    ∃ name ∈ fieldNames field, name ∉ l.offloadsFixed

theorem field_eq {field field' : Field} {name : String} (h : name ∈ fieldNames field)
    (h' : name ∈ fieldNames field') : field = field' := by
  cases field <;> cases field' <;> first | rfl | (simp [fieldNames] at h h'; simp_all)

theorem mem_fields (field : Field) : field ∈ fields := by
  cases field <;> decide

theorem mem_wanted {s : LinkSettings} {link : Option Link} {f : Feature} :
    f ∈ wanted s link ↔ ∃ field, asks s link field = some f.2 ∧ f.1 ∈ fieldNames field ∧
      isFixed link f.1 = false := by
  simp only [wanted, List.mem_insertionSort, List.mem_flatMap, mem_fields, true_and]
  refine exists_congr fun field => ?_
  unfold fieldFeatures
  rcases asks s link field with _ | on
  · simp
  · simp only [List.mem_map, List.mem_filter, Bool.not_eq_true', Option.some.injEq, Prod.ext_iff]
    constructor
    · rintro ⟨name, ⟨hname, hfixed⟩, rfl, rfl⟩
      exact ⟨rfl, hname, hfixed⟩
    · rintro ⟨rfl, hname, hfixed⟩
      exact ⟨f.1, ⟨hname, hfixed⟩, rfl, rfl⟩

theorem wanted_eq_nil {s : LinkSettings} {link : Option Link} :
    wanted s link = [] ↔ ∀ field on, asks s link field = some on →
      ∀ name ∈ fieldNames field, isFixed link name = true := by
  rw [List.eq_nil_iff_forall_not_mem]
  constructor
  · intro h field on hasks name hname
    by_contra hfixed
    exact h (name, on) (mem_wanted.2 ⟨field, hasks, hname, by simpa using hfixed⟩)
  · rintro h ⟨name, on⟩ hmem
    obtain ⟨field, hasks, hname, hfixed⟩ := mem_wanted.1 hmem
    simp [h field on hasks name hname] at hfixed

theorem asks_eq_some {s : LinkSettings} {l : Link} {field : Field} {on : Bool} :
    asks s (some l) field = some on ↔
      s.offload field = (if on then .on else .off) ∧ heldField (some l) field = !on := by
  unfold asks
  rcases s.offload field with _ | _ | _ <;> cases on <;> simp

theorem heldField_eq_true {l : Link} {field : Field} :
    heldField (some l) field = true ↔ ∃ name ∈ fieldNames field, name ∈ l.offloads := by
  simp [heldField, heldOn]

/-! ## Planning again -/

section Again

variable {s : LinkSettings} {l : Link}

/-- A feature once the device has been asked : it is on where its field was turned on and it is
not fixed, and where it was on and its field was not turned off or it is fixed. -/
theorem mem_offloads_again {field : Field} {name : String} (hname : name ∈ fieldNames field) :
    name ∈ (l.ask (wanted s (some l))).offloads ↔
      name ∈ l.offloads ∧ (asks s (some l) field = some false → name ∈ l.offloadsFixed) ∨
        asks s (some l) field = some true ∧ name ∉ l.offloadsFixed := by
  have hwanted : ∀ on, (name, on) ∈ wanted s (some l) ↔
      asks s (some l) field = some on ∧ name ∉ l.offloadsFixed := by
    intro on
    rw [mem_wanted]
    constructor
    · rintro ⟨field', hasks, hname', hfixed⟩
      exact ⟨field_eq hname hname' ▸ hasks, by simpa [isFixed] using hfixed⟩
    · rintro ⟨hasks, hfixed⟩
      exact ⟨field, hasks, hname, by simpa [isFixed] using hfixed⟩
  rw [Link.mem_offloads_ask, hwanted, hwanted, not_and_not_right]

/-- A second plan wants nothing exactly where no feature is stuck. -/
theorem wanted_again : wanted s (some (l.ask (wanted s (some l)))) = [] ↔
    ∀ field, s.offload field = .off → ¬Stuck l field := by
  rw [wanted_eq_nil]
  constructor
  · rintro h field hoff ⟨⟨a, ha, hon, hfixed⟩, name, hname, hfree⟩
    have hheld : heldField (some (l.ask (wanted s (some l)))) field = true :=
      heldField_eq_true.2 ⟨a, ha, (mem_offloads_again ha).2 (.inl ⟨hon, fun _ => hfixed⟩)⟩
    have hall := h field false (asks_eq_some.2 ⟨by simpa using hoff, by simpa using hheld⟩) name
      hname
    exact hfree (by simpa [isFixed, Link.ask] using hall)
  · intro h field on hasks name hname
    obtain ⟨htoggle, hheld⟩ := asks_eq_some.1 hasks
    cases on with
    | true =>
      -- were it on before, it would be on still
      have hbefore : heldField (some l) field = false := by
        by_contra hbefore
        obtain ⟨n, hn, hon⟩ := heldField_eq_true.1 (by simpa using hbefore)
        have hstill := heldField_eq_true.2 ⟨n, hn, (mem_offloads_again (s := s) hn).2 (.inl ⟨hon,
          fun hasks' => by simp [asks_eq_some, htoggle] at hasks'⟩)⟩
        simp [hheld] at hstill
      by_contra hfixed
      have hon : name ∈ (l.ask (wanted s (some l))).offloads :=
        (mem_offloads_again hname).2 (.inr ⟨asks_eq_some.2 ⟨htoggle, by simpa using hbefore⟩,
          by simpa [isFixed, Link.ask] using hfixed⟩)
      have := heldField_eq_true.2 ⟨name, hname, hon⟩
      simp [hheld] at this
    | false =>
      obtain ⟨n, hn, hon⟩ := heldField_eq_true.1 (by simpa using hheld)
      obtain ⟨hbefore, hkept⟩ | ⟨hasks', -⟩ := (mem_offloads_again hn).1 hon
      · have hfixed : n ∈ l.offloadsFixed := hkept (asks_eq_some.2 ⟨htoggle,
          by simpa using heldField_eq_true.2 ⟨n, hn, hbefore⟩⟩)
        by_contra hfree
        exact h field (by simpa using htoggle) ⟨⟨n, hn, hbefore, hfixed⟩, name, hname,
          by simpa [isFixed, Link.ask] using hfree⟩
      · simp [asks_eq_some, htoggle] at hasks'

end Again

/-- A device is asked once and for all : planning again against what it then holds emits nothing,
and nothing it holds fixed was asked. -/
def Converges (c : Checks) (b : Building) (name : String) (s : LinkSettings)
    (gate : List (Option ℕ)) (l : Link) : Prop :=
  let ops := emitted c b ⟨name, s, some l, gate⟩
  emitted c b ⟨name, s, some (l.run ops), []⟩ = [] ∧
    ∀ features, .linkSetOffloads name features ∈ ops → ∀ f ∈ features, f.1 ∉ l.offloadsFixed

theorem admitted_features {c : Checks} {b : Building} {name : String} {features : List Feature}
    (h : Admitted c b (.linkSetOffloads name features)) (features' : List Feature) :
    Admitted c b (.linkSetOffloads name features') :=
  ⟨h.notOver, h.unlocked, h.unguarded⟩

/-- What is wanted is not fixed. -/
theorem not_fixed_of_wanted {s : LinkSettings} {l : Link} {f : Feature}
    (hf : f ∈ wanted s (some l)) : f.1 ∉ l.offloadsFixed := by
  obtain ⟨-, -, -, hfixed⟩ := mem_wanted.1 hf
  simpa [isFixed] using hfixed

/-- The offloads of a device converge where a check stops them all, or where no field that is
turned off stays on. -/
theorem offloads_converge_iff (c : Checks) (b : Building) (name : String) (s : LinkSettings)
    (gate : List (Option ℕ)) (l : Link) :
    Converges c b name s gate l ↔
      (∀ features, ¬Admitted c b (.linkSetOffloads name features)) ∨
        ∀ field, s.offload field = .off → ¬Stuck l field := by
  have hagain : ∀ l', emitted c b ⟨name, s, some l', []⟩ = [] ↔
      (∀ features, ¬Admitted c b (.linkSetOffloads name features)) ∨ wanted s (some l') = [] := by
    intro l'
    rcases emitted_cases c b ⟨name, s, some l', []⟩ with ⟨hnil, hwhy⟩ | ⟨hyes, hne, hops⟩
    · refine ⟨fun _ => hwhy.symm.imp_left fun hno features hyes => hno (admitted_features hyes _),
        ?_⟩
      exact fun _ => hnil
    · refine ⟨fun h => absurd h (by simp [hops]), ?_⟩
      rintro (hno | hnone)
      · exact absurd hyes (hno _)
      · exact absurd hnone hne
  have hstuck := wanted_again (s := s) (l := l)
  unfold Converges
  dsimp only
  rw [hagain, ← hstuck]
  rcases emitted_cases c b ⟨name, s, some l, gate⟩ with ⟨hnil, hwhy⟩ | ⟨hyes, hne, hops⟩
  · simp only [hnil, Link.run, List.foldl_nil, List.not_mem_nil, false_imp_iff, implies_true,
      and_true]
    rcases hwhy with hnone | hno
    · have hsame : l.ask (wanted s (some l)) = l := by simp [Link.ask, hnone]
      rw [hsame]
    · have hstopped : ∀ features, ¬Admitted c b (.linkSetOffloads name features) :=
        fun features hyes => hno (admitted_features hyes _)
      exact ⟨fun _ => .inl hstopped, fun _ => .inl hstopped⟩
  · have hrun : l.run (emitted c b ⟨name, s, some l, gate⟩) = l.ask (wanted s (some l)) := by
      rw [hops]
      rfl
    rw [hrun, and_iff_left]
    intro features hmem f hf
    rw [hops, List.mem_singleton, Op.linkSetOffloads.injEq] at hmem
    exact not_fixed_of_wanted (hmem.2 ▸ hf)

/-- A feature of transmit checksumming that is fixed on, with the field turned off : the other
two are asked for on every pass. -/
theorem fixed_feature_asked_again :
    ¬∀ c b name s gate l, Converges c b name s gate l := by
  intro h
  have hagain := (h ⟨[], [], [], [], []⟩ .new "lo" { txChecksum := .off } []
    ⟨["tx-checksum-ip-generic"], ["tx-checksum-ip-generic"]⟩).1
  revert hagain
  decide +kernel

end Netcfgd.Offload
