import Mathlib.Data.String.Basic
import Netcfgd.LinkCycle

/-!
# Which SIM a modem is on

A modem lists its SIM sources in the order of preference, and which of them it is on is an index
that only an advance moves. The choice is published in a file that a hook reads when the link comes
up, so an advance leaves a note, the next plans carry the cycle of the link, and the note goes once
a plan that carried it has run.

What a step may do to a device is `SimKept`, for every step of every run (`sims_kept`) : the note
goes only with a pass that took the link down and, unless the interface is disabled, brought it up
again, or with the device, when a document gives it no modem policy (`forgotten_with_the_modem`).
-/

namespace Netcfgd

/-! ## The document -/

/-- `ncfg_modem_policy_t` : the sources, in the order of preference. -/
structure ModemPolicy where
  sim : List String
  apn : Option String := none
  deriving DecidableEq, Repr

/-- `ncfg_device_t`, as far as SIMs go. -/
structure ModemDevice where
  name : String
  modem : Option ModemPolicy
  deriving DecidableEq, Repr

/-- The devices of a document. `ncfg_document_validate` refuses two of one name. -/
structure ModemDevices where
  devices : List ModemDevice
  names : (devices.map ModemDevice.name).Nodup := by decide

/-- `policy_of`. -/
def policyOf (document : ModemDevices) (name : String) : Option ModemPolicy :=
  document.devices.findSome? fun x => if x.name = name then x.modem else none

/-! ## What is held of the devices -/

/-- What is held of one modem device. The cards seen in its sources are left out. -/
structure SimDevice where
  name : String
  chosen : ℕ := 0
  /-- Advanced, and the link has not been cycled yet. -/
  pending : Bool := false
  deriving DecidableEq, Repr

/-- `ncfg_sims_t`, sorted by name. -/
structure Sims where
  devices : List SimDevice
  sorted : devices.Pairwise fun a b => a.name < b.name

/-- `device_for` on the list : where the name is, or would be. -/
def insertSim (name : String) : List SimDevice → List SimDevice
  | [] => [{ name }]
  | s :: rest =>
    if s.name = name then s :: rest
    else if name < s.name then { name } :: s :: rest
    else s :: insertSim name rest

/-- What is held and what is published, the files under `modem/` of the run directory. -/
structure SimState where
  sims : Sims
  files : String → Option String

/-- What a pass finds : the documents as the planner and the drift policies read them, the machine,
what the caller asked for, and the executor, where one could be opened. -/
structure SimPass (σ : Type*) where
  document : Document
  policies : Restrict.Document
  observed : Observed
  options : PlanOptions := {}
  rest : OtherPasses
  executor : Option (Executor σ)
  machine : σ

theorem mem_insertSim {name : String} {x : SimDevice} : ∀ {l : List SimDevice},
    x ∈ insertSim name l → x ∈ l ∨ x.name = name
  | [], h => by
    rw [insertSim, List.mem_singleton] at h
    exact .inr (by rw [h])
  | s :: rest, h => by
    rw [insertSim] at h
    split_ifs at h
    · exact .inl h
    · rcases List.mem_cons.1 h with rfl | h
      · exact .inr rfl
      · exact .inl h
    · rcases List.mem_cons.1 h with rfl | h
      · exact .inl List.mem_cons_self
      · exact (mem_insertSim h).imp_left (List.mem_cons_of_mem _)

theorem sorted_insertSim {name : String} : ∀ {l : List SimDevice},
    l.Pairwise (fun a b => a.name < b.name) →
      (insertSim name l).Pairwise fun a b => a.name < b.name
  | [], _ => List.pairwise_singleton _ _
  | s :: rest, h => by
    rw [List.pairwise_cons] at h
    rw [insertSim]
    split_ifs with hsame hbefore
    · exact List.pairwise_cons.2 h
    · refine List.pairwise_cons.2 ⟨fun x hx => ?_, List.pairwise_cons.2 h⟩
      rcases List.mem_cons.1 hx with rfl | hx
      · exact hbefore
      · exact hbefore.trans (h.1 x hx)
    · refine List.pairwise_cons.2 ⟨fun x hx => ?_, sorted_insertSim h.2⟩
      rcases mem_insertSim hx with hx | hx
      · exact h.1 x hx
      · rw [hx]
        exact lt_of_le_of_ne (not_lt.1 hbefore) hsame

namespace Sims

/-- `ncfg_sims_new`. -/
def new : Sims := ⟨[], List.Pairwise.nil⟩

variable (sims : Sims)

/-- `device_find`. -/
def find (name : String) : Option SimDevice := sims.devices.find? fun s => s.name = name

/-- `device_for`. -/
def device (name : String) : Sims := ⟨insertSim name sims.devices, sorted_insertSim sims.sorted⟩

def mapped (f : SimDevice → SimDevice) (keeps : ∀ s, (f s).name = s.name) : Sims :=
  ⟨sims.devices.map f, List.pairwise_map.2 (sims.sorted.imp fun h => by rwa [keeps, keeps])⟩

def set (name : String) (chosen : ℕ) (pending : Bool) : Sims :=
  sims.mapped (fun s => if s.name = name then { s with chosen, pending } else s)
    fun s => by split_ifs <;> rfl

def kept (stays : String → Bool) : Sims :=
  ⟨sims.devices.filter fun s => stays s.name, sims.sorted.filter _⟩

/-- The devices with a note, by `ncfg_sims_pending_at`. -/
def pendings : List String := (sims.devices.filter SimDevice.pending).map SimDevice.name

/-- The source a device is on, the first for one that is not held. -/
def chosen (name : String) : ℕ := ((sims.find name).map SimDevice.chosen).getD 0

/-- `ncfg_sims_is_pending`. -/
def isPending (name : String) : Bool := (sims.find name).any SimDevice.pending

end Sims

/-! ## Publishing, and moving on -/

/-- The text of `publish`. -/
def selectionText (device : String) (sim apn : Option String) : String :=
  "# " ++ device ++ ", netcfgd's SIM selection\n" ++
    (sim.elim "" fun sim => "sim=" ++ sim ++ "\n") ++ (apn.elim "" fun apn => "apn=" ++ apn ++ "\n")

/-- `publish`, where the write is done or not. -/
def publish (device : String) (sim apn : Option String) (written : Bool) (s : SimState) :
    SimState :=
  if written then { s with files := Function.update s.files device (selectionText device sim apn) }
  else s

/-- `ncfg_sims_sync` on one device of the document. -/
def syncDevice (written : String → Bool) (s : SimState) (x : ModemDevice) : SimState :=
  match x.modem with
  | none => s
  | some policy =>
    let sims := s.sims.device x.name
    let chosen := min (sims.chosen x.name) (policy.sim.length - 1)
    publish x.name policy.sim[chosen]? policy.apn (written x.name)
      { s with sims := sims.set x.name chosen (sims.isPending x.name) }

/-- `ncfg_sims_sync` : the state, and whether every file was written. A device without a policy is
forgotten, and its file removed where the host does so. -/
def simsSync (document : ModemDevices) (written unlinked : String → Bool) (s : SimState) :
    SimState × Bool :=
  let synced := document.devices.foldl (syncDevice written) s
  let stays name := (policyOf document name).isSome
  ({ sims := synced.sims.kept stays
     files := fun name =>
      if (synced.sims.find name).isSome && !stays name && unlinked name then none
      else synced.files name },
    document.devices.all fun x => x.modem.isNone || written x.name)

/-- `ncfg_sims_advance` : the source moved to, if any. The index moves whether or not the file could
be written. `why` is what the write says. -/
def simsAdvance (document : ModemDevices) (device : String) (written : Bool) (why : String)
    (s : SimState) : SimState × Except String (Option String) :=
  match policyOf document device with
  | none =>
    (s, .error ("`" ++ device ++ "` is not a device this configuration gives a modem policy"))
  | some policy =>
    let sims := s.sims.device device
    let next := sims.chosen device + 1
    if policy.sim.length ≤ next then ({ s with sims }, .ok none)
    else
      (publish device policy.sim[next]? policy.apn written
        { s with sims := sims.set device next true },
        if written then .ok policy.sim[next]? else .error why)

/-! ## Once a plan has run -/

/-- `ncfg_daemon_cycles_in` : the pending devices whose cycle a plan carries. -/
def cyclesIn (plan : Plan) (sims : Sims) (most : ℕ) : List String :=
  (sims.pendings.filter fun device => plan.actions.any fun a => a.op = .linkDown device).take most

/-- `the_cycle_happened`. -/
def theCycleHappened (j : Journal) (device : String) : Bool :=
  j.all fun r => r.interface ≠ some device || r.outcome = .done

/-- `ncfg_sims_cycled`. -/
def simsCycled (devices : List String) (j : Journal) (sims : Sims) : Sims :=
  sims.mapped (fun s =>
    if s.name ∈ devices ∧ theCycleHappened j s.name then { s with pending := false } else s)
    fun s => by split_ifs <;> rfl

/-- `CYCLES_MAX` and `REQUEST_CYCLES_MAX`. -/
def cyclesMax : ℕ := 16

namespace SimPass

variable {σ : Type*} (p : SimPass σ) (sims : Sims)

/-- The options of the plan : the cycles that wait are asked for. -/
def asked : PlanOptions := { p.options with cycle := sims.pendings.take cyclesMax }

/-- `ncfg_plan_build`. -/
def plan : Plan := (linkPlan p.document p.observed (p.asked sims) p.rest).building.plan

/-- `ncfg_reconcile_restrict`, with `ncfg_reconcile_host_wide`. The `nftables.replace` that
`schedule_follows_clock` may append is left out : it is last, it is of no interface and it takes no
link down, so no note depends on it. -/
def restricted : Plan :=
  (Restrict.restrict { plan := p.plan sims } (some p.policies)
    (sims.devices.map fun s => ⟨s.name, s.pending⟩) (p.policies.onDriftDefault = .reconcile)).1.plan

/-- A plan is applied, and the notes whose cycle it carried and did are dropped. -/
def run (plan : Plan) : Sims :=
  match p.executor with
  | none => sims
  | some e => simsCycled (cyclesIn plan sims cyclesMax) (apply e plan p.machine).1 sims

end SimPass

/-- What happens to the notes and the choices. -/
inductive SimStep (σ : Type*)
  | sync (document : ModemDevices) (written unlinked : String → Bool)
  | advance (document : ModemDevices) (device : String) (written : Bool) (why : String)
  /-- `reconcile_drift`. -/
  | reconcile (p : SimPass σ)
  | request (p : SimPass σ)

variable {σ : Type*}

def SimStep.applies (s : SimState) : SimStep σ → Option (SimPass σ × Plan)
  | .sync .. | .advance .. => none
  | .reconcile p =>
    if (p.restricted s.sims).actions = [] then none else some (p, p.restricted s.sims)
  | .request p => some (p, p.plan s.sims)

def simStep (s : SimState) (step : SimStep σ) : SimState :=
  match step with
  | .sync document written unlinked => (simsSync document written unlinked s).1
  | .advance document device written why => (simsAdvance document device written why s).1
  | .reconcile _ | .request _ =>
    match step.applies s with
    | none => s
    | some (p, plan) => { s with sims := p.run s.sims plan }

/-- A run, from no notes. -/
def simRun (files : String → Option String) (steps : List (SimStep σ)) : SimState :=
  steps.foldl simStep ⟨Sims.new, files⟩

/-! ## What a call does to one device -/

section Lookups

variable {sims : Sims} {name other : String}

theorem find_insertSim : ∀ {l : List SimDevice}, l.Pairwise (fun a b => a.name < b.name) →
    (insertSim other l).find? (fun s => s.name = name) =
      if name = other then some ((l.find? fun s => s.name = other).getD { name := other })
      else l.find? fun s => s.name = name
  | [], _ => by
    by_cases h : name = other
    · simp [insertSim, h]
    · simp [insertSim, h, Ne.symm h]
  | s :: rest, hsorted => by
    rw [List.pairwise_cons] at hsorted
    rw [insertSim]
    split_ifs with hsame hname hbefore hname hname
    · simp [hsame, hname]
    · rfl
    · -- the name is before all that are held
      have hnone : (s :: rest).find? (fun s => s.name = other) = none := by
        rw [List.find?_eq_none]
        intro x hx
        rcases List.mem_cons.1 hx with rfl | hx
        · simpa using hsame
        · simpa using (hbefore.trans (hsorted.1 x hx)).ne'
      rw [hnone]
      simp [hname]
    · simp [Ne.symm hname]
    · rw [List.find?_cons_of_neg (by simpa [hname] using hsame), find_insertSim hsorted.2,
        if_pos hname, List.find?_cons_of_neg (by simpa using hsame)]
    · rw [List.find?_cons, List.find?_cons, find_insertSim hsorted.2, if_neg hname]

@[simp] theorem find_device : (sims.device other).find name =
    if name = other then some ((sims.find other).getD { name := other }) else sims.find name :=
  find_insertSim sims.sorted

@[simp] theorem find_mapped {f : SimDevice → SimDevice} (keeps : ∀ s, (f s).name = s.name) :
    (sims.mapped f keeps).find name = (sims.find name).map f := by
  simp [Sims.find, Sims.mapped, List.find?_map, keeps]

theorem name_of_find {s : SimDevice} (h : sims.find name = some s) : s.name = name := by
  simpa using List.find?_some h

@[simp] theorem find_set {chosen : ℕ} {pending : Bool} : (sims.set other chosen pending).find name =
    if name = other then (sims.find name).map fun _ => ⟨other, chosen, pending⟩
    else sims.find name := by
  rw [Sims.set, find_mapped]
  rcases hfind : sims.find name with _ | s
  · simp
  · have hname := name_of_find hfind
    by_cases hother : name = other
    · simp [hname, hother]
    · simp [hname, hother]

theorem chosen_set_self {chosen : ℕ} {pending : Bool} (h : (sims.find name).isSome) :
    (sims.set name chosen pending).chosen name = chosen := by
  obtain ⟨s, hs⟩ := Option.isSome_iff_exists.1 h
  simp [Sims.chosen, hs]

@[simp] theorem find_kept {stays : String → Bool} :
    (sims.kept stays).find name = if stays name then sims.find name else none := by
  rw [Sims.find, Sims.kept, List.find?_filter]
  split_ifs with hstays
  · refine List.find?_congr fun s _ => ?_
    by_cases hname : s.name = name
    · simp [hname, hstays]
    · simp [hname]
  · rw [List.find?_eq_none]
    rintro s - hs
    simp only [decide_eq_true_eq] at hs
    rw [hs.2] at hs
    exact hstays hs.1

@[simp] theorem chosen_device : (sims.device other).chosen name = sims.chosen name := by
  rw [Sims.chosen, Sims.chosen, find_device]
  split_ifs with hname
  · rw [hname]
    rcases sims.find other with _ | s <;> rfl
  · rfl

@[simp] theorem isPending_device : (sims.device other).isPending name = sims.isPending name := by
  rw [Sims.isPending, Sims.isPending, find_device]
  split_ifs with hname
  · rw [hname]
    rcases sims.find other with _ | s <;> rfl
  · rfl

end Lookups

section Calls

variable {written unlinked : String → Bool} {s : SimState} {name : String}

@[simp] theorem publish_sims {device : String} {sim apn : Option String} {written : Bool} :
    (publish device sim apn written s).sims = s.sims := by
  unfold publish
  split_ifs <;> rfl

theorem publish_files_of_ne {device : String} {sim apn : Option String} {written : Bool}
    (h : name ≠ device) : (publish device sim apn written s).files name = s.files name := by
  unfold publish
  split_ifs
  · exact Function.update_of_ne h ..
  · rfl

variable (written s name) in
theorem syncDevice_other {x : ModemDevice} (h : x.name ≠ name ∨ x.modem = none) :
    (syncDevice written s x).sims.find name = s.sims.find name ∧
      (syncDevice written s x).files name = s.files name := by
  unfold syncDevice
  rcases hmodem : x.modem with _ | policy
  · exact ⟨rfl, rfl⟩
  · have hname : name ≠ x.name := by
      rcases h with h | h
      · exact h.symm
      · simp [hmodem] at h
    exact ⟨by simp [hname], publish_files_of_ne hname⟩

variable (written s) in
theorem syncDevice_self {x : ModemDevice} {policy : ModemPolicy} (h : x.modem = some policy) :
    (syncDevice written s x).sims.find x.name =
        some ⟨x.name, min (s.sims.chosen x.name) (policy.sim.length - 1),
          s.sims.isPending x.name⟩ ∧
      (written x.name = true → (syncDevice written s x).files x.name =
        some (selectionText x.name policy.sim[min (s.sims.chosen x.name)
          (policy.sim.length - 1)]? policy.apn)) := by
  unfold syncDevice
  rw [h]
  refine ⟨by simp, fun hwritten => ?_⟩
  simp [publish, hwritten]

variable (written name) in
theorem foldl_syncDevice : ∀ (devices : List ModemDevice) (s : SimState),
    (devices.map ModemDevice.name).Nodup →
    match devices.findSome? fun x => if x.name = name then x.modem else none with
    | none => (devices.foldl (syncDevice written) s).sims.find name = s.sims.find name ∧
        (devices.foldl (syncDevice written) s).files name = s.files name
    | some policy => (devices.foldl (syncDevice written) s).sims.find name =
          some ⟨name, min (s.sims.chosen name) (policy.sim.length - 1), s.sims.isPending name⟩ ∧
        (written name = true → (devices.foldl (syncDevice written) s).files name =
          some (selectionText name policy.sim[min (s.sims.chosen name)
            (policy.sim.length - 1)]? policy.apn))
  | [], _, _ => ⟨rfl, rfl⟩
  | x :: devices, s, hnames => by
    rw [List.map_cons, List.nodup_cons] at hnames
    have hrest := foldl_syncDevice devices (syncDevice written s x) hnames.2
    rw [List.findSome?_cons, List.foldl_cons]
    by_cases hname : x.name = name
    swap
    · obtain ⟨hfind, hfile⟩ := syncDevice_other written s name (.inl hname)
      rw [if_neg hname]
      simpa only [Sims.chosen, Sims.isPending, hfind, hfile] using hrest
    have hnone : devices.findSome? (fun x => if x.name = name then x.modem else none) = none := by
      rw [List.findSome?_eq_none_iff]
      intro y hy
      rw [if_neg fun h => hnames.1 (by rw [hname, ← h]; exact List.mem_map_of_mem hy)]
    rw [hnone] at hrest
    rw [if_pos hname]
    rcases hmodem : x.modem with _ | policy
    · obtain ⟨hfind, hfile⟩ := syncDevice_other written s name (.inr hmodem)
      rw [hnone]
      exact ⟨hrest.1.trans hfind, hrest.2.trans hfile⟩
    · subst hname
      obtain ⟨hfind, hfile⟩ := syncDevice_self written s hmodem
      exact ⟨hrest.1.trans hfind, fun h => hrest.2.trans (hfile h)⟩

variable (written unlinked s name) in
theorem find_simsSync (document : ModemDevices) :
    match policyOf document name with
    | none => (simsSync document written unlinked s).1.sims.find name = none
    | some policy => (simsSync document written unlinked s).1.sims.find name =
          some ⟨name, min (s.sims.chosen name) (policy.sim.length - 1), s.sims.isPending name⟩ ∧
        (written name = true → (simsSync document written unlinked s).1.files name =
          some (selectionText name policy.sim[min (s.sims.chosen name)
            (policy.sim.length - 1)]? policy.apn)) := by
  have hwalk := foldl_syncDevice written name document.devices s document.names
  rw [← policyOf] at hwalk
  rcases hpolicy : policyOf document name with _ | policy
  · simp [simsSync, hpolicy]
  · rw [hpolicy] at hwalk
    simpa [simsSync, hpolicy] using hwalk

end Calls

/-! ## What a step may do -/

/-- The journal of the plan a step applies, and what found the plan. -/
def SimStep.ran (s : SimState) (step : SimStep σ) : Option (SimPass σ × Plan × Journal) :=
  (step.applies s).bind fun r => r.1.executor.map fun e => (r.1, r.2, (apply e r.2 r.1.machine).1)

/-- A pass took the link of a device down and, unless its interface is disabled, brought it up
after, and nothing it did to the device failed. -/
def Recycled (p : SimPass σ) (plan : Plan) (j : Journal) (name : String) : Prop :=
  .linkDown name ∈ doneOps plan.actions j ∧
    (∀ r ∈ j, r.interface = some name → r.outcome = .done) ∧
    ((p.document.interface name).any Interface.enabled →
      List.Sublist [.linkDown name, .linkUp name] (doneOps plan.actions j))

/-- A step forgets the device, which the document gives no modem policy. -/
def Forgets (name : String) : SimStep σ → Prop
  | .sync document .. => policyOf document name = none
  | _ => False

structure SimKept (before : SimState) (step : SimStep σ) (name : String) : Prop where
  /-- A sync leaves a modem on the source it was on or the last there is, with its note, and names
  it in the file. -/
  synced : ∀ document written unlinked policy, step = .sync document written unlinked →
    policyOf document name = some policy →
      ((simStep before step).sims.chosen name < policy.sim.length ∨
          (simStep before step).sims.chosen name = 0) ∧
        (simStep before step).sims.chosen name =
          min (before.sims.chosen name) (policy.sim.length - 1) ∧
        (simStep before step).sims.isPending name = before.sims.isPending name ∧
        (written name = true → (simStep before step).files name = some (selectionText name
          policy.sim[(simStep before step).sims.chosen name]? policy.apn))
  /-- An advance moves a modem on by one source of its list, leaves a note and names the source in
  the file, or it moves nothing. -/
  advanced : ∀ document device written why, step = .advance document device written why →
    ((simStep before step).sims.chosen name = before.sims.chosen name ∧
        (simStep before step).sims.isPending name = before.sims.isPending name) ∨
      name = device ∧ (simStep before step).sims.chosen name = before.sims.chosen name + 1 ∧
        (simStep before step).sims.isPending name = true ∧
        ∃ policy, policyOf document name = some policy ∧
          (simStep before step).sims.chosen name < policy.sim.length ∧
          (written = true → (simStep before step).files name = some (selectionText name
            policy.sim[(simStep before step).sims.chosen name]? policy.apn))
  /-- A pass touches neither the choice nor the file. -/
  passed : (step.applies before).isSome →
    (simStep before step).sims.chosen name = before.sims.chosen name ∧
      (simStep before step).files name = before.files name
  /-- The choice goes back only where a list is shorter or the device is forgotten. -/
  decreases : (simStep before step).sims.chosen name < before.sims.chosen name →
    Forgets name step ∨ ∃ document written unlinked policy,
      step = .sync document written unlinked ∧ policyOf document name = some policy ∧
        policy.sim.length ≤ before.sims.chosen name
  /-- The note goes only with the cycle, or with the device. -/
  cleared : before.sims.isPending name = true → (simStep before step).sims.isPending name = false →
    Forgets name step ∨ ∃ p plan j, step.ran before = some (p, plan, j) ∧ Recycled p plan j name
  /-- It stays where a lock or a guard stops the cycle. -/
  refused : ∀ p plan, step.applies before = some (p, plan) →
    (prepare p.document (p.asked before.sims)).lockOn (.linkDown name) ≠ none ∨
      (prepare p.document (p.asked before.sims)).guardOn (.linkDown name) ≠ none →
    (simStep before step).sims.isPending name = before.sims.isPending name

section Steps

variable {before : SimState} {step : SimStep σ} {p : SimPass σ} {plan : Plan} {name : String}

theorem applies_cases (h : step.applies before = some (p, plan)) :
    plan = p.plan before.sims ∨ plan = p.restricted before.sims := by
  cases step with
  | sync => cases h
  | advance => cases h
  | reconcile p' =>
    simp only [SimStep.applies] at h
    split_ifs at h
    cases h
    exact .inr rfl
  | request p' =>
    cases h
    exact .inl rfl

theorem simStep_of_applies (h : step.applies before = some (p, plan)) :
    simStep before step = { before with sims := p.run before.sims plan } := by
  cases step with
  | sync => cases h
  | advance => cases h
  | reconcile p' => simp only [simStep, h]
  | request p' => simp only [simStep, h]

theorem simStep_of_not_applies {p : SimPass σ} (h : step.applies before = none)
    (hstep : step = .reconcile p ∨ step = .request p) : simStep before step = before := by
  rcases hstep with rfl | rfl <;> simp only [simStep, h]

theorem pair_of_applies (h : step.applies before = some (p, plan))
    (hdown : .linkDown name ∈ plan.actions.map Action.op)
    (henabled : (p.document.interface name).any Interface.enabled) :
    List.Sublist [.linkDown name, .linkUp name] (plan.actions.map Action.op) := by
  have hraised := raised_linkPlan p.document p.observed (p.asked before.sims) p.rest
  rcases applies_cases h with rfl | rfl
  · obtain ⟨a, ha, hop⟩ := List.mem_map.1 hdown
    obtain ⟨u, hu⟩ := hraised a ha name hop henabled
    have hpair :=
      (pair_sublist_of_lt (p.plan before.sims).ids_pairwise ha hu.mem hu.lt).map Action.op
    rwa [List.map_cons, List.map_cons, List.map_nil, hop, hu.op] at hpair
  · exact Restrict.restrict_raises hraised _ _ _ hdown henabled

theorem recycled_of_happened {e : Executor σ} (h : step.applies before = some (p, plan))
    (hdown : .linkDown name ∈ plan.actions.map Action.op)
    (hdone : ∀ r ∈ (apply e plan p.machine).1, r.interface = some name → r.outcome = .done) :
    Recycled p plan (apply e plan p.machine).1 name := by
  have hsub := doneOps_of_all (forall₂_runPlan e plan.actions false p.machine) hdone
  refine ⟨hsub.subset (List.mem_filter.2 ⟨hdown, by simp [Op.interface]⟩), hdone, fun henabled =>
    ?_⟩
  have hpair := (pair_of_applies h hdown henabled).filter fun op => op.interface = some name
  exact (by simpa [Op.interface] using hpair : List.Sublist [.linkDown name, .linkUp name] _).trans
    hsub

theorem find_simsCycled {devices : List String} {j : Journal} {sims : Sims} :
    (simsCycled devices j sims).find name = (sims.find name).map fun s =>
      if name ∈ devices ∧ theCycleHappened j name then { s with pending := false } else s := by
  rw [simsCycled, find_mapped]
  rcases hfind : sims.find name with _ | s
  · rfl
  · rw [Option.map_some, Option.map_some, name_of_find hfind]

theorem mem_cyclesIn {sims : Sims} {most : ℕ} (h : name ∈ cyclesIn plan sims most) :
    .linkDown name ∈ plan.actions.map Action.op := by
  have hany := (List.mem_filter.1 (List.mem_of_mem_take h)).2
  rw [List.any_eq_true] at hany
  obtain ⟨a, ha, hop⟩ := hany
  exact List.mem_map.2 ⟨a, ha, by simpa using hop⟩

variable (name) in
theorem find_of_applies (h : step.applies before = some (p, plan)) :
    (simStep before step).sims.find name = before.sims.find name ∨
      ((simStep before step).sims.find name =
          (before.sims.find name).map (fun s => { s with pending := false }) ∧
        .linkDown name ∈ plan.actions.map Action.op ∧
        ∃ j, step.ran before = some (p, plan, j) ∧ Recycled p plan j name) := by
  rw [simStep_of_applies h, SimPass.run]
  rcases hexecutor : p.executor with _ | e
  · exact .inl rfl
  dsimp only
  rw [find_simsCycled]
  by_cases hcycled : name ∈ cyclesIn plan before.sims cyclesMax ∧
      theCycleHappened (apply e plan p.machine).1 name
  swap
  · exact .inl (by simp [hcycled])
  have hdown := mem_cyclesIn hcycled.1
  refine .inr ⟨by simp [hcycled], hdown, _, by simp [SimStep.ran, h, hexecutor]; rfl,
    recycled_of_happened h hdown fun r hr hinterface => ?_⟩
  have hall := List.all_eq_true.1 hcycled.2 r hr
  simpa [hinterface] using hall

theorem chosen_of_applies (h : step.applies before = some (p, plan)) :
    (simStep before step).sims.chosen name = before.sims.chosen name ∧
      (simStep before step).files name = before.files name := by
  refine ⟨?_, by rw [simStep_of_applies h]⟩
  rw [Sims.chosen, Sims.chosen]
  rcases find_of_applies name h with hfind | ⟨hfind, -⟩
  · rw [hfind]
  · rw [hfind]
    rcases before.sims.find name with _ | s <;> rfl

theorem not_mem_of_refused (h : step.applies before = some (p, plan))
    (hrefused : (prepare p.document (p.asked before.sims)).lockOn (.linkDown name) ≠ none ∨
      (prepare p.document (p.asked before.sims)).guardOn (.linkDown name) ≠ none) :
    .linkDown name ∉ plan.actions.map Action.op := by
  intro hdown
  have hplan : .linkDown name ∈
      (linkPlan p.document p.observed (p.asked before.sims) p.rest).ops := by
    rcases applies_cases h with rfl | rfl
    · exact hdown
    · exact Restrict.restrict_subset hdown
  obtain ⟨hlock, hguard⟩ := free_of_mem hplan rfl (by simp)
  rcases hrefused with hrefused | hrefused
  · exact hrefused hlock
  · exact hrefused hguard

theorem advance_cases (document : ModemDevices) (device : String) (written : Bool) (why : String)
    (s : SimState) (name : String) :
    ((simsAdvance document device written why s).1.sims.chosen name = s.sims.chosen name ∧
        (simsAdvance document device written why s).1.sims.isPending name =
          s.sims.isPending name) ∨
      name = device ∧
        (simsAdvance document device written why s).1.sims.chosen name = s.sims.chosen name + 1 ∧
        (simsAdvance document device written why s).1.sims.isPending name = true ∧
        ∃ policy, policyOf document name = some policy ∧
          (simsAdvance document device written why s).1.sims.chosen name < policy.sim.length ∧
          (written = true → (simsAdvance document device written why s).1.files name =
            some (selectionText name policy.sim[(simsAdvance document device written why s).1.sims.chosen
              name]? policy.apn)) := by
  unfold simsAdvance
  rcases hpolicy : policyOf document device with _ | policy
  · exact .inl ⟨rfl, rfl⟩
  dsimp only
  rw [chosen_device]
  by_cases hlast : policy.sim.length ≤ s.sims.chosen device + 1
  · rw [if_pos hlast]
    exact .inl ⟨chosen_device, isPending_device⟩
  rw [if_neg hlast, publish_sims]
  by_cases hname : name = device
  · subst hname
    rw [chosen_set_self (by simp)]
    refine .inr ⟨rfl, rfl, by simp [Sims.isPending], policy, hpolicy, not_le.1 hlast,
      fun hwritten => ?_⟩
    rw [publish, if_pos hwritten]
    exact Function.update_self ..
  · exact .inl (by simp [Sims.chosen, Sims.isPending, hname])

/-- Every step keeps the notes. -/
theorem simKept (before : SimState) (step : SimStep σ) (name : String) :
    SimKept before step name where
  synced := by
    rintro document written unlinked policy rfl hpolicy
    have hfind := find_simsSync written unlinked before name document
    rw [hpolicy] at hfind
    obtain ⟨hfind, hfile⟩ := hfind
    have hchosen : (simStep before (.sync document written unlinked : SimStep σ)).sims.chosen name =
        min (before.sims.chosen name) (policy.sim.length - 1) := by
      rw [Sims.chosen, simStep, hfind]
      rfl
    refine ⟨?_, hchosen, ?_, ?_⟩
    · rw [hchosen]
      omega
    · rw [Sims.isPending, simStep, hfind]
      rfl
    · rw [hchosen]
      exact hfile
  advanced := by
    rintro document device written why rfl
    exact advance_cases document device written why before name
  passed happlies := by
    obtain ⟨⟨p, plan⟩, happlies⟩ := Option.isSome_iff_exists.1 happlies
    exact chosen_of_applies happlies
  decreases hless := by
    rcases happlies : step.applies before with _ | ⟨p, plan⟩
    swap
    · rw [(chosen_of_applies happlies).1] at hless
      exact absurd hless (lt_irrefl _)
    cases step with
    | sync document written unlinked =>
      rcases hpolicy : policyOf document name with _ | policy
      · exact .inl hpolicy
      refine .inr ⟨document, written, unlinked, policy, rfl, hpolicy, ?_⟩
      have hfind := find_simsSync written unlinked before name document
      rw [hpolicy] at hfind
      rw [Sims.chosen, simStep, hfind.1] at hless
      simp only [Option.map_some, Option.getD_some] at hless
      omega
    | advance document device written why =>
      rcases advance_cases document device written why before name with ⟨hsame, -⟩ | ⟨-, hnext, -⟩
      · exact absurd hless (by rw [simStep, hsame]; exact lt_irrefl _)
      · rw [simStep, hnext] at hless
        omega
    | reconcile p =>
      rw [simStep_of_not_applies happlies (.inl rfl)] at hless
      exact absurd hless (lt_irrefl _)
    | request p => cases happlies
  cleared hpending hcleared := by
    rcases happlies : step.applies before with _ | ⟨p, plan⟩
    swap
    · rcases find_of_applies name happlies with hfind | ⟨-, -, j, hran, hrecycled⟩
      · rw [Sims.isPending, hfind, ← Sims.isPending, hpending] at hcleared
        cases hcleared
      · exact .inr ⟨p, plan, j, hran, hrecycled⟩
    cases step with
    | sync document written unlinked =>
      rcases hpolicy : policyOf document name with _ | policy
      · exact .inl hpolicy
      have hfind := find_simsSync written unlinked before name document
      rw [hpolicy] at hfind
      rw [Sims.isPending, simStep, hfind.1, Option.any_some, hpending] at hcleared
      cases hcleared
    | advance document device written why =>
      rcases advance_cases document device written why before name with ⟨-, hsame⟩ |
        ⟨-, -, hnext, -⟩
      · rw [simStep, hsame, hpending] at hcleared
        cases hcleared
      · rw [simStep, hnext] at hcleared
        cases hcleared
    | reconcile p =>
      rw [simStep_of_not_applies happlies (.inl rfl), hpending] at hcleared
      cases hcleared
    | request p => cases happlies
  refused p plan happlies hrefused := by
    rcases find_of_applies name happlies with hfind | ⟨-, hdown, -⟩
    · rw [Sims.isPending, hfind, ← Sims.isPending]
    · exact absurd hdown (not_mem_of_refused happlies hrefused)

/-- **A switch that waits is not forgotten** : every step of every run keeps to this. -/
theorem sims_kept (files : String → Option String) (steps : List (SimStep σ)) (step : SimStep σ)
    (name : String) : SimKept (simRun files steps) step name :=
  simKept _ _ _

def twoSources : ModemDevices where
  devices := [⟨"wwan0", some { sim := ["slot:1", "slot:2"] }⟩]

/-- The device, once its modem policy is taken out of the document. -/
def noPolicy : ModemDevices where
  devices := [⟨"wwan0", none⟩]

/-- An apply that is asked for while the interface is disabled and its link is up. -/
def disabledPass : SimPass Unit where
  document :=
    { interfaces := [{ name := "wwan0", enabled := false }]
      names := by decide
      deviceNames := no_devices }
  policies := { interfaces := [] }
  observed := { links := [{ name := "wwan0", carrier := true }], vlanOnce := no_vlans }
  rest := { others := by simp }
  executor := some ⟨fun s _ => (.ok (), s)⟩
  machine := ()

/-- The modem is on its second source, and its link has not been cycled. -/
def switched : List (SimStep Unit) :=
  [.sync twoSources (fun _ => true) fun _ => true, .advance twoSources "wwan0" true ""]

/-- A sync takes the choice back with the policy, and the note with it, and an apply drops the note
where a disabled interface was taken down and nothing brought it up. -/
theorem forgotten_with_the_modem :
    (∃ step : SimStep Unit, (simStep (simRun (fun _ => none) switched) step).sims.chosen "wwan0" <
        (simRun (fun _ => none) switched).sims.chosen "wwan0" ∧
      ∀ document written unlinked policy, step = .sync document written unlinked →
        policyOf document "wwan0" ≠ some policy) ∧
      ∃ step : SimStep Unit, (simRun (fun _ => none) switched).sims.isPending "wwan0" = true ∧
        (simStep (simRun (fun _ => none) switched) step).sims.isPending "wwan0" = false ∧
        ¬∃ p plan j, step.ran (simRun (fun _ => none) switched) = some (p, plan, j) ∧
          List.Sublist [.linkDown "wwan0", .linkUp "wwan0"] (doneOps plan.actions j) := by
  refine ⟨⟨.sync noPolicy (fun _ => true) fun _ => true, by decide +kernel, ?_⟩,
    .request disabledPass, by decide +kernel, by decide +kernel, ?_⟩
  · rintro document written unlinked policy hstep
    cases hstep
    exact fun h => nomatch h
  · rintro ⟨p, plan, j, hran, hpair⟩
    cases hran
    have hup := hpair.subset (List.mem_cons_of_mem _ List.mem_cons_self)
    exact absurd hup (by decide +kernel)

end Steps

end Netcfgd
