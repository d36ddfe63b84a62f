import Mathlib.Logic.Relation
import Netcfgd.Build

/-!
# The part of a plan that puts drift back

`ncfg_reconcile_restrict` of `reconcile.c` keeps the actions of a plan that the drift policies allow
and whose dependencies were kept. What is kept is what it should be, in its order
(`restrict_actions`), but the ids an action depends on are those of the plan that was restricted :
they name the actions they named exactly where nothing is dropped before an action that a kept one
depends on (`restrict_keeps_dependencies`).
-/

namespace Netcfgd.Restrict

/-! ## The drift policies -/

/-- `ncfg_drift_policy_t`. -/
inductive DriftPolicy
  | report | reconcile | ignore
  deriving DecidableEq, Repr

/-- `ncfg_interface_t`, as far as drift goes. -/
structure Interface where
  name : String
  onDrift : Option DriftPolicy := none
  preference : Option ℤ := none

/-- `ncfg_document_t`, likewise. -/
structure Document where
  interfaces : List Interface
  onDriftDefault : DriftPolicy := .reconcile

/-- What `ncfg_sims_t` has on a device. -/
structure Sim where
  device : String
  pending : Bool

/-- `ncfg_sims_is_pending`. -/
def isPending (sims : List Sim) (device : String) : Bool :=
  (sims.find? fun s => s.device = device).any Sim.pending

def Document.interface (d : Document) (name : String) : Option Interface :=
  d.interfaces.find? fun one => one.name = name

/-- `ncfg_reconcile_policy_for`. -/
def policyFor (document : Option Document) (name : Option String) : DriftPolicy :=
  match document with
  | none => .report
  | some d => ((name.bind d.interface).bind Interface.onDrift).getD d.onDriftDefault

/-- `ncfg_reconcile_reconciles`. -/
def reconciles (document : Option Document) (sims : List Sim) (name : Option String) : Bool :=
  match document, name with
  | some d, some n =>
    (d.interface n).any fun one =>
      isPending sims n || one.preference.isSome || policyFor document name = .reconcile
  | _, _ => false

/-- The ops that are not drift : a steer, a neighbour, a station denied. -/
def notDrift : Op → Bool
  | .stationSteer .. | .neighbourAdd .. | .neighbourDel .. => true
  | .accessControlAdd _ list _ => list = .deny
  | _ => false

/-- Whether a restriction wants an operation. -/
def wanted (document : Option Document) (sims : List Sim) (hostWide : Bool) (op : Op) : Bool :=
  if op.isHostWideConfig then hostWide
  else if notDrift op then true
  else reconciles document sims op.interface

/-! ## The restriction -/

/-- `ncfg_stranded_t`. -/
structure Stranded where
  interface : String
  credential : String
  irrevocable : String
  removeWith : String
  consentWith : String

/-- A plan and what it carries beside its actions. -/
structure Full where
  plan : Plan
  warnings : List (Option String × String) := []
  refusals : List Refusal := []
  stranded : List Stranded := []

/-- `ncfg_plan_add`, with the warning it leaves. No edge of a plan that was built is the sentinel it
drops. -/
def Full.add (f : Full) (a : Action) : Full where
  plan := f.plan.add a.op a.reason a.dependsOn a.inverse
  warnings := f.warnings ++
    if a.inverse.isNone then
      [(a.op.interface, a.op.name ++ " cannot be undone; commit-confirm will not revert it")]
    else []
  refusals := f.refusals
  stranded := f.stranded

/-- What the walk over the actions has so far. -/
structure Walk where
  kept : Full := { plan := .empty }
  /-- `in_set`, by the ids that are in it. -/
  inSet : List ℕ := []
  dropped : List String := []

def Walk.step (wants : Op → Bool) (s : Walk) (a : Action) : Walk :=
  if wants a.op then
    match a.dependsOn.find? fun id => id ∉ s.inSet with
    | some missing =>
      { s with dropped := s.dropped ++
          [a.op.name ++ " on " ++ a.op.interface.getD "?" ++ " needs action " ++ toString missing ++
            ", which belongs to another interface\n"] }
    | none => { s with kept := s.kept.add a, inSet := s.inSet ++ [a.id] }
  else s

/-- `ncfg_reconcile_restrict` : the plan, and the actions that were orphaned. -/
def restrict (f : Full) (document : Option Document) (sims : List Sim) (hostWide : Bool) :
    Full × List String :=
  let s := f.plan.actions.foldl (Walk.step (wanted document sims hostWide)) {}
  ({ s.kept with
      refusals := s.kept.refusals ++ f.refusals
      stranded := s.kept.stranded ++ f.stranded }, s.dropped)

/-! ## What should be kept -/

/-- A plan whose actions wait only for earlier ones. -/
structure Built extends Full where
  earlier : ∀ a ∈ plan.actions, ∀ id ∈ a.dependsOn, id < a.id

namespace Built

variable (b : Built) (wants : Op → Bool)

/-- One action of a plan waits for another. -/
def Depends (a x : Action) : Prop := x ∈ b.plan.actions ∧ x.id ∈ a.dependsOn

/-- An action is kept where it and all it depends on, at any remove, are wanted. -/
def Keeps (a : Action) : Prop := ∀ x, Relation.ReflTransGen b.Depends a x → wants x.op = true

open Classical in
/-- The actions that should be kept. -/
noncomputable def kept : List Action := b.plan.actions.filter fun a => b.Keeps wants a

/-- The place of a number in a plan. -/
def place (actions : List Action) (id : ℕ) : ℕ := actions.findIdx fun a => a.id = id

/-- Actions as a plan of their own, each naming what it depends on by its place there. -/
def renumbered (actions : List Action) : List Action :=
  actions.mapIdx fun i a => { a with id := i, dependsOn := a.dependsOn.map (place actions) }

variable {b wants}

variable {a x : Action}

/-- An action is kept where it is wanted and what it waits for is kept. -/
theorem keeps_iff :
    b.Keeps wants a ↔ wants a.op = true ∧ ∀ x, b.Depends a x → b.Keeps wants x := by
  constructor
  · exact fun h => ⟨h a .refl, fun x hx y hy => h y (.head hx hy)⟩
  · rintro ⟨ha, hdeps⟩ y hy
    rcases Relation.ReflTransGen.cases_head hy with rfl | ⟨x, hx, hxy⟩
    · exact ha
    · exact hdeps x hx y hxy

/-- Every number stands for an action. -/
theorem exists_of_lt {id : ℕ} (h : id < b.plan.actions.length) :
    ∃ x, b.plan.actions[id]? = some x ∧ x.id = id :=
  ⟨b.plan.actions[id], List.getElem?_eq_getElem h, b.plan.ids id h⟩

theorem id_of_getElem? {i : ℕ} (h : b.plan.actions[i]? = some x) : x.id = i := by
  obtain ⟨hi, rfl⟩ := List.getElem?_eq_some_iff.1 h
  exact b.plan.ids i hi

theorem getElem?_id (h : x ∈ b.plan.actions) :
    b.plan.actions[x.id]? = some x := by
  obtain ⟨i, hi⟩ := List.mem_iff_getElem?.1 h
  rw [id_of_getElem? hi, hi]

variable {pre post : List Action}

theorem lt_of_mem_prefix (h : b.plan.actions = pre ++ post) (hx : x ∈ pre) : x.id < pre.length := by
  obtain ⟨i, hi, rfl⟩ := List.getElem_of_mem hx
  have hget : b.plan.actions[i]? = some pre[i] := by
    rw [h, List.getElem?_append_left hi, List.getElem?_eq_getElem hi]
  rw [id_of_getElem? hget]
  exact hi

theorem mem_prefix_of_lt (h : b.plan.actions = pre ++ post)
    (hx : x ∈ b.plan.actions) (hlt : x.id < pre.length) : x ∈ pre := by
  have hget := getElem?_id hx
  rw [h, List.getElem?_append_left hlt] at hget
  exact List.mem_of_getElem? hget

/-! ## The walk -/

open Classical in
/-- The ids the walk has after a prefix of the actions. -/
noncomputable def idsIn (b : Built) (wants : Op → Bool) (pre : List Action) : List ℕ :=
  (pre.filter fun a => b.Keeps wants a).map Action.id

theorem mem_idsIn_iff (h : b.plan.actions = pre ++ post)
    (hx : x ∈ b.plan.actions) (hlt : x.id < pre.length) :
    x.id ∈ b.idsIn wants pre ↔ b.Keeps wants x := by
  rw [idsIn, List.mem_map]
  constructor
  · rintro ⟨y, hy, hid⟩
    rw [List.mem_filter] at hy
    have hget := getElem?_id (b := b) (x := y) (h ▸ List.mem_append_left _ hy.1)
    rw [hid, getElem?_id hx, Option.some_inj] at hget
    simpa [hget] using hy.2
  · intro hkeeps
    exact ⟨x, List.mem_filter.2 ⟨mem_prefix_of_lt h hx hlt, by simpa using hkeeps⟩, rfl⟩

theorem keeps_iff_idsIn (h : b.plan.actions = pre ++ a :: post) :
    b.Keeps wants a ↔ wants a.op = true ∧ ∀ id ∈ a.dependsOn, id ∈ b.idsIn wants pre := by
  have ha : a ∈ b.plan.actions := by simp [h]
  have hid : a.id = pre.length := by
    refine id_of_getElem? (b := b) ?_
    rw [h, List.getElem?_append_right le_rfl, Nat.sub_self, List.getElem?_cons_zero]
  have hlt : ∀ id ∈ a.dependsOn, id < pre.length := fun id hmem => hid ▸ b.earlier a ha id hmem
  rw [keeps_iff]
  refine and_congr_right fun _ => ⟨fun hdeps id hmem => ?_, fun hin x hx => ?_⟩
  · have hin : id < b.plan.actions.length := by
      rw [h, List.length_append]
      exact Nat.lt_add_right _ (hlt id hmem)
    obtain ⟨x, hget, rfl⟩ := exists_of_lt hin
    have hx := List.mem_of_getElem? hget
    exact (mem_idsIn_iff h hx (hlt _ hmem)).2 (hdeps x ⟨hx, hmem⟩)
  · exact (mem_idsIn_iff h hx.1 (hlt _ hx.2)).1 (hin x.id hx.2)

theorem step_kept {s : Walk} (hwant : wants a.op = true)
    (hdeps : ∀ id ∈ a.dependsOn, id ∈ s.inSet) :
    Walk.step wants s a = { s with kept := s.kept.add a, inSet := s.inSet ++ [a.id] } := by
  have hfind : a.dependsOn.find? (fun id => id ∉ s.inSet) = none := by
    rw [List.find?_eq_none]
    intro id hmem
    simpa using hdeps id hmem
  unfold Walk.step
  rw [if_pos hwant, hfind]

theorem step_dropped {s : Walk} (h : ¬(wants a.op = true ∧ ∀ id ∈ a.dependsOn, id ∈ s.inSet)) :
    (Walk.step wants s a).inSet = s.inSet ∧ (Walk.step wants s a).kept = s.kept := by
  unfold Walk.step
  by_cases hwant : wants a.op = true
  · rw [if_pos hwant]
    cases hfind : a.dependsOn.find? (fun id => id ∉ s.inSet) with
    | some missing => exact ⟨rfl, rfl⟩
    | none =>
      refine absurd ⟨hwant, fun id hmem => ?_⟩ h
      simpa using List.find?_eq_none.1 hfind id hmem
  · rw [if_neg hwant]
    exact ⟨rfl, rfl⟩

open Classical in
theorem walk_eq : ∀ {post pre : List Action} {s : Walk}, b.plan.actions = pre ++ post →
    s.inSet = b.idsIn wants pre →
    s.kept.plan.actions = (pre.filter fun a => b.Keeps wants a).mapIdx
      (fun i a => { a with id := i }) →
    (post.foldl (Walk.step wants) s).kept.plan.actions =
      (b.kept wants).mapIdx fun i a => { a with id := i }
  | [], pre, s, h, _, hkept => by
    rw [List.append_nil] at h
    rw [List.foldl_nil, hkept, kept, h]
  | a :: post, pre, s, h, hset, hkept => by
    have hnext : b.plan.actions = (pre ++ [a]) ++ post := by rw [h, List.append_assoc]; rfl
    have hkeeps : b.Keeps wants a ↔ wants a.op = true ∧
        ∀ id ∈ a.dependsOn, id ∈ b.idsIn wants pre := keeps_iff_idsIn h
    rw [← hset] at hkeeps
    rw [List.foldl_cons]
    by_cases hkeep : b.Keeps wants a
    · obtain ⟨hwant, hdeps⟩ := hkeeps.1 hkeep
      have hfilter : [a].filter (fun a => b.Keeps wants a) = [a] := by simp [hkeep]
      rw [step_kept hwant hdeps]
      refine walk_eq hnext ?_ ?_
      · rw [idsIn, List.filter_append, List.map_append, hfilter, hset, idsIn, List.map_singleton]
      · have hadd : (s.kept.add a).plan.actions = s.kept.plan.actions ++
            [{ a with id := s.kept.plan.actions.length }] := rfl
        rw [hadd, List.filter_append, hfilter, List.mapIdx_concat, hkept, List.length_mapIdx]
    · have hfilter : [a].filter (fun a => b.Keeps wants a) = [] := by simp [hkeep]
      obtain ⟨hinSet, hsame⟩ := step_dropped (mt hkeeps.2 hkeep)
      refine walk_eq hnext ?_ ?_
      · rw [idsIn, List.filter_append, hfilter, List.append_nil, hinSet, hset, idsIn]
      · rw [List.filter_append, hfilter, List.append_nil, hsame, hkept]

/-- What is left of a plan : the actions kept, numbered anew. -/
theorem restrict_actions (document : Option Document) (sims : List Sim) (hostWide : Bool) :
    (restrict b.toFull document sims hostWide).1.plan.actions =
      (b.kept (wanted document sims hostWide)).mapIdx fun i a => { a with id := i } :=
  @walk_eq _ _ _ [] _ rfl rfl rfl

/-! ## The edges -/

open Classical in
theorem place_kept (hx : x ∈ b.plan.actions) (hkeep : b.Keeps wants x) :
    place (b.kept wants) x.id =
      ((b.plan.actions.take x.id).filter fun a => b.Keeps wants a).length := by
  obtain ⟨hlt, hget⟩ := List.getElem?_eq_some_iff.1 (getElem?_id hx)
  have hsplit : b.plan.actions =
      b.plan.actions.take x.id ++ x :: b.plan.actions.drop (x.id + 1) := by
    conv_lhs =>
      rw [← List.take_append_drop x.id b.plan.actions, List.drop_eq_getElem_cons hlt, hget]
  have hkept : b.kept wants = (b.plan.actions.take x.id).filter (fun a => b.Keeps wants a) ++
      x :: (b.plan.actions.drop (x.id + 1)).filter (fun a => b.Keeps wants a) := by
    rw [kept]
    conv_lhs => rw [hsplit]
    rw [List.filter_append, List.filter_cons_of_pos (by simpa using hkeep)]
  have hother : ∀ a ∈ (b.plan.actions.take x.id).filter (fun a => b.Keeps wants a),
      ¬decide (a.id = x.id) = true := by
    intro a ha
    have := lt_of_mem_prefix hsplit (List.mem_filter.1 ha).1
    rw [List.length_take] at this
    simp
    omega
  rw [place, hkept, List.findIdx_append, if_neg (by simpa [List.findIdx_lt_length] using hother),
    List.findIdx_cons]
  simp

open Classical in
/-- A kept action keeps its number exactly where all before it are kept. -/
theorem place_kept_eq_iff (hx : x ∈ b.plan.actions) (hkeep : b.Keeps wants x) :
    place (b.kept wants) x.id = x.id ↔ ∀ y ∈ b.plan.actions, y.id < x.id → b.Keeps wants y := by
  have hlen : (b.plan.actions.take x.id).length = x.id := by
    obtain ⟨hlt, -⟩ := List.getElem?_eq_some_iff.1 (getElem?_id hx)
    rw [List.length_take]
    omega
  have hsplit := (List.take_append_drop x.id b.plan.actions).symm
  rw [place_kept hx hkeep]
  conv_lhs => rhs; rw [← hlen]
  rw [List.length_filter_eq_length_iff]
  constructor
  · intro hall y hy hlt
    simpa using hall y (mem_prefix_of_lt hsplit hy (hlen.symm ▸ hlt))
  · intro hall y hy
    have hlt := lt_of_mem_prefix hsplit hy
    rw [hlen] at hlt
    simpa using hall y (hsplit ▸ List.mem_append_left _ hy) hlt

end Built

open Built

/-- **A restricted plan keeps its dependencies where nothing before them is dropped.** The plan is
the kept actions, each depending on the kept copies of what it depended on, if and only if no action
is dropped before one that a kept action depends on. -/
theorem restrict_keeps_dependencies (b : Built) (document : Option Document) (sims : List Sim)
    (hostWide : Bool) :
    (restrict b.toFull document sims hostWide).1.plan.actions =
        renumbered (b.kept (wanted document sims hostWide)) ↔
      ∀ a ∈ b.kept (wanted document sims hostWide), ∀ x, b.Depends a x →
        ∀ y ∈ b.plan.actions, y.id < x.id → b.Keeps (wanted document sims hostWide) y := by
  set wants := wanted document sims hostWide
  have hmem : ∀ a ∈ b.kept wants, a ∈ b.plan.actions ∧ b.Keeps wants a := fun a ha => by
    simpa [kept] using ha
  have hedges : ∀ a ∈ b.kept wants, (a.dependsOn.map (place (b.kept wants)) = a.dependsOn ↔
      ∀ x, b.Depends a x → ∀ y ∈ b.plan.actions, y.id < x.id → b.Keeps wants y) := by
    intro a ha
    obtain ⟨hplan, hkeep⟩ := hmem a ha
    have hdeps := (keeps_iff.1 hkeep).2
    have hsame : a.dependsOn.map (place (b.kept wants)) = a.dependsOn ↔
        ∀ id ∈ a.dependsOn, place (b.kept wants) id = id := by
      conv_lhs => rhs; rw [← List.map_id a.dependsOn]
      exact List.map_inj_left
    rw [hsame]
    constructor
    · intro hplace x hx
      exact (place_kept_eq_iff hx.1 (hdeps x hx)).1 (hplace x.id hx.2)
    · intro hbefore id hid
      have hlt : id < b.plan.actions.length := (b.earlier a hplan id hid).trans
        (List.getElem?_eq_some_iff.1 (getElem?_id hplan)).1
      obtain ⟨x, hget, rfl⟩ := exists_of_lt hlt
      have hx : b.Depends a x := ⟨List.mem_of_getElem? hget, hid⟩
      exact (place_kept_eq_iff hx.1 (hdeps x hx)).2 (hbefore x hx)
  rw [restrict_actions, renumbered, List.mapIdx_eq_mapIdx_iff]
  constructor
  · intro h a ha
    obtain ⟨i, hi, rfl⟩ := List.getElem_of_mem ha
    exact (hedges _ ha).1 (congrArg Action.dependsOn (h i hi)).symm
  · intro h i hi
    have ha := List.getElem_mem hi
    rw [(hedges _ ha).2 (h _ ha)]

/-! ## An edge that names another action -/

def mtuAction (id : ℕ) (interface : String) (dependsOn : List ℕ) : Action where
  id := id
  op := .linkSetMtu interface 1400
  reason := { interface := some interface, field := "mtu", desired := "1400", observed := "1500" }
  dependsOn := dependsOn
  inverse := some (.linkSetMtu interface 1500)

/-- One action on an interface that is only reported, and two on another, the second of them
depending on the first. -/
def threeActions : Built where
  plan :=
    { actions := [mtuAction 0 "eth1" [], mtuAction 1 "eth0" [], mtuAction 2 "eth0" [1]]
      ids := by decide }
  earlier := by decide

def oneReported : Document where
  interfaces := [{ name := "eth0" }, { name := "eth1", onDrift := some .report }]

/-- The action that depended on the one before it comes to depend on itself. -/
theorem edge_names_itself :
    (restrict threeActions.toFull (some oneReported) [] false).1.plan.actions =
        [mtuAction 0 "eth0" [], mtuAction 1 "eth0" [1]] ∧
      (restrict threeActions.toFull (some oneReported) [] false).1.plan.actions ≠
        renumbered (threeActions.kept (wanted (some oneReported) [] false)) := by
  have hrun : (restrict threeActions.toFull (some oneReported) [] false).1.plan.actions =
      [mtuAction 0 "eth0" [], mtuAction 1 "eth0" [1]] := by decide
  set wants := wanted (some oneReported) [] false
  have hfirst : ¬threeActions.Keeps wants (mtuAction 0 "eth1" []) := fun h =>
    absurd (keeps_iff.1 h).1 (by decide)
  have hsecond : threeActions.Keeps wants (mtuAction 1 "eth0" []) :=
    keeps_iff.2 ⟨by decide, fun x hx => absurd hx.2 List.not_mem_nil⟩
  have hthird : threeActions.Keeps wants (mtuAction 2 "eth0" [1]) := by
    refine keeps_iff.2 ⟨by decide, fun x hx => ?_⟩
    obtain ⟨hmem, hid⟩ := hx
    have hx : x = mtuAction 1 "eth0" [] := by
      have hget := getElem?_id hmem
      rw [List.mem_singleton.1 hid] at hget
      exact (Option.some_inj.1 hget).symm
    exact hx ▸ hsecond
  have hactions : threeActions.plan.actions =
      [mtuAction 0 "eth1" [], mtuAction 1 "eth0" [], mtuAction 2 "eth0" [1]] := rfl
  have hkept : threeActions.kept wants = [mtuAction 1 "eth0" [], mtuAction 2 "eth0" [1]] := by
    rw [kept, hactions]
    simp [hfirst, hsecond, hthird]
  rw [hrun, hkept]
  exact ⟨rfl, by decide⟩

end Netcfgd.Restrict
