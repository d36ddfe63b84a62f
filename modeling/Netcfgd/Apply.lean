import Netcfgd.Plan

/-!
# Running a plan and putting it back

`runPlan` and `applyRevert` are the two loops of `apply.c`, over an executor that may
answer anything and change any state of its own (`Executor`). `armedFrom` is what a
commit-confirm window keeps of an apply (`confirm.c`).

What a revert does to the executor depends only on the inverses of the actions that are
done and declare one (`undoable`) : it runs them newest first (`applyRevert_eq`), and the
inverses that failed are what the next revert finds (`undoable_applyRevert`). The undo plan
and journal of a window have the same `undoable` list as the plan and journal they were
made from (`undoable_armedFrom`), although their ids are not the same.
-/

namespace Netcfgd

variable {σ : Type*}

/-- `ncfg_executor_t` : carry one op out. It answers success, or what went wrong. -/
structure Executor (σ : Type*) where
  execute : σ → Op → Except String Unit × σ

namespace Executor

def succeeds (e : Executor σ) (s : σ) (op : Op) : Bool :=
  match (e.execute s op).1 with
  | .ok _ => true
  | .error _ => false

def after (e : Executor σ) (s : σ) (op : Op) : σ :=
  (e.execute s op).2

/-- The executor with a log of every op that reached it, and whether it succeeded. -/
def logged (e : Executor σ) : Executor (σ × List (Op × Bool)) where
  execute s op := ((e.execute s.1 op).1, (e.after s.1 op, s.2 ++ [(op, e.succeeds s.1 op)]))

@[simp] theorem logged_succeeds (e : Executor σ) (s : σ × List (Op × Bool)) (op : Op) :
    e.logged.succeeds s op = e.succeeds s.1 op :=
  rfl

@[simp] theorem logged_after (e : Executor σ) (s : σ × List (Op × Bool)) (op : Op) :
    e.logged.after s op = (e.after s.1 op, s.2 ++ [(op, e.succeeds s.1 op)]) :=
  rfl

/-- The state some operations leave. -/
def runOps (e : Executor σ) (ops : List Op) (s : σ) : σ :=
  ops.foldl e.after s

/-- The operations in order, each with whether it succeeds where it runs. -/
def answers (e : Executor σ) : List Op → σ → List (Op × Bool)
  | [], _ => []
  | op :: ops, s => (op, e.succeeds s op) :: answers e ops (e.after s op)

theorem map_fst_answers (e : Executor σ) :
    ∀ (ops : List Op) (s : σ), (e.answers ops s).map Prod.fst = ops
  | [], _ => rfl
  | op :: ops, s => by simp [answers, map_fst_answers e ops]

theorem answers_append (e : Executor σ) :
    ∀ (ops ops' : List Op) (s : σ),
      e.answers (ops ++ ops') s = e.answers ops s ++ e.answers ops' (e.runOps ops s)
  | [], _, _ => rfl
  | op :: ops, ops', s => by simp [answers, answers_append e ops, runOps]

theorem runOps_append (e : Executor σ) (ops ops' : List Op) (s : σ) :
    e.runOps (ops ++ ops') s = e.runOps ops' (e.runOps ops s) := by
  simp [runOps]

theorem runOps_logged (e : Executor σ) (ops : List Op) :
    ∀ s : σ × List (Op × Bool),
      e.logged.runOps ops s = (e.runOps ops s.1, s.2 ++ e.answers ops s.1) := by
  induction ops with
  | nil => simp [runOps, answers]
  | cons op ops ih =>
    intro s
    have h := ih (e.logged.after s op)
    simp only [logged_after] at h
    simp only [runOps, List.foldl_cons, logged_after] at h ⊢
    rw [h]
    simp [answers]

end Executor

/-! ## Running a plan -/

/-- `ifb_device` : the prefix is netcfgd's own, for ingress shaping. -/
def ifbDevice (name : String) : Bool :=
  "ifb-".toList.isPrefixOf name.toList

/-- `ncfg_apply_optional` : an op whose failure is its own, and the plan goes on. -/
def applyOptional : Op → Bool
  | .qdiscSet .. | .qdiscReset .. | .ingressRedirect .. | .ingressRedirectClear ..
  | .nftablesReplace | .linkSetOffloads .. => true
  | .linkCreate _ kind => kind = .ifb
  | .linkDelete name | .linkUp name | .linkDown name => ifbDevice name
  | _ => false

def recordOf (a : Action) (outcome : Outcome) (error : Option String) : Record :=
  { id := a.id, op := a.op.name, interface := a.op.interface, reason := a.reason, outcome, error }

def failureText (message : String) : String :=
  if message = "" then "the executor failed and said nothing" else message

/-- `run_plan` : the actions in order, one record each. A required failure stops the
plan, and what comes after it is skipped. -/
def runPlan (e : Executor σ) : List Action → Bool → σ → Journal × σ
  | [], _, s => ([], s)
  | a :: as, true, s =>
    let (j, s') := runPlan e as true s
    (recordOf a .skipped none :: j, s')
  | a :: as, false, s =>
    match e.execute s a.op with
    | (.ok _, s₁) =>
      let (j, s') := runPlan e as false s₁
      (recordOf a .done none :: j, s')
    | (.error m, s₁) =>
      let optional := applyOptional a.op
      let (j, s') := runPlan e as (!optional) s₁
      (recordOf a (if optional then .unmet else .failed) (some (failureText m)) :: j, s')

/-- `ncfg_apply`. -/
def apply (e : Executor σ) (p : Plan) (s : σ) : Journal × σ :=
  runPlan e p.actions false s

/-- A run leaves one record for each action, in the plan's order. -/
theorem map_id_runPlan (e : Executor σ) :
    ∀ (as : List Action) (stopped : Bool) (s : σ),
      (runPlan e as stopped s).1.map Record.id = as.map Action.id
  | [], _, _ => rfl
  | a :: as, true, s => by simp [runPlan, recordOf, map_id_runPlan e as]
  | a :: as, false, s => by
    simp only [runPlan]
    split <;> simp [recordOf, map_id_runPlan e as]

/-! ## Putting it back -/

/-- One step of the walk of `ncfg_apply_revert`. -/
def revertRecord (e : Executor σ) (actions : List Action) (r : Record) (s : σ) :
    Record × ℕ × σ :=
  if r.outcome = .done then
    match (actionWithId actions r.id).bind Action.inverse with
    | none => (r, 0, s)
    | some inverse =>
      match e.execute s inverse with
      | (.ok _, s') => ({ r with outcome := .reverted }, 1, s')
      | (.error _, s') => (r, 0, s')
  else (r, 0, s)

/-- `ncfg_apply_revert` : newest first, past failing inverses. The journal with what was
undone marked, how many were, and the executor's state. -/
def applyRevert (e : Executor σ) (actions : List Action) : Journal → σ → Journal × ℕ × σ
  | [], s => ([], 0, s)
  | r :: rs, s =>
    let (rs', n, s₁) := applyRevert e actions rs s
    let (r', k, s₂) := revertRecord e actions r s₁
    (r' :: rs', n + k, s₂)

def undoOf (actions : List Action) (r : Record) : Option Op :=
  if r.outcome = .done then (actionWithId actions r.id).bind Action.inverse else none

/-- The inverses of what is done and declares one, oldest first. -/
def undoable (actions : List Action) (j : Journal) : List Op :=
  j.filterMap (undoOf actions)

theorem revertRecord_eq (e : Executor σ) (actions : List Action) (r : Record) (s : σ) :
    revertRecord e actions r s =
      match undoOf actions r with
      | none => (r, 0, s)
      | some op => if e.succeeds s op then ({ r with outcome := .reverted }, 1, e.after s op)
        else (r, 0, e.after s op) := by
  unfold revertRecord undoOf
  split_ifs with h
  · cases (actionWithId actions r.id).bind Action.inverse with
    | none => rfl
    | some op =>
      simp only [Executor.succeeds, Executor.after]
      split
      · next heq => simp [heq]
      · next heq => simp [heq]
  · rfl

theorem undoOf_reverted (actions : List Action) (r : Record) :
    undoOf actions { r with outcome := .reverted } = none := by
  simp [undoOf]

/-- A revert runs what is undoable, the last first. -/
theorem applyRevert_eq (e : Executor σ) (actions : List Action) :
    ∀ (j : Journal) (s : σ),
      (applyRevert e actions j s).2.2 = e.runOps (undoable actions j).reverse s
  | [], _ => rfl
  | r :: rs, s => by
    have ih := applyRevert_eq e actions rs s
    simp only [applyRevert, revertRecord_eq, ih, undoable, List.filterMap_cons]
    cases h : undoOf actions r with
    | none => rfl
    | some op =>
      simp only [List.reverse_cons, Executor.runOps_append]
      split_ifs <;> rfl

/-- After a revert, what failed to be undone is undoable again. -/
theorem undoable_applyRevert (e : Executor σ) (actions : List Action) :
    ∀ (j : Journal) (s : σ), (undoable actions (applyRevert e actions j s).1).reverse =
      ((e.answers (undoable actions j).reverse s).filter fun x => !x.2).map Prod.fst
  | [], _ => rfl
  | r :: rs, s => by
    have ih := undoable_applyRevert e actions rs s
    have hs := applyRevert_eq e actions rs s
    simp only [applyRevert, revertRecord_eq, hs]
    unfold undoable at ih ⊢
    cases h : undoOf actions r with
    | none => simpa [List.filterMap_cons, h] using ih
    | some op =>
      simp only [List.filterMap_cons, h, List.reverse_cons, Executor.answers_append,
        List.filter_append, List.map_append, ← ih]
      set s₁ := e.runOps (rs.filterMap (undoOf actions)).reverse s
      by_cases hk : e.succeeds s₁ op
      · simp [hk, undoOf_reverted, Executor.answers, s₁]
      · simp [hk, h, Executor.answers, s₁]

/-- A revert counts what it has undone. -/
theorem applyRevert_count (e : Executor σ) (actions : List Action) :
    ∀ (j : Journal) (s : σ), (applyRevert e actions j s).2.1 =
      ((e.answers (undoable actions j).reverse s).filter fun x => x.2).length
  | [], _ => rfl
  | r :: rs, s => by
    have ih := applyRevert_count e actions rs s
    have hs := applyRevert_eq e actions rs s
    simp only [applyRevert, revertRecord_eq, hs, ih, undoable, List.filterMap_cons]
    cases h : undoOf actions r with
    | none => simp
    | some op =>
      simp only [List.reverse_cons, Executor.answers_append, List.filter_append,
        List.length_append]
      split_ifs with hk <;> simp [Executor.answers, hk]

/-! ## What a window keeps -/

/-- `record_for` : the record of an action. -/
def recordFor (j : Journal) (id : ℕ) : Option Record :=
  j.find? fun r => r.id = id

/-- `ncfg_confirm_armed_t` : what an open window covers. -/
structure Armed where
  undo : Plan
  journal : Journal
  /-- The hash of the document the window was opened for, where there was one. -/
  document : Option String

/-- One round of the loop of `ncfg_confirm_armed_from` : only what is done, and only what
declared an inverse. -/
def armAction (j : Journal) (w : Plan × Journal) (a : Action) : Plan × Journal :=
  match recordFor j a.id with
  | none => w
  | some r =>
    if r.outcome = .done ∧ a.inverse.isSome then
      (w.1.add a.op a.reason [] a.inverse,
        w.2 ++ [{ id := w.1.actions.length, op := r.op, interface := r.interface,
                  reason := a.reason, outcome := .done }])
    else w

/-- `ncfg_confirm_armed_from`. -/
def armedFrom (p : Plan) (j : Journal) (document : Option String) : Armed :=
  let w := p.actions.foldl (armAction j) (Plan.empty, [])
  { undo := w.1, journal := w.2, document }

/-- The inverse of an action that was done. -/
def doneInverse (j : Journal) (a : Action) : Option Op :=
  match recordFor j a.id with
  | some r => if r.outcome = .done then a.inverse else none
  | none => none

/-- A journal all of whose records are done and numbered like the plan. -/
def Mirrors (w : Plan × Journal) : Prop :=
  w.2.map Record.id = w.1.actions.map Action.id ∧ ∀ r ∈ w.2, r.outcome = .done

theorem undoable_of_mirrors {w : Plan × Journal} (h : Mirrors w) :
    undoable w.1.actions w.2 = w.1.actions.filterMap Action.inverse := by
  obtain ⟨p, k⟩ := w
  have hdone : undoable p.actions k =
      (k.map Record.id).filterMap fun id => (actionWithId p.actions id).bind Action.inverse := by
    rw [List.filterMap_map]
    refine List.filterMap_congr fun r hr => ?_
    simp [undoOf, h.2 r hr]
  rw [hdone, h.1, List.filterMap_map]
  refine List.filterMap_congr fun a ha => ?_
  simp [p.actionWithId_of_mem ha]

/-- A round of the loop keeps the window's journal in step with its plan, and adds the
inverse of the action where it is done. -/
theorem armAction_spec (j : Journal) {w : Plan × Journal} (a : Action) (h : Mirrors w) :
    Mirrors (armAction j w a) ∧ (armAction j w a).1.actions.filterMap Action.inverse =
      w.1.actions.filterMap Action.inverse ++ (doneInverse j a).toList := by
  unfold armAction doneInverse
  cases recordFor j a.id with
  | none => exact ⟨h, by simp⟩
  | some r =>
    by_cases hd : r.outcome = .done
    · cases hi : a.inverse with
      | none => simpa [hd] using h
      | some op =>
        refine ⟨⟨?_, ?_⟩, ?_⟩
        · simp [hd, Plan.add, h.1]
        · simp only [hd, Option.isSome_some, and_self, if_true]
          intro r' hr'
          rcases List.mem_append.1 hr' with hr' | hr'
          · exact h.2 r' hr'
          · rw [List.mem_singleton.1 hr']
        · simp [hd, Plan.add]
    · simpa [hd] using h

theorem foldl_armAction (j : Journal) :
    ∀ (as : List Action) {w : Plan × Journal}, Mirrors w →
      Mirrors (as.foldl (armAction j) w) ∧
        (as.foldl (armAction j) w).1.actions.filterMap Action.inverse =
          w.1.actions.filterMap Action.inverse ++ as.filterMap (doneInverse j)
  | [], _, h => ⟨h, by simp⟩
  | a :: as, w, h => by
    obtain ⟨hm, hw⟩ := armAction_spec j a h
    obtain ⟨hm', hw'⟩ := foldl_armAction j as hm
    refine ⟨hm', ?_⟩
    rw [List.foldl_cons, hw', hw, List.append_assoc]
    cases h : doneInverse j a <;> simp [h]

theorem mirrors_empty : Mirrors (Plan.empty, []) :=
  ⟨rfl, by simp⟩

theorem undoable_armed (p : Plan) (j : Journal) (document : Option String) :
    undoable (armedFrom p j document).undo.actions (armedFrom p j document).journal =
      p.actions.filterMap (doneInverse j) := by
  obtain ⟨hm, hw⟩ := foldl_armAction j p.actions mirrors_empty
  have h := undoable_of_mirrors hm
  rw [hw] at h
  simpa [armedFrom, Plan.empty] using h

/-- What a journal of the plan lets undo : the inverses of what was done. -/
theorem undoable_eq_filterMap {p : Plan} {j : Journal}
    (hj : j.map Record.id = p.actions.map Action.id) :
    undoable p.actions j = p.actions.filterMap (doneInverse j) := by
  have hnodup : (j.map Record.id).Nodup := hj ▸ p.ids_nodup
  have hfind : ∀ r ∈ j, recordFor j r.id = some r := fun r hr =>
    KeyedList.find_of_mem hnodup hr
  have h₁ : undoable p.actions j = (j.map Record.id).filterMap fun id =>
      (recordFor j id).bind fun r => undoOf p.actions r := by
    rw [List.filterMap_map]
    refine List.filterMap_congr fun r hr => ?_
    simp [hfind r hr]
  rw [h₁, hj, List.filterMap_map]
  refine List.filterMap_congr fun a ha => ?_
  simp only [Function.comp, doneInverse]
  cases hr : recordFor j a.id with
  | none => rfl
  | some r =>
    have hid : r.id = a.id := by simpa using List.find?_some hr
    simp [undoOf, hid, p.actionWithId_of_mem ha]

/-- What an armed window would undo is what its apply did. -/
theorem undoable_armedFrom (e : Executor σ) (p : Plan) (s : σ) (document : Option String) :
    undoable (armedFrom p (apply e p s).1 document).undo.actions
        (armedFrom p (apply e p s).1 document).journal =
      undoable p.actions (apply e p s).1 := by
  have hj : (apply e p s).1.map Record.id = p.actions.map Action.id :=
    map_id_runPlan e p.actions false s
  rw [undoable_armed, undoable_eq_filterMap hj]

/-- A revert run by a logging executor : what is undoable, backwards, with its answers. -/
theorem applyRevert_logged (e : Executor σ) (actions : List Action) (j : Journal) (s : σ) :
    (applyRevert e.logged actions j (s, [])).2.2 =
      (e.runOps (undoable actions j).reverse s, e.answers (undoable actions j).reverse s) := by
  rw [applyRevert_eq, Executor.runOps_logged, List.nil_append]

/-- A log changes no answer. -/
theorem answers_logged (e : Executor σ) (ops : List Op) :
    ∀ s : σ × List (Op × Bool), e.logged.answers ops s = e.answers ops s.1 := by
  induction ops with
  | nil => simp [Executor.answers]
  | cons op ops ih => intro s; simp [Executor.answers, ih]

end Netcfgd
