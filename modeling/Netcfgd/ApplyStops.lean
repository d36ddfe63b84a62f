import Netcfgd.Apply

/-!
# Where a plan stops

`run_plan` carries on past an optional failure and stops at a required one. What it did is read off
two lists : its journal, and the ops that reached the executor with what each was answered
(`Executor.logged`). `StopsAt` is what the two say of a plan that stops at an index, the number of
its actions where it does not stop, and every run is one (`apply_stops`).
-/

namespace Netcfgd

variable {σ : Type*}

/-- What the journal and the log of a plan say where it stops at `k`. -/
structure StopsAt (as : List Action) (j : Journal) (log : List (Op × Bool)) (k : ℕ) : Prop where
  ids : j.map Record.id = as.map Action.id
  /-- What reached the executor, once each and in order. -/
  called : log.map Prod.fst = (as.take (k + 1)).map Action.op
  before : ∀ i a r, i < k → as[i]? = some a → j[i]? = some r →
    r.outcome = .done ∧ log[i]? = some (a.op, true) ∨
      r.outcome = .unmet ∧ applyOptional a.op = true ∧ log[i]? = some (a.op, false)
  at_ : ∀ a r, as[k]? = some a → j[k]? = some r →
    r.outcome = .failed ∧ applyOptional a.op = false ∧ log[k]? = some (a.op, false)
  after : ∀ i r, k < i → j[i]? = some r → r.outcome = .skipped

theorem StopsAt.cons {as : List Action} {j : Journal} {log : List (Op × Bool)} {k : ℕ} {a : Action}
    {r : Record} {ok : Bool} (h : StopsAt as j log k) (hid : r.id = a.id)
    (hr : r.outcome = .done ∧ ok = true ∨
      r.outcome = .unmet ∧ applyOptional a.op = true ∧ ok = false) :
    StopsAt (a :: as) (r :: j) ((a.op, ok) :: log) (k + 1) where
  ids := by simp [hid, h.ids]
  called := by simp [h.called]
  before i b q hi hb hq := by
    cases i with
    | zero =>
      simp only [List.getElem?_cons_zero, Option.some.injEq] at hb hq
      subst hb hq
      rcases hr with ⟨ho, rfl⟩ | ⟨ho, hopt, rfl⟩
      · exact .inl ⟨ho, rfl⟩
      · exact .inr ⟨ho, hopt, rfl⟩
    | succ i => exact h.before i b q (by omega) hb hq
  at_ b q hb hq := h.at_ b q hb hq
  after i q hi hq := by
    cases i with
    | zero => omega
    | succ i => exact h.after i q (by omega) hq

theorem runPlan_stopped (e : Executor σ) : ∀ (as : List Action) (s : σ),
    runPlan e as true s = (as.map (recordOf · .skipped none), s)
  | [], _ => rfl
  | a :: as, s => by simp [runPlan, runPlan_stopped e as]

theorem stopsAt_zero (a : Action) (as : List Action) (h : applyOptional a.op = false)
    (error : Option String) :
    StopsAt (a :: as) (recordOf a .failed error :: as.map (recordOf · .skipped none))
      [(a.op, false)] 0 where
  ids := by simp [recordOf, Function.comp_def]
  called := rfl
  before i _ _ hi := by omega
  at_ b q hb hq := by
    simp only [List.getElem?_cons_zero, Option.some.injEq] at hb hq
    subst hb hq
    exact ⟨rfl, h, rfl⟩
  after i q hi hq := by
    obtain ⟨i, rfl⟩ := Nat.exists_eq_succ_of_ne_zero hi.ne'
    rw [List.getElem?_cons_succ, List.getElem?_map, Option.map_eq_some_iff] at hq
    obtain ⟨b, -, rfl⟩ := hq
    rfl

theorem Executor.logged_execute {e : Executor σ} {s s₁ : σ} {op : Op} {result : Except String Unit}
    (h : e.execute s op = (result, s₁)) (log : List (Op × Bool)) :
    e.logged.execute (s, log) op = (result, s₁, log ++ [(op, e.succeeds s op)]) := by
  simp [logged, after, h]

/-- The run lemma : a run stops after some number of actions, and logs what was tried. -/
theorem exists_stopsAt (e : Executor σ) : ∀ (as : List Action) (s : σ) (log : List (Op × Bool)),
    ∃ k ≤ as.length, ∃ log', (runPlan e.logged as false (s, log)).2.2 = log ++ log' ∧
      StopsAt as (runPlan e as false s).1 log' k
  | [], s, log => ⟨0, le_rfl, [], by simp [runPlan], rfl, rfl, by simp, by simp, by simp [runPlan]⟩
  | a :: as, s, log => by
    cases h : e.execute s a.op with
    | mk result s₁ =>
      cases result with
      | ok =>
        obtain ⟨k, hk, log', hlog, hstops⟩ := exists_stopsAt e as s₁ (log ++ [(a.op, true)])
        refine ⟨k + 1, by simpa using hk, (a.op, true) :: log', ?_, ?_⟩
        · simpa [runPlan, Executor.logged_execute h, Executor.succeeds, h] using hlog
        · simpa [runPlan, h] using hstops.cons (r := recordOf a .done none) rfl (.inl ⟨rfl, rfl⟩)
      | error m =>
        by_cases hopt : applyOptional a.op = true
        · obtain ⟨k, hk, log', hlog, hstops⟩ := exists_stopsAt e as s₁ (log ++ [(a.op, false)])
          refine ⟨k + 1, by simpa using hk, (a.op, false) :: log', ?_, ?_⟩
          · simpa [runPlan, Executor.logged_execute h, Executor.succeeds, h, hopt] using hlog
          · simpa [runPlan, h, hopt] using
              hstops.cons (r := recordOf a .unmet (some (failureText m))) rfl
                (.inr ⟨rfl, hopt, rfl⟩)
        · refine ⟨0, Nat.zero_le _, [(a.op, false)], ?_, ?_⟩
          · simp [runPlan, Executor.logged_execute h, Executor.succeeds, h, hopt, runPlan_stopped]
          · simpa [runPlan, h, hopt, runPlan_stopped] using
              stopsAt_zero a as (by simpa using hopt) (some (failureText m))

/-- `ncfg_apply` calls the executor on the actions up to the first required failure and on no
other, and journals each action : done or unmet before that failure, skipped after it. -/
theorem apply_stops (e : Executor σ) (p : Plan) (s : σ) :
    ∃ k ≤ p.actions.length,
      StopsAt p.actions (apply e p s).1 (apply e.logged p (s, [])).2.2 k := by
  obtain ⟨k, hk, log, hlog, h⟩ := exists_stopsAt e p.actions s []
  refine ⟨k, hk, ?_⟩
  simp only [apply]
  rw [hlog, List.nil_append]
  exact h

end Netcfgd
