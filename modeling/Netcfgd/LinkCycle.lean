import Netcfgd.Lifecycle
import Netcfgd.Restrict

/-!
# A link taken down comes up again

An enabled interface is taken down only to be cycled, and what a plan then pushes for it going up
waits for nothing but the link going down and what that waited for (`Raised`). So a plan that takes
down the link of an enabled interface brings it up after (`raised_linkPlan`), the restriction that
keeps the one keeps the other (`restrict_raises`), and where every action on the interface is done,
so are both, in this order (`doneOps_of_all`).
-/

namespace Netcfgd

/-- What the hooks of a phase add : actions with the next ids, each of which waits for what the
hooks were given. -/
structure HooksAdd (i : Interface) (phase : HookPhase) (dependsOn : List (Option ℕ))
    (s : Planning) (r : List (Option ℕ) × Planning) (new : List Action) : Prop where
  actions : r.2.building.plan.actions = s.building.plan.actions ++ new
  ops : ∀ a ∈ new, ∃ path, a.op = .hookRun i.name phase path none
  waits : ∀ a ∈ new, a.dependsOn = dependsOn.filterMap id
  after : ∀ a ∈ new, s.building.plan.actions.length ≤ a.id
  answers : ∀ k ∈ r.1.filterMap id, ∃ a ∈ new, a.id = k

/-- An action takes the link `n` down and another brings it up, after the first, waiting for
nothing but the first and what it waits for, and for hooks of the link that wait for no more. -/
structure Raised (actions : List Action) (n : String) (a u : Action) : Prop where
  mem : u ∈ actions
  op : u.op = .linkUp n
  lt : a.id < u.id
  waits : ∀ dep ∈ u.dependsOn, (dep = a.id ∨ dep ∈ a.dependsOn) ∨
    ∃ h ∈ actions, h.id = dep ∧ a.id < h.id ∧ h.id < u.id ∧
      (∃ path, h.op = .hookRun n .preUp path none) ∧
      ∀ dep' ∈ h.dependsOn, dep' = a.id ∨ dep' ∈ a.dependsOn

/-! ## Where an action stands -/

theorem Plan.id_lt (p : Plan) {a : Action} (ha : a ∈ p.actions) : a.id < p.actions.length := by
  obtain ⟨i, hi, rfl⟩ := List.getElem_of_mem ha
  rw [p.ids i hi]
  exact hi

theorem push_actions (c : Checks) (s : Planning) (op : Op) (reason : Reason)
    (dependsOn : List (Option ℕ)) (inverse : Option Op) :
    (c.admits s.building.declined s.building.tearingDown op = true ∧
        (s.push c op reason dependsOn inverse).1 = some s.building.plan.actions.length ∧
        (s.push c op reason dependsOn inverse).2.building.plan.actions =
          s.building.plan.actions ++
            [⟨s.building.plan.actions.length, op, reason, dependsOn.filterMap id, inverse⟩]) ∨
      (c.admits s.building.declined s.building.tearingDown op = false ∧
        (s.push c op reason dependsOn inverse).1 = none ∧
        (s.push c op reason dependsOn inverse).2.building.plan.actions =
          s.building.plan.actions) := by
  have hfst := push_fst (c := c) (s := s) op reason dependsOn inverse
  rcases push_cases (c := c) (b := s.building) op reason dependsOn inverse with
    ⟨hplan, hanswers⟩ | ⟨hadmitted, hplan, -⟩
  · have hnone : (s.push c op reason dependsOn inverse).1 = none := by
      simp only [Planning.push, hanswers, List.getLast?_append, List.getLast?_singleton,
        Option.some_or, Option.join_some]
    rw [hnone] at hfst
    split_ifs at hfst with hadmits
    exact .inr ⟨by simpa using hadmits, hnone, by simp only [Planning.push, hplan]⟩
  · have hadmits : c.admits s.building.declined s.building.tearingDown op :=
      admits_iff.2 ⟨hadmitted.notOver, hadmitted.unlocked, hadmitted.unguarded⟩
    rw [if_pos hadmits] at hfst
    exact .inl ⟨hadmits, hfst, by simp only [Planning.push, hplan, Plan.add]⟩

theorem planHooks_add (c : Checks) (i : Interface) (phase : HookPhase)
    (dependsOn : List (Option ℕ)) (s : Planning) :
    ∃ new, HooksAdd i phase dependsOn s (planHooks c i phase dependsOn s) new := by
  have hloop : ∀ (hooks : List Hook) (r : List (Option ℕ) × Planning) (new : List Action),
      HooksAdd i phase dependsOn s r new → ∃ new', HooksAdd i phase dependsOn s
        (hooks.foldl (fun acc h =>
          let pushed := acc.2.push c (.hookRun i.name phase h.path none)
            (reasonAbsent i.name ("hooks[" ++ phase.word ++ "]") h.path) dependsOn none
          (acc.1 ++ [pushed.1], pushed.2)) r) new' := by
    intro hooks
    induction hooks with
    | nil => exact fun r new h => ⟨new, h⟩
    | cons h hooks ih =>
      intro r new hr
      rw [List.foldl_cons]
      rcases push_actions c r.2 (.hookRun i.name phase h.path none)
        (reasonAbsent i.name ("hooks[" ++ phase.word ++ "]") h.path) dependsOn none with
        ⟨-, hid, hactions⟩ | ⟨-, hid, hactions⟩
      · refine ih _ (new ++ [⟨r.2.building.plan.actions.length, .hookRun i.name phase h.path none,
          reasonAbsent i.name ("hooks[" ++ phase.word ++ "]") h.path, dependsOn.filterMap id,
          none⟩]) ⟨?_, ?_, ?_, ?_, ?_⟩
        · rw [hactions, hr.actions, List.append_assoc]
        · simp only [List.mem_append, List.mem_singleton]
          rintro a (ha | rfl)
          · exact hr.ops a ha
          · exact ⟨h.path, rfl⟩
        · simp only [List.mem_append, List.mem_singleton]
          rintro a (ha | rfl)
          · exact hr.waits a ha
          · rfl
        · simp only [List.mem_append, List.mem_singleton]
          rintro a (ha | rfl)
          · exact hr.after a ha
          · simp [hr.actions]
        · simp only [List.filterMap_append, List.mem_append]
          rintro k (hk | hk)
          · obtain ⟨a, ha, rfl⟩ := hr.answers k hk
            exact ⟨a, .inl ha, rfl⟩
          · rw [hid] at hk
            simp only [List.filterMap_cons, List.filterMap_nil, id_eq, List.mem_singleton] at hk
            exact ⟨_, .inr (List.mem_singleton_self _), hk.symm⟩
      · refine ih _ new ⟨?_, hr.ops, hr.waits, hr.after, ?_⟩
        · rw [hactions, hr.actions]
        · dsimp only
          rw [hid]
          simpa [List.filterMap_append] using hr.answers
  exact hloop _ ([], s) [] ⟨by simp, by simp, by simp, by simp, by simp⟩

theorem withdraw_add (c : Checks) (o : Observed) (i : Interface) (dependsOn : List (Option ℕ))
    (why : Teardown) (s : Planning) :
    ∃ new, (withdraw c o i dependsOn why s).2.building.plan.actions =
        s.building.plan.actions ++ new ∧ ∀ a ∈ new, ∃ address, a.op = .addrDel i.name address := by
  obtain ⟨new, hnew, hops⟩ := (emits_withdraw (c := c) (o := o) ⟨rfl, rfl⟩ i dependsOn why).actions
  refine ⟨new, hnew, fun a ha => ?_⟩
  have hop := List.mem_map_of_mem (f := Action.op) ha
  rw [hops, withdrawOps, List.mem_flatMap] at hop
  obtain ⟨address, -, hop⟩ := hop
  exact ⟨_, (mem_admitted_iff.1 hop).1⟩

/-- Taking an interface down adds one action that takes a link down, where its own may go down, with
the id it answers, and that waits for what the interface waits for. -/
theorem planDisable_add (c : Checks) (o : Observed) (i : Interface) (base : List (Option ℕ))
    (why : Teardown) (s : Planning) :
    ∃ new, (planDisable c o i base why s).2.building.plan.actions =
        s.building.plan.actions ++ new ∧
      ∀ a ∈ new, ∀ n, a.op = .linkDown n → n = i.name ∧
        c.admits s.building.declined s.building.tearingDown (.linkDown i.name) = true ∧
        (planDisable c o i base why s).1 = some a.id ∧
        ∀ k ∈ base.filterMap id, k ∈ a.dependsOn := by
  unfold planDisable
  dsimp only
  have hstate :=
    (emits_planHooks (c := c) (emits_withdraw (c := c) (o := o) (emits_planHooks (c := c)
    (s := s) ⟨rfl, rfl⟩ i .preDown base).after i (base ++ (planHooks c i .preDown base s).1)
    why).after i .down (base ++ (planHooks c i .preDown base s).1 ++ (withdraw c o i
      (base ++ (planHooks c i .preDown base s).1) why (planHooks c i .preDown base s).2).1)).after
  obtain ⟨first, hfirst⟩ := planHooks_add c i .preDown base s
  obtain ⟨gone, hgone, hgoneOps⟩ := withdraw_add c o i
    (base ++ (planHooks c i .preDown base s).1) why (planHooks c i .preDown base s).2
  obtain ⟨last, hlast⟩ := planHooks_add c i .down (base ++ (planHooks c i .preDown base s).1 ++
    (withdraw c o i (base ++ (planHooks c i .preDown base s).1) why
      (planHooks c i .preDown base s).2).1)
    (withdraw c o i (base ++ (planHooks c i .preDown base s).1) why
      (planHooks c i .preDown base s).2).2
  set s₃ := (planHooks c i .down (base ++ (planHooks c i .preDown base s).1 ++
    (withdraw c o i (base ++ (planHooks c i .preDown base s).1) why
      (planHooks c i .preDown base s).2).1)
    (withdraw c o i (base ++ (planHooks c i .preDown base s).1) why
      (planHooks c i .preDown base s).2).2) with hs₃
  have hbefore : s₃.2.building.plan.actions =
      s.building.plan.actions ++ (first ++ gone ++ last) := by
    rw [hlast.actions, hgone, hfirst.actions]
    simp
  have hnone : ∀ a ∈ first ++ gone ++ last, ∀ n, a.op ≠ .linkDown n := by
    intro a ha n hop
    rcases List.mem_append.1 ha with ha | ha
    · rcases List.mem_append.1 ha with ha | ha
      · obtain ⟨path, hpath⟩ := hfirst.ops a ha
        rw [hpath] at hop
        cases hop
      · obtain ⟨address, haddress⟩ := hgoneOps a ha
        rw [haddress] at hop
        cases hop
    · obtain ⟨path, hpath⟩ := hlast.ops a ha
      rw [hpath] at hop
      cases hop
  rcases push_actions c s₃.2 (.linkDown i.name) ⟨some i.name, why.field, why.desired, why.observed⟩
    (base ++ (planHooks c i .preDown base s).1 ++ (withdraw c o i
      (base ++ (planHooks c i .preDown base s).1) why (planHooks c i .preDown base s).2).1 ++ s₃.1)
    (some (.linkUp i.name)) with ⟨hadmits, hid, hactions⟩ | ⟨-, hid, hactions⟩
  · rw [hstate.1, hstate.2] at hadmits
    rw [hid, Option.isSome_some, if_pos rfl]
    obtain ⟨post, hpost⟩ := planHooks_add c i .postDown [some s₃.2.building.plan.actions.length]
      (s₃.2.push c (.linkDown i.name) ⟨some i.name, why.field, why.desired, why.observed⟩
        (base ++ (planHooks c i .preDown base s).1 ++ (withdraw c o i
          (base ++ (planHooks c i .preDown base s).1) why
          (planHooks c i .preDown base s).2).1 ++ s₃.1) (some (.linkUp i.name))).2
    refine ⟨_, by rw [hpost.actions, hactions, hbefore, List.append_assoc, List.append_assoc], ?_⟩
    intro a ha n hop
    rcases List.mem_append.1 ha with ha | ha
    · exact absurd hop (hnone a ha n)
    rcases List.mem_append.1 ha with ha | ha
    · rw [List.mem_singleton] at ha
      subst ha
      refine ⟨(Op.linkDown.inj hop).symm, hadmits, by rw [hbefore], fun k hk => ?_⟩
      simp only [List.filterMap_append, List.mem_append]
      exact .inl (.inl (.inl hk))
    · obtain ⟨path, hpath⟩ := hpost.ops a ha
      rw [hpath] at hop
      cases hop
  · rw [hid, Option.isSome_none, if_neg (by simp)]
    exact ⟨_, by rw [hactions, hbefore], fun a ha n hop => absurd hop (hnone a ha n)⟩

/-- Bringing an interface up takes no link down. Where the link may go up, it waits for what the
interface waits for and for hooks that wait for the same. -/
theorem bringUp_add (c : Checks) (i : Interface) (base : List (Option ℕ)) (s : Planning) :
    ∃ new, (bringUp c i base s).building.plan.actions = s.building.plan.actions ++ new ∧
      (∀ a ∈ new, ∀ n, a.op ≠ .linkDown n) ∧
      (c.admits s.building.declined s.building.tearingDown (.linkUp i.name) = true →
        ∃ u ∈ new, u.op = .linkUp i.name ∧ s.building.plan.actions.length ≤ u.id ∧
          ∀ dep ∈ u.dependsOn, dep ∈ base.filterMap id ∨
            ∃ h ∈ new, h.id = dep ∧ s.building.plan.actions.length ≤ h.id ∧ h.id < u.id ∧
              (∃ path, h.op = .hookRun i.name .preUp path none) ∧
              h.dependsOn = base.filterMap id) := by
  unfold bringUp
  dsimp only
  obtain ⟨first, hfirst⟩ := planHooks_add c i .preUp base s
  have hstate := (emits_planHooks (c := c) (s := s) ⟨rfl, rfl⟩ i .preUp base).after
  set s₁ := planHooks c i .preUp base s with hs₁
  set s₂ := s₁.2.push c (.linkUp i.name) ⟨some i.name, "enabled", "true", "false"⟩ (base ++ s₁.1)
    (some (.linkDown i.name)) with hs₂
  obtain ⟨last, hlast⟩ := planHooks_add c i .up (base ++ [s₂.1])
    { s₂.2 with linkUps := s₂.2.linkUps ++ [(i.name, s₂.1)] }
  have hhooks : ∀ a ∈ first ++ last, ∀ n, a.op ≠ .linkDown n := by
    intro a ha n hop
    rcases List.mem_append.1 ha with ha | ha
    · obtain ⟨path, hpath⟩ := hfirst.ops a ha
      rw [hpath] at hop
      cases hop
    · obtain ⟨path, hpath⟩ := hlast.ops a ha
      rw [hpath] at hop
      cases hop
  rcases push_actions c s₁.2 (.linkUp i.name) ⟨some i.name, "enabled", "true", "false"⟩
    (base ++ s₁.1) (some (.linkDown i.name)) with ⟨-, -, hactions⟩ | ⟨hrefused, -, hactions⟩
  · set u : Action := ⟨s₁.2.building.plan.actions.length, .linkUp i.name,
      ⟨some i.name, "enabled", "true", "false"⟩, (base ++ s₁.1).filterMap id,
      some (.linkDown i.name)⟩ with hu
    refine ⟨first ++ ([u] ++ last), ?_, ?_, fun _ => ⟨u, by simp, rfl, ?_, ?_⟩⟩
    · rw [hlast.actions]
      dsimp only
      rw [hactions, hfirst.actions]
      simp
    · intro a ha n hop
      simp only [List.mem_append, List.mem_singleton] at ha
      rcases ha with ha | rfl | ha
      · exact hhooks a (List.mem_append_left _ ha) n hop
      · cases hop
      · exact hhooks a (List.mem_append_right _ ha) n hop
    · simp [hu, hfirst.actions]
    · intro dep hdep
      simp only [hu, List.filterMap_append, List.mem_append] at hdep
      rcases hdep with hdep | hdep
      · exact .inl hdep
      · obtain ⟨h, hh, rfl⟩ := hfirst.answers dep hdep
        refine .inr ⟨h, List.mem_append_left _ hh, rfl, hfirst.after h hh, ?_, hfirst.ops h hh,
          hfirst.waits h hh⟩
        exact s₁.2.building.plan.id_lt (hfirst.actions ▸ List.mem_append_right _ hh)
  · refine ⟨first ++ last, ?_, hhooks, fun hadmits => ?_⟩
    · rw [hlast.actions]
      dsimp only
      rw [hactions, hfirst.actions, List.append_assoc]
    · rw [hstate.1, hstate.2, hadmits] at hrefused
      cases hrefused

/-! ## What goes down comes up -/

theorem Raised.append {actions : List Action} {n : String} {a u : Action}
    (h : Raised actions n a u) (new : List Action) : Raised (actions ++ new) n a u where
  mem := List.mem_append_left _ h.mem
  op := h.op
  lt := h.lt
  waits dep hdep := by
    rcases h.waits dep hdep with hbefore | ⟨x, hx, hrest⟩
    · exact .inl hbefore
    · exact .inr ⟨x, List.mem_append_left _ hx, hrest⟩

/-- Every link of an enabled interface that is taken down is brought up after. -/
def Raises (d : Document) (actions : List Action) : Prop :=
  ∀ a ∈ actions, ∀ n, a.op = .linkDown n → (d.interface n).any Interface.enabled →
    ∃ u, Raised actions n a u

theorem Raises.append {d : Document} {actions new : List Action} (h : Raises d actions)
    (hnew : ∀ a ∈ new, ∀ n, a.op = .linkDown n → (d.interface n).any Interface.enabled →
      ∃ u, Raised (actions ++ new) n a u) : Raises d (actions ++ new) := by
  intro a ha n hop henabled
  rcases List.mem_append.1 ha with ha | ha
  · obtain ⟨u, hu⟩ := h a ha n hop henabled
    exact ⟨u, hu.append new⟩
  · exact hnew a ha n hop henabled

theorem Raises.moves {d : Document} {declined : List String} {tearingDown : Bool}
    {s s' : Planning} {ops : List Op} (h : Raises d s.building.plan.actions)
    (hmoves : Moves declined tearingDown s s' ops) (hops : ∀ n, .linkDown n ∉ ops) :
    Raises d s'.building.plan.actions := by
  obtain ⟨new, hnew, hfilter⟩ := hmoves.actions
  rw [hnew]
  refine h.append fun a ha n hop => absurd ?_ (hops n)
  rw [← hfilter, ← hop]
  exact List.mem_filter.2 ⟨List.mem_map_of_mem ha, by rw [hop]; rfl⟩

theorem admits_linkUp {c : Checks} {declined : List String} {tearingDown : Bool} {n : String}
    (h : c.admits declined tearingDown (.linkDown n) = true) :
    c.admits declined tearingDown (.linkUp n) = true := by
  obtain ⟨hover, hlock, -⟩ := admits_iff.1 h
  exact admits_iff.2 ⟨hover, hlock, rfl⟩

section Raising

variable {c : Checks} {d : Document} {o : Observed} {s : Planning} {i : Interface}

theorem Raises.cycle (h : Raises d s.building.plan.actions) (base : List (Option ℕ))
    (why : Teardown) :
    Raises d (bringUp c i (base ++ [(planDisable c o i base why s).1])
      (planDisable c o i base why s).2).building.plan.actions := by
  obtain ⟨down, hdown, hdownOps⟩ := planDisable_add c o i base why s
  have hstate := (emits_planDisable (c := c) (o := o) (s := s) ⟨rfl, rfl⟩ i base why).after
  obtain ⟨up, hup, hupOps, hraise⟩ := bringUp_add c i (base ++ [(planDisable c o i base why s).1])
    (planDisable c o i base why s).2
  rw [hup, hdown, List.append_assoc]
  refine h.append fun a ha n hop _ => ?_
  rcases List.mem_append.1 ha with ha | ha
  swap
  · exact absurd hop (hupOps a ha n)
  obtain ⟨rfl, hadmits, hid, hbase⟩ := hdownOps a ha n hop
  have hlt : a.id < (planDisable c o i base why s).2.building.plan.actions.length :=
    Plan.id_lt _ (hdown ▸ List.mem_append_right _ ha)
  rw [hstate.1, hstate.2] at hraise
  obtain ⟨u, hu, huOp, huId, hwaits⟩ := hraise (admits_linkUp hadmits)
  have hbefore : ∀ dep ∈ (base ++ [(planDisable c o i base why s).1]).filterMap id,
      dep = a.id ∨ dep ∈ a.dependsOn := by
    intro dep hdep
    rw [List.filterMap_append, List.mem_append, hid] at hdep
    rcases hdep with hdep | hdep
    · exact .inr (hbase dep hdep)
    · exact .inl (by simpa using hdep)
  refine ⟨u, List.mem_append_right _ (List.mem_append_right _ hu), huOp, hlt.trans_le huId,
    fun dep hdep => ?_⟩
  rcases hwaits dep hdep with hdep | ⟨x, hx, hxId, hxAfter, hxBefore, hxOp, hxWaits⟩
  · exact .inl (hbefore dep hdep)
  · exact .inr ⟨x, List.mem_append_right _ (List.mem_append_right _ hx), hxId,
      hlt.trans_le hxAfter, hxBefore, hxOp, hxWaits ▸ hbefore⟩

theorem Raises.interfaceLink (h : Raises d s.building.plan.actions) (hi : i ∈ d.interfaces)
    (options : PlanOptions) : Raises d (interfaceLink c o options i s).building.plan.actions := by
  unfold Netcfgd.interfaceLink
  dsimp only
  by_cases hcycle : cycling o options i
  · have hup : bringingUp o options i := by
      have henabled : i.enabled := by
        simp only [cycling, Bool.and_eq_true] at hcycle
        exact hcycle.1.1
      simp [bringingUp, hcycle, henabled]
    simp only [hcycle, hup, if_true]
    exact h.cycle _ _
  · simp only [hcycle, if_false, Bool.false_eq_true]
    split_ifs with hup hdown
    · obtain ⟨new, hnew, hops, -⟩ := bringUp_add c i (s.gate i.name ++
        (s.enslavements.filter fun m => m.1 = i.name).map Prod.snd) s
      rw [hnew]
      exact h.append fun a ha n hop => absurd hop (hops a ha n)
    · obtain ⟨new, hnew, hops⟩ := planDisable_add c o i (s.gate i.name ++
        (s.enslavements.filter fun m => m.1 = i.name).map Prod.snd) ⟨"enabled", "false", "true"⟩ s
      rw [hnew]
      refine h.append fun a ha n hop henabled => ?_
      -- a disabled interface stays down
      obtain ⟨rfl, -⟩ := hops a ha n hop
      rw [d.interface_of_mem hi] at henabled
      simp_all
    · exact h

theorem Raises.interfaces (options : PlanOptions) (rest : OtherPasses) {declined : List String}
    {tearingDown : Bool} : ∀ (interfaces : List Interface) (s : Planning),
    (∀ i ∈ interfaces, i ∈ d.interfaces) → Raises d s.building.plan.actions →
    s.building.declined = declined ∧ s.building.tearingDown = tearingDown →
    Raises d
      (interfaces.foldl (interfaceContents c d o options rest) s).building.plan.actions
  | [], _, _, h, _ => h
  | i :: interfaces, s, hmem, h, hs => by
    have hafter := (moves_interfaceContents (c := c) (d := d) (o := o) hs options rest i).after
    refine Raises.interfaces options rest interfaces _
      (fun x hx => hmem x (List.mem_cons_of_mem _ hx)) ?_ hafter
    unfold interfaceContents
    split_ifs
    · have hlink := h.interfaceLink (c := c) (o := o) (hmem i List.mem_cons_self) options
      have hstate := (emits_interfaceLink (c := c) (o := o) hs options i).after
      exact hlink.moves (moves_others (c := c) _ (rest.others.2.2 i) hstate) (by simp)
    · exact h

end Raising

theorem raised_linkPlan (d : Document) (o : Observed) (options : PlanOptions) (rest : OtherPasses) :
    Raises d (linkPlan d o options rest).building.plan.actions := by
  have hothers := rest.others.1
  set c := prepare d options with hc
  set s₀ : Planning := { building := Building.new.run c rest.early } with hs₀
  have h₀ : Raises d s₀.building.plan.actions := by
    refine Raises.moves (s := { building := Building.new }) (fun a ha => ?_)
      (moves_early d options rest) (by simp)
    cases ha
  have hrecreation := (recreation_spec d o options rest).2
  have h₁ := h₀.moves hrecreation.moves (fun n hop => by
    obtain ⟨_, x, _, -, -, hop⟩ := mem_recreationOps.1 (List.mem_filter.1 hop).1
    obtain ⟨-, ⟨b, -, -, hop⟩ | hop | ⟨-, hop | hop⟩⟩ := mem_recreateOps.1 hop
    · cases (mem_admitted_iff.1 hop).1
    · obtain ⟨_, -, hop⟩ := List.mem_flatMap.1 hop
      obtain ⟨_, -, -, hop, -⟩ := mem_hookOps.1 hop
      cases hop
    · cases hop
    · obtain ⟨_, -, hop⟩ := List.mem_flatMap.1 hop
      obtain ⟨_, -, -, hop, -⟩ := mem_hookOps.1 hop
      cases hop)
  rw [linkPlan_eq]
  set o' := seenAfter d o options with ho'
  obtain ⟨creates, hcreation, hcreates⟩ := moves_creation (c := c) (d := d) (o := o')
    hrecreation.after
  have h₂ := h₁.moves hcreation (fun n hop => by
    obtain ⟨x, -, hop, -⟩ := hcreates _ hop
    cases hop)
  have hattributes := moves_others (c := c) rest.attributes (fun r hr => hothers r (by simp [hr]))
    hcreation.after
  have h₃ := h₂.moves hattributes (by simp)
  have hdevices := moves_foldl (f := deviceStep c d o' rest)
    (fun s x hs => moves_deviceStep hs rest x) d.devices _ hattributes.after
  have h₄ := h₃.moves hdevices (fun n hop => by
    obtain ⟨x, -, hop⟩ := List.mem_flatMap.1 hop
    unfold deviceUpOps at hop
    split_ifs at hop
    · cases hop
    · cases (mem_admitted_iff.1 hop).1)
  have hwifi := moves_others (c := c) rest.wifi (fun r hr => hothers r (by simp [hr]))
    hdevices.after
  have h₅ := h₄.moves hwifi (by simp)
  have h₆ := Raises.interfaces (c := c) (o := o') options rest d.interfaces _ (fun _ hi => hi) h₅
    hwifi.after
  have hinterfaces := moves_foldl (f := interfaceContents c d o' options rest)
    (fun s i hs => moves_interfaceContents hs options rest i) d.interfaces _ hwifi.after
  have hlate := moves_others (c := c) rest.late (fun r hr => hothers r (by simp [hr]))
    hinterfaces.after
  have h₇ := h₆.moves hlate (by simp)
  obtain ⟨deletes, hteardown, hdeletes⟩ := moves_linkTeardown (c := c) (d := d) (o := o')
    hlate.after.1 rest
  exact h₇.moves hteardown (fun n hop => by
    obtain ⟨_, hop, -⟩ := hdeletes _ hop
    cases hop)

/-! ## What a restriction keeps -/

theorem Plan.ids_pairwise (p : Plan) : p.actions.Pairwise fun a b => a.id < b.id := by
  rw [List.pairwise_iff_getElem]
  intro i j hi hj hij
  rwa [p.ids i hi, p.ids j hj]

theorem pair_sublist_of_lt {l : List Action} (hl : l.Pairwise fun a b => a.id < b.id)
    {a u : Action} (ha : a ∈ l) (hu : u ∈ l) (hlt : a.id < u.id) : List.Sublist [a, u] l := by
  obtain ⟨before, after, rfl⟩ := List.append_of_mem ha
  rw [List.pairwise_append, List.pairwise_cons] at hl
  rcases List.mem_append.1 hu with hu | hu
  · exact absurd hlt (hl.2.2 u hu a List.mem_cons_self).asymm
  rcases List.mem_cons.1 hu with rfl | hu
  · exact absurd hlt (lt_irrefl _)
  · exact ((List.singleton_sublist.2 hu).cons_cons a).trans (List.sublist_append_right _ _)

namespace Restrict

theorem foldl_step (wants : Op → Bool) : ∀ (actions : List Action) (s : Walk),
    ∃ kept, List.Sublist kept actions ∧
      (actions.foldl (Walk.step wants) s).inSet = s.inSet ++ kept.map Action.id ∧
      (actions.foldl (Walk.step wants) s).kept.plan.actions.map Action.op =
        s.kept.plan.actions.map Action.op ++ kept.map Action.op
  | [], s => ⟨[], List.Sublist.slnil, by simp, by simp⟩
  | a :: actions, s => by
    obtain ⟨kept, hsub, hset, hops⟩ := foldl_step wants actions (Walk.step wants s a)
    rw [List.foldl_cons]
    by_cases hkeep : wants a.op = true ∧ ∀ id ∈ a.dependsOn, id ∈ s.inSet
    · have hstep := Built.step_kept hkeep.1 hkeep.2
      refine ⟨a :: kept, hsub.cons_cons a, ?_, ?_⟩
      · rw [hset, hstep]
        simp
      · rw [hops, hstep]
        simp [Full.add, Plan.add]
    · obtain ⟨hset', hkept'⟩ := Built.step_dropped hkeep
      exact ⟨kept, hsub.cons a, by rw [hset, hset'], by rw [hops, hkept']⟩

theorem exists_kept (p : Plan) (wants : Op → Bool) :
    ∃ kept, List.Sublist kept p.actions ∧
      (p.actions.foldl (Walk.step wants) {}).kept.plan.actions.map Action.op =
        kept.map Action.op ∧
      ∀ a ∈ p.actions, a ∈ kept ↔ wants a.op = true ∧
        ∀ dep ∈ a.dependsOn, dep < a.id ∧ ∃ x ∈ kept, x.id = dep := by
  obtain ⟨kept, hsub, hset, hops⟩ := foldl_step wants p.actions {}
  refine ⟨kept, hsub, by simpa [Plan.empty] using hops, fun a ha => ?_⟩
  have hinj : ∀ x ∈ p.actions, x ∈ kept ↔ x.id ∈ kept.map Action.id := by
    intro x hx
    refine ⟨fun h => List.mem_map_of_mem h, fun h => ?_⟩
    obtain ⟨y, hy, hid⟩ := List.mem_map.1 h
    rwa [← List.inj_on_of_nodup_map p.ids_nodup (hsub.subset hy) hx hid]
  obtain ⟨pre, post, hsplit⟩ := List.append_of_mem ha
  obtain ⟨before, hbefore, hsetBefore, -⟩ := foldl_step wants pre {}
  obtain ⟨after, hafter, hsetAfter, -⟩ := foldl_step wants post
    (Walk.step wants (pre.foldl (Walk.step wants) {}) a)
  have hordered := p.ids_pairwise
  rw [hsplit, List.pairwise_append, List.pairwise_cons] at hordered
  have hless : ∀ id ∈ before.map Action.id, id < a.id := by
    rintro id hid
    obtain ⟨x, hx, rfl⟩ := List.mem_map.1 hid
    exact hordered.2.2 x (hbefore.subset hx) a List.mem_cons_self
  have hmore : ∀ id ∈ after.map Action.id, a.id < id := by
    rintro id hid
    obtain ⟨x, hx, rfl⟩ := List.mem_map.1 hid
    exact hordered.2.1.1 x (hafter.subset hx)
  have hwhole : kept.map Action.id =
      (Walk.step wants (pre.foldl (Walk.step wants) {}) a).inSet ++ after.map Action.id := by
    rw [← hsetAfter, ← List.foldl_cons, ← List.foldl_append, ← hsplit, hset]
    rfl
  rw [hinj a ha]
  by_cases hkeep : wants a.op = true ∧
      ∀ id ∈ a.dependsOn, id ∈ (pre.foldl (Walk.step wants) {}).inSet
  · rw [Built.step_kept hkeep.1 hkeep.2, hsetBefore] at hwhole
    refine iff_of_true (by simp [hwhole]) ⟨hkeep.1, fun dep hdep => ?_⟩
    have hdep' : dep ∈ before.map Action.id := by
      have := hkeep.2 dep hdep
      rwa [hsetBefore] at this
    refine ⟨hless dep hdep', ?_⟩
    have hmem : dep ∈ kept.map Action.id := by
      rw [hwhole]
      simp [hdep']
    obtain ⟨x, hx, hid⟩ := List.mem_map.1 hmem
    exact ⟨x, hx, hid⟩
  · obtain ⟨hset', -⟩ := Built.step_dropped hkeep
    rw [hset', hsetBefore] at hwhole
    refine iff_of_false (fun hmem => ?_) (fun h => hkeep ⟨h.1, fun dep hdep => ?_⟩)
    · rw [hwhole, List.mem_append] at hmem
      rcases hmem with hmem | hmem
      · exact lt_irrefl _ (hless _ (by simpa using hmem))
      · exact lt_irrefl _ (hmore _ hmem)
    · obtain ⟨hlt, x, hx, rfl⟩ := h.2 dep hdep
      have hmem : x.id ∈ kept.map Action.id := List.mem_map_of_mem hx
      rw [hwhole, List.mem_append] at hmem
      rcases hmem with hmem | hmem
      · rw [hsetBefore]
        exact hmem
      · exact absurd hlt (hmore _ hmem).asymm

theorem restrict_subset {f : Full} {document : Option Document} {sims : List Sim} {hostWide : Bool}
    {op : Op} (h : op ∈ (restrict f document sims hostWide).1.plan.actions.map Action.op) :
    op ∈ f.plan.actions.map Action.op := by
  obtain ⟨kept, hsub, hops, -⟩ := exists_kept f.plan (wanted document sims hostWide)
  have hrestrict : (restrict f document sims hostWide).1.plan.actions.map Action.op =
      kept.map Action.op := hops
  rw [hrestrict] at h
  exact (hsub.map Action.op).subset h

theorem restrict_raises {d : Netcfgd.Document} {f : Full} (h : Raises d f.plan.actions)
    (document : Option Document) (sims : List Sim) (hostWide : Bool) {n : String}
    (hdown : .linkDown n ∈ (restrict f document sims hostWide).1.plan.actions.map Action.op)
    (henabled : (d.interface n).any Netcfgd.Interface.enabled) :
    List.Sublist [.linkDown n, .linkUp n]
      ((restrict f document sims hostWide).1.plan.actions.map Action.op) := by
  obtain ⟨kept, hsub, hops, hkept⟩ := exists_kept f.plan (wanted document sims hostWide)
  have hrestrict : (restrict f document sims hostWide).1.plan.actions.map Action.op =
      kept.map Action.op := hops
  rw [hrestrict] at hdown ⊢
  obtain ⟨a, ha, hop⟩ := List.mem_map.1 hdown
  obtain ⟨u, hu⟩ := h a (hsub.subset ha) n hop henabled
  obtain ⟨hwant, hdeps⟩ := (hkept a (hsub.subset ha)).1 ha
  rw [hop] at hwant
  have hbefore : ∀ dep, dep = a.id ∨ dep ∈ a.dependsOn →
      dep ≤ a.id ∧ ∃ x ∈ kept, x.id = dep := by
    rintro dep (rfl | hdep)
    · exact ⟨le_rfl, a, ha, rfl⟩
    · exact ⟨(hdeps dep hdep).1.le, (hdeps dep hdep).2⟩
  -- the three ops are of one interface, so one policy speaks of them
  have hmem : u ∈ kept := by
    rw [hkept u hu.mem, hu.op]
    refine ⟨hwant, fun dep hdep => ?_⟩
    rcases hu.waits dep hdep with hdep | ⟨x, hx, rfl, hafter, hlt, ⟨path, hpath⟩, hwaits⟩
    · exact ⟨(hbefore dep hdep).1.trans_lt hu.lt, (hbefore dep hdep).2⟩
    · refine ⟨hlt, x, (hkept x hx).2 ⟨?_, fun dep hdep => ?_⟩, rfl⟩
      · rw [hpath]
        exact hwant
      · exact ⟨(hbefore dep (hwaits dep hdep)).1.trans_lt hafter,
          (hbefore dep (hwaits dep hdep)).2⟩
  have hpair := (pair_sublist_of_lt (f.plan.ids_pairwise.sublist hsub) ha hmem hu.lt).map Action.op
  rwa [List.map_cons, List.map_cons, List.map_nil, hop, hu.op] at hpair

end Restrict

/-! ## What is done -/

def doneOps (actions : List Action) (j : Journal) : List Op :=
  ((actions.zip j).filter fun p => p.2.outcome = .done).map fun p => p.1.op

theorem forall₂_runPlan {σ : Type*} (e : Executor σ) : ∀ (actions : List Action) (stopped : Bool)
    (s : σ), List.Forall₂ (fun a r => r.interface = a.op.interface) actions
      (runPlan e actions stopped s).1
  | [], _, _ => .nil
  | a :: actions, true, s => .cons rfl (forall₂_runPlan e actions true s)
  | a :: actions, false, s => by
    rw [runPlan]
    split
    · exact .cons rfl (forall₂_runPlan e actions false _)
    · exact .cons rfl (forall₂_runPlan e actions _ _)

theorem doneOps_of_all {n : String} {actions : List Action} {j : Journal}
    (hrecords : List.Forall₂ (fun a r => r.interface = a.op.interface) actions j)
    (hdone : ∀ r ∈ j, r.interface = some n → r.outcome = .done) :
    List.Sublist ((actions.map Action.op).filter fun op => op.interface = some n)
      (doneOps actions j) := by
  induction hrecords with
  | nil => exact List.Sublist.slnil
  | @cons a r actions j hinterface _ ih =>
    have ih := ih fun r hr => hdone r (List.mem_cons_of_mem _ hr)
    rw [doneOps, List.zip_cons_cons, List.map_cons]
    by_cases hof : a.op.interface = some n
    · have houtcome := hdone r List.mem_cons_self (hinterface.trans hof)
      rw [List.filter_cons_of_pos (by simpa using hof),
        List.filter_cons_of_pos (by simpa using houtcome),
        List.map_cons]
      exact ih.cons_cons a.op
    · rw [List.filter_cons_of_neg (by simpa using hof), List.filter_cons]
      split_ifs
      · exact ih.cons a.op
      · exact ih

end Netcfgd
