import Netcfgd.Links

/-!
# Hooks and the transitions they bracket

A lifecycle hook belongs to a link going up or down : `pre_up` and `up` to a link that was down
or is taken down first, `pre_down`, `down` and `post_down` to a link that goes down or is
deleted (`Bracketed`). Hooks and transitions pass the checks of the builder separately, and the
hooks before a transition are pushed before it is known whether it is let in.

`transitions_linkPlan` is the part of a plan that the passes of links push, in its order, and
`bracketed_linkPlan_iff` says when a plan brackets its hooks : where a link may not be touched,
none of the hooks of that transition may be let in (`HooksFollow`). A locked link leaves its
hooks behind (`locked_link_runs_hooks`).
-/

namespace Netcfgd

/-! ## The transitions of a plan -/

def Planning.transitions (s : Planning) : List Op :=
  s.ops.filter Op.isTransition

/-- From one builder to another, these transitions were added. -/
structure Moves (declined : List String) (tearingDown : Bool) (s s' : Planning) (ops : List Op) :
    Prop where
  actions : ∃ new, s'.building.plan.actions = s.building.plan.actions ++ new ∧
    (new.map Action.op).filter Op.isTransition = ops
  after : s'.building.declined = declined ∧ s'.building.tearingDown = tearingDown

section Moves

variable {c : Checks} {d : Document} {o : Observed} {declined : List String} {tearingDown : Bool}
  {s s' s'' : Planning}

theorem Moves.transitions {ops : List Op} (h : Moves declined tearingDown s s' ops) :
    s'.transitions = s.transitions ++ ops := by
  obtain ⟨new, hnew, rfl⟩ := h.actions
  rw [Planning.transitions, Planning.ops, hnew, List.map_append, List.filter_append]
  rfl

theorem Moves.refl
    (h : s.building.declined = declined ∧ s.building.tearingDown = tearingDown) :
    Moves declined tearingDown s s [] :=
  ⟨⟨[], by simp⟩, h⟩

theorem Moves.trans {declined' : List String} {tearingDown' : Bool} {ops ops' : List Op}
    (h : Moves declined tearingDown s s' ops) (h' : Moves declined' tearingDown' s' s'' ops') :
    Moves declined' tearingDown' s s'' (ops ++ ops') := by
  obtain ⟨new, hnew, rfl⟩ := h.actions
  obtain ⟨new', hnew', rfl⟩ := h'.actions
  refine ⟨⟨new ++ new', ?_, by rw [List.map_append, List.filter_append]⟩, h'.after⟩
  rw [hnew', hnew, List.append_assoc]

theorem Emits.moves {ops : List Op} (h : Emits declined tearingDown s s' ops) :
    Moves declined tearingDown s s' (ops.filter Op.isTransition) := by
  obtain ⟨new, hnew, rfl⟩ := h.actions
  exact ⟨⟨new, hnew, rfl⟩, h.after⟩

theorem moves_others (requests : List Request) (h : ∀ r ∈ requests, r.isOther)
    (hs : s.building.declined = declined ∧ s.building.tearingDown = tearingDown) :
    Moves declined tearingDown s (s.run c requests) [] := by
  obtain ⟨ops, hemits, hops⟩ := emits_others (c := c) h hs
  have hnone : ops.filter Op.isTransition = [] :=
    List.filter_eq_nil_iff.2 fun op hop => by simp [hops op hop]
  exact hnone ▸ hemits.moves

theorem moves_foldl {α : Type*} {f : Planning → α → Planning} {g : α → List Op}
    (h : ∀ s a, s.building.declined = declined ∧ s.building.tearingDown = tearingDown →
      Moves declined tearingDown s (f s a) (g a)) :
    ∀ (l : List α) (s : Planning),
      s.building.declined = declined ∧ s.building.tearingDown = tearingDown →
        Moves declined tearingDown s (l.foldl f s) (l.flatMap g)
  | [], _, hs => Moves.refl hs
  | a :: l, s, hs => (h s a hs).trans (moves_foldl h l (f s a) (h s a hs).after)

/-- The devices a plan will not create. -/
def declinedBy (d : Document) (o : Observed) : List String :=
  (d.devices.filter (declines o)).map Device.name

def creationOps (c : Checks) (o : Observed) (declined : List String) (tearingDown : Bool)
    (x : Device) : List Op :=
  if (o.link x.name).isSome ∨ x.kind = .pppoe ∨ x.kind = .openvpn ∨ x.kind = .physical ∨
      declines o x then []
  else c.admitted declined tearingDown (.linkCreate x.name x.kind)

theorem declines_iff {x : Device} : declines o x ↔
    o.link x.name = none ∧ x.kind = .veth ∧ (x.vethPeer.bind o.link).isSome := by
  simp only [declines, Bool.and_eq_true, Option.isNone_iff_eq_none, decide_eq_true_eq, and_assoc]

theorem linkCreation_spec (s : Planning) (x : Device) :
    (∃ new, (linkCreation c o s x).building.plan.actions = s.building.plan.actions ++ new ∧
        new.map Action.op = creationOps c o s.building.declined s.building.tearingDown x) ∧
      (linkCreation c o s x).building.declined =
        s.building.declined ++ (if declines o x then [x.name] else []) ∧
      (linkCreation c o s x).building.tearingDown = s.building.tearingDown := by
  unfold linkCreation creationOps
  rcases hlink : o.link x.name with _ | link
  · rw [if_neg (by simp)]
    by_cases hkind : x.kind = .pppoe ∨ x.kind = .openvpn ∨ x.kind = .physical
    · have hdeclines : ¬declines o x := fun h => by
        have hveth := (declines_iff.1 h).2.1
        rcases hkind with h | h | h <;> simp [h] at hveth
      rw [if_pos hkind, if_pos (by tauto), if_neg hdeclines]
      exact ⟨⟨[], by simp⟩, by simp⟩
    · rw [if_neg hkind]
      by_cases hveth : x.kind = .veth ∧ (x.vethPeer.bind o.link).isSome
      · have hdeclines : declines o x := declines_iff.2 ⟨hlink, hveth⟩
        rw [if_pos hveth, if_pos (by simp [hdeclines]), if_pos hdeclines]
        exact ⟨⟨[], by simp [Building.step]⟩, rfl, rfl⟩
      · have hdeclines : ¬declines o x := fun h => hveth (declines_iff.1 h).2
        rw [if_neg hveth, if_neg (by simp [hdeclines]; tauto), if_neg hdeclines]
        have hpush := emits_push (c := c) (s := s) ⟨rfl, rfl⟩ (.linkCreate x.name x.kind)
          (reasonAbsent x.name "kind" (kindWord x)) (s.gate x.name) (some (.linkDelete x.name))
        exact ⟨hpush.actions, by simpa using hpush.after.1, hpush.after.2⟩
  · have hdeclines : ¬declines o x := fun h => by
      rw [(declines_iff.1 h).1] at hlink
      cases hlink
    rw [if_pos (by simp), if_pos (by simp), if_neg hdeclines]
    exact ⟨⟨[], by simp⟩, by simp⟩

theorem mem_admitted_iff {op x : Op} :
    x ∈ c.admitted declined tearingDown op ↔ x = op ∧ c.admits declined tearingDown op := by
  unfold Checks.admitted
  split_ifs with h <;> simp [h]

theorem linkCreation_foldl :
    ∀ (devices : List Device) (s : Planning),
      (∃ new, (devices.foldl (linkCreation c o) s).building.plan.actions =
          s.building.plan.actions ++ new ∧
        ∀ a ∈ new, ∃ x ∈ devices, a.op = .linkCreate x.name x.kind ∧ ¬declines o x) ∧
      (devices.foldl (linkCreation c o) s).building.declined =
        s.building.declined ++ (devices.filter (declines o)).map Device.name ∧
      (devices.foldl (linkCreation c o) s).building.tearingDown = s.building.tearingDown
  | [], s => ⟨⟨[], by simp⟩, by simp⟩
  | x :: devices, s => by
    obtain ⟨⟨new, hnew, hops⟩, hdeclined, htearing⟩ := linkCreation_spec (c := c) (o := o) s x
    obtain ⟨⟨new', hnew', hcreates⟩, hdeclined', htearing'⟩ :=
      linkCreation_foldl devices (linkCreation c o s x)
    refine ⟨⟨new ++ new', ?_, ?_⟩, ?_, htearing'.trans htearing⟩
    · rw [List.foldl_cons, hnew', hnew, List.append_assoc]
    · intro a ha
      rcases List.mem_append.1 ha with ha | ha
      · have hop := List.mem_map_of_mem (f := Action.op) ha
        rw [hops, creationOps] at hop
        split_ifs at hop with hnone
        · simp at hop
        · exact ⟨x, List.mem_cons_self, (mem_admitted_iff.1 hop).1, fun h => hnone (by tauto)⟩
      · obtain ⟨y, hy, hop⟩ := hcreates a ha
        exact ⟨y, List.mem_cons_of_mem _ hy, hop⟩
    · rw [List.foldl_cons, hdeclined', hdeclined, List.filter_cons]
      split_ifs with h <;> simp

theorem moves_push_other
    (hs : s.building.declined = declined ∧ s.building.tearingDown = tearingDown)
    {op : Op} (hop : op.isTransition = false) (reason : Reason) (dependsOn : List (Option ℕ))
    (inverse : Option Op) :
    Moves declined tearingDown s (s.push c op reason dependsOn inverse).2 [] := by
  have hnone : (c.admitted declined tearingDown op).filter Op.isTransition = [] :=
    List.filter_eq_nil_iff.2 fun x hx => by simp [(mem_admitted_iff.1 hx).1, hop]
  exact hnone ▸ (emits_push (c := c) hs op reason dependsOn inverse).moves

theorem wdsAction_isTransition {x : Device} {p : Planned} (h : wdsAction d o x = some p) :
    p.op.isTransition = false := by
  obtain ⟨link, -, h⟩ := Option.bind_eq_some_iff.1 h
  split_ifs at h
  obtain rfl := Option.some.inj h
  rfl

theorem masterAction_isTransition {x : Device} {p : Planned} (h : masterAction d o x = some p) :
    p.op.isTransition = false := by
  unfold masterAction at h
  dsimp only at h
  split at h
  · split_ifs at h
    obtain rfl := Option.some.inj h
    rfl
  · obtain ⟨master, -, rfl⟩ := Option.map_eq_some_iff.1 h
    rfl

theorem moves_planWds (hs : s.building.declined = declined ∧ s.building.tearingDown = tearingDown)
    (x : Device) : Moves declined tearingDown s (planWds c d o x s).2 [] := by
  unfold planWds
  rcases hw : wdsAction d o x with _ | p
  · exact Moves.refl hs
  · exact moves_push_other hs (wdsAction_isTransition hw) _ _ _

theorem moves_planMaster
    (hs : s.building.declined = declined ∧ s.building.tearingDown = tearingDown)
    (x : Device) : Moves declined tearingDown s (planMaster c d o x s).2 [] := by
  have hmoves := moves_planWds (c := c) (d := d) (o := o) hs x
  unfold planMaster
  rcases hm : masterAction d o x with _ | p
  · exact hmoves
  · have hpush := moves_push_other (c := c) hmoves.after (masterAction_isTransition hm) p.reason
      (s.gate x.name ++ [(planWds c d o x s).1]) p.inverse
    rcases x.master with _ | wanted
    · exact hmoves.trans hpush
    · exact ⟨(hmoves.trans hpush).actions, hpush.after⟩

def deviceUpOps (c : Checks) (d : Document) (o : Observed) (declined : List String)
    (tearingDown : Bool) (x : Device) : List Op :=
  if ¬linkIsPlannable (builderAt d o declined) x.name ∨ (x.master.isNone ∧ x.kind ≠ .ifb) ∨
      (d.interface x.name).isSome ∨ (o.link x.name).any ObservedLink.up then []
  else c.admitted declined tearingDown (.linkUp x.name)

theorem moves_deviceStep
    (hs : s.building.declined = declined ∧ s.building.tearingDown = tearingDown)
    (rest : OtherPasses) (x : Device) : Moves declined tearingDown s (deviceStep c d o rest s x)
      (deviceUpOps c d o declined tearingDown x) := by
  have hsession := moves_others (c := c) _
    (fun r hr => rest.others.2.1 x r (List.mem_append_left _ hr)) hs
  have hkind : ∀ r ∈ rest.kind x, r.isOther :=
    fun r hr => rest.others.2.1 x r (List.mem_append_right _ hr)
  unfold deviceStep deviceUpOps
  dsimp only
  rw [hsession.after.1]
  by_cases hplan : linkIsPlannable (builderAt d o declined) x.name
  · rw [if_pos hplan]
    have hmaster := moves_planMaster (c := c) (d := d) (o := o) hsession.after x
    unfold deviceUp
    by_cases hup : (x.master.isNone ∧ x.kind ≠ .ifb) ∨ (d.interface x.name).isSome ∨
        (o.link x.name).any ObservedLink.up
    · simp only [if_pos hup, hplan, not_true_eq_false, false_or]
      exact (hsession.trans hmaster).trans (moves_others _ hkind hmaster.after)
    · simp only [if_neg hup, hplan, not_true_eq_false, false_or]
      have hpush := (emits_push (c := c) hmaster.after (.linkUp x.name)
        ⟨some x.name, "link", "up", "down"⟩ ((planMaster c d o x (s.run c (rest.session x))).2.gate
          x.name ++ [(planMaster c d o x (s.run c (rest.session x))).1])
        (some (.linkDown x.name))).moves
      have hfilter : (c.admitted declined tearingDown (.linkUp x.name)).filter Op.isTransition =
          c.admitted declined tearingDown (.linkUp x.name) :=
        List.filter_eq_self.2 fun op hop => by simp [(mem_admitted_iff.1 hop).1, Op.isTransition]
      rw [hfilter] at hpush
      have hall := ((hsession.trans hmaster).trans hpush).trans
        (moves_others (c := c) _ hkind hpush.after)
      simpa using hall
  · rw [if_neg hplan, if_pos (Or.inl hplan)]
    exact hsession

def contentsTransitions (c : Checks) (d : Document) (o : Observed) (declined : List String)
    (tearingDown : Bool) (options : PlanOptions) (i : Interface) : List Op :=
  if linkIsPlannable (builderAt d o declined) i.name then
    (interfaceOps c o declined tearingDown options i).filter Op.isTransition
  else []

theorem moves_interfaceContents
    (hs : s.building.declined = declined ∧ s.building.tearingDown = tearingDown)
    (options : PlanOptions) (rest : OtherPasses) (i : Interface) :
    Moves declined tearingDown s (interfaceContents c d o options rest s i)
      (contentsTransitions c d o declined tearingDown options i) := by
  unfold interfaceContents contentsTransitions
  rw [hs.1]
  split_ifs with hplan
  · have hlink := (emits_interfaceLink (c := c) (o := o) hs options i).moves
    simpa using hlink.trans (moves_others _ (rest.others.2.2 i) hlink.after)
  · exact Moves.refl hs

theorem moves_afterCreation (options : PlanOptions) (rest : OtherPasses)
    (hs : (d.devices.foldl (linkCreation c o) s).building.declined = declined ∧
      (d.devices.foldl (linkCreation c o) s).building.tearingDown = tearingDown) :
    Moves declined tearingDown (d.devices.foldl (linkCreation c o) s)
      (linkForward c d o options rest s)
      (d.devices.flatMap (deviceUpOps c d o declined tearingDown) ++
        d.interfaces.flatMap (contentsTransitions c d o declined tearingDown options)) := by
  have hothers := rest.others.1
  have h1 := moves_others (c := c) rest.attributes
    (fun r hr => hothers r (by simp [hr])) hs
  have h2 := h1.trans (moves_foldl (f := deviceStep c d o rest)
    (fun s x hs => moves_deviceStep hs rest x) d.devices _ h1.after)
  have h3 := h2.trans (moves_others (c := c) rest.wifi
    (fun r hr => hothers r (by simp [hr])) h2.after)
  have h4 := h3.trans (moves_foldl (f := interfaceContents c d o options rest)
    (fun s i hs => moves_interfaceContents hs options rest i) d.interfaces _ h3.after)
  have h5 := h4.trans (moves_others (c := c) rest.late
    (fun r hr => hothers r (by simp [hr])) h4.after)
  simp only [List.append_nil, List.nil_append] at h5
  exact h5

theorem moves_creation (hs : s.building.declined = [] ∧ s.building.tearingDown = false) :
    ∃ creates, Moves (declinedBy d o) false s (d.devices.foldl (linkCreation c o) s) creates ∧
      ∀ op ∈ creates, ∃ x ∈ d.devices, op = .linkCreate x.name x.kind ∧ ¬declines o x := by
  obtain ⟨⟨new, hnew, hcreates⟩, hdeclined, htearing⟩ :=
    linkCreation_foldl (c := c) (o := o) d.devices s
  rw [hs.1, List.nil_append] at hdeclined
  refine ⟨_, ⟨⟨new, hnew, rfl⟩, hdeclined, htearing.trans hs.2⟩, fun op hop => ?_⟩
  obtain ⟨a, ha, rfl⟩ := List.mem_map.1 (List.mem_filter.1 hop).1
  exact hcreates a ha

theorem moves_linkTeardown (hs : s.building.declined = declined) (rest : OtherPasses) :
    ∃ deletes, Moves declined true s (linkTeardown c d o rest s) deletes ∧
      ∀ op ∈ deletes, ∃ n, op = .linkDelete n ∧ c.admits declined true op ∧
        ∀ x ∈ d.devices, x.name ∉ c.clearing → x.name ≠ n := by
  have hmark : Moves declined true s
      { s with building := { s.building with tearingDown := true } } [] :=
    ⟨⟨[], by simp⟩, hs, rfl⟩
  have hothers := hmark.trans (moves_others (c := c) rest.teardown
    (fun r hr => rest.others.1 r (by simp [hr])) hmark.after)
  unfold linkTeardown teardownLinks
  dsimp only
  refine ⟨_, hothers.trans (moves_foldl (g := fun l : ObservedLink =>
    (c.admitted declined true (.linkDelete l.name)).filter Op.isTransition)
    (fun s l hs => (emits_push hs _ _ _ _).moves) _ _ hothers.after), fun op hop => ?_⟩
  rw [List.append_nil, List.nil_append] at hop
  obtain ⟨l, hl, hop⟩ := List.mem_flatMap.1 hop
  obtain ⟨rfl, hadmits⟩ := mem_admitted_iff.1 (List.mem_filter.1 hop).1
  refine ⟨l.name, rfl, hadmits, fun x hx hclear hname => ?_⟩
  have hnot := (List.mem_filter.1 hl).2
  simp only [Bool.and_eq_true, decide_eq_true_eq] at hnot
  exact hnot.2 (List.mem_map.2 ⟨x, List.mem_filter.2 ⟨hx, by simpa using hclear⟩, hname⟩)

end Moves

section Whole

variable (d : Document) (o : Observed) (options : PlanOptions) (rest : OtherPasses)

/-- The devices a plan remakes. -/
def goneFrom : List String :=
  ((d.devices.filter (remade (prepare d options) o [] false)).take recreateMax).map Device.name

/-- The observation once they are gone. -/
def seenAfter : Observed :=
  observedWithout o (goneFrom d o options)

theorem moves_early : Moves [] false { building := Building.new }
    { building := Building.new.run (prepare d options) rest.early } [] :=
  moves_others (s := { building := Building.new }) _
    (fun r hr => rest.others.1 r (by simp [hr])) ⟨rfl, rfl⟩

theorem recreation_spec :
    (recreation (prepare d options) d o
        { building := Building.new.run (prepare d options) rest.early }).1 = goneFrom d o options ∧
      Emits [] false { building := Building.new.run (prepare d options) rest.early }
        (recreation (prepare d options) d o
          { building := Building.new.run (prepare d options) rest.early }).2
        (recreationOps (prepare d options) d o [] false recreateMax d.devices) := by
  have hearly := (moves_early d options rest).after
  obtain ⟨hgone, hemits⟩ := emits_recreateDevices (c := prepare d options) (d := d) (o := o)
    d.devices ([], { building := Building.new.run (prepare d options) rest.early }) recreateMax
    (by simp) hearly
  exact ⟨hgone.trans (List.nil_append _), hemits⟩

theorem linkPlan_eq : linkPlan d o options rest =
    linkTeardown (prepare d options) d (seenAfter d o options) rest
      (linkForward (prepare d options) d (seenAfter d o options) options rest
        (recreation (prepare d options) d o
          { building := Building.new.run (prepare d options) rest.early }).2) := by
  unfold linkPlan seenAfter
  dsimp only
  rw [(recreation_spec d o options rest).1]

theorem moves_afterRecreation : ∃ creates deletes,
    Moves (declinedBy d (seenAfter d o options)) true
      (recreation (prepare d options) d o
        { building := Building.new.run (prepare d options) rest.early }).2
      (linkPlan d o options rest) (creates ++
        (d.devices.flatMap (deviceUpOps (prepare d options) d (seenAfter d o options)
          (declinedBy d (seenAfter d o options)) false) ++
        d.interfaces.flatMap (contentsTransitions (prepare d options) d (seenAfter d o options)
          (declinedBy d (seenAfter d o options)) false options)) ++ deletes) ∧
    (∀ op ∈ creates, ∃ x ∈ d.devices, op = .linkCreate x.name x.kind ∧
      ¬declines (seenAfter d o options) x) ∧
    ∀ op ∈ deletes, ∃ n, op = .linkDelete n ∧
      (prepare d options).admits (declinedBy d (seenAfter d o options)) true op ∧
      ∀ x ∈ d.devices, x.name ∉ (prepare d options).clearing → x.name ≠ n := by
  obtain ⟨creates, hcreation, hcreates⟩ := moves_creation (c := prepare d options) (d := d)
    (o := seenAfter d o options) (recreation_spec d o options rest).2.after
  have hforward := moves_afterCreation (c := prepare d options) (d := d)
    (o := seenAfter d o options) options rest hcreation.after
  obtain ⟨deletes, hteardown, hdeletes⟩ := moves_linkTeardown (c := prepare d options) (d := d)
    (o := seenAfter d o options) hforward.after.1 rest
  refine ⟨creates, deletes, ?_, hcreates, hdeletes⟩
  rw [linkPlan_eq]
  exact (hcreation.trans hforward).trans hteardown

theorem transitions_linkPlan : ∃ creates deletes,
    (linkPlan d o options rest).transitions =
      (recreationOps (prepare d options) d o [] false recreateMax d.devices).filter
          Op.isTransition ++ (creates ++
        (d.devices.flatMap (deviceUpOps (prepare d options) d (seenAfter d o options)
          (declinedBy d (seenAfter d o options)) false) ++
        d.interfaces.flatMap (contentsTransitions (prepare d options) d (seenAfter d o options)
          (declinedBy d (seenAfter d o options)) false options)) ++ deletes) ∧
    (∀ op ∈ creates, ∃ x ∈ d.devices, op = .linkCreate x.name x.kind ∧
      ¬declines (seenAfter d o options) x) ∧
    ∀ op ∈ deletes, ∃ n, op = .linkDelete n ∧
      (prepare d options).admits (declinedBy d (seenAfter d o options)) true op ∧
      ∀ x ∈ d.devices, x.name ∉ (prepare d options).clearing → x.name ≠ n := by
  obtain ⟨creates, deletes, hmoves, hcreates, hdeletes⟩ := moves_afterRecreation d o options rest
  refine ⟨creates, deletes, ?_, hcreates, hdeletes⟩
  have hfirst := (moves_early d options rest).trans (recreation_spec d o options rest).2.moves
  rw [hmoves.transitions, hfirst.transitions]
  rfl

end Whole

/-! ## What belongs to what -/

/-- Hooks run only with the transition they bracket. -/
structure Bracketed (o : Observed) (ops : List Op) : Prop where
  /-- `pre_up` and `up` : the link goes up, and it was down, or is taken down before. -/
  up : ∀ n phase path value, phase = .preUp ∨ phase = .up → .hookRun n phase path value ∈ ops →
    .linkUp n ∈ ops ∧ (¬(o.link n).any ObservedLink.up ∨
      List.Sublist [.linkDown n, .linkUp n] ops ∨ List.Sublist [.linkDelete n, .linkUp n] ops)
  /-- `pre_down`, `down` and `post_down` : the link goes down or is deleted. -/
  down : ∀ n phase path value, phase = .preDown ∨ phase = .down ∨ phase = .postDown →
    .hookRun n phase path value ∈ ops → .linkDown n ∈ ops ∨ .linkDelete n ∈ ops

/-- Where a link may not be touched, none of the hooks of that transition is let in. -/
structure HooksFollow (d : Document) (o : Observed) (options : PlanOptions) : Prop where
  /-- A device that is to be remade, while there is room. -/
  remaking : ∀ before x after, d.devices = before ++ x :: after →
    (before.filter (remade (prepare d options) o [] false)).length < recreateMax →
    (remakeReason o x).isSome → (prepare d options).admits [] false (.linkDelete x.name) ∨
      deviceHookOps (prepare d options) d [] false x .down = []
  /-- An interface that is cycled, or disabled and up. -/
  goingDown : ∀ i ∈ d.interfaces,
    linkIsPlannable (builderAt d (seenAfter d o options) (declinedBy d (seenAfter d o options)))
      i.name →
    cycling (seenAfter d o options) options i ∨
      (¬i.enabled ∧ ((seenAfter d o options).link i.name).any ObservedLink.up) →
    (prepare d options).admits (declinedBy d (seenAfter d o options)) false (.linkDown i.name) ∨
      ∀ phase, phase = .preDown ∨ phase = .down →
        hookOps (prepare d options) (declinedBy d (seenAfter d o options)) false i phase = []
  /-- An interface that is brought up, or cycled. -/
  goingUp : ∀ i ∈ d.interfaces,
    linkIsPlannable (builderAt d (seenAfter d o options) (declinedBy d (seenAfter d o options)))
      i.name →
    bringingUp (seenAfter d o options) options i →
    ((prepare d options).admits (declinedBy d (seenAfter d o options)) false (.linkUp i.name) ∧
        (cycling (seenAfter d o options) options i →
          (prepare d options).admits (declinedBy d (seenAfter d o options)) false
            (.linkDown i.name))) ∨
      ∀ phase, phase = .preUp ∨ phase = .up →
        hookOps (prepare d options) (declinedBy d (seenAfter d o options)) false i phase = []

section Brackets

variable {c : Checks} {d : Document} {o : Observed} {options : PlanOptions} {rest : OtherPasses}
  {declined : List String} {tearingDown : Bool}

theorem pair_sublist_append {α : Type*} {a b : α} {l l' : List α} (ha : a ∈ l) (hb : b ∈ l') :
    List.Sublist [a, b] (l ++ l') := by
  have h := (List.singleton_sublist.2 ha).append (List.singleton_sublist.2 hb)
  exact h

variable {i : Interface} {phase : HookPhase} {op : Op}

theorem mem_hookOps :
    op ∈ hookOps c declined tearingDown i phase ↔ ∃ h ∈ i.hooks, h.phase = phase ∧
      op = .hookRun i.name phase h.path none ∧ c.admits declined tearingDown op := by
  simp only [hookOps, List.mem_flatMap, List.mem_filter, decide_eq_true_eq, mem_admitted_iff]
  constructor
  · rintro ⟨h, ⟨hmem, hphase⟩, rfl, hadmits⟩
    exact ⟨h, hmem, hphase, rfl, hadmits⟩
  · rintro ⟨h, hmem, hphase, rfl, hadmits⟩
    exact ⟨h, ⟨hmem, hphase⟩, rfl, hadmits⟩

variable {n path : String} {value : Option String}

theorem hookRun_mem_hookOps {phase' : HookPhase}
    (h : .hookRun n phase path value ∈ hookOps c declined tearingDown i phase') :
    i.name = n ∧ phase' = phase := by
  obtain ⟨_, -, -, hop, -⟩ := mem_hookOps.1 h
  obtain ⟨rfl, rfl, -, -⟩ := Op.hookRun.inj hop
  exact ⟨rfl, rfl⟩

theorem mem_deviceHookOps {x : Device} {phase' : HookPhase}
    (h : .hookRun n phase path value ∈ deviceHookOps c d declined tearingDown x phase') :
    x.name = n ∧ phase' = phase := by
  obtain ⟨i, hi, h⟩ := List.mem_flatMap.1 h
  obtain ⟨rfl, rfl⟩ := hookRun_mem_hookOps h
  have hname := List.find?_some (Option.mem_toList.1 hi)
  exact ⟨(of_decide_eq_true hname).symm, rfl⟩

theorem mem_recreationOps : ∀ {devices : List Device} {room : ℕ},
    op ∈ recreationOps c d o declined tearingDown room devices ↔
      ∃ before x after, devices = before ++ x :: after ∧
        (before.filter (remade c o declined tearingDown)).length < room ∧
        op ∈ recreateOps c d o declined tearingDown x
  | [], room => by simp [recreationOps]
  | x :: devices, 0 => by simp [recreationOps]
  | x :: devices, room + 1 => by
    rw [recreationOps, List.mem_append, mem_recreationOps]
    constructor
    · rintro (hop | ⟨before, y, after, rfl, hroom, hop⟩)
      · exact ⟨[], x, devices, rfl, by simp, hop⟩
      · refine ⟨x :: before, y, after, rfl, ?_, hop⟩
        rw [List.filter_cons]
        split_ifs at hroom ⊢
        · simpa using hroom
        · exact hroom
    · rintro ⟨_ | ⟨z, before⟩, y, after, hsplit, hroom, hop⟩
      · obtain ⟨rfl, rfl⟩ := List.cons.inj hsplit
        exact Or.inl hop
      · obtain ⟨rfl, rfl⟩ := List.cons.inj hsplit
        refine Or.inr ⟨before, y, after, rfl, ?_, hop⟩
        rw [List.filter_cons] at hroom
        split_ifs at hroom ⊢
        · simpa using hroom
        · exact hroom

theorem mem_linkPlan (h : op ∈ (linkPlan d o options rest).ops) (ht : op.isTransition = true) :
    op ∈ recreationOps (prepare d options) d o [] false recreateMax d.devices ∨
      (∃ x ∈ d.devices, op = .linkCreate x.name x.kind ∧ ¬declines (seenAfter d o options) x) ∨
      (∃ n, op = .linkUp n ∧ (prepare d options).lockOn op = none) ∨
      (∃ i ∈ d.interfaces, linkIsPlannable (builderAt d (seenAfter d o options)
          (declinedBy d (seenAfter d o options))) i.name ∧
        op ∈ interfaceOps (prepare d options) (seenAfter d o options)
          (declinedBy d (seenAfter d o options)) false options i) ∨
      ∃ n, op = .linkDelete n ∧
        ((prepare d options).lockOn op = none ∧ (prepare d options).guardOn op = none) ∧
        ∀ x ∈ d.devices, x.name ∉ (prepare d options).clearing → x.name ≠ n := by
  have hmem : op ∈ (linkPlan d o options rest).transitions := List.mem_filter.2 ⟨h, ht⟩
  obtain ⟨creates, deletes, hall, hcreates, hdeletes⟩ := transitions_linkPlan d o options rest
  rw [hall] at hmem
  simp only [List.mem_append] at hmem
  rcases hmem with hop | (hop | hop | hop) | hop
  · exact Or.inl (List.mem_filter.1 hop).1
  · exact Or.inr (Or.inl (hcreates op hop))
  · obtain ⟨x, -, hop⟩ := List.mem_flatMap.1 hop
    unfold deviceUpOps at hop
    split_ifs at hop
    · simp at hop
    · obtain ⟨rfl, hadmits⟩ := mem_admitted_iff.1 hop
      exact Or.inr (Or.inr (Or.inl ⟨x.name, rfl, (admits_iff.1 hadmits).2.1⟩))
  · obtain ⟨i, hi, hop⟩ := List.mem_flatMap.1 hop
    unfold contentsTransitions at hop
    split_ifs at hop with hplan
    · exact Or.inr (Or.inr (Or.inr (Or.inl ⟨i, hi, hplan, (List.mem_filter.1 hop).1⟩)))
    · simp at hop
  · obtain ⟨n, rfl, hadmits, hgone⟩ := hdeletes op hop
    exact Or.inr (Or.inr (Or.inr (Or.inr ⟨n, rfl, (admits_iff.1 hadmits).2, hgone⟩)))

variable (o options rest) in
theorem sublist_linkPlan (hi : i ∈ d.interfaces)
    (hplan : linkIsPlannable (builderAt d (seenAfter d o options)
      (declinedBy d (seenAfter d o options))) i.name) :
    List.Sublist ((recreationOps (prepare d options) d o [] false recreateMax d.devices).filter
        Op.isTransition ++ (interfaceOps (prepare d options) (seenAfter d o options)
        (declinedBy d (seenAfter d o options)) false options i).filter Op.isTransition)
      (linkPlan d o options rest).ops := by
  obtain ⟨creates, deletes, hall, -, -⟩ := transitions_linkPlan d o options rest
  refine List.Sublist.trans ?_ (List.filter_sublist (p := Op.isTransition))
  change List.Sublist _ (linkPlan d o options rest).transitions
  rw [hall]
  refine (List.Sublist.refl _).append (List.Sublist.trans ?_ (List.sublist_append_left _ _))
  refine List.Sublist.trans ?_ (List.sublist_append_right _ _)
  refine List.Sublist.trans ?_ (List.sublist_append_right _ _)
  have hone : contentsTransitions (prepare d options) d (seenAfter d o options)
      (declinedBy d (seenAfter d o options)) false options i =
      (interfaceOps (prepare d options) (seenAfter d o options)
        (declinedBy d (seenAfter d o options)) false options i).filter Op.isTransition :=
    if_pos hplan
  rw [← hone]
  rw [List.flatMap_def]
  exact List.sublist_flatten_of_mem (List.mem_map_of_mem hi)

variable (rest) in
theorem mem_linkPlan_of_recreation
    (h : op ∈ recreationOps (prepare d options) d o [] false recreateMax d.devices)
    (ht : op.isTransition = true) : op ∈ (linkPlan d o options rest).ops := by
  obtain ⟨creates, deletes, hall, -, -⟩ := transitions_linkPlan d o options rest
  refine List.mem_of_mem_filter (p := Op.isTransition) ?_
  change op ∈ (linkPlan d o options rest).transitions
  rw [hall]
  simp [h, ht]

theorem mem_interfaceOps :
    op ∈ interfaceOps c o declined tearingDown options i ↔
      (cycling o options i ∨ (¬i.enabled ∧ (o.link i.name).any ObservedLink.up)) ∧
          op ∈ disableOps c o declined tearingDown i ∨
        bringingUp o options i ∧ op ∈ bringUpOps c declined tearingDown i := by
  unfold interfaceOps
  rw [List.mem_append]
  by_cases hen : i.enabled
  · by_cases hup : bringingUp o options i
    · simp [hen, hup]
    · have hcycle : ¬cycling o options i := fun h => hup (by simp [bringingUp, hen, h])
      simp [hen, hup, hcycle]
  · have hcycle : ¬cycling o options i := by simp [cycling, hen]
    have hup : ¬bringingUp o options i := by simp [bringingUp, hen]
    simp [hen, hup, hcycle]

theorem mem_disableOps :
    op ∈ disableOps c o declined tearingDown i ↔
      op ∈ hookOps c declined tearingDown i .preDown ∨ op ∈ withdrawOps c o declined tearingDown i ∨
        op ∈ hookOps c declined tearingDown i .down ∨
        c.admits declined tearingDown (.linkDown i.name) ∧
          (op = .linkDown i.name ∨ op ∈ hookOps c declined tearingDown i .postDown) := by
  unfold disableOps
  simp only [List.mem_append, mem_admitted_iff]
  split_ifs with h <;> simp [h, or_assoc]

theorem mem_bringUpOps : op ∈ bringUpOps c declined tearingDown i ↔
    op ∈ hookOps c declined tearingDown i .preUp ∨
      op = .linkUp i.name ∧ c.admits declined tearingDown op ∨
      op ∈ hookOps c declined tearingDown i .up := by
  simp only [bringUpOps, List.mem_append, mem_admitted_iff, or_assoc]
  constructor
  · rintro (h | ⟨rfl, h⟩ | h)
    · exact Or.inl h
    · exact Or.inr (Or.inl ⟨rfl, h⟩)
    · exact Or.inr (Or.inr h)
  · rintro (h | ⟨rfl, h⟩ | h)
    · exact Or.inl h
    · exact Or.inr (Or.inl ⟨rfl, h⟩)
    · exact Or.inr (Or.inr h)

theorem mem_recreateOps {x : Device} : op ∈ recreateOps c d o declined tearingDown x ↔
    (remakeReason o x).isSome ∧
      ((∃ b ∈ o.backends, b.interface = x.name ∧
          op ∈ c.admitted declined tearingDown (.backendStop b.kind x.name)) ∨
        op ∈ deviceHookOps c d declined tearingDown x .down ∨
        c.admits declined tearingDown (.linkDelete x.name) ∧
          (op = .linkDelete x.name ∨ op ∈ deviceHookOps c d declined tearingDown x .postDown)) := by
  unfold recreateOps
  by_cases hreason : (remakeReason o x).isSome
  · simp only [hreason, if_true, true_and, List.mem_append, List.mem_flatMap, List.mem_filter,
      decide_eq_true_eq, mem_admitted_iff]
    split_ifs with h <;> simp [h, and_assoc, or_assoc]
  · simp [hreason]

theorem admits_of_hook (hop : op.interface = some n)
    (h : c.admits declined tearingDown (.hookRun n phase path value))
    (hlock : c.lockOn op = none) (hguard : c.guardOn op = none) :
    c.admits declined tearingDown op := by
  refine admits_iff.2 ⟨?_, hlock, hguard⟩
  have hover := (admits_iff.1 h).1
  rw [Checks.passesOver] at hover ⊢
  rw [hop]
  exact hover

theorem admits_of_mem_interfaceOps (h : op ∈ interfaceOps c o declined tearingDown options i) :
    c.admits declined tearingDown op := by
  have hhook : ∀ phase, op ∈ hookOps c declined tearingDown i phase →
      c.admits declined tearingDown op := fun phase hop => by
    obtain ⟨_, -, -, -, hadmits⟩ := mem_hookOps.1 hop
    exact hadmits
  rcases mem_interfaceOps.1 h with ⟨-, h⟩ | ⟨-, h⟩
  · rcases mem_disableOps.1 h with h | h | h | ⟨hadmits, rfl | h⟩
    · exact hhook _ h
    · obtain ⟨a, -, h⟩ := List.mem_flatMap.1 h
      obtain ⟨rfl, hadmits⟩ := mem_admitted_iff.1 h
      exact hadmits
    · exact hhook _ h
    · exact hadmits
    · exact hhook _ h
  · rcases mem_bringUpOps.1 h with h | ⟨-, hadmits⟩ | h
    · exact hhook _ h
    · exact hadmits
    · exact hhook _ h

theorem admits_of_mem_recreateOps {x : Device} (h : op ∈ recreateOps c d o declined tearingDown x) :
    c.admits declined tearingDown op := by
  have hhook : ∀ phase, op ∈ deviceHookOps c d declined tearingDown x phase →
      c.admits declined tearingDown op := fun phase hop => by
    obtain ⟨i, -, hop⟩ := List.mem_flatMap.1 hop
    obtain ⟨_, -, -, -, hadmits⟩ := mem_hookOps.1 hop
    exact hadmits
  obtain ⟨-, ⟨b, -, -, h⟩ | h | ⟨hadmits, rfl | h⟩⟩ := mem_recreateOps.1 h
  · obtain ⟨rfl, hadmits⟩ := mem_admitted_iff.1 h
    exact hadmits
  · exact hhook _ h
  · exact hadmits
  · exact hhook _ h

theorem free_of_mem (h : op ∈ (linkPlan d o options rest).ops)
    (ht : op.isTransition = true) (hcreate : ∀ n k, op ≠ .linkCreate n k) :
    (prepare d options).lockOn op = none ∧ (prepare d options).guardOn op = none := by
  rcases mem_linkPlan h ht with h | ⟨x, -, h, -⟩ | ⟨n, rfl, h⟩ | ⟨i, -, -, h⟩ | ⟨n, -, h, -⟩
  · obtain ⟨_, x, _, -, -, h⟩ := mem_recreationOps.1 h
    exact (admits_iff.1 (admits_of_mem_recreateOps h)).2
  · exact absurd h (hcreate _ _)
  · exact ⟨h, rfl⟩
  · exact (admits_iff.1 (admits_of_mem_interfaceOps h)).2
  · exact h

variable (o rest) in
theorem admits_linkDown
    (hhook : (prepare d options).admits declined tearingDown (.hookRun n phase path value))
    (h : .linkDown n ∈ (linkPlan d o options rest).ops ∨
      .linkDelete n ∈ (linkPlan d o options rest).ops) :
    (prepare d options).admits declined tearingDown (.linkDown n) := by
  rcases h with h | h
  · obtain ⟨hlock, hguard⟩ := free_of_mem h rfl (by simp)
    exact admits_of_hook rfl hhook hlock hguard
  · obtain ⟨hlock, hguard⟩ := free_of_mem h rfl (by simp)
    exact admits_of_hook rfl hhook hlock hguard

theorem admits_linkDelete : c.admits declined tearingDown (.linkDelete n) =
    c.admits declined tearingDown (.linkDown n) :=
  rfl

theorem linkDelete_mem_recreationOps {x : Device} : ∀ {devices : List Device} {room : ℕ},
    x ∈ (devices.filter (remade c o declined tearingDown)).take room →
      .linkDelete x.name ∈ recreationOps c d o declined tearingDown room devices
  | [], room, h => by simp at h
  | y :: devices, 0, h => by simp at h
  | y :: devices, room + 1, h => by
    rw [recreationOps, List.mem_append]
    rw [List.filter_cons] at h
    split_ifs at h ⊢ with hremade
    · rw [List.take_succ_cons, List.mem_cons] at h
      rcases h with rfl | h
      · rw [remade, Bool.and_eq_true] at hremade
        exact Or.inl (mem_recreateOps.2
          ⟨hremade.1, Or.inr (Or.inr ⟨hremade.2, Or.inl rfl⟩)⟩)
      · exact Or.inr (linkDelete_mem_recreationOps h)
    · exact Or.inr (linkDelete_mem_recreationOps h)

theorem mem_goneFrom (h : n ∈ goneFrom d o options) :
    .linkDelete n ∈ recreationOps (prepare d options) d o [] false recreateMax d.devices := by
  obtain ⟨x, hx, rfl⟩ := List.mem_map.1 h
  exact linkDelete_mem_recreationOps hx

theorem link_observedWithout (gone : List String) (n : String) : (observedWithout o gone).link n =
    if n ∈ gone then none else (o.link n).map (ObservedLink.without gone) := by
  unfold Observed.link observedWithout
  rw [List.find?_map, List.find?_filter]
  split_ifs with hgone
  · rw [List.find?_eq_none.2, Option.map_none]
    rintro l - hl
    simp only [Function.comp_apply, ObservedLink.without, decide_eq_true_eq] at hl
    exact hl.1 ((of_decide_eq_true hl.2) ▸ hgone)
  · congr 2
    funext l
    by_cases hl : l.name = n
    · simp [ObservedLink.without, hl, hgone]
    · simp [ObservedLink.without, hl]

theorem down_or_deleted (h : ¬((seenAfter d o options).link n).any ObservedLink.up) :
    ¬(o.link n).any ObservedLink.up ∨
      .linkDelete n ∈ recreationOps (prepare d options) d o [] false recreateMax d.devices := by
  rw [seenAfter, link_observedWithout] at h
  split_ifs at h with hgone
  · exact Or.inr (mem_goneFrom hgone)
  · refine Or.inl ?_
    rcases hl : o.link n with _ | l
    · simp
    · simpa [hl, ObservedLink.without] using h

theorem up_of_cycling (h : cycling (seenAfter d o options) options i) :
    (o.link i.name).any ObservedLink.up := by
  simp only [cycling, Bool.and_eq_true] at h
  have hup := h.1.2
  rw [seenAfter, link_observedWithout] at hup
  split_ifs at hup
  · simp at hup
  · rcases hl : o.link i.name with _ | l
    · simp [hl] at hup
    · simpa [hl, ObservedLink.without] using hup

theorem up_of_goingUp (hi : i ∈ d.interfaces)
    (hplan : linkIsPlannable (builderAt d (seenAfter d o options)
      (declinedBy d (seenAfter d o options))) i.name)
    (hup : bringingUp (seenAfter d o options) options i)
    (hadmits : (prepare d options).admits (declinedBy d (seenAfter d o options)) false
      (.linkUp i.name)) (hcycle : cycling (seenAfter d o options) options i →
      (prepare d options).admits (declinedBy d (seenAfter d o options)) false (.linkDown i.name)) :
    .linkUp i.name ∈ (linkPlan d o options rest).ops ∧ (¬(o.link i.name).any ObservedLink.up ∨
      List.Sublist [.linkDown i.name, .linkUp i.name] (linkPlan d o options rest).ops ∨
      List.Sublist [.linkDelete i.name, .linkUp i.name] (linkPlan d o options rest).ops) := by
  have hsub := sublist_linkPlan o options rest hi hplan
  have hlinkUp : .linkUp i.name ∈ interfaceOps (prepare d options) (seenAfter d o options)
      (declinedBy d (seenAfter d o options)) false options i :=
    mem_interfaceOps.2 (Or.inr ⟨hup, mem_bringUpOps.2 (Or.inr (Or.inl ⟨rfl, hadmits⟩))⟩)
  have hkept := List.mem_filter.2 ⟨hlinkUp, (rfl : Op.isTransition _ = true)⟩
  refine ⟨hsub.subset (List.mem_append_right _ hkept), ?_⟩
  by_cases hcyc : cycling (seenAfter d o options) options i
  · -- both are in what the interface emits, the link going down first
    refine Or.inr (Or.inl (List.Sublist.trans ?_
      ((List.sublist_append_right _ _).trans hsub)))
    rw [interfaceOps, if_pos hcyc, if_pos hup, List.filter_append]
    refine pair_sublist_append (List.mem_filter.2 ⟨mem_disableOps.2 ?_, rfl⟩)
      (List.mem_filter.2 ⟨mem_bringUpOps.2 (Or.inr (Or.inl ⟨rfl, hadmits⟩)), rfl⟩)
    exact Or.inr (Or.inr (Or.inr ⟨hcycle hcyc, Or.inl rfl⟩))
  · have hdown : ¬((seenAfter d o options).link i.name).any ObservedLink.up := by
      intro h
      simp [bringingUp, hcyc, h] at hup
    rcases down_or_deleted hdown with h | h
    · exact Or.inl h
    · refine Or.inr (Or.inr (List.Sublist.trans ?_ hsub))
      exact pair_sublist_append (List.mem_filter.2 ⟨h, rfl⟩) hkept

theorem hookRun_cases (hphase : Op.lifecyclePhase phase = true)
    (h : .hookRun n phase path value ∈ (linkPlan d o options rest).ops) :
    (∃ before x after, d.devices = before ++ x :: after ∧
        (before.filter (remade (prepare d options) o [] false)).length < recreateMax ∧
        (remakeReason o x).isSome ∧ x.name = n ∧
        (.hookRun n phase path value ∈ deviceHookOps (prepare d options) d [] false x .down ∧
            phase = .down ∨
          (prepare d options).admits [] false (.linkDelete n) ∧ phase = .postDown)) ∨
      ∃ i ∈ d.interfaces, i.name = n ∧ linkIsPlannable (builderAt d (seenAfter d o options)
          (declinedBy d (seenAfter d o options))) n ∧
        .hookRun n phase path value ∈
          hookOps (prepare d options) (declinedBy d (seenAfter d o options)) false i phase ∧
        ((cycling (seenAfter d o options) options i ∨
              (¬i.enabled ∧ ((seenAfter d o options).link i.name).any ObservedLink.up)) ∧
            (phase = .preDown ∨ phase = .down ∨ phase = .postDown ∧
              (prepare d options).admits (declinedBy d (seenAfter d o options)) false
                (.linkDown n)) ∨
          bringingUp (seenAfter d o options) options i ∧ (phase = .preUp ∨ phase = .up)) := by
  rcases mem_linkPlan h hphase with h | ⟨x, -, h, -⟩ | ⟨m, h, -⟩ | ⟨i, hi, hplan, h⟩ | ⟨m, h, -⟩
  · obtain ⟨before, x, after, hsplit, hroom, h⟩ := mem_recreationOps.1 h
    obtain ⟨hreason, ⟨b, -, -, h⟩ | h | ⟨hadmits, h | h⟩⟩ := mem_recreateOps.1 h
    · simp [mem_admitted_iff] at h
    · obtain ⟨hname, rfl⟩ := mem_deviceHookOps h
      exact Or.inl ⟨before, x, after, hsplit, hroom, hreason, hname, Or.inl ⟨h, rfl⟩⟩
    · cases h
    · obtain ⟨rfl, rfl⟩ := mem_deviceHookOps h
      exact Or.inl ⟨before, x, after, hsplit, hroom, hreason, rfl, Or.inr ⟨hadmits, rfl⟩⟩
  · cases h
  · cases h
  · refine Or.inr ⟨i, hi, ?_⟩
    rcases mem_interfaceOps.1 h with ⟨hdown, h⟩ | ⟨hup, h⟩
    · rcases mem_disableOps.1 h with h | h | h | ⟨hadmits, h | h⟩
      · obtain ⟨rfl, rfl⟩ := hookRun_mem_hookOps h
        exact ⟨rfl, hplan, h, Or.inl ⟨hdown, Or.inl rfl⟩⟩
      · simp [withdrawOps, mem_admitted_iff] at h
      · obtain ⟨rfl, rfl⟩ := hookRun_mem_hookOps h
        exact ⟨rfl, hplan, h, Or.inl ⟨hdown, Or.inr (Or.inl rfl)⟩⟩
      · cases h
      · obtain ⟨rfl, rfl⟩ := hookRun_mem_hookOps h
        exact ⟨rfl, hplan, h, Or.inl ⟨hdown, Or.inr (Or.inr ⟨rfl, hadmits⟩)⟩⟩
    · rcases mem_bringUpOps.1 h with h | ⟨h, -⟩ | h
      · obtain ⟨rfl, rfl⟩ := hookRun_mem_hookOps h
        exact ⟨rfl, hplan, h, Or.inr ⟨hup, Or.inl rfl⟩⟩
      · cases h
      · obtain ⟨rfl, rfl⟩ := hookRun_mem_hookOps h
        exact ⟨rfl, hplan, h, Or.inr ⟨hup, Or.inr rfl⟩⟩
  · cases h

theorem linkDelete_mem_linkPlan {before after : List Device} {x : Device}
    (hsplit : d.devices = before ++ x :: after)
    (hroom : (before.filter (remade (prepare d options) o [] false)).length < recreateMax)
    (hreason : (remakeReason o x).isSome)
    (hadmits : (prepare d options).admits [] false (.linkDelete x.name)) :
    .linkDelete x.name ∈ (linkPlan d o options rest).ops :=
  mem_linkPlan_of_recreation _ (mem_recreationOps.2 ⟨before, x, after, hsplit, hroom,
    mem_recreateOps.2 ⟨hreason, Or.inr (Or.inr ⟨hadmits, Or.inl rfl⟩)⟩⟩) rfl

theorem mem_linkPlan_of_interface (hi : i ∈ d.interfaces)
    (hplan : linkIsPlannable (builderAt d (seenAfter d o options)
      (declinedBy d (seenAfter d o options))) i.name)
    (h : op ∈ interfaceOps (prepare d options) (seenAfter d o options)
      (declinedBy d (seenAfter d o options)) false options i) (ht : op.isTransition = true) :
      op ∈ (linkPlan d o options rest).ops :=
  (sublist_linkPlan _ _ _ hi hplan).subset (List.mem_append_right _ (List.mem_filter.2 ⟨h, ht⟩))

/-- Where hooks follow what they are for, the plan is bracketed. -/
theorem bracketed_of_hooksFollow (h : HooksFollow d o options) :
    Bracketed o (linkPlan d o options rest).ops := by
  constructor
  · intro n phase path value hphase hop
    have hlife : Op.lifecyclePhase phase = true := by
      rcases hphase with rfl | rfl <;> rfl
    rcases hookRun_cases hlife hop with
      ⟨_, _, _, -, -, -, -, ⟨-, rfl⟩ | ⟨-, rfl⟩⟩ | ⟨i, hi, rfl, hplan, hmem, hcase⟩
    · simp at hphase
    · simp at hphase
    · rcases hcase with ⟨-, hdown⟩ | ⟨hup, -⟩
      · rcases hphase with rfl | rfl <;> simp at hdown
      · rcases h.goingUp i hi hplan hup with ⟨hadmits, hcycle⟩ | hnone
        · exact up_of_goingUp hi hplan hup hadmits hcycle
        · rw [hnone phase hphase] at hmem
          cases hmem
  · intro n phase path value hphase hop
    have hlife : Op.lifecyclePhase phase = true := by
      rcases hphase with rfl | rfl | rfl <;> rfl
    rcases hookRun_cases hlife hop with
      ⟨before, x, after, hsplit, hroom, hreason, rfl, hcase⟩ | ⟨i, hi, rfl, hplan, hmem, hcase⟩
    · refine Or.inr (linkDelete_mem_linkPlan hsplit hroom hreason ?_)
      rcases hcase with ⟨hmem, -⟩ | ⟨hadmits, -⟩
      · rcases h.remaking before x after hsplit hroom hreason with hadmits | hnone
        · exact hadmits
        · rw [hnone] at hmem
          cases hmem
      · exact hadmits
    · rcases hcase with ⟨hdown, hcase⟩ | ⟨-, hup⟩
      · have hadmits : (prepare d options).admits (declinedBy d (seenAfter d o options)) false
            (.linkDown i.name) := by
          rcases h.goingDown i hi hplan hdown with hadmits | hnone
          · exact hadmits
          · rcases hcase with rfl | rfl | ⟨-, hadmits⟩
            · rw [hnone _ (Or.inl rfl)] at hmem
              cases hmem
            · rw [hnone _ (Or.inr rfl)] at hmem
              cases hmem
            · exact hadmits
        exact Or.inl (mem_linkPlan_of_interface hi hplan (mem_interfaceOps.2 (Or.inl ⟨hdown,
          mem_disableOps.2 (Or.inr (Or.inr (Or.inr ⟨hadmits, Or.inl rfl⟩)))⟩)) rfl)
      · rcases hphase with rfl | rfl | rfl <;> simp at hup

/-- Where the plan is bracketed, hooks follow what they are for. -/
theorem hooksFollow_of_bracketed (h : Bracketed o (linkPlan d o options rest).ops) :
    HooksFollow d o options := by
  constructor
  · intro before x after hsplit hroom hreason
    by_contra hnot
    obtain ⟨hrefused, hhooks⟩ := not_or.1 hnot
    obtain ⟨op, hop⟩ := List.exists_mem_of_ne_nil _ hhooks
    have hmem : op ∈ recreationOps (prepare d options) d o [] false recreateMax d.devices :=
      mem_recreationOps.2
        ⟨before, x, after, hsplit, hroom, mem_recreateOps.2 ⟨hreason, Or.inr (Or.inl hop)⟩⟩
    have hadmits := admits_of_mem_recreateOps (mem_recreateOps.2 ⟨hreason, Or.inr (Or.inl hop)⟩)
    obtain ⟨i, hi, hhook⟩ := List.mem_flatMap.1 hop
    obtain ⟨hook, -, -, rfl, -⟩ := mem_hookOps.1 hhook
    obtain ⟨hname, -⟩ := mem_deviceHookOps hop
    have hlink := h.down _ _ _ _ (Or.inr (Or.inl rfl)) (mem_linkPlan_of_recreation _ hmem rfl)
    exact hrefused (admits_linkDelete.trans (hname ▸ admits_linkDown _ _ hadmits hlink))
  · intro i hi hplan hdown
    by_contra hnot
    obtain ⟨hrefused, hhooks⟩ := not_or.1 hnot
    refine hhooks fun phase hphase => List.eq_nil_iff_forall_not_mem.2 fun op hop => hrefused ?_
    obtain ⟨hook, -, -, rfl, hadmits⟩ := mem_hookOps.1 hop
    have hruns : .hookRun i.name phase hook.path none ∈ (linkPlan d o options rest).ops := by
      refine mem_linkPlan_of_interface hi hplan (mem_interfaceOps.2 (Or.inl ⟨hdown, ?_⟩)) ?_
      · rcases hphase with rfl | rfl
        · exact mem_disableOps.2 (Or.inl hop)
        · exact mem_disableOps.2 (Or.inr (Or.inr (Or.inl hop)))
      · rcases hphase with rfl | rfl <;> rfl
    exact admits_linkDown _ _ hadmits (h.down i.name phase _ _ (by tauto) hruns)
  · intro i hi hplan hup
    by_contra hnot
    obtain ⟨hrefused, hhooks⟩ := not_or.1 hnot
    refine hhooks fun phase hphase => List.eq_nil_iff_forall_not_mem.2 fun op hop => hrefused ?_
    obtain ⟨hook, -, -, rfl, hadmits⟩ := mem_hookOps.1 hop
    have hruns : .hookRun i.name phase hook.path none ∈ (linkPlan d o options rest).ops := by
      refine mem_linkPlan_of_interface hi hplan (mem_interfaceOps.2 (Or.inr ⟨hup, ?_⟩)) ?_
      · rcases hphase with rfl | rfl
        · exact mem_bringUpOps.2 (Or.inl hop)
        · exact mem_bringUpOps.2 (Or.inr (Or.inr hop))
      · rcases hphase with rfl | rfl <;> rfl
    obtain ⟨hlinkUp, hbefore⟩ := h.up i.name phase _ _ hphase hruns
    obtain ⟨hlock, hguard⟩ := free_of_mem hlinkUp rfl (by simp)
    refine ⟨admits_of_hook rfl hadmits hlock hguard, fun hcycle =>
      admits_linkDown o rest hadmits ?_⟩
    rcases hbefore with hdown | hsub | hsub
    · exact absurd (up_of_cycling hcycle) hdown
    · exact Or.inl (hsub.subset List.mem_cons_self)
    · exact Or.inr (hsub.subset List.mem_cons_self)

end Brackets

section Claims

variable (d : Document) (o : Observed) (options : PlanOptions) (rest : OtherPasses)

/-- A plan runs a lifecycle hook only with the transition it brackets exactly where no link that
may not be touched has a hook of that transition that may run. -/
theorem bracketed_linkPlan_iff :
    Bracketed o (linkPlan d o options rest).ops ↔ HooksFollow d o options :=
  ⟨hooksFollow_of_bracketed, bracketed_of_hooksFollow⟩

theorem no_devices : (([] : List Device).map Device.name).Nodup := by decide

/-- `global { locked = ["link:eth0"] }`, and an `eth0` that is disabled and has a `pre_down`
hook. -/
def lockedHooks : Document where
  interfaces := [{ name := "eth0", enabled := false, hooks := [⟨.preDown, "/etc/stop"⟩] }]
  locked := ["link:eth0"]
  names := by decide
  deviceNames := no_devices

theorem no_vlans : (([] : List ObservedBridgeVlan).map fun v => (v.index, v.vid)).Nodup := by decide

/-- `eth0`, up. -/
def ethernetUp : Observed where
  links := [{ name := "eth0", carrier := true }]
  vlanOnce := no_vlans

/-- The lock stops `link.down` and not the hook before it : the hook runs, at every pass. -/
theorem locked_link_runs_hooks : ¬Bracketed ethernetUp
    (linkPlan lockedHooks ethernetUp {} { others := by simp }).ops := by
  intro h
  have hruns : .hookRun "eth0" .preDown "/etc/stop" none ∈
      (linkPlan lockedHooks ethernetUp {} { others := by simp }).ops := by
    decide +kernel
  have hnone : ¬(.linkDown "eth0" ∈
        (linkPlan lockedHooks ethernetUp {} { others := by simp }).ops ∨
      .linkDelete "eth0" ∈
        (linkPlan lockedHooks ethernetUp {} { others := by simp }).ops) := by
    decide +kernel
  exact hnone (h.down _ _ _ _ (Or.inl rfl) hruns)

end Claims

end Netcfgd
