import Netcfgd.Lifecycle

/-!
# Remaking a link

A link the kernel will not change is deleted and made again in one plan, or left alone
(`AllOrNothing`) : a device still in the document is deleted only with a `link.create` after it
that waits for it, and where the delete is not let in nothing of it stops and every other pass
sees the device as it is.

`gated_recreation` is what ties the two halves together : every delete of the recreation is
marked for the creation pass to wait for. `allOrNothing_iff` says when a plan keeps to it. The
creation pass can still decline what the recreation deleted (`remade_veth_not_created`), and a
lock on the link comes after what runs on it was stopped.
-/

namespace Netcfgd

section Remake

variable (d : Document) (o : Observed) (options : PlanOptions) (rest : OtherPasses)

/-- The planning up to the recreation. -/
def beforeRecreation : Planning where
  building := Building.new.run (prepare d options) rest.early

/-- The operations of the recreation. -/
def recreationPart : List Op :=
  (recreation (prepare d options) d o (beforeRecreation d options rest)).2.ops.drop
    (beforeRecreation d options rest).ops.length

/-- What the passes after the recreation see, in the observation they are given. -/
def seenByOthers : Observed :=
  observedWithout o (recreation (prepare d options) d o (beforeRecreation d options rest)).1

/-- An op that stops a backend on a device, or runs its hooks on the way down. -/
def stopsOn (n : String) : Op → Bool
  | .backendStop _ m => m = n
  | .hookRun m phase _ _ => m = n ∧ (phase = .down ∨ phase = .postDown)
  | _ => false

/-- What is observed of a device is what there was, but for what it had with links that are
themselves remade. -/
structure SeenAsObserved (gone : List String) (seen : Observed) (n : String) : Prop where
  link : seen.link n = (o.link n).map (ObservedLink.without gone)
  present : n ∉ gone
  addresses : seen.addresses.filter (fun a => a.interface = n) =
    o.addresses.filter fun a => a.interface = n
  routes : seen.routes.filter (fun r => r.interface = n) =
    o.routes.filter fun r => r.interface = n
  backends : seen.backends.filter (fun b => b.interface = n) =
    o.backends.filter fun b => b.interface = n

structure AllOrNothing : Prop where
  /-- A device that is still in the document is deleted only to be created again. -/
  comesBack : ∀ x ∈ d.devices, x.name ∉ (prepare d options).clearing →
    ∀ a ∈ (linkPlan d o options rest).building.plan.actions, a.op = .linkDelete x.name →
      ∃ b ∈ (linkPlan d o options rest).building.plan.actions,
        b.op = .linkCreate x.name x.kind ∧ a.id < b.id ∧ a.id ∈ b.dependsOn
  /-- Where it is not deleted, nothing of it stops and it is seen as it is. -/
  leftAlone : ∀ x ∈ d.devices, .linkDelete x.name ∉ recreationPart d o options rest →
    (∀ op ∈ recreationPart d o options rest, ¬stopsOn x.name op) ∧
      SeenAsObserved o (recreation (prepare d options) d o (beforeRecreation d options rest)).1
        (seenByOthers d o options rest) x.name

/-- Every device that is remade can be created again, and a device that may not be deleted has
nothing that could be stopped before. -/
structure Remakable : Prop where
  /-- No veth that is remade has a peer that is there. -/
  created : ∀ x ∈ d.devices, x.name ∈ goneFrom d o options →
    ¬(x.kind = .veth ∧ (x.vethPeer.bind (seenAfter d o options).link).isSome)
  /-- A device the recreation gets to, with a reason to be remade. -/
  deletable : ∀ before x after, d.devices = before ++ x :: after →
    (before.filter (remade (prepare d options) o [] false)).length < recreateMax →
    (remakeReason o x).isSome → (prepare d options).admits [] false (.linkDelete x.name) ∨
      (∀ b ∈ o.backends, b.interface = x.name →
        ¬(prepare d options).admits [] false (.backendStop b.kind x.name)) ∧
      deviceHookOps (prepare d options) d [] false x .down = []

theorem recreationPart_eq : recreationPart d o options rest =
    recreationOps (prepare d options) d o [] false recreateMax d.devices := by
  have hemits := (recreation_spec d o options rest).2
  rw [recreationPart, beforeRecreation, hemits.ops, List.drop_left]

theorem gone_eq : (recreation (prepare d options) d o (beforeRecreation d options rest)).1 =
    goneFrom d o options :=
  (recreation_spec d o options rest).1

end Remake

/-! ## What is left alone -/

section LeftAlone

variable {d : Document} {o : Observed} {options : PlanOptions} {rest : OtherPasses}

theorem seenAsObserved {gone : List String} {n : String} (h : n ∉ gone) :
    SeenAsObserved o gone (observedWithout o gone) n := by
  have hkeep : ∀ {α : Type} (f : α → String) (l : List α),
      (l.filter fun a => f a ∉ gone).filter (fun a => f a = n) = l.filter fun a => f a = n := by
    intro α f l
    rw [List.filter_filter]
    refine List.filter_congr fun a _ => ?_
    by_cases ha : f a = n
    · simp [ha, h]
    · simp [ha]
  refine ⟨?_, h, hkeep ObservedAddress.interface _, hkeep ObservedRoute.interface _,
    hkeep ObservedBackend.interface _⟩
  rw [link_observedWithout, if_neg h]

theorem stopsOn_recreateOps {c : Checks} {x : Device} {n : String} {op : Op}
    (h : op ∈ recreateOps c d o [] false x) (hstops : stopsOn n op) :
    x.name = n ∧ (remakeReason o x).isSome ∧
      ((∃ b ∈ o.backends, b.interface = x.name ∧ c.admits [] false (.backendStop b.kind x.name)) ∨
        deviceHookOps c d [] false x .down ≠ [] ∨ c.admits [] false (.linkDelete x.name)) := by
  obtain ⟨hreason, ⟨b, hb, hon, h⟩ | h | ⟨hadmits, h⟩⟩ := mem_recreateOps.1 h
  · obtain ⟨rfl, hadmits⟩ := mem_admitted_iff.1 h
    exact ⟨by simpa [stopsOn] using hstops, hreason, Or.inl ⟨b, hb, hon, hadmits⟩⟩
  · refine ⟨?_, hreason, Or.inr (Or.inl (List.ne_nil_of_mem h))⟩
    obtain ⟨i, hi, hhook⟩ := List.mem_flatMap.1 h
    obtain ⟨hook, -, -, rfl, -⟩ := mem_hookOps.1 hhook
    exact (mem_deviceHookOps h).1.trans (by simpa [stopsOn] using hstops)
  · refine ⟨?_, hreason, Or.inr (Or.inr hadmits)⟩
    rcases h with rfl | h
    · simp [stopsOn] at hstops
    · obtain ⟨i, hi, hhook⟩ := List.mem_flatMap.1 h
      obtain ⟨hook, -, -, rfl, -⟩ := mem_hookOps.1 hhook
      exact (mem_deviceHookOps h).1.trans (by simpa [stopsOn] using hstops)

theorem admits_of_mem_recreationOps {c : Checks} {room : ℕ} {devices : List Device} {op : Op}
    (h : op ∈ recreationOps c d o [] false room devices) : c.admits [] false op := by
  obtain ⟨_, _, _, -, -, h⟩ := mem_recreationOps.1 h
  exact admits_of_mem_recreateOps h

/-- A device that is to be left alone is, where a device that may not be deleted has nothing
that could be stopped. -/
theorem leftAlone_of_remakable (h : Remakable d o options) {x : Device}
    (hx : .linkDelete x.name ∉ recreationPart d o options rest) :
    (∀ op ∈ recreationPart d o options rest, ¬stopsOn x.name op) ∧
      SeenAsObserved o (recreation (prepare d options) d o (beforeRecreation d options rest)).1
        (seenByOthers d o options rest) x.name := by
  rw [recreationPart_eq] at hx ⊢
  refine ⟨fun op hop hstops => hx ?_, ?_⟩
  · obtain ⟨before, y, after, hsplit, hroom, hop⟩ := mem_recreationOps.1 hop
    obtain ⟨hname, hreason, hcase⟩ := stopsOn_recreateOps hop hstops
    refine mem_recreationOps.2 ⟨before, y, after, hsplit, hroom, mem_recreateOps.2 ⟨hreason, ?_⟩⟩
    rw [← hname]
    refine Or.inr (Or.inr ⟨?_, Or.inl rfl⟩)
    rcases h.deletable before y after hsplit hroom hreason with hadmits | ⟨hbackends, hhooks⟩
    · exact hadmits
    · rcases hcase with ⟨b, hb, hon, hadmits⟩ | hne | hadmits
      · exact absurd hadmits (hbackends b hb hon)
      · exact absurd hhooks hne
      · exact hadmits
  · rw [seenByOthers, gone_eq]
    exact seenAsObserved fun hgone => hx (mem_goneFrom hgone)

/-- A device to be remade is deleted, or the recreation has nothing to stop on it. -/
theorem deletable_of_leftAlone
    (h : ∀ x ∈ d.devices, .linkDelete x.name ∉ recreationPart d o options rest →
      ∀ op ∈ recreationPart d o options rest, ¬stopsOn x.name op)
    {before after : List Device} {x : Device} (hsplit : d.devices = before ++ x :: after)
    (hroom : (before.filter (remade (prepare d options) o [] false)).length < recreateMax)
    (hreason : (remakeReason o x).isSome) :
    (prepare d options).admits [] false (.linkDelete x.name) ∨
      (∀ b ∈ o.backends, b.interface = x.name →
        ¬(prepare d options).admits [] false (.backendStop b.kind x.name)) ∧
      deviceHookOps (prepare d options) d [] false x .down = [] := by
  by_contra hnot
  obtain ⟨hrefused, hstops⟩ := not_or.1 hnot
  have hx : x ∈ d.devices := by simp [hsplit]
  have hkept : .linkDelete x.name ∉ recreationPart d o options rest := fun hmem => by
    rw [recreationPart_eq] at hmem
    exact hrefused (admits_of_mem_recreationOps hmem)
  have hnone := h x hx hkept
  rw [recreationPart_eq] at hnone
  have hpart : ∀ op ∈ recreateOps (prepare d options) d o [] false x, ¬stopsOn x.name op :=
    fun op hop => hnone op (mem_recreationOps.2 ⟨before, x, after, hsplit, hroom, hop⟩)
  refine hstops ⟨fun b hb hon hadmits => ?_, List.eq_nil_iff_forall_not_mem.2 fun op hop => ?_⟩
  · refine hpart (.backendStop b.kind x.name) (mem_recreateOps.2 ⟨hreason, Or.inl
      ⟨b, hb, hon, mem_admitted_iff.2 ⟨rfl, hadmits⟩⟩⟩) ?_
    simp [stopsOn]
  · refine hpart op (mem_recreateOps.2 ⟨hreason, Or.inr (Or.inl hop)⟩) ?_
    obtain ⟨i, hi, hhook⟩ := List.mem_flatMap.1 hop
    obtain ⟨hook, -, -, rfl, -⟩ := mem_hookOps.1 hhook
    simp [stopsOn, (mem_deviceHookOps hop).1]

end LeftAlone

/-! ## What comes back -/

section ComesBack

variable {c : Checks} {d : Document} {o : Observed} {options : PlanOptions} {rest : OtherPasses}

def Gated (gates : List (String × Option ℕ)) (s : Planning) : Prop :=
  ∀ a ∈ s.building.plan.actions, ∀ n, a.op = .linkDelete n → (n, some a.id) ∈ gates

theorem gates_foldl {α β : Type*} {f : β × Planning → α → β × Planning}
    (h : ∀ acc a, (f acc a).2.gates = acc.2.gates) :
    ∀ (l : List α) (acc : β × Planning), (l.foldl f acc).2.gates = acc.2.gates
  | [], _ => rfl
  | a :: l, acc => (gates_foldl h l (f acc a)).trans (h acc a)

theorem gates_deviceHooks (x : Device) (phase : HookPhase) (dependsOn : List (Option ℕ))
    (s : Planning) : (deviceHooks c d x phase dependsOn s).2.gates = s.gates := by
  unfold deviceHooks planHooks
  rcases d.interface x.name with _ | i
  · rfl
  · refine gates_foldl (fun acc h => ?_) _ ([], s)
    rfl

theorem gates_stopBackends (x : Device) (reason : Reason) (s : Planning) :
    (stopBackends c o x reason s).2.gates = s.gates := by
  refine gates_foldl (fun acc b => ?_) _ ([], s)
  rfl

section Gated

variable {s s' : Planning} {declined : List String} {tearingDown : Bool}
  {gates : List (String × Option ℕ)}

theorem Gated.emits {ops : List Op} (h : Gated gates s)
    (hemits : Emits declined tearingDown s s' ops)
    (hnone : ∀ n, .linkDelete n ∉ ops) : Gated gates s' := by
  obtain ⟨new, hnew, rfl⟩ := hemits.actions
  intro a ha n hop
  rw [hnew] at ha
  rcases List.mem_append.1 ha with ha | ha
  · exact h a ha n hop
  · exact absurd (List.mem_map.2 ⟨a, ha, hop⟩) (hnone n)

theorem Gated.push (h : Gated gates s) (n : String) (reason : Reason)
    (dependsOn : List (Option ℕ)) :
    Gated (gates ++ [(n, (s.push c (.linkDelete n) reason dependsOn none).1)])
      (s.push c (.linkDelete n) reason dependsOn none).2 := by
  intro a ha m hop
  rcases push_cases (c := c) (b := s.building) (.linkDelete n) reason dependsOn none with
    ⟨hplan, -⟩ | ⟨hadmitted, hplan, hanswers⟩
  · simp only [Planning.push, hplan] at ha
    exact List.mem_append_left _ (h a ha m hop)
  · have hid : (s.push c (.linkDelete n) reason dependsOn none).1 =
        some s.building.plan.actions.length := by
      simp [Planning.push, hanswers]
    simp only [Planning.push, hplan, Plan.add] at ha
    rcases List.mem_append.1 ha with ha | ha
    · exact List.mem_append_left _ (h a ha m hop)
    · obtain rfl := List.mem_singleton.1 ha
      obtain rfl := Op.linkDelete.inj hop
      rw [hid]
      exact List.mem_append_right _ (List.mem_singleton.2 rfl)

theorem linkDelete_notMem_deviceHookOps {x : Device} {phase : HookPhase} (n : String) :
    .linkDelete n ∉ deviceHookOps c d declined tearingDown x phase := by
  simp [deviceHookOps, mem_hookOps]

end Gated

theorem gated_recreateDevice {acc : List String × Planning} (h : Gated acc.2.gates acc.2)
    (hs : acc.2.building.declined = [] ∧ acc.2.building.tearingDown = false) (x : Device) :
    Gated (recreateDevice c d o acc x).2.gates (recreateDevice c d o acc x).2 := by
  unfold recreateDevice
  split_ifs with hroom
  · split
    · exact h
    · rename_i field wanted seen hreason
      dsimp only
      have h1 := emits_stopBackends (c := c) (o := o) hs x
        ⟨some x.name, field, wanted ++ ", which needs " ++ x.name ++ " remade", seen⟩
      have hg1 := gates_stopBackends (c := c) (o := o) x
        ⟨some x.name, field, wanted ++ ", which needs " ++ x.name ++ " remade", seen⟩ acc.2
      have hgated1 := h.emits h1 (fun n => by simp [mem_admitted_iff])
      generalize stopBackends c o x
        ⟨some x.name, field, wanted ++ ", which needs " ++ x.name ++ " remade", seen⟩ acc.2 = r1
        at h1 hg1 hgated1 ⊢
      have h2 := emits_deviceHooks (c := c) (d := d) h1.after x .down r1.1
      have hg2 := gates_deviceHooks (c := c) (d := d) x .down r1.1 r1.2
      have hgated2 := hgated1.emits h2 linkDelete_notMem_deviceHookOps
      generalize deviceHooks c d x .down r1.1 r1.2 = r2 at h2 hg2 hgated2 ⊢
      have hgated3 := hgated2.push (c := c) x.name ⟨some x.name, field, wanted, seen⟩ (r1.1 ++ r2.1)
      have h3 := emits_push (c := c) h2.after (.linkDelete x.name)
        ⟨some x.name, field, wanted, seen⟩ (r1.1 ++ r2.1) none
      have hg3 : (r2.2.push c (.linkDelete x.name) ⟨some x.name, field, wanted, seen⟩
          (r1.1 ++ r2.1) none).2.gates = acc.2.gates := hg2.trans hg1
      have hfst := push_isSome (c := c) h2.after (.linkDelete x.name)
        ⟨some x.name, field, wanted, seen⟩ (r1.1 ++ r2.1) none
      generalize r2.2.push c (.linkDelete x.name) ⟨some x.name, field, wanted, seen⟩
        (r1.1 ++ r2.1) none = r3 at hgated3 h3 hg3 hfst ⊢
      split_ifs with hid
      · dsimp only
        rw [gates_deviceHooks, hg3]
        exact hgated3.emits ((emits_deviceHooks h3.after x .postDown [r3.1]).marks rfl)
          linkDelete_notMem_deviceHookOps
      · rw [hg3]
        rw [hfst] at hid
        refine hgated2.emits h3 fun n => ?_
        rw [Checks.admitted, if_neg hid]
        simp
  · exact h

theorem gated_recreation :
    ∀ (devices : List Device) (acc : List String × Planning), Gated acc.2.gates acc.2 →
      acc.2.building.declined = [] ∧ acc.2.building.tearingDown = false →
      Gated (devices.foldl (recreateDevice c d o) acc).2.gates
        (devices.foldl (recreateDevice c d o) acc).2
  | [], _, h, _ => h
  | x :: devices, acc, h, hs => by
    refine gated_recreation devices _ (gated_recreateDevice h hs x) ?_
    by_cases hroom : acc.1.length < recreateMax
    · exact (emits_recreateDevice hroom hs x).2.after
    · rw [recreateDevice, if_neg hroom]
      exact hs

variable (rest) in
theorem gated_beforeRecreation : Gated [] (beforeRecreation d options rest) := by
  intro a ha n hop
  have hmoves := (moves_early d options rest).transitions
  have hmem : .linkDelete n ∈ (beforeRecreation d options rest).transitions :=
    List.mem_filter.2 ⟨List.mem_map.2 ⟨a, ha, hop⟩, rfl⟩
  rw [beforeRecreation, hmoves] at hmem
  simp [Planning.transitions, Planning.ops, Building.new, Plan.empty] at hmem

theorem gates_linkCreation (s : Planning) (x : Device) :
    s.gates ⊆ (linkCreation c o s x).gates := by
  unfold linkCreation
  split_ifs
  · exact List.Subset.refl _
  · exact List.Subset.refl _
  · exact List.Subset.refl _
  · exact List.subset_append_left _ _

variable {x : Device}

theorem linkCreation_pushed {s : Planning} (habsent : o.link x.name = none)
    (hkind : recreatableKind x ≠ none) (hdeclines : ¬declines o x)
    (hadmits : c.admits s.building.declined s.building.tearingDown (.linkCreate x.name x.kind)) :
    ∃ b ∈ (linkCreation c o s x).building.plan.actions, b.op = .linkCreate x.name x.kind ∧
      b.id = s.building.plan.actions.length ∧
      ∀ id, (x.name, some id) ∈ s.gates → id ∈ b.dependsOn := by
  have hmade : ¬(x.kind = .pppoe ∨ x.kind = .openvpn ∨ x.kind = .physical) := by
    rintro (h | h | h) <;> simp [recreatableKind, h] at hkind
  have hveth : ¬(x.kind = .veth ∧ (x.vethPeer.bind o.link).isSome) :=
    fun h => hdeclines (declines_iff.2 ⟨habsent, h⟩)
  unfold linkCreation
  rw [if_neg (by simp [habsent]), if_neg hmade, if_neg hveth]
  rcases push_cases (c := c) (b := s.building) (.linkCreate x.name x.kind)
    (reasonAbsent x.name "kind" (kindWord x)) (s.gate x.name) (some (.linkDelete x.name)) with
    ⟨-, hanswers⟩ | ⟨-, hplan, -⟩
  · have hfst := push_fst (c := c) (s := s) (.linkCreate x.name x.kind)
      (reasonAbsent x.name "kind" (kindWord x)) (s.gate x.name) (some (.linkDelete x.name))
    rw [if_pos hadmits, Planning.push] at hfst
    simp [hanswers] at hfst
  · simp only [Planning.push, hplan, Plan.add]
    refine ⟨_, List.mem_append_right _ (List.mem_singleton.2 rfl), rfl, rfl, fun id hid => ?_⟩
    refine List.mem_filterMap.2 ⟨some id, List.mem_map.2 ⟨(x.name, some id), ?_, rfl⟩, rfl⟩
    exact List.mem_filter.2 ⟨hid, by simp⟩

theorem exists_linkCreate (habsent : o.link x.name = none)
    (hkind : recreatableKind x ≠ none) (hdeclines : ¬declines o x)
    (hadmits : c.admits [] false (.linkCreate x.name x.kind)) :
    ∀ (devices : List Device) (s : Planning), x ∈ devices → (devices.map Device.name).Nodup →
      (x.name ∉ s.building.declined ∧ s.building.tearingDown = false) →
      ∃ b ∈ (devices.foldl (linkCreation c o) s).building.plan.actions,
        b.op = .linkCreate x.name x.kind ∧
          ∀ id < s.building.plan.actions.length, (x.name, some id) ∈ s.gates →
            id < b.id ∧ id ∈ b.dependsOn
  | [], s, hx, _, _ => by simp at hx
  | y :: devices, s, hx, hnodup, hs => by
    rw [List.map_cons, List.nodup_cons] at hnodup
    rcases List.mem_cons.1 hx with rfl | hx
    · -- its turn : it is pushed, and waits for the marks there are
      have hpush : c.admits s.building.declined s.building.tearingDown
          (.linkCreate x.name x.kind) := by
        rw [admits_iff] at hadmits ⊢
        refine ⟨?_, hadmits.2⟩
        have hover := hadmits.1
        simp only [Checks.passesOver, Op.interface, Option.any_some, decide_eq_false_iff_not,
          not_or] at hover ⊢
        exact ⟨hs.2 ▸ hover.1, hs.1⟩
      obtain ⟨b, hb, hop, hid, hwaits⟩ := linkCreation_pushed habsent hkind hdeclines hpush
      obtain ⟨⟨new, hnew, -⟩, -⟩ := linkCreation_foldl (c := c) (o := o) devices
        (linkCreation c o s x)
      refine ⟨b, ?_, hop, fun id hlt hgate => ⟨hid ▸ hlt, hwaits id hgate⟩⟩
      rw [List.foldl_cons, hnew]
      exact List.mem_append_left _ hb
    · obtain ⟨⟨new, hnew, -⟩, hdeclined, htearing⟩ := linkCreation_spec (c := c) (o := o) s y
      have hne : y.name ≠ x.name := fun h =>
        hnodup.1 (h ▸ List.mem_map_of_mem (f := Device.name) hx)
      obtain ⟨b, hb, hop, hwaits⟩ := exists_linkCreate habsent hkind hdeclines hadmits devices
        (linkCreation c o s y) hx hnodup.2 ⟨by
          rw [hdeclined]
          split_ifs <;> simp [hs.1, hne.symm], htearing.trans hs.2⟩
      refine ⟨b, hb, hop, fun id hid hgate => hwaits id ?_ (gates_linkCreation s y hgate)⟩
      rw [hnew, List.length_append]
      omega

theorem exists_remade {n : String} : ∀ {devices : List Device} {room : ℕ},
    .linkDelete n ∈ recreationOps c d o [] false room devices →
      ∃ x ∈ (devices.filter (remade c o [] false)).take room, x.name = n
  | [], room, h => by simp [recreationOps] at h
  | y :: devices, 0, h => by simp [recreationOps] at h
  | y :: devices, room + 1, h => by
    rw [recreationOps, List.mem_append] at h
    rw [List.filter_cons]
    rcases h with h | h
    · obtain ⟨hreason, ⟨b, -, -, h⟩ | h | ⟨hadmits, h | h⟩⟩ := mem_recreateOps.1 h
      · simp [mem_admitted_iff] at h
      · exact absurd h (linkDelete_notMem_deviceHookOps n)
      · have hremade : remade c o [] false y = true := by
          rw [remade, hreason, hadmits]
          rfl
        rw [if_pos hremade, List.take_succ_cons]
        exact ⟨y, List.mem_cons_self, (Op.linkDelete.inj h).symm⟩
      · exact absurd h (linkDelete_notMem_deviceHookOps n)
    · split_ifs at h ⊢
      · obtain ⟨x, hx, hname⟩ := exists_remade h
        exact ⟨x, by rw [List.take_succ_cons]; exact List.mem_cons_of_mem _ hx, hname⟩
      · exact exists_remade h

theorem marked_of_linkDelete (hx : x ∈ d.devices)
    (hclear : x.name ∉ (prepare d options).clearing) {a : Action}
    (ha : a ∈ (linkPlan d o options rest).building.plan.actions) (hop : a.op = .linkDelete x.name) :
    a ∈ (recreation (prepare d options) d o
        (beforeRecreation d options rest)).2.building.plan.actions ∧
      (x.name, some a.id) ∈
        (recreation (prepare d options) d o (beforeRecreation d options rest)).2.gates := by
  obtain ⟨creates, deletes, hmoves, hcreates, hdeletes⟩ := moves_afterRecreation d o options rest
  obtain ⟨new, hnew, hops⟩ := hmoves.actions
  have hgated := gated_recreation (c := prepare d options) (d := d) (o := o) d.devices
    ([], beforeRecreation d options rest) (gated_beforeRecreation rest)
      (moves_early d options rest).after
  rw [hnew] at ha
  rcases List.mem_append.1 ha with ha | ha
  · exact ⟨ha, hgated a ha x.name hop⟩
  · -- nothing after the recreation deletes a device of the document
    have hmem : .linkDelete x.name ∈ (new.map Action.op).filter Op.isTransition :=
      List.mem_filter.2 ⟨List.mem_map.2 ⟨a, ha, hop⟩, rfl⟩
    rw [hops] at hmem
    simp only [List.mem_append] at hmem
    rcases hmem with (h | h | h) | h
    · obtain ⟨y, -, h, -⟩ := hcreates _ h
      cases h
    · obtain ⟨y, -, h⟩ := List.mem_flatMap.1 h
      unfold deviceUpOps at h
      split_ifs at h
      · simp at h
      · simp [mem_admitted_iff] at h
    · obtain ⟨i, -, h⟩ := List.mem_flatMap.1 h
      unfold contentsTransitions at h
      split_ifs at h
      · simp [mem_interfaceOps, mem_disableOps, mem_bringUpOps, mem_hookOps, withdrawOps,
          mem_admitted_iff] at h
      · simp at h
    · obtain ⟨n, h, -, hgone⟩ := hdeletes _ h
      exact absurd (Op.linkDelete.inj h) (hgone x hx hclear)

theorem remade_of_mem_goneFrom (hx : x ∈ d.devices) (h : x.name ∈ goneFrom d o options) :
    remade (prepare d options) o [] false x := by
  obtain ⟨y, hy, hname⟩ := List.mem_map.1 h
  obtain ⟨hmem, hremade⟩ := List.mem_filter.1 (List.mem_of_mem_take hy)
  rwa [← List.inj_on_of_nodup_map d.deviceNames hmem hx hname]

theorem mem_linkPlan_of_creation {b : Action}
    (h : b ∈ (d.devices.foldl (linkCreation (prepare d options) (seenAfter d o options))
      (recreation (prepare d options) d o
        (beforeRecreation d options rest)).2).building.plan.actions) :
    b ∈ (linkPlan d o options rest).building.plan.actions := by
  obtain ⟨creates, hcreation, -⟩ := moves_creation (c := prepare d options) (d := d)
    (o := seenAfter d o options) (recreation_spec d o options rest).2.after
  have hforward := moves_afterCreation (c := prepare d options) (d := d)
    (o := seenAfter d o options) options rest hcreation.after
  obtain ⟨deletes, hteardown, -⟩ := moves_linkTeardown (c := prepare d options) (d := d)
    (o := seenAfter d o options) hforward.after.1 rest
  obtain ⟨new, hnew, -⟩ := (hforward.trans hteardown).actions
  rw [linkPlan_eq, hnew]
  exact List.mem_append_left _ h

theorem mem_goneFrom_of_delete {a : Action} (ha : a ∈ (recreation (prepare d options) d o
      (beforeRecreation d options rest)).2.building.plan.actions)
    (hop : a.op = .linkDelete x.name) : x.name ∈ goneFrom d o options := by
  obtain ⟨new, hnew, hops⟩ := (recreation_spec d o options rest).2.actions
  rw [beforeRecreation, hnew] at ha
  rcases List.mem_append.1 ha with ha | ha
  · exact absurd (gated_beforeRecreation rest a ha x.name hop) (by simp)
  · have hmem : .linkDelete x.name ∈ new.map Action.op := List.mem_map.2 ⟨a, ha, hop⟩
    rw [hops] at hmem
    exact List.mem_map.2 (exists_remade hmem)

theorem admits_linkCreate {n : String} {kind : LinkKind} (h : c.admits [] false (.linkDelete n)) :
    c.admits [] false (.linkCreate n kind) := by
  obtain ⟨hover, hlock, -⟩ := admits_iff.1 h
  exact admits_iff.2 ⟨hover, hlock, rfl⟩

theorem notMem_clearing {n : String}
    (h : (prepare d options).admits [] false (.linkDelete n)) :
    n ∉ (prepare d options).clearing := by
  have hover := (admits_iff.1 h).1
  simp only [Checks.passesOver, Op.interface, Option.any_some, decide_eq_false_iff_not, not_or]
    at hover
  intro hclear
  obtain ⟨x, hx, rfl⟩ := List.mem_map.1 hclear
  obtain ⟨hmem, hcond⟩ := List.mem_filter.1 hx
  rw [Bool.and_eq_true] at hcond
  exact hover.1 ⟨List.mem_map.2 ⟨x, List.mem_filter.2 ⟨hmem, hcond.1⟩, rfl⟩, by simp⟩

/-- A remakable device that is deleted comes back. -/
theorem comesBack_of_remakable (h : Remakable d o options) (hx : x ∈ d.devices)
    (hclear : x.name ∉ (prepare d options).clearing) {a : Action}
    (ha : a ∈ (linkPlan d o options rest).building.plan.actions) (hop : a.op = .linkDelete x.name) :
    ∃ b ∈ (linkPlan d o options rest).building.plan.actions,
      b.op = .linkCreate x.name x.kind ∧ a.id < b.id ∧ a.id ∈ b.dependsOn := by
  obtain ⟨hmem, hgate⟩ := marked_of_linkDelete hx hclear ha hop
  have hgone := mem_goneFrom_of_delete hmem hop
  have hremade := remade_of_mem_goneFrom hx hgone
  rw [remade, Bool.and_eq_true] at hremade
  have habsent : (seenAfter d o options).link x.name = none := by
    rw [seenAfter, link_observedWithout, if_pos hgone]
  have hkind : recreatableKind x ≠ none := by
    intro hnone
    obtain ⟨reason, hreason⟩ := Option.isSome_iff_exists.1 hremade.1
    obtain ⟨link, -, hlink⟩ := Option.bind_eq_some_iff.1 hreason
    split_ifs at hlink
    simp [recreationReason, hnone] at hlink
  have hdeclines : ¬declines (seenAfter d o options) x :=
    fun hd => h.created x hx hgone (declines_iff.1 hd).2
  have hafter := (recreation_spec d o options rest).2.after
  obtain ⟨b, hb, hbop, hwaits⟩ := exists_linkCreate habsent hkind hdeclines
    (admits_linkCreate hremade.2) d.devices
    (recreation (prepare d options) d o (beforeRecreation d options rest)).2 hx d.deviceNames
    ⟨by rw [beforeRecreation, hafter.1]; simp, hafter.2⟩
  have hlt : a.id < (recreation (prepare d options) d o
      (beforeRecreation d options rest)).2.building.plan.actions.length := by
    obtain ⟨n, hn, rfl⟩ := List.getElem_of_mem hmem
    rw [Plan.ids]
    exact hn
  refine ⟨b, ?_, hbop, hwaits a.id hlt hgate⟩
  exact mem_linkPlan_of_creation hb

/-- What comes back is no veth whose peer still stands. -/
theorem created_of_comesBack (h : ∀ x ∈ d.devices, x.name ∉ (prepare d options).clearing →
      ∀ a ∈ (linkPlan d o options rest).building.plan.actions, a.op = .linkDelete x.name →
        ∃ b ∈ (linkPlan d o options rest).building.plan.actions,
          b.op = .linkCreate x.name x.kind ∧ a.id < b.id ∧ a.id ∈ b.dependsOn)
    (hx : x ∈ d.devices) (hgone : x.name ∈ goneFrom d o options) :
    ¬(x.kind = .veth ∧ (x.vethPeer.bind (seenAfter d o options).link).isSome) := by
  intro hveth
  have habsent : (seenAfter d o options).link x.name = none := by
    rw [seenAfter, link_observedWithout, if_pos hgone]
  have hdelete := mem_linkPlan_of_recreation rest (mem_goneFrom hgone) rfl
  obtain ⟨a, ha, hop⟩ := List.mem_map.1 hdelete
  have hremade := remade_of_mem_goneFrom hx hgone
  rw [remade, Bool.and_eq_true] at hremade
  obtain ⟨b, hb, hbop, -⟩ := h x hx (notMem_clearing hremade.2) a ha hop
  rcases mem_linkPlan (List.mem_map.2 ⟨b, hb, hbop⟩) rfl with
    h | ⟨y, hy, h, hdeclines⟩ | ⟨n, h, -⟩ | ⟨i, -, -, h⟩ | ⟨n, h, -⟩
  · obtain ⟨_, y, _, -, -, h⟩ := mem_recreationOps.1 h
    obtain ⟨-, ⟨_, -, -, h⟩ | h | ⟨-, h | h⟩⟩ := mem_recreateOps.1 h
    · simp [mem_admitted_iff] at h
    · simp [deviceHookOps, mem_hookOps] at h
    · cases h
    · simp [deviceHookOps, mem_hookOps] at h
  · have hname := (Op.linkCreate.inj h).1
    obtain rfl := List.inj_on_of_nodup_map d.deviceNames hx hy hname
    exact hdeclines (declines_iff.2 ⟨habsent, hveth⟩)
  · cases h
  · simp [mem_interfaceOps, mem_disableOps, mem_bringUpOps, mem_hookOps, withdrawOps,
      mem_admitted_iff] at h
  · cases h

end ComesBack

section Whole

variable (d : Document) (o : Observed) (options : PlanOptions) (rest : OtherPasses)

/-- Remaking a link is all or nothing exactly where what is deleted can be created, and what
may not be deleted has nothing that could be stopped before. -/
theorem allOrNothing_iff : AllOrNothing d o options rest ↔ Remakable d o options := by
  constructor
  · intro h
    exact ⟨fun x hx hgone => created_of_comesBack h.comesBack hx hgone,
      fun before x after hsplit hroom hreason =>
        deletable_of_leftAlone (fun x hx hkept => (h.leftAlone x hx hkept).1) hsplit hroom hreason⟩
  · intro h
    exact ⟨fun x hx hclear a ha hop => comesBack_of_remakable h hx hclear ha hop,
      fun x _ hkept => leftAlone_of_remakable h hkept⟩

/-- A `w0` that was a dummy and is now to be a veth, its peer named like a port that exists. -/
def renamedPeer : Document where
  devices := [{ name := "w0", kind := .veth, vethPeer := some "eth0" }]
  names := by decide

def dummyAndPort : Observed where
  links := [{ name := "w0", carrier := true, kind := "dummy", ownership := .ours },
    { name := "eth0", carrier := true }]
  vlanOnce := no_vlans

/-- The dummy is deleted, and the veth is not created. -/
theorem remade_veth_not_created :
    ¬AllOrNothing renamedPeer dummyAndPort {} { others := by simp } := by
  intro h
  have hdelete : ∃ a ∈ (linkPlan renamedPeer dummyAndPort {}
      { others := by simp }).building.plan.actions, a.op = .linkDelete "w0" := by
    decide +kernel
  have hcreate : ¬∃ b ∈ (linkPlan renamedPeer dummyAndPort {}
      { others := by simp }).building.plan.actions, b.op = .linkCreate "w0" .veth := by
    decide +kernel
  obtain ⟨a, ha, hop⟩ := hdelete
  obtain ⟨b, hb, hbop, -⟩ := h.comesBack _ (List.mem_singleton.2 rfl) (by decide) a ha hop
  exact hcreate ⟨b, hb, hbop⟩

end Whole

end Netcfgd
