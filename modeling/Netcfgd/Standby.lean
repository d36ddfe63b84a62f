import Netcfgd.PlanAddress

/-!
# What a linkset holds in reserve

A linkset is a ranked list of links with one in use. `standby.c` turns the choice of every
set into the interfaces whose routes are withheld : the interfaces its members stand on, less
those that some set is using.

`Behind d o S x` : the interface `x` carries a member of the set `S`, of a set that is a
member of it, and so on down. The interfaces on standby are those behind some set that no set
chose (`isStandby_iff`).

A set is decided apart from the sets it is a member of, and its choice excuses an interface
whatever the outer set settled on. So a set uses one link at a time (`OneInUse`) exactly
where the sets nested inside it settle on nothing but its own choice (`oneInUse_iff`). With
`uplink = [eth0, spare]` and `spare = [wlan0]`, `uplink` uses `eth0` and `wlan0` keeps its
routes (`nested_choice_not_on_standby`).
-/

namespace Netcfgd

variable (d : Document) (o : Observed)

variable {name x : String}

/-! ## Sets and the interfaces behind them -/

/-- The interface that carries a member that is no set : the radio on a network, and else the
interface itself. -/
def carriedBy (member : String) : Option String :=
  if (d.network member).isSome then
    (o.links.find? fun l => l.network = some member).map ObservedLink.name
  else (o.link member).map fun _ => member

/-- `x` carries a member of the set `name`, directly or through the sets inside it. -/
inductive Behind : String → String → Prop
  | member {name : String} {set : Linkset} {m x : String} (hset : d.linkset name = some set)
      (hm : m ∈ set.members) (hno : d.linkset m = none) (hx : carriedBy d o m = some x) :
      Behind name x
  | nested {name : String} {set : Linkset} {m x : String} (hset : d.linkset name = some set)
      (hm : m ∈ set.members) (hin : Behind m x) : Behind name x

/-- The set `inner` is a member of the set `outer`. -/
def MemberSet (outer inner : String) : Prop :=
  ∃ set, d.linkset outer = some set ∧ inner ∈ set.members ∧ (d.linkset inner).isSome

/-- The set `inner` is inside the set `outer`, at any depth. -/
def Nested : String → String → Prop :=
  Relation.TransGen (MemberSet d)

/-- A set that stands in no other. -/
def Outermost (name : String) : Prop :=
  (d.linkset name).isSome ∧ ∀ set ∈ d.linksets, name ∉ set.members

/-- The interface a set has chosen. -/
def chosenInterface (name : String) : Option String :=
  (linksetChoose d o name).bind Chosen.interface

/-- An interface that is held back. -/
def IsStandby (name : String) : Prop :=
  (standbyOf (standbyCollect d o) name).isSome

variable {d o}

theorem linkset_name {set : Linkset} (h : d.linkset name = some set) :
    set.name = name := by
  simpa using List.find?_some h

theorem mem_of_linkset {set : Linkset} (h : d.linkset name = some set) :
    set ∈ d.linksets :=
  List.mem_of_find?_eq_some h

/-- What is behind an inner set is behind the outer. -/
theorem behind_of_nested {outer inner : String} (h : Nested d outer inner)
    (hin : Behind d o inner x) : Behind d o outer x := by
  induction h using Relation.TransGen.head_induction_on with
  | single hm =>
    obtain ⟨set, hset, hmem, -⟩ := hm
    exact .nested hset hmem hin
  | head hm _ ih =>
    obtain ⟨set, hset, hmem, -⟩ := hm
    exact .nested hset hmem ih

theorem link_of_behind (h : Behind d o name x) : (o.link x).isSome := by
  induction h with
  | member _ _ _ hx =>
    unfold carriedBy at hx
    split_ifs at hx
    · obtain ⟨l, hl, rfl⟩ := Option.map_eq_some_iff.1 hx
      simp only [Observed.link, List.find?_isSome, decide_eq_true_eq]
      exact ⟨l, List.mem_of_find?_eq_some hl, rfl⟩
    · obtain ⟨l, hl, rfl⟩ := Option.map_eq_some_iff.1 hx
      rw [hl]
      rfl
  | nested _ _ _ ih => exact ih

/-! ## What a set's choice stands on -/

theorem interface_standOnNetwork (member : String) :
    (standOnNetwork d o member).interface =
      (o.links.find? fun l => l.network = some member).map ObservedLink.name := by
  unfold standOnNetwork
  split <;> simp_all

theorem interface_standOnInterface (member : String) :
    (standOnInterface d o member).interface = (o.link member).map fun _ => member := by
  unfold standOnInterface
  split <;> simp_all

theorem interface_stand {within : List String} {nested : String → Option (Option Chosen)}
    {member : String} (h : d.linkset member = none) :
    (stand d o within nested member).interface = carriedBy d o member := by
  simp only [stand, h, Option.isSome_none, Bool.false_eq_true, if_false, carriedBy]
  split_ifs
  · exact interface_standOnNetwork member
  · exact interface_standOnInterface member

theorem exists_of_standOnSet {within : List String} {nested : String → Option (Option Chosen)}
    {member : String} (h : (standOnSet within nested member).interface = some x) :
    ∃ inner, nested member = some (some inner) ∧ inner.interface = some x := by
  unfold standOnSet at h
  split_ifs at h
  split at h
  · cases h
  · cases h
  · next inner hinner =>
    refine ⟨inner, hinner, ?_⟩
    split at h <;> exact h

theorem mem_of_bestStanding {members : List Standing} {s : Standing}
    (h : bestStanding members = some s) : s ∈ members := by
  have hfold : ∀ f : Option Standing → Standing → Option Standing,
      (∀ best m, f best m = best ∨ f best m = some m) → ∀ (l : List Standing) best,
      l.foldl f best = some s → best = some s ∨ s ∈ l := by
    intro f hf l
    induction l with
    | nil => exact fun best h => Or.inl h
    | cons m l ih =>
      intro best h
      rw [List.foldl_cons] at h
      rcases ih _ h with h | h
      · rcases hf best m with heq | heq
        · exact Or.inl (heq.symm.trans h)
        · exact Or.inr (by simp [Option.some_inj.1 (heq.symm.trans h)])
      · exact Or.inr (List.mem_cons_of_mem _ h)
  unfold bestStanding at h
  refine (hfold _ (fun best m => ?_) members none h).resolve_left (by simp)
  split_ifs
  · exact Or.inl rfl
  · cases best with
    | none => exact Or.inr rfl
    | some b =>
      dsimp only
      split_ifs
      · exact Or.inr rfl
      · exact Or.inl rfl

theorem exists_member_of_interface {set : Linkset} {members : List Standing}
    (h : (chooseAmong set members).interface = some x) :
    ∃ s ∈ members, s.interface = some x := by
  obtain ⟨s, hs, hx⟩ := Option.bind_eq_some_iff.1 h
  exact ⟨s, mem_of_bestStanding hs, hx⟩

theorem chooseWithin_eq {depth : ℕ} {within : List String} {c : Chosen}
    (h : chooseWithin d o depth within name = some c) : ∃ set nested, d.linkset name = some set ∧
      c = chooseAmong set (set.members.map (stand d o within nested)) := by
  cases depth <;> obtain ⟨set, hset, rfl⟩ := Option.map_eq_some_iff.1 h <;>
    exact ⟨set, _, hset, rfl⟩

theorem behind_of_chooseWithin :
    ∀ (depth : ℕ) {within : List String} {name : String} {c : Chosen},
      chooseWithin d o depth within name = some c →
        ∀ s ∈ c.members, ∀ x, s.interface = some x → Behind d o name x := by
  have hmember : ∀ {name : String} {set : Linkset}, d.linkset name = some set →
      ∀ {within : List String} {nested : String → Option (Option Chosen)},
      (∀ m inner, nested m = some (some inner) → ∀ x, inner.interface = some x →
        Behind d o m x) → ∀ m ∈ set.members, ∀ x,
        (stand d o within nested m).interface = some x → Behind d o name x := by
    intro name set hset within nested hnested m hm x hx
    cases hno : d.linkset m with
    | none => exact .member hset hm hno (by rw [← hx, interface_stand hno])
    | some inner =>
      simp only [stand, hno, Option.isSome_some, if_true] at hx
      obtain ⟨c, hc, hcx⟩ := exists_of_standOnSet hx
      exact .nested hset hm (hnested m c hc x hcx)
  intro depth
  induction depth with
  | zero =>
    intro within name c hc s hs x hx
    obtain ⟨set, hset, rfl⟩ := Option.map_eq_some_iff.1 hc
    obtain ⟨m, hm, rfl⟩ := List.mem_map.1 hs
    exact hmember hset (fun m inner h => by cases h) m hm x hx
  | succ depth ih =>
    intro within name c hc s hs x hx
    obtain ⟨set, hset, rfl⟩ := Option.map_eq_some_iff.1 hc
    obtain ⟨m, hm, rfl⟩ := List.mem_map.1 hs
    refine hmember hset (fun m inner h x hx => ?_) m hm x hx
    have hinner := Option.some_inj.1 h
    obtain ⟨set', nested, -, rfl⟩ := chooseWithin_eq hinner
    obtain ⟨s, hs, hsx⟩ := exists_member_of_interface hx
    exact ih hinner s hs x hsx

/-- What a set has chosen is behind it. -/
theorem behind_of_chosenInterface (h : chosenInterface d o name = some x) :
    Behind d o name x := by
  obtain ⟨c, hc, hx⟩ := Option.bind_eq_some_iff.1 h
  obtain ⟨set, nested, -, rfl⟩ := chooseWithin_eq hc
  obtain ⟨s, hs, hsx⟩ := exists_member_of_interface hx
  exact behind_of_chooseWithin _ hc s hs x hsx

/-! ## What is on standby -/

def memberInterfaces (d : Document) (o : Observed) (set : Linkset) : List String :=
  ((linksetChoose d o set.name).map Chosen.members).getD [] |>.filterMap Standing.interface

theorem mem_map_reserve {standby : List Standby} {s : Standby} :
    x ∈ (reserve standby s).map Standby.interface ↔
      x ∈ standby.map Standby.interface ∨ x = s.interface := by
  have hkeeps : ∀ old : Standby,
      Standby.interface { old with set := s.set, instead := s.instead } = Standby.interface old :=
    fun _ => rfl
  rw [reserve, KeyedList.map_bump s _ hkeeps]
  split_ifs with h
  · refine ⟨Or.inl, ?_⟩
    rintro (hx | rfl)
    · exact hx
    · exact h
  · simp

theorem mem_map_foldl_reserve {set : String} {instead : Option String} :
    ∀ (names : List String) (standby : List Standby),
      x ∈ (names.foldl (fun l m => reserve l ⟨m, set, instead⟩) standby).map Standby.interface ↔
        x ∈ standby.map Standby.interface ∨ x ∈ names
  | [], standby => by simp
  | m :: names, standby => by
    rw [List.foldl_cons, mem_map_foldl_reserve names, mem_map_reserve, List.mem_cons, or_assoc]

theorem mem_collectSet {acc : List Standby × List String} {set : Linkset} :
    (x ∈ (collectSet d o acc set).1.map Standby.interface ↔
      x ∈ acc.1.map Standby.interface ∨ x ∈ memberInterfaces d o set) ∧
    (x ∈ (collectSet d o acc set).2 ↔
      x ∈ acc.2 ∨ chosenInterface d o set.name = some x) := by
  unfold collectSet memberInterfaces chosenInterface
  cases linksetChoose d o set.name with
  | none => simp
  | some c =>
    refine ⟨mem_map_foldl_reserve _ _, ?_⟩
    cases c.interface <;> simp

theorem mem_foldl_collectSet {x : String} :
    ∀ (sets : List Linkset) (acc : List Standby × List String),
      (x ∈ (sets.foldl (collectSet d o) acc).1.map Standby.interface ↔
        x ∈ acc.1.map Standby.interface ∨ ∃ set ∈ sets, x ∈ memberInterfaces d o set) ∧
      (x ∈ (sets.foldl (collectSet d o) acc).2 ↔
        x ∈ acc.2 ∨ ∃ set ∈ sets, chosenInterface d o set.name = some x)
  | [], acc => by simp
  | set :: sets, acc => by
    obtain ⟨h1, h2⟩ := mem_foldl_collectSet (x := x) sets (collectSet d o acc set)
    rw [List.foldl_cons, h1, h2, mem_collectSet.1, mem_collectSet.2]
    simp [or_assoc]

/-- The interfaces the members of the sets stand on are the ones behind the sets : each is a
member of its own set, whatever the sets around it. -/
theorem exists_memberInterfaces_iff :
    (∃ set ∈ d.linksets, x ∈ memberInterfaces d o set) ↔ ∃ name, Behind d o name x := by
  constructor
  · rintro ⟨set, -, hx⟩
    obtain ⟨s, hs, hsx⟩ := List.mem_filterMap.1 hx
    refine ⟨set.name, ?_⟩
    cases hc : linksetChoose d o set.name with
    | none => simp [hc] at hs
    | some c =>
      rw [hc] at hs
      exact behind_of_chooseWithin _ hc s hs x hsx
  · rintro ⟨name, h⟩
    induction h with
    | member hset hm hno hx =>
      obtain rfl := linkset_name hset
      refine ⟨_, mem_of_linkset hset, List.mem_filterMap.2 ?_⟩
      obtain ⟨c, hc⟩ : ∃ c, linksetChoose d o _ = some c := ⟨_, by
        rw [linksetChoose, linksetMaxDepth, chooseWithin, hset, Option.map_some]⟩
      obtain ⟨set', nested, hset', rfl⟩ := chooseWithin_eq hc
      obtain rfl := Option.some_inj.1 (hset.symm.trans hset')
      rw [hc]
      exact ⟨_, List.mem_map_of_mem hm, (interface_stand hno).trans hx⟩
    | nested _ _ _ ih => exact ih

/-- An interface is held back exactly where it is behind a set and no set has chosen it. -/
theorem isStandby_iff :
    IsStandby d o x ↔ (∃ name, Behind d o name x) ∧
      ∀ set ∈ d.linksets, chosenInterface d o set.name ≠ some x := by
  obtain ⟨h1, h2⟩ := mem_foldl_collectSet (d := d) (o := o) (x := x) d.linksets ([], [])
  rw [IsStandby, standbyOf, standbyCollect, List.find?_isSome]
  simp only [List.map_nil, List.not_mem_nil, false_or] at h1 h2
  rw [← exists_memberInterfaces_iff, ← h1]
  constructor
  · rintro ⟨s, hs, hx⟩
    obtain rfl : s.interface = x := by simpa using hx
    obtain ⟨hmem, hnot⟩ := List.mem_filter.1 hs
    refine ⟨List.mem_map_of_mem hmem, fun set hset hc => ?_⟩
    have hnot : s.interface ∉ (d.linksets.foldl (collectSet d o) ([], [])).2 := by
      simpa using hnot
    exact hnot (h2.2 ⟨set, hset, hc⟩)
  · rintro ⟨hx, hnot⟩
    obtain ⟨s, hs, rfl⟩ := List.mem_map.1 hx
    refine ⟨s, List.mem_filter.2 ⟨hs, ?_⟩, by simp⟩
    have : s.interface ∉ (d.linksets.foldl (collectSet d o) ([], [])).2 := fun hmem => by
      obtain ⟨set, hset, hc⟩ := h2.1 hmem
      exact hnot set hset hc
    simpa using this

/-! ## One link in use -/

variable (codec : AddressCodec)

/-- The routes of an interface on standby : none is added, and none that config put there is
kept. -/
def RoutesWithheld (d : Document) (o : Observed) (name : String) : Prop :=
  (∀ i ∈ d.interfaces, i.name = name → ∀ r, planRoute (builderOf d o) i r = []) ∧
    ∀ seen ∈ o.routes, seen.interface = name → fromConfig seen.origin seen.ownership →
      ∃ p ∈ teardownRoutes codec (builderOf d o), p.op = .routeDel name seen.model

structure OneInUse (d : Document) (o : Observed) : Prop where
  /-- Everything behind an outermost set that it did not choose is on standby, unless a set
  outside it chose it. -/
  spare : ∀ S, Outermost d S → ∀ x, Behind d o S x → chosenInterface d o S ≠ some x →
    (∀ M, (d.linkset M).isSome → M ≠ S → ¬Nested d S M → chosenInterface d o M ≠ some x) →
      IsStandby d o x
  chosen : ∀ S, Outermost d S → ∀ x, chosenInterface d o S = some x → ¬IsStandby d o x
  free : ∀ x, (∀ S, ¬Behind d o S x) → ¬IsStandby d o x
  withheld : ∀ x, IsStandby d o x → RoutesWithheld codec d o x

/-- A set nested in an outermost one settles on the outermost one's own choice, or on one that
a set outside it chose as well. -/
def NestedAgree (d : Document) (o : Observed) : Prop :=
  ∀ S, Outermost d S → ∀ N, Nested d S N → ∀ x, chosenInterface d o N = some x →
    chosenInterface d o S = some x ∨
      ∃ M, (d.linkset M).isSome ∧ M ≠ S ∧ ¬Nested d S M ∧ chosenInterface d o M = some x

/-- What is chosen is not held back. -/
theorem not_isStandby_of_chosen {S : String} (h : chosenInterface d o S = some x) :
    ¬IsStandby d o x := by
  intro hx
  obtain ⟨c, hc, -⟩ := Option.bind_eq_some_iff.1 h
  obtain ⟨set, -, hset, -⟩ := chooseWithin_eq hc
  obtain rfl := linkset_name hset
  exact (isStandby_iff.1 hx).2 set (mem_of_linkset hset) h

/-- What is held back has no routes. -/
theorem routesWithheld_of_isStandby (h : IsStandby d o x) :
    RoutesWithheld codec d o x := by
  have hstandby : (standbyOf (builderOf d o).standby x).isSome := h
  have hheld : ∀ i : Interface, i.name = x → withheld (builderOf d o) i = true := by
    rintro i rfl
    simp [Netcfgd.withheld, hstandby]
  refine ⟨fun i _ hi r => by simp [planRoute, hheld i hi], fun seen hseen hname hours => ?_⟩
  subst hname
  have hunwanted : routeWanted codec (builderOf d o) seen = false := by
    unfold routeWanted
    cases hi : (builderOf d o).desired.interface seen.interface with
    | none => rfl
    | some i => simp [hheld i (d.mem_of_interface hi).2]
  -- the link is there, so the creation pass declined nothing of that name
  have hlisted : seen.interface ∉ (builderOf d o).declined := by
    obtain ⟨name, hbehind⟩ := (isStandby_iff.1 h).1
    intro hmem
    obtain ⟨dev, hdev, hname⟩ := List.mem_map.1 hmem
    have hnone := (List.mem_filter.1 hdev).2
    simp only [declines, hname, Bool.and_eq_true] at hnone
    have := link_of_behind hbehind
    simp_all
  refine ⟨{ op := .routeDel seen.interface seen.model
            reason := reasonUnwanted seen.interface "routes" (renderRoute seen.model)
            inverse := some (.routeAdd seen.interface seen.model) }, ?_, rfl⟩
  refine List.mem_flatMap.2 ⟨seen, hseen, ?_⟩
  simp [hours, hunwanted, push, Op.interface, hlisted]

/-- Exactly when a linkset uses one link at a time. -/
theorem oneInUse_iff (d : Document) (o : Observed) :
    OneInUse codec d o ↔ NestedAgree d o := by
  constructor
  · intro h S hS N hN x hx
    by_contra hnot
    push Not at hnot
    obtain ⟨hself, hother⟩ := hnot
    have hbehind := behind_of_nested hN (behind_of_chosenInterface hx)
    exact not_isStandby_of_chosen hx (h.spare S hS x hbehind hself fun M hM hne hout =>
      hother M hM hne hout)
  · intro h
    refine ⟨fun S hS x hx hself hother => ?_, fun S _ x hx => not_isStandby_of_chosen hx,
      fun x hx hstandby => ?_, fun x hx => routesWithheld_of_isStandby codec hx⟩
    · refine isStandby_iff.2 ⟨⟨S, hx⟩, fun set hset hc => ?_⟩
      have hfound : (d.linkset set.name).isSome := by
        simp only [Document.linkset, List.find?_isSome, decide_eq_true_eq]
        exact ⟨set, hset, rfl⟩
      by_cases hsame : set.name = S
      · exact hself (hsame ▸ hc)
      · by_cases hin : Nested d S set.name
        · rcases h S hS _ hin x hc with hc' | ⟨M, hM, hne, hout, hc'⟩
          · exact hself hc'
          · exact hother M hM hne hout hc'
        · exact hother set.name hfound hsame hin hc
    · obtain ⟨⟨name, hbehind⟩, -⟩ := isStandby_iff.1 hstandby
      exact hx name hbehind

/-- `uplink` ranks `eth0` and the set `spare`, which holds `wlan0`. -/
def nestedSets : Document where
  interfaces := [{ name := "eth0" }, { name := "wlan0" }]
  linksets := [⟨"uplink", ["eth0", "spare"]⟩, ⟨"spare", ["wlan0"]⟩]
  names := by decide

theorem noneTwice :
    (([] : List ObservedBridgeVlan).map fun v => (v.index, v.vid)).Nodup := by decide

def bothLinks : Observed where
  links := [{ name := "eth0", carrier := true }, { name := "wlan0", carrier := true }]
  vlanOnce := noneTwice

/-- `uplink` uses `eth0`, and `wlan0`, which only the set inside it chose, is not held in
reserve. -/
theorem nested_choice_not_on_standby :
    ¬OneInUse ⟨some, some, fun block _ _ => some block⟩ nestedSets bothLinks := by
  intro h
  have hnested : Nested nestedSets "uplink" "spare" :=
    .single ⟨⟨"uplink", ["eth0", "spare"]⟩, by decide, by decide, by decide⟩
  have hbehind : Behind nestedSets bothLinks "uplink" "wlan0" :=
    behind_of_nested hnested (.member
      (by decide : nestedSets.linkset "spare" = some ⟨"spare", ["wlan0"]⟩)
      (List.mem_singleton_self _) (by decide) (by decide))
  have hstandby := h.spare "uplink" ⟨by decide, by decide⟩ "wlan0" hbehind (by decide) ?_
  · revert hstandby
    unfold IsStandby
    decide
  · intro M hM hne hout
    obtain ⟨set, hset⟩ := Option.isSome_iff_exists.1 hM
    obtain rfl := linkset_name hset
    have hmem : set = ⟨"uplink", ["eth0", "spare"]⟩ ∨ set = ⟨"spare", ["wlan0"]⟩ := by
      simpa [nestedSets] using mem_of_linkset hset
    rcases hmem with rfl | rfl
    · exact absurd rfl hne
    · exact absurd hnested hout

end Netcfgd
