import Netcfgd.Standby

/-!
# Linksets inside linksets

`check_linksets` follows a set through the sets it contains, up to `LINKSET_CHAIN_MAX` of them, and
says where it comes back to one. The choice of a set follows them too, up to
`NCFG_LINKSET_MAX_DEPTH`, and stops at a set it is in the middle of.

`StandsOn` is where a member stands with no bound at all : a set on the best of its members, a
network on the link that joined it, an interface on itself. In a document that the check accepts, a
set that nests no deeper than the choice follows is chosen by that, and no member of any set is
taken for a cycle (`linksets_agree`). A set that nests deeper is accepted as well, and finds nothing
to use (`nine_deep_finds_nothing`).
-/

namespace Netcfgd

/-! ## The check -/

/-- `LINKSET_CHAIN_MAX`. -/
def linksetChainMax : ℕ := 64

section Check

variable (d : Document)

/-- `declares`. -/
def declares (name : String) : Bool :=
  d.interfaces.any (·.name = name) || d.devices.any (·.name = name)

/-- `resolves`. -/
def resolves (name : String) : Bool :=
  declares d name || (d.network name).isSome || (d.linkset name).isSome

/-- `linkset_cycle` : the way round, if there is one. `room` more sets fit on the path. -/
def linksetCycle : ℕ → List String → String → Option (List String)
  | room, path, name =>
    if name ∈ path then some (path.dropWhile (· ≠ name) ++ [name])
    else
      match room, d.linkset name with
      | room + 1, some set => set.members.findSome? (linksetCycle room (path ++ [name]))
      | _, _ => none

/-- What `check_linksets` says of a set. -/
def checkLinkset (name : String) : List String :=
  match d.linkset name with
  | none => []
  | some set =>
    (if set.members = [] then
      ["`" ++ name ++ "` has no members: a linkset chooses between links, so it needs some"]
    else []) ++
    (if declares d name || (d.network name).isSome then
      ["`" ++ name ++ "` is already the name of a link on this machine: a linkset is referred " ++
        "to by name, so it needs one of its own"]
    else []) ++
    ((set.members.filter fun m => !resolves d m).map fun m =>
      "`" ++ name ++ "` lists `" ++ m ++ "`, which this configuration does not describe: a " ++
        "member is an interface, a device, a `network` block or another linkset, by name") ++
    match linksetCycle d linksetChainMax [] name with
    | some chain =>
      ["`" ++ name ++ "` contains itself: " ++ " -> ".intercalate chain ++
        ": a linkset may contain another, but not one that contains it back"]
    | none => []

/-- `check_linksets`, over the blocks of the document. -/
def checkLinksets : List String := d.linksets.flatMap fun set => checkLinkset d set.name

end Check

/-! ## Where a member stands -/

/-- A place that carries traffic : an interface, with the metric it competes with. -/
structure Place where
  interface : String
  metric : Option ℤ
  deriving DecidableEq, Repr

def Place.rank (p : Place) : ℤ := p.metric.getD 0

/-- A place on a link : it is there, has carrier and was not probed unreachable. -/
def placeOn (o : Observed) (link : Option String) (metric : Option ℤ) : Option Place :=
  link.bind fun name => (o.link name).bind fun l =>
    if l.carrier = true ∧ l.reachable ≠ some false then some ⟨name, metric⟩ else none

def joinedTo (o : Observed) (id : String) : Option String :=
  (o.links.find? fun l => l.network = some id).map ObservedLink.name

/-- The first, in the order listed, of the members with the least rank among those that have a
place. -/
def FirstBest (members : List String) (places : String → Option Place) (winner : String) : Prop :=
  ∃ pre post place, members = pre ++ winner :: post ∧ places winner = some place ∧
    (∀ m ∈ pre, ∀ p, places m = some p → place.rank < p.rank) ∧
    ∀ m ∈ post, ∀ p, places m = some p → place.rank ≤ p.rank

/-- Where a member stands, if anywhere, however deep the sets are. -/
inductive StandsOn (d : Document) (o : Observed) : String → Option Place → Prop
  | set {member : String} {set : Linkset} {places : String → Option Place} {winner : String} :
      d.linkset member = some set → (∀ m ∈ set.members, StandsOn d o m (places m)) →
        FirstBest set.members places winner → StandsOn d o member (places winner)
  | emptySet {member : String} {set : Linkset} {places : String → Option Place} :
      d.linkset member = some set → (∀ m ∈ set.members, StandsOn d o m (places m)) →
        (∀ m ∈ set.members, places m = none) → StandsOn d o member none
  | network {member : String} {network : WifiNetwork} :
      d.linkset member = none → d.network member = some network →
        StandsOn d o member (placeOn o (joinedTo o member) network.metric)
  | interface {member : String} :
      d.linkset member = none → d.network member = none →
        StandsOn d o member
          (placeOn o (some member) ((d.interface member).bind Interface.preference))

/-- What a set has chosen is the best of its members, by where they stand. -/
structure ChosenBy (d : Document) (o : Observed) (set : Linkset) (c : Chosen)
    (places : String → Option Place) : Prop where
  stands : ∀ m ∈ set.members, StandsOn d o m (places m)
  members : c.members.map Standing.name = set.members
  eligible : ∀ s ∈ c.members, s.ineligible = none ↔ (places s.name).isSome
  active : ∀ m, c.active = some m ↔ FirstBest set.members places m
  interface : c.interface = (c.active.bind places).map Place.interface

/-- A set holds another directly. -/
def Inside (d : Document) (outer inner : String) : Prop :=
  ∃ set, d.linkset outer = some set ∧ inner ∈ set.members

/-- No way from a set goes through more different sets than the choice follows. -/
def Shallow (d : Document) (name : String) : Prop :=
  ∀ way : List String, way.head? = some name → way.IsChain (Inside d) → way.Nodup →
    (∀ m ∈ way, (d.linkset m).isSome) → way.length ≤ linksetMaxDepth

/-- The sets that the choice of `top` is in the middle of, the last of them `name`. -/
structure Way (d : Document) (top : String) (way : List String) (name : String) : Prop where
  head : way.head? = some top
  last : way.getLast? = some name
  chain : way.IsChain (Inside d)
  nodup : way.Nodup
  sets : ∀ x ∈ way, (d.linkset x).isSome

/-! ## What the check finds -/

section Cycles

variable {d : Document} {o : Observed}

theorem not_mem_of_linksetCycle_eq_none : ∀ (rest : List String) {room : ℕ} {path : List String}
    {name : String}, linksetCycle d room path name = none → (name :: rest).IsChain (Inside d) →
      rest.length ≤ room → ∀ last, (name :: rest).getLast? = some last →
        last ∉ path ++ (name :: rest).dropLast
  | [], room, path, name, h, _, _, last, hlast => by
    rw [List.getLast?_singleton, Option.some.injEq] at hlast
    subst hlast
    rw [List.dropLast_singleton, List.append_nil]
    intro hmem
    rw [linksetCycle.eq_def] at h
    dsimp only at h
    rw [if_pos hmem] at h
    cases h
  | inner :: rest, room, path, name, h, hchain, hroom, last, hlast => by
    obtain ⟨⟨set, hset, hinner⟩, hchain⟩ := List.isChain_cons_cons.1 hchain
    obtain ⟨room, rfl⟩ : ∃ n, room = n + 1 := ⟨room - 1, by rw [List.length_cons] at hroom; omega⟩
    have hcycle : linksetCycle d room (path ++ [name]) inner = none := by
      rw [linksetCycle.eq_def] at h
      dsimp only at h
      split_ifs at h
      rw [hset] at h
      exact List.findSome?_eq_none_iff.1 h inner hinner
    have hlast' : (inner :: rest).getLast? = some last := by
      rw [← hlast, List.getLast?_cons_cons]
    have hnot := not_mem_of_linksetCycle_eq_none rest hcycle hchain
      (by rw [List.length_cons] at hroom; omega) last hlast'
    rw [List.dropLast_cons_cons]
    simpa using hnot

/-- An accepted document has no chain of sets that comes back. -/
theorem not_mem_of_accepted (haccepted : checkLinksets d = []) {name : String} {rest : List String}
    (hset : (d.linkset name).isSome) (hchain : (name :: rest).IsChain (Inside d))
    (hlength : rest.length ≤ linksetChainMax) {last : String}
    (hlast : (name :: rest).getLast? = some last) : last ∉ (name :: rest).dropLast := by
  obtain ⟨set, hset⟩ := Option.isSome_iff_exists.1 hset
  have hquiet : checkLinkset d set.name = [] :=
    List.flatMap_eq_nil_iff.1 haccepted set (mem_of_linkset hset)
  rw [linkset_name hset] at hquiet
  have hcycle : linksetCycle d linksetChainMax [] name = none := by
    unfold checkLinkset at hquiet
    rw [hset] at hquiet
    rcases hfound : linksetCycle d linksetChainMax [] name with _ | chain
    · rfl
    · rw [hfound] at hquiet
      simp at hquiet
  exact not_mem_of_linksetCycle_eq_none rest hcycle hchain hlength last hlast

end Cycles

/-! ## The best of the standings -/

section Best

variable {d : Document} {o : Observed}

theorem bestStanding_spec (l : List Standing) :
    (bestStanding l = none ∧ ∀ s ∈ l, s.ineligible.isSome) ∨
      ∃ pre s post, bestStanding l = some s ∧ l = pre ++ s :: post ∧ s.ineligible = none ∧
        (∀ x ∈ pre, x.ineligible = none → s.rank < x.rank) ∧
        ∀ x ∈ post, x.ineligible = none → s.rank ≤ x.rank := by
  induction l using List.reverseRecOn with
  | nil => exact .inl ⟨rfl, by simp⟩
  | append_singleton l m ih =>
    have hstep : bestStanding (l ++ [m]) =
        if m.ineligible.isSome then bestStanding l
        else (bestStanding l).elim (some m) fun b =>
          if m.rank < b.rank then some m else some b := by
      rw [bestStanding, List.foldl_append, show l.foldl _ none = bestStanding l from rfl]
      cases bestStanding l <;> rfl
    rw [hstep]
    rcases hm : m.ineligible with _ | why
    · rcases ih with ⟨hnone, hall⟩ | ⟨pre, s, post, hbest, rfl, hs, hpre, hpost⟩
      · refine .inr ⟨l, m, [], by rw [hnone]; rfl, rfl, hm, fun x hx hfree => ?_, by simp⟩
        have := hall x hx
        simp [hfree] at this
      · rw [hbest]
        simp only [Option.isSome_none, Bool.false_eq_true, if_false, Option.elim_some]
        split_ifs with hless
        · refine .inr ⟨pre ++ s :: post, m, [], rfl, rfl, hm, fun x hx hfree => ?_, by simp⟩
          rcases List.mem_append.1 hx with hx | hx
          · have := hpre x hx hfree
            omega
          · rcases List.mem_cons.1 hx with rfl | hx
            · exact hless
            · have := hpost x hx hfree
              omega
        · refine .inr ⟨pre, s, post ++ [m], rfl, by simp, hs, hpre, fun x hx hfree => ?_⟩
          rcases List.mem_append.1 hx with hx | hx
          · exact hpost x hx hfree
          · rw [List.mem_singleton.1 hx]
            omega
    · simp only [Option.isSome_some, if_true]
      rcases ih with ⟨hnone, hall⟩ | ⟨pre, s, post, hbest, rfl, hs, hpre, hpost⟩
      · refine .inl ⟨hnone, fun x hx => ?_⟩
        rcases List.mem_append.1 hx with hx | hx
        · exact hall x hx
        · rw [List.mem_singleton.1 hx, hm]
          rfl
      · refine .inr ⟨pre, s, post ++ [m], hbest, by simp, hs, hpre, fun x hx hfree => ?_⟩
        rcases List.mem_append.1 hx with hx | hx
        · exact hpost x hx hfree
        · rw [List.mem_singleton.1 hx, hm] at hfree
          cases hfree

theorem FirstBest.unique {members : List String} {places : String → Option Place} {a b : String}
    (ha : FirstBest members places a) (hb : FirstBest members places b) : a = b := by
  obtain ⟨pre, post, p, hmem, hp, hpre, hpost⟩ := ha
  obtain ⟨pre', post', p', hmem', hp', hpre', hpost'⟩ := hb
  rw [hmem] at hmem'
  rcases List.append_eq_append_iff.1 hmem' with ⟨l, hpre_eq, hrest⟩ | ⟨l, hpre_eq, hrest⟩
  · rcases l with _ | ⟨x, l⟩
    · simp only [List.nil_append, List.cons.injEq] at hrest
      exact hrest.1
    · simp only [List.cons_append, List.cons.injEq] at hrest
      obtain ⟨rfl, rfl⟩ := hrest
      have hlt := hpre' a (by simp [hpre_eq]) p hp
      have hle := hpost b (by simp) p' hp'
      omega
  · rcases l with _ | ⟨x, l⟩
    · simp only [List.nil_append, List.cons.injEq] at hrest
      exact hrest.1.symm
    · simp only [List.cons_append, List.cons.injEq] at hrest
      obtain ⟨rfl, rfl⟩ := hrest
      have hlt := hpre b (by simp [hpre_eq]) p' hp'
      have hle := hpost' a (by simp) p hp
      omega

end Best

/-! ## Standings and places -/

section Fits

variable {d : Document} {o : Observed} {member : String} {within : List String}
  {nested : String → Option (Option Chosen)}

/-- A standing says where its member is, or that it is out. -/
def Fits (s : Standing) : Option Place → Prop
  | some place =>
    s.ineligible = none ∧ s.interface = some place.interface ∧ s.metric = place.metric
  | none => s.ineligible.isSome

theorem Fits.eligible_iff {s : Standing} {place : Option Place} (h : Fits s place) :
    s.ineligible = none ↔ place.isSome := by
  rcases place with _ | place
  · rcases hs : s.ineligible with _ | why
    · simp [Fits, hs] at h
    · simp
  · simp [h.1]

theorem Fits.rank {s : Standing} {place : Place} (h : Fits s (some place)) :
    s.rank = place.rank := by
  rw [Standing.rank, Place.rank, h.2.2]

theorem fits_placeOn {name : String} {metric : Option ℤ} {s : Standing}
    (hlink : (o.link name).isSome)
    (hinterface : s.interface = some name) (hmetric : s.metric = metric)
    (hineligible : s.ineligible = unusable o name) : Fits s (placeOn o (some name) metric) := by
  obtain ⟨l, hl⟩ := Option.isSome_iff_exists.1 hlink
  simp only [unusable, hl] at hineligible
  simp only [placeOn, Option.bind_some, hl]
  rcases hcarrier : l.carrier with _ | _
  · simp [hcarrier] at hineligible
    simp [Fits, hineligible]
  · by_cases hprobe : l.reachable = some false
    · simp [hcarrier, hprobe] at hineligible
      simp [Fits, hineligible, hprobe]
    · simp [hcarrier, hprobe] at hineligible
      simp [Fits, hineligible, hprobe, hinterface, hmetric]

theorem fits_standOnNetwork : Fits (standOnNetwork d o member)
    (placeOn o (joinedTo o member) ((d.network member).bind WifiNetwork.metric)) := by
  unfold standOnNetwork joinedTo
  dsimp only
  split
  · next hfind => simp [hfind, placeOn, Fits]
  · next l hfind =>
    rw [hfind]
    refine fits_placeOn ?_ rfl rfl rfl
    rw [Observed.link, List.find?_isSome]
    exact ⟨l, List.mem_of_find?_eq_some hfind, by simp⟩

theorem fits_standOnInterface : Fits (standOnInterface d o member)
    (placeOn o (some member) ((d.interface member).bind Interface.preference)) := by
  unfold standOnInterface
  dsimp only
  rcases hlink : o.link member with _ | l
  · simp [placeOn, hlink, Fits]
  · exact fits_placeOn (by simp [hlink]) rfl rfl rfl

theorem name_stand : (stand d o within nested member).name = member := by
  unfold stand standOnSet standOnNetwork standOnInterface
  split_ifs
  · rfl
  · split
    · rfl
    · rfl
    · split <;> rfl
  · split <;> rfl
  · split <;> rfl

/-- What is chosen of members that stand as the machine does. -/
theorem chosenBy_chooseAmong {set : Linkset} {f : String → Standing}
    {places : String → Option Place} (hname : ∀ m ∈ set.members, (f m).name = m)
    (hstands : ∀ m ∈ set.members, StandsOn d o m (places m))
    (hfits : ∀ m ∈ set.members, Fits (f m) (places m)) :
    ChosenBy d o set (chooseAmong set (set.members.map f)) places ∧
      ((chooseAmong set (set.members.map f)).active = none →
        ∀ m ∈ set.members, places m = none) := by
  have hmembers : (set.members.map f).map Standing.name = set.members := by
    rw [List.map_map]
    exact (List.map_congr_left fun m hm => hname m hm).trans (List.map_id _)
  have heligible : ∀ s ∈ set.members.map f, s.ineligible = none ↔ (places s.name).isSome := by
    intro s hs
    obtain ⟨m, hm, rfl⟩ := List.mem_map.1 hs
    rw [hname m hm]
    exact (hfits m hm).eligible_iff
  have hnone : ∀ m ∈ set.members, (f m).ineligible.isSome → places m = none := by
    intro m hm hwhy
    rcases hplace : places m with _ | place
    · rfl
    · have hfit := hfits m hm
      rw [hplace] at hfit
      simp [hfit.1] at hwhy
  rcases bestStanding_spec (set.members.map f) with ⟨hbest, hall⟩ |
    ⟨pre, s, post, hbest, hsplit, hs, hpre, hpost⟩
  · have hnothing : ∀ m ∈ set.members, places m = none := fun m hm =>
      hnone m hm (hall _ (List.mem_map_of_mem hm))
    have hactive : (chooseAmong set (set.members.map f)).active = none := by
      simp [chooseAmong, hbest]
    refine ⟨⟨hstands, hmembers, heligible, fun m => ?_, by simp [chooseAmong, hbest]⟩, fun _ =>
      hnothing⟩
    rw [hactive]
    refine iff_of_false (by simp) ?_
    rintro ⟨pre, post, place, hmem, hplace, -⟩
    rw [hnothing m (by simp [hmem])] at hplace
    cases hplace
  · obtain ⟨pre', rest, hmembers', hpre', hrest⟩ := List.map_eq_append_iff.1 hsplit
    obtain ⟨w, post', rfl, hw, hpost'⟩ := List.map_eq_cons_iff.1 hrest
    have hwmem : w ∈ set.members := by simp [hmembers']
    have hwfits := hfits w hwmem
    obtain ⟨place, hplace⟩ := Option.isSome_iff_exists.1 (hwfits.eligible_iff.1 (hw ▸ hs))
    rw [hplace] at hwfits
    have hrank : s.rank = place.rank := by rw [← hw, hwfits.rank]
    have hother : ∀ m ∈ set.members, ∀ p, places m = some p →
        (f m).ineligible = none ∧ (f m).rank = p.rank := by
      intro m hm p hp
      have hfit := hfits m hm
      rw [hp] at hfit
      exact ⟨hfit.1, hfit.rank⟩
    have hfirst : FirstBest set.members places w := by
      refine ⟨pre', post', place, hmembers', hplace, fun m hm p hp => ?_, fun m hm p hp => ?_⟩
      · obtain ⟨hfree, hmrank⟩ := hother m (by simp [hmembers', hm]) p hp
        have := hpre (f m) (hpre' ▸ List.mem_map_of_mem hm) hfree
        omega
      · obtain ⟨hfree, hmrank⟩ := hother m (by simp [hmembers', hm]) p hp
        have := hpost (f m) (hpost' ▸ List.mem_map_of_mem hm) hfree
        omega
    have hactive : (chooseAmong set (set.members.map f)).active = some w := by
      simp only [chooseAmong, hbest, Option.map_some, ← hw, hname w hwmem]
    refine ⟨⟨hstands, hmembers, heligible, fun m => ?_, ?_⟩, fun h => ?_⟩
    · rw [hactive, Option.some.injEq]
      exact ⟨fun h => h ▸ hfirst, fun h => hfirst.unique h⟩
    · rw [hactive, Option.bind_some, hplace]
      simp only [chooseAmong, hbest, Option.bind_some, ← hw, hwfits.2.1, Option.map_some]
    · rw [hactive] at h
      cases h

theorem fits_standOnSet (nested : String → Option (Option Chosen)) {set : Linkset}
    {f : String → Standing} {places : String → Option Place}
    (hnot : member ∉ within) (hset : d.linkset member = some set)
    (hnested : nested member = some (some (chooseAmong set (set.members.map f))))
    (hname : ∀ m ∈ set.members, (f m).name = m)
    (hstands : ∀ m ∈ set.members, StandsOn d o m (places m))
    (hfits : ∀ m ∈ set.members, Fits (f m) (places m)) :
    ∃ place, StandsOn d o member place ∧ Fits (standOnSet within nested member) place := by
  obtain ⟨hchosen, hnothing⟩ := chosenBy_chooseAmong hname hstands hfits
  unfold standOnSet
  rw [if_neg hnot, hnested]
  dsimp only
  rcases hactive : (chooseAmong set (set.members.map f)).active with _ | w
  · exact ⟨none, .emptySet hset hstands (hnothing hactive), by simp [Fits]⟩
  · have hfirst := (hchosen.active w).1 hactive
    obtain ⟨pre, post, place, hmem, hplace, -⟩ := id hfirst
    have hwmem : w ∈ set.members := by simp [hmem]
    refine ⟨places w, .set hset hstands hfirst, ?_⟩
    have hfind : (set.members.map f).find? (fun m => m.name = w) = some (f w) := by
      have hsome : ((set.members.map f).find? fun m => m.name = w).isSome := by
        rw [List.find?_isSome]
        exact ⟨f w, List.mem_map_of_mem hwmem, by simp [hname w hwmem]⟩
      obtain ⟨s, hs⟩ := Option.isSome_iff_exists.1 hsome
      obtain ⟨m, hm, rfl⟩ := List.mem_map.1 (List.mem_of_find?_eq_some hs)
      have hmw : (f m).name = w := by simpa using List.find?_some hs
      rw [hname m hm] at hmw
      rw [hs, hmw]
    have hinterface := hchosen.interface
    rw [hactive, Option.bind_some, hplace] at hinterface
    have hwfits := hfits w hwmem
    rw [hplace] at hwfits ⊢
    rw [Option.bind_some, show (chooseAmong set (set.members.map f)).members =
      set.members.map f from rfl, hfind]
    exact ⟨rfl, hinterface, hwfits.2.2⟩

end Fits

/-! ## The choice and the sets it goes through -/

section Ways

variable {d : Document} {o : Observed} {top name m : String} {way : List String}

theorem Way.extend (h : Way d top way name) (haccepted : checkLinksets d = [])
    (hshallow : Shallow d top) (hinside : Inside d name m) (hset : (d.linkset m).isSome) :
    Way d top (way ++ [m]) m ∧ m ∉ way ∧ way.length < linksetMaxDepth := by
  have hlength := hshallow way h.head h.chain h.nodup h.sets
  obtain ⟨rest, hway⟩ : ∃ rest, way = top :: rest := by
    rcases way with _ | ⟨x, rest⟩
    · simpa using h.head
    · exact ⟨rest, by rw [Option.some.inj h.head]⟩
  have hchain : (way ++ [m]).IsChain (Inside d) :=
    List.isChain_append.2 ⟨h.chain, List.isChain_singleton m, fun x hx y hy => by
      rw [h.last, Option.mem_some] at hx
      rw [List.head?_cons, Option.mem_some] at hy
      exact hx ▸ hy ▸ hinside⟩
  have hnot : m ∉ way := by
    have hchain' : (top :: (rest ++ [m])).IsChain (Inside d) := by simpa [hway] using hchain
    have hroom : (rest ++ [m]).length ≤ linksetChainMax := by
      rw [hway, List.length_cons, linksetMaxDepth] at hlength
      rw [List.length_append, List.length_singleton, linksetChainMax]
      omega
    have hlast : (top :: (rest ++ [m])).getLast? = some m := by
      rw [← List.cons_append, List.getLast?_concat]
    have hback := not_mem_of_accepted haccepted (h.sets top (by simp [hway])) hchain' hroom hlast
    rwa [← List.cons_append, List.dropLast_concat, ← hway] at hback
  have hext : Way d top (way ++ [m]) m := by
    refine ⟨by simp [hway], List.getLast?_concat .., hchain, ?_, fun x hx => ?_⟩
    · exact List.nodup_append.2 ⟨h.nodup, List.nodup_singleton m, fun a ha b hb => by
        rw [List.mem_singleton.1 hb]
        exact fun heq => hnot (heq ▸ ha)⟩
    · rcases List.mem_append.1 hx with hx | hx
      · exact h.sets x hx
      · rw [List.mem_singleton.1 hx]
        exact hset
  have := hshallow _ hext.head hext.chain hext.nodup hext.sets
  rw [List.length_append, List.length_singleton] at this
  exact ⟨hext, hnot, by omega⟩

/-- However far the choice has come, each standing says where its member stands. The induction is on
the sets that may still be entered. -/
theorem exists_places (haccepted : checkLinksets d = []) (hshallow : Shallow d top) :
    ∀ (depth : ℕ) {way : List String} {name : String} {set : Linkset}, Way d top way name →
      way.length + depth = linksetMaxDepth → d.linkset name = some set →
        ∃ (nested : String → Option (Option Chosen)) (places : String → Option Place),
          chooseWithin d o depth way name =
            some (chooseAmong set (set.members.map (stand d o way nested))) ∧
          ∀ m ∈ set.members, StandsOn d o m (places m) ∧
          Fits (stand d o way nested m) (places m) := by
  have hleaf : ∀ (way : List String) (nested : String → Option (Option Chosen)) (m : String),
      d.linkset m = none → ∃ place, StandsOn d o m place ∧ Fits (stand d o way nested m) place := by
    intro way nested m hnone
    simp only [stand, hnone, Option.isSome_none, Bool.false_eq_true, if_false]
    rcases hnetwork : d.network m with _ | network
    · exact ⟨_, .interface hnone hnetwork, by simpa using fits_standOnInterface⟩
    · refine ⟨_, .network hnone hnetwork, ?_⟩
      have hfits : Fits (standOnNetwork d o m)
        (placeOn o (joinedTo o m) ((d.network m).bind WifiNetwork.metric)) := fits_standOnNetwork
      rw [hnetwork, Option.bind_some] at hfits
      simpa using hfits
  intro depth
  induction depth with
  | zero =>
    intro way name set hway hlength hset
    have hmembers : ∀ m ∈ set.members, d.linkset m = none := by
      intro m hm
      rcases hinner : d.linkset m with _ | inner
      · rfl
      · obtain ⟨-, -, hroom⟩ := hway.extend haccepted hshallow ⟨set, hset, hm⟩ (by simp [hinner])
        omega
    have hall : ∀ m, ∃ place, m ∈ set.members →
        StandsOn d o m place ∧ Fits (stand d o way (fun _ => none) m) place := by
      intro m
      by_cases hm : m ∈ set.members
      · obtain ⟨place, hplace⟩ := hleaf way (fun _ => none) m (hmembers m hm)
        exact ⟨place, fun _ => hplace⟩
      · exact ⟨none, fun h => absurd h hm⟩
    choose places hplaces using hall
    exact ⟨_, places, by rw [chooseWithin, hset, Option.map_some], hplaces⟩
  | succ depth ih =>
    intro way name set hway hlength hset
    have hall : ∀ m, ∃ place, m ∈ set.members → StandsOn d o m place ∧
        Fits (stand d o way (fun m => some (chooseWithin d o depth (way ++ [m]) m)) m) place := by
      intro m
      by_cases hm : m ∈ set.members
      · rcases hinner : d.linkset m with _ | inner
        · obtain ⟨place, hplace⟩ := hleaf way
            (fun m => some (chooseWithin d o depth (way ++ [m]) m)) m hinner
          exact ⟨place, fun _ => hplace⟩
        · obtain ⟨hext, hnot, -⟩ :=
            hway.extend haccepted hshallow ⟨set, hset, hm⟩ (by simp [hinner])
          obtain ⟨nested, places, hchosen, hplaces⟩ := ih hext
            (by rw [List.length_append, List.length_singleton]; omega) hinner
          have hnested : some (chooseWithin d o depth (way ++ [m]) m) =
            some (some (chooseAmong inner (inner.members.map (stand d o (way ++ [m]) nested)))) :=
            congrArg some hchosen
          obtain ⟨place, hstands, hfits⟩ := fits_standOnSet
            (fun m => some (chooseWithin d o depth (way ++ [m]) m)) hnot hinner hnested
            (fun _ _ => name_stand) (fun x hx => (hplaces x hx).1) fun x hx => (hplaces x hx).2
          refine ⟨place, fun _ => ⟨hstands, ?_⟩⟩
          simpa only [stand, hinner, Option.isSome_some, if_true] using hfits
      · exact ⟨none, fun h => absurd h hm⟩
    choose places hplaces using hall
    exact ⟨_, places, by rw [chooseWithin, hset, Option.map_some], hplaces⟩

end Ways

/-! ## The compiler and the choice -/

section Agree

variable {d : Document} {o : Observed}

theorem FirstBest.congr {members : List String} {places places' : String → Option Place}
    {winner : String} (h : ∀ m ∈ members, places m = places' m)
    (hbest : FirstBest members places winner) : FirstBest members places' winner := by
  obtain ⟨pre, post, place, rfl, hplace, hpre, hpost⟩ := hbest
  refine ⟨pre, post, place, rfl, by rw [← h winner (by simp), hplace], fun m hm p hp => ?_,
    fun m hm p hp => ?_⟩
  · exact hpre m hm p (by rw [h m (by simp [hm]), hp])
  · exact hpost m hm p (by rw [h m (by simp [hm]), hp])

theorem StandsOn.unique {member : String} {p q : Option Place} (hp : StandsOn d o member p)
    (hq : StandsOn d o member q) : p = q := by
  induction hp generalizing q with
  | @set member set places winner hset hstands hbest ih =>
    obtain ⟨pre, post, place, hmem, hplace, -⟩ := id hbest
    have hwinner : winner ∈ set.members := by simp [hmem]
    cases hq with
    | @set _ set' places' winner' hset' hstands' hbest' =>
      obtain rfl : set = set' := Option.some.inj (hset.symm.trans hset')
      have hsame : ∀ m ∈ set.members, places m = places' m := fun m hm => ih m hm (hstands' m hm)
      obtain rfl := (hbest.congr hsame).unique hbest'
      exact hsame winner hwinner
    | @emptySet _ set' places' hset' hstands' hnone =>
      obtain rfl : set = set' := Option.some.inj (hset.symm.trans hset')
      rw [ih winner hwinner (hstands' winner hwinner), hnone winner hwinner]
    | network hnot => simp [hset] at hnot
    | interface hnot => simp [hset] at hnot
  | @emptySet member set places hset hstands hnone ih =>
    cases hq with
    | @set _ set' places' winner' hset' hstands' hbest' =>
      obtain rfl : set = set' := Option.some.inj (hset.symm.trans hset')
      obtain ⟨pre, post, place, hmem, hplace, -⟩ := hbest'
      have hwinner : winner' ∈ set.members := by simp [hmem]
      rw [← ih winner' hwinner (hstands' winner' hwinner), hnone winner' hwinner]
    | emptySet => rfl
    | network hnot => simp [hset] at hnot
    | interface hnot => simp [hset] at hnot
  | network hnot hnetwork =>
    cases hq with
    | set hset => simp [hnot] at hset
    | emptySet hset => simp [hnot] at hset
    | network _ hnetwork' => rw [Option.some.inj (hnetwork.symm.trans hnetwork')]
    | interface _ hnone => simp [hnetwork] at hnone
  | interface hnot hnone =>
    cases hq with
    | set hset => simp [hnot] at hset
    | emptySet hset => simp [hnot] at hset
    | network _ hnetwork => simp [hnone] at hnetwork
    | interface => rfl

theorem unusable_ne_cycle (name : String) : unusable o name ≠ some .cycle := by
  unfold unusable
  split
  · simp
  · split_ifs <;> simp

/-- A member is taken for a cycle where it is a set that the choice is in the middle of, or where
the sets are too deep. -/
theorem stand_ne_cycle {within : List String} {nested : String → Option (Option Chosen)}
    {member : String} (hnot : (d.linkset member).isSome → member ∉ within ∧ nested member ≠ none) :
    (stand d o within nested member).ineligible ≠ some .cycle := by
  unfold stand
  split_ifs with hset hnetwork
  · obtain ⟨hout, hroom⟩ := hnot hset
    unfold standOnSet
    rw [if_neg hout]
    split
    · next hnone => exact absurd hnone hroom
    · simp
    · split <;> simp
  · unfold standOnNetwork
    dsimp only
    split
    · simp
    · exact unusable_ne_cycle _
  · unfold standOnInterface
    dsimp only
    split
    · simp
    · exact unusable_ne_cycle _

/-- In a document that the check accepts, no member of a set is taken for a cycle, and a set that
nests no deeper than the choice follows has chosen the best of its members. -/
theorem linksets_agree (d : Document) (o : Observed) (haccepted : checkLinksets d = [])
    (name : String) :
    (∀ c, linksetChoose d o name = some c → ∀ s ∈ c.members, s.ineligible ≠ some .cycle) ∧
      ∀ set, d.linkset name = some set → Shallow d name →
        ∃ c places, linksetChoose d o name = some c ∧ ChosenBy d o set c places := by
  constructor
  · intro c hc s hs
    obtain ⟨set, hset, rfl⟩ := Option.map_eq_some_iff.1 hc
    obtain ⟨m, hm, rfl⟩ := List.mem_map.1 hs
    refine stand_ne_cycle fun _ => ⟨fun hself => ?_, by simp⟩
    -- a set that lists itself would have been found
    have hchain : [name, m].IsChain (Inside d) :=
      List.isChain_cons_cons.2 ⟨⟨set, hset, hm⟩, List.isChain_singleton m⟩
    have hback := not_mem_of_accepted haccepted (by simp [hset]) hchain
      (by simp [linksetChainMax]) rfl
    exact hback hself
  · intro set hset hshallow
    have hway : Way d name [name] name :=
      ⟨rfl, rfl, List.isChain_singleton name, List.nodup_singleton name, by simp [hset]⟩
    obtain ⟨nested, places, hchosen, hplaces⟩ :=
      exists_places (o := o) haccepted hshallow (linksetMaxDepth - 1) hway rfl hset
    exact ⟨_, places, hchosen, (chosenBy_chooseAmong (fun _ _ => name_stand)
      (fun m hm => (hplaces m hm).1) fun m hm => (hplaces m hm).2).1⟩

theorem shallow_of_few (h : d.linksets.length ≤ linksetMaxDepth) (name : String) :
    Shallow d name := by
  intro way _ _ hnodup hsets
  refine le_trans ?_ h
  rw [← List.length_map (f := Linkset.name)]
  refine (hnodup.subperm fun m hm => ?_).length_le
  obtain ⟨set, hset⟩ := Option.isSome_iff_exists.1 (hsets m hm)
  exact List.mem_map.2 ⟨set, mem_of_linkset hset, linkset_name hset⟩

theorem StandsOn.single {outer inner : String} {place : Place}
    (hset : d.linkset outer = some ⟨outer, [inner]⟩) (h : StandsOn d o inner (some place)) :
    StandsOn d o outer (some place) := by
  have hmembers : ∀ m ∈ [inner], StandsOn d o m ((fun _ => some place) m) := fun m hm =>
    List.mem_singleton.1 hm ▸ h
  have hbest : FirstBest [inner] (fun _ => some place) inner :=
    ⟨[], [], place, rfl, rfl, by simp, by simp⟩
  exact StandsOn.set hset hmembers hbest

end Agree

/-! ## A set too deep -/

/-- Nine sets, each the one member of the one before, and an interface in the last. -/
def nineDeep : Document where
  interfaces := [{ name := "eth0" }]
  linksets := [⟨"s0", ["s1"]⟩, ⟨"s1", ["s2"]⟩, ⟨"s2", ["s3"]⟩, ⟨"s3", ["s4"]⟩, ⟨"s4", ["s5"]⟩,
    ⟨"s5", ["s6"]⟩, ⟨"s6", ["s7"]⟩, ⟨"s7", ["s8"]⟩, ⟨"s8", ["eth0"]⟩]
  names := by decide
  deviceNames := nestedSets.deviceNames

def carrierUp : Observed where
  links := [{ name := "eth0", carrier := true }]
  vlanOnce := noneTwice

def office : Document where
  interfaces := [{ name := "eth0" }, { name := "wlan0", preference := some 10 }]
  linksets := [⟨"uplink", ["office", "wlan0"]⟩, ⟨"office", ["eth0"]⟩]
  names := by decide
  deviceNames := nestedSets.deviceNames

/-- The outer set is chosen by where the inner one stands. -/
theorem office_chosen : ∃ c places, linksetChoose office carrierUp "uplink" = some c ∧
    ChosenBy office carrierUp ⟨"uplink", ["office", "wlan0"]⟩ c places :=
  (linksets_agree office carrierUp (by decide +kernel) "uplink").2 _ rfl
    (shallow_of_few (by decide) _)

/-- Nine sets are accepted, the last of them stands on an interface with carrier, and the first
finds nothing to use. -/
theorem nine_deep_finds_nothing :
    checkLinksets nineDeep = [] ∧
      ¬∃ c places, linksetChoose nineDeep carrierUp "s0" = some c ∧
        ChosenBy nineDeep carrierUp ⟨"s0", ["s1"]⟩ c places := by
  refine ⟨by decide +kernel, ?_⟩
  rintro ⟨c, places, hc, hchosen⟩
  have hnone : (linksetChoose nineDeep carrierUp "s0").bind Chosen.active = none := by
    decide +kernel
  rw [hc, Option.bind_some] at hnone
  have heth : StandsOn nineDeep carrierUp "eth0" (some ⟨"eth0", none⟩) :=
    .interface (d := nineDeep) (o := carrierUp) rfl rfl
  have hstands : StandsOn nineDeep carrierUp "s1" (some ⟨"eth0", none⟩) :=
    .single rfl <| .single rfl <| .single rfl <| .single rfl <| .single rfl <| .single rfl <|
      .single rfl <| .single rfl heth
  have hplace := (hchosen.stands "s1" (by simp)).unique hstands
  have hactive := (hchosen.active "s1").2 ⟨[], [], _, rfl, hplace, by simp, by simp⟩
  rw [hactive] at hnone
  cases hnone

end Netcfgd
