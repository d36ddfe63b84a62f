import Netcfgd.Ast
import Netcfgd.BridgePort
import Netcfgd.Canonical
import Netcfgd.CNumber
import Netcfgd.Settings

/-!
# The VLANs of a port converge

`vlans` is written as phrases, `10 pvid untagged` or `10-19`, which `ncfg_lower_bridge_vlans`
turns into VLANs one by one. `ncfg_plan_bridge_vlans` adds those a port doesn't hold as they are
listed, and takes away those whose ids are not listed.

A port holds a VLAN once and has one pvid, and a list may say otherwise : then no port is as it
says, and the port is written on every pass. Where the list is that of a port (`Consistent`) and
nothing stops what it needs (`Carried`), one pass is enough (`bridge_vlans_converge_iff`).
-/

namespace Netcfgd.Bridge

open Netcfgd.Compile (Value asWords asLines)

/-! ## The phrases -/

/-- `strtoul`, which leaves its end at the start where there is no number. -/
def strtoul (text : Bytes) : ℕ × Bytes := (CNumber.strtoull text).getD (0, text)

/-- The ids of `10` or `10-19`, if it is written so. -/
def rangeOf (head : Bytes) : Option (ℕ × ℕ) :=
  let (first, stop) := strtoul head
  if 45 ∈ head then
    let dash := head.dropWhile (· ≠ 45)
    if stop ≠ dash then none
    else
      let (last, stop) := strtoul dash.tail
      if stop = dash.tail ∨ stop ≠ [] then none else some (first, last)
  else if stop = head ∨ stop ≠ [] then none
  else some (first, first)

/-- The flags of a phrase, from those read so far : `pvid` and `untagged`, or the word that is
neither. -/
def flagsOf : Bool → Bool → List String → Except String (Bool × Bool)
  | pvid, untagged, [] => .ok (pvid, untagged)
  | pvid, untagged, word :: words =>
    if word = "pvid" then flagsOf true untagged words
    else if word = "untagged" then flagsOf pvid true words
    else if word = "tagged" then flagsOf pvid false words
    else .error word

/-- `ncfg_lower_bridge_vlans` : the VLANs of a phrase, and what is wrong with it. -/
def lowerPhrase (entry : String) : List BridgeVlan × List String :=
  match (asWords (.string entry)).1 with
  | [] => ([], [])
  | head :: words =>
    match rangeOf (Op.bytes head) with
    -- not written as numbers : dropped with nothing said
    | none => ([], [])
    | some (first, last) =>
      if 65535 < first ∨ 65535 < last then ([], [])
      else if last < first then ([], ["`" ++ head ++ "` counts backwards"])
      else if first < 1 ∨ 4094 < last then
        ([], ["`" ++ head ++ "` is not a VLAN id: between 1 and 4094"])
      else
        match flagsOf false false words with
        | .error word =>
          ([], ["`" ++ word ++ "` is not a vlan option: pvid, untagged, tagged"])
        | .ok (pvid, untagged) =>
          if pvid ∧ first ≠ last then
            ([], ["a range cannot be the pvid; untagged traffic joins one vlan"])
          else
            ((List.range' first (last + 1 - first)).map fun vid : ℕ => ⟨vid, pvid, untagged⟩, [])

/-- The `vlans` of a device, by every value they were given. -/
def lowerVlans (values : List Value) : List BridgeVlan × List String :=
  let lines := values.flatMap fun value => (asLines value).1
  (lines.flatMap fun line => (lowerPhrase line).1,
    (values.flatMap fun value => (asLines value).2) ++
      lines.flatMap fun line => (lowerPhrase line).2)

/-- The compiler accepts these values, and makes these VLANs of them. -/
def Compiled (values : List Value) (vlans : List BridgeVlan) : Prop :=
  (lowerVlans values).2 = [] ∧
    vlans = NormalForm.stableSort Canonical.compareBridgeVlan (lowerVlans values).1

theorem inRange_of_mem_lowerPhrase {entry : String} {v : BridgeVlan}
    (h : v ∈ (lowerPhrase entry).1) : InRange v.vid := by
  unfold lowerPhrase at h
  split at h
  · simp at h
  split at h
  · simp at h
  split_ifs at h with hlarge hback hrange
  · simp at h
  · simp at h
  · simp at h
  split at h
  · simp at h
  split_ifs at h
  · simp at h
  · obtain ⟨vid, hvid, rfl⟩ := List.mem_map.1 h
    obtain ⟨i, hi, rfl⟩ := List.mem_range'.1 hvid
    refine ⟨?_, ?_⟩
    · dsimp only
      omega
    · dsimp only
      omega

/-- A VLAN the compiler accepts is in range. -/
theorem Compiled.inRange {values : List Value} {vlans : List BridgeVlan}
    (h : Compiled values vlans) {v : BridgeVlan} (hv : v ∈ vlans) : InRange v.vid := by
  rw [h.2, NormalForm.mem_stableSort] at hv
  obtain ⟨line, -, hline⟩ := List.mem_flatMap.1 hv
  exact inRange_of_mem_lowerPhrase hline

/-! ## A pass and what it leaves -/

def Port.exec (p : Port) : Op → Port
  | .bridgeVlanAdd _ vid pvid untagged _ => p.add ⟨vid, pvid, untagged⟩
  | .bridgeVlanDel _ vid _ _ _ => p.del vid
  | _ => p

def Port.run (p : Port) (ops : List Op) : Port := ops.foldl Port.exec p

/-- The ops that `ncfg_plan_bridge_vlans` adds to a plan for a device. -/
def emitted (c : Checks) (o : Observed) (x : Device) (s : Planning) : List Op :=
  ((planBridgeVlans c o x s).building.plan.actions.drop
    s.building.plan.actions.length).map Action.op

def Sees (o : Observed) (x : Device) (p : Port) : Prop :=
  ∃ l, ∃ index : ℕ, o.link x.name = some l ∧ l.index = index ∧
    (portVlans o x).Perm ((dumpBridgeVlans index (kernelDump p)).map fun r =>
      ⟨r.index, r.vid, r.pvid, r.untagged⟩)

def joined : Port := Port.empty.add ⟨1, true, true⟩

/-- What a plan starts from : the port observed, or one that this plan makes. -/
def StartsFrom (o : Observed) (x : Device) (p : Port) : Prop :=
  Sees o x p ∨ o.link x.name = none ∧ (p = .empty ∨ p = joined)

/-- A device whose VLANs the planner compares. -/
def OnBridge (o : Observed) (x : Device) : Prop :=
  x.kind = .bridge ∨ x.master.isSome ∨ ((o.link x.name).bind ObservedLink.master).isSome

/-- One pass is enough : planned again against what it leaves, nothing is asked, and the port holds
what the device lists, as it lists it. -/
def Converges (c : Checks) (o : Observed) (x : Device) (s : Planning) (p : Port) : Prop :=
  (∀ o' s', s'.building.tearingDown = false → Sees o' x (p.run (emitted c o x s)) →
    emitted c o' x s' = []) ∧
  ∀ v, (p.run (emitted c o x s)).Has v ↔ v ∈ x.bridgeVlans

def addOp (x : Device) (v : BridgeVlan) : Op :=
  .bridgeVlanAdd x.name v.vid v.pvid v.untagged (x.kind = .bridge)

def delOp (x : Device) (vid : ℤ) : Op := .bridgeVlanDel x.name vid false false (x.kind = .bridge)

/-- What the port lacks is added, but for a VLAN that only has to lose the pvid to another one, and
what is not listed is taken away : no lock, guard or refusal is in the way. -/
structure Carried (c : Checks) (declined : List String) (x : Device) (p : Port) : Prop where
  dels : ∀ v, p.Has v → (∀ w ∈ x.bridgeVlans, w.vid ≠ v.vid) →
    c.admits declined false (delOp x v.vid)
  adds : ∀ w ∈ x.bridgeVlans, ¬p.Has w → c.admits declined false (addOp x w) ∨
    w.pvid = false ∧ p.Has { w with pvid := true } ∧ ∃ v ∈ x.bridgeVlans, v.pvid = true

/-! ## The ops of a pass -/

section Pass

variable {c : Checks} {o : Observed} {x : Device} {s : Planning} {p : Port}

theorem emitted_eq (hs : s.building.tearingDown = false) :
    emitted c o x s = ((bridgeVlanActions o x).map Planned.op).filter fun op =>
      c.admits s.building.declined false op := by
  obtain ⟨⟨new, hnew, hplanned⟩, -⟩ :=
    issues_issue (c := c) (s.gate x.name) (bridgeVlanActions o x) ⟨rfl, hs⟩
  have hop : new.map Action.op = (new.map Action.planned).map Planned.op := by
    rw [List.map_map]
    rfl
  rw [emitted, planBridgeVlans, hnew, List.drop_left, hop, hplanned, List.filter_map]
  rfl

theorem run_append (a b : List Op) : p.run (a ++ b) = (p.run a).run b := List.foldl_append ..

theorem run_adds (vlans : List BridgeVlan) :
    p.run (vlans.map (addOp x)) = vlans.foldl Port.add p := by
  rw [Port.run, List.foldl_map]
  rfl

theorem run_dels (vids : List ℤ) : p.run (vids.map (delOp x)) = vids.foldl Port.del p := by
  rw [Port.run, List.foldl_map]
  rfl

theorem Sees.mem_portVlans (h : Sees o x p) {vid : ℤ} {pvid untagged : Bool} :
    (∃ v ∈ portVlans o x, v.vid = vid ∧ v.pvid = pvid ∧ v.untagged = untagged) ↔
      p.Has ⟨vid, pvid, untagged⟩ := by
  obtain ⟨l, index, -, -, hperm⟩ := h
  simp only [hperm.mem_iff, dumpBridgeVlans_kernelDump, List.map_map, List.mem_map,
    Port.mem_entries, Function.comp_apply]
  constructor
  · rintro ⟨v, ⟨w, hw, rfl⟩, rfl, rfl, rfl⟩
    have hrange := p.inRange w.vid (by simp [hw.1])
    have hvid : ((recordOf index w).vid : ℤ) = w.vid := Int.toNat_of_nonneg (by
      have := hrange.1
      omega)
    rw [hvid]
    exact hw
  · intro hw
    have hrange := p.inRange vid (by simp [hw.1])
    have hvid : (vid.toNat : ℤ) = vid := Int.toNat_of_nonneg (by
      have := hrange.1
      omega)
    exact ⟨_, ⟨_, hw, rfl⟩, hvid, rfl, rfl⟩

theorem Sees.vlanHeld_iff (h : Sees o x p) {w : BridgeVlan} :
    vlanHeld o x w = true ↔ p.Has w := by
  rw [← h.mem_portVlans, vlanHeld, List.any_eq_true]
  simp

theorem portVlans_eq_nil (h : o.link x.name = none) : portVlans o x = [] := by
  simp [portVlans, h]

/-- What a pass does to the port : VLAN 1 is taken away from a port that is new, what it lacks is
added, what isn't listed is taken away. -/
structure Does (c : Checks) (declined : List String) (x : Device) (p : Port) (first : List ℤ)
    (adds : List BridgeVlan) (dels : List ℤ) : Prop where
  adds_sub : ∀ w ∈ adds, w ∈ x.bridgeVlans
  mem_adds : ∀ w ∈ x.bridgeVlans, ¬p.Has w → c.admits declined false (addOp x w) → w ∈ adds
  admits_of_mem : ∀ w ∈ adds, c.admits declined false (addOp x w)
  dels_sub : ∀ vid ∈ first ++ dels, (∀ w ∈ x.bridgeVlans, w.vid ≠ vid) ∧
    c.admits declined false (delOp x vid)
  mem_dels : ∀ v, p.Has v → (∀ w ∈ x.bridgeVlans, w.vid ≠ v.vid) →
    c.admits declined false (delOp x v.vid) → v.vid ∈ first ++ dels

theorem exists_does (hs : s.building.tearingDown = false) (hstart : StartsFrom o x p)
    (hon : OnBridge o x) (hne : x.bridgeVlans ≠ []) :
    ∃ first adds dels, Does c s.building.declined x p first adds dels ∧
      p.run (emitted c o x s) = dels.foldl Port.del
        (adds.foldl Port.add (first.foldl Port.del p)) := by
  have hport : hasPort o x = true := by simp [hasPort, hne]; exact hon
  refine ⟨(if (o.link x.name).isNone ∧ ∀ v ∈ x.bridgeVlans, v.vid ≠ 1 then [1] else []).filter
      fun vid => c.admits s.building.declined false (delOp x vid),
    (x.bridgeVlans.filter fun wanted => !vlanHeld o x wanted).filter fun w =>
      c.admits s.building.declined false (addOp x w),
    (((portVlans o x).filter fun v => ∀ wanted ∈ x.bridgeVlans, wanted.vid ≠ v.vid).map
      ObservedBridgeVlan.vid).filter fun vid => c.admits s.building.declined false (delOp x vid),
    ?_, ?_⟩
  · refine ⟨fun w hw => ?_, fun w hw hnot hadmits => ?_, fun w hw => ?_, fun vid hvid => ?_, ?_⟩
    · exact (List.mem_filter.1 (List.mem_filter.1 hw).1).1
    · refine List.mem_filter.2 ⟨List.mem_filter.2 ⟨hw, ?_⟩, hadmits⟩
      rcases hstart with hsees | ⟨hlink, -⟩
      · rw [Bool.eq_false_iff.2 fun hheld => hnot (hsees.vlanHeld_iff.1 hheld), Bool.not_false]
      · simp [vlanHeld, portVlans_eq_nil hlink]
    · exact (List.mem_filter.1 hw).2
    · rcases List.mem_append.1 hvid with hvid | hvid
      · obtain ⟨hmem, hadmits⟩ := List.mem_filter.1 hvid
        split_ifs at hmem with hjoins
        · rw [List.mem_singleton.1 hmem] at hadmits ⊢
          exact ⟨hjoins.2, hadmits⟩
        · simp at hmem
      · obtain ⟨hmem, hadmits⟩ := List.mem_filter.1 hvid
        obtain ⟨v, hv, rfl⟩ := List.mem_map.1 hmem
        exact ⟨by simpa using (List.mem_filter.1 hv).2, hadmits⟩
    · intro v hv hunasked hadmits
      refine List.mem_append.2 ?_
      rcases hstart with hsees | ⟨hlink, rfl | rfl⟩
      · obtain ⟨w, hw, hvid, -⟩ := hsees.mem_portVlans.2 hv
        refine .inr
          (List.mem_filter.2 ⟨List.mem_map.2 ⟨w, List.mem_filter.2 ⟨hw, ?_⟩, hvid⟩, hadmits⟩)
        simpa [hvid] using hunasked
      · simp [Port.Has, Port.empty] at hv
      · have hone : v.vid = 1 := by
          have huntagged := (Port.untagged_add (by decide)).1 hv.1
          simp only [Port.empty, reduceCtorEq, and_false, or_false] at huntagged
          exact huntagged.1.symm
        rw [hone] at hadmits hunasked ⊢
        refine .inl (List.mem_filter.2 ⟨?_, hadmits⟩)
        rw [if_pos ⟨by simp [hlink], hunasked⟩]
        exact List.mem_singleton.2 rfl
  · rw [emitted_eq hs, bridgeVlanActions, if_pos hport]
    rw [List.map_append, List.map_append, List.filter_append, List.filter_append, run_append,
      run_append, ← run_dels (x := x), ← run_adds (x := x), ← run_dels (x := x),
      List.map_map, List.map_map]
    refine congr_arg₂ Port.run (congr_arg₂ Port.run (congrArg p.run ?_) ?_) ?_
    · split_ifs with hjoins
      · exact List.filter_map (f := delOp x) (l := [1]) ..
      · rfl
    · exact List.filter_map ..
    · change ((((portVlans o x).filter _).map (delOp x ∘ ObservedBridgeVlan.vid)).filter _) = _
      rw [← List.map_map]
      exact List.filter_map ..

theorem Does.has_iff {declined : List String} {first dels : List ℤ} {adds : List BridgeVlan}
    (h : Does c declined x p first adds dels) (hrange : ∀ v ∈ x.bridgeVlans, InRange v.vid)
    (hcons : Consistent x.bridgeVlans) {v : BridgeVlan} :
    (dels.foldl Port.del (adds.foldl Port.add (first.foldl Port.del p))).Has v ↔
      v.vid ∉ dels ∧ (v ∈ adds ∨ (∀ a ∈ adds, a.vid ≠ v.vid) ∧
        (v.vid ∉ first ∧ p.Has v ∧ (v.pvid = true → ∀ a ∈ adds, a.pvid = false) ∨
          v.pvid = false ∧ v.vid ∉ first ∧ p.Has { v with pvid := true } ∧
            ∃ a ∈ adds, a.pvid = true)) := by
  rw [Port.has_dels, Port.has_adds (fun a ha => hrange a (h.adds_sub a ha)) (hcons.sub h.adds_sub),
    Port.has_dels, Port.has_dels]
  simp only [and_assoc]

theorem Does.holds_iff {declined : List String} {first dels : List ℤ} {adds : List BridgeVlan}
    (h : Does c declined x p first adds dels) (hrange : ∀ v ∈ x.bridgeVlans, InRange v.vid) :
    (∀ v, (dels.foldl Port.del (adds.foldl Port.add (first.foldl Port.del p))).Has v ↔
        v ∈ x.bridgeVlans) ↔
      Consistent x.bridgeVlans ∧ Carried c declined x p := by
  have hkept : ∀ w ∈ x.bridgeVlans, w.vid ∉ first ∧ w.vid ∉ dels := fun w hw =>
    ⟨fun hmem => (h.dels_sub _ (List.mem_append_left _ hmem)).1 w hw rfl,
      fun hmem => (h.dels_sub _ (List.mem_append_right _ hmem)).1 w hw rfl⟩
  constructor
  · intro hall
    have hcons : Consistent x.bridgeVlans := .of_has fun v hv => (hall v).2 hv
    -- what is not added is there already, under its own flags or as the pvid
    have hadded : ∀ a ∈ adds, ∀ w ∈ x.bridgeVlans, a.vid = w.vid → w ∈ adds := fun a ha w hw hvid =>
      hcons.flags a (h.adds_sub a ha) w hw hvid ▸ ha
    refine ⟨hcons, fun v hv hunasked => ?_, fun w hw hnot => ?_⟩
    · by_contra hrefused
      have hout : v.vid ∉ first ∧ v.vid ∉ dels :=
        ⟨fun hmem => hrefused (h.dels_sub _ (List.mem_append_left _ hmem)).2,
          fun hmem => hrefused (h.dels_sub _ (List.mem_append_right _ hmem)).2⟩
      have hother : ∀ a ∈ adds, a.vid ≠ v.vid := fun a ha => hunasked a (h.adds_sub a ha)
      by_cases htaken : v.pvid = true ∧ ∃ a ∈ adds, a.pvid = true
      · obtain ⟨hpvid, htaken⟩ := htaken
        have hleft : ({ v with pvid := false } : BridgeVlan) ∈ x.bridgeVlans := by
          rw [← hall, h.has_iff hrange hcons]
          refine ⟨hout.2, .inr ⟨hother, .inr ⟨rfl, hout.1, ?_, htaken⟩⟩⟩
          rw [← hpvid]
          exact hv
        exact hunasked _ hleft rfl
      · have hleft : v ∈ x.bridgeVlans := by
          rw [← hall, h.has_iff hrange hcons]
          refine ⟨hout.2, .inr ⟨hother, .inl ⟨hout.1, hv, fun hpvid a ha => ?_⟩⟩⟩
          by_contra htrue
          exact htaken ⟨hpvid, a, ha, by simpa using htrue⟩
        exact hunasked _ hleft rfl
    · by_contra hnone
      rw [not_or] at hnone
      obtain ⟨hrefused, hnone⟩ := hnone
      have hnotadded : w ∉ adds := fun hmem => hrefused (h.admits_of_mem w hmem)
      obtain ⟨-, hmem | ⟨-, ⟨-, hheld, -⟩ | ⟨hpvid, -, hheld, a, ha, hpvid'⟩⟩⟩ :=
        (h.has_iff hrange hcons).1 ((hall w).2 hw)
      · exact hnotadded hmem
      · exact hnot hheld
      · exact hnone ⟨hpvid, hheld, a, h.adds_sub a ha, hpvid'⟩
  · rintro ⟨hcons, hcarried⟩ v
    have hlisted : ∀ w ∈ x.bridgeVlans,
        (dels.foldl Port.del (adds.foldl Port.add (first.foldl Port.del p))).Has w := by
      intro w hw
      rw [h.has_iff hrange hcons]
      refine ⟨(hkept w hw).2, ?_⟩
      by_cases hmem : w ∈ adds
      · exact .inl hmem
      have hother : ∀ a ∈ adds, a.vid ≠ w.vid := fun a ha hvid =>
        hmem (hcons.flags a (h.adds_sub a ha) w hw hvid ▸ ha)
      refine .inr ⟨hother, ?_⟩
      by_cases hheld : p.Has w
      · refine .inl ⟨(hkept w hw).1, hheld, fun hpvid a ha => ?_⟩
        by_contra htrue
        exact hother a ha
          (congrArg _ (hcons.pvid a (h.adds_sub a ha) w hw (by simpa using htrue) hpvid))
      · rcases hcarried.adds w hw hheld with hadmits | ⟨hpvid, hheld', v', hv', hpvid'⟩
        · exact absurd (h.mem_adds w hw hheld hadmits) hmem
        · refine .inr ⟨hpvid, (hkept w hw).1, hheld', v', ?_, hpvid'⟩
          have hnot : ¬p.Has v' := fun hhas => by
            have heq := hhas.eq_of_pvid hheld' hpvid' rfl
            have hsame := hcons.flags v' hv' w hw (by rw [heq])
            rw [hsame, hpvid] at hpvid'
            cases hpvid'
          rcases hcarried.adds v' hv' hnot with hadmits | ⟨hpvid'', -⟩
          · exact h.mem_adds v' hv' hnot hadmits
          · rw [hpvid''] at hpvid'
            cases hpvid'
    refine ⟨fun hhas => ?_, hlisted v⟩
    by_cases hasked : ∃ w ∈ x.bridgeVlans, w.vid = v.vid
    · obtain ⟨w, hw, hvid⟩ := hasked
      rw [← (hlisted w hw).eq_of_vid hhas hvid]
      exact hw
    · push Not at hasked
      -- what is left of what is not listed would have been taken away
      have hgone : ∀ v', p.Has v' → v'.vid = v.vid → v.vid ∈ first ∨ v.vid ∈ dels := by
        intro v' hv' hvid
        have hunasked : ∀ w ∈ x.bridgeVlans, w.vid ≠ v'.vid := hvid ▸ hasked
        rw [← List.mem_append, ← hvid]
        exact h.mem_dels v' hv' hunasked (hcarried.dels v' hv' hunasked)
      obtain ⟨hdels, hmem | ⟨-, ⟨hfirst, hheld, -⟩ | ⟨-, hfirst, hheld, -⟩⟩⟩ :=
        (h.has_iff hrange hcons).1 hhas
      · exact h.adds_sub v hmem
      · rcases hgone v hheld rfl with hmem | hmem
        · exact absurd hmem hfirst
        · exact absurd hmem hdels
      · rcases hgone _ hheld rfl with hmem | hmem
        · exact absurd hmem hfirst
        · exact absurd hmem hdels

theorem bridgeVlanActions_eq_nil (hsees : Sees o x p) (h : ∀ v, p.Has v ↔ v ∈ x.bridgeVlans) :
    bridgeVlanActions o x = [] := by
  obtain ⟨l, index, hlink, -⟩ := id hsees
  have hheld : (x.bridgeVlans.filter fun wanted => !vlanHeld o x wanted) = [] := by
    refine List.filter_eq_nil_iff.2 fun w hw => ?_
    rw [hsees.vlanHeld_iff.2 ((h w).2 hw)]
    simp
  have hasked : ((portVlans o x).filter fun v => ∀ wanted ∈ x.bridgeVlans, wanted.vid ≠ v.vid) =
      [] := by
    refine List.filter_eq_nil_iff.2 fun v hv hunasked => ?_
    have hhas := hsees.mem_portVlans.1 ⟨v, hv, rfl, rfl, rfl⟩
    exact of_decide_eq_true hunasked _ ((h _).1 hhas) rfl
  unfold bridgeVlanActions
  dsimp only
  split_ifs with hport hjoins
  · simp [hlink] at hjoins
  · rw [hheld, hasked]
    rfl
  · rfl

theorem emitted_eq_nil (hs : s.building.tearingDown = false) (h : bridgeVlanActions o x = []) :
    emitted c o x s = [] := by
  rw [emitted_eq hs, h]
  rfl

/-- One pass is enough where the port is listed as a port can be, and nothing is in the way; a
device that lists nothing keeps what it has. -/
theorem converges_iff_of_range (hrange : ∀ v ∈ x.bridgeVlans, InRange v.vid)
    (hs : s.building.tearingDown = false) (hstart : StartsFrom o x p) (hon : OnBridge o x) :
    Converges c o x s p ↔
      (x.bridgeVlans = [] → ∀ v, ¬p.Has v) ∧ Consistent x.bridgeVlans ∧
        (x.bridgeVlans ≠ [] → Carried c s.building.declined x p) := by
  by_cases hnil : x.bridgeVlans = []
  · have hnothing : ∀ o', bridgeVlanActions o' x = [] := fun o' => by
      unfold bridgeVlanActions
      simp [hasPort, hnil]
    unfold Converges
    rw [emitted_eq_nil hs (hnothing o)]
    have hcons : Consistent ([] : List BridgeVlan) := ⟨by simp, by simp⟩
    simp only [hnil, Port.run, List.foldl_nil, List.not_mem_nil, iff_false, true_imp_iff, ne_eq,
      not_true_eq_false, false_imp_iff, and_true, hcons]
    exact and_iff_right fun o' s' hs' _ => emitted_eq_nil hs' (hnothing o')
  · obtain ⟨first, adds, dels, hdoes, hrun⟩ := exists_does (c := c) hs hstart hon hnil
    have hholds := hdoes.holds_iff hrange
    rw [← hrun] at hholds
    unfold Converges
    rw [hholds]
    simp only [hnil, false_imp_iff, true_and, ne_eq, not_false_eq_true, true_imp_iff]
    refine and_iff_right_of_imp fun h o' s' hs' hsees => ?_
    exact emitted_eq_nil hs' (bridgeVlanActions_eq_nil hsees (hholds.2 h))

end Pass

/-- A dump is read as the VLANs of the port, each once; and one pass is enough for the VLANs a
device lists, where the list is that of a port and nothing is in the way. -/
theorem bridge_vlans_converge_iff (c : Checks) (o : Observed) (x : Device) (s : Planning) (p : Port)
    (values : List Value) (hcompiled : Compiled values x.bridgeVlans)
    (hs : s.building.tearingDown = false) (hstart : StartsFrom o x p) (hon : OnBridge o x) :
    (∀ index (q : Port), dumpBridgeVlans index (kernelDump q) = q.entries.map (recordOf index) ∧
      (∀ v, v ∈ q.entries ↔ q.Has v) ∧ q.entries.Pairwise (·.vid < ·.vid)) ∧
    (Converges c o x s p ↔
      (x.bridgeVlans = [] → ∀ v, ¬p.Has v) ∧ Consistent x.bridgeVlans ∧
        (x.bridgeVlans ≠ [] → Carried c s.building.declined x p)) :=
  ⟨fun index q => ⟨dumpBridgeVlans_kernelDump index q, fun _ => Port.mem_entries,
    q.pairwise_entries⟩, converges_iff_of_range (fun _ => hcompiled.inRange) hs hstart hon⟩

/-! ## A list that no port is as -/

def trunk (vlans : List BridgeVlan) : Device where
  name := "eth1"
  kind := .physical
  master := some "br0"
  bridgeVlans := vlans

def noChecks : Checks := ⟨[], [], [], [], []⟩

theorem admits_noChecks (op : Op) : noChecks.admits [] false op = true := by
  simp [Checks.admits, Checks.passesOver, Checks.lockOn, Checks.guardOn, noChecks]

/-- A trunk with its own network untagged, one tagged and one that leaves untagged. -/
def listed : List BridgeVlan := [⟨10, true, true⟩, ⟨20, false, false⟩, ⟨30, false, true⟩]

/-- A new port of a bridge that filters comes to the VLANs listed. -/
theorem listed_converge : Converges noChecks {} (trunk listed) { building := .new } joined :=
  (bridge_vlans_converge_iff noChecks {} (trunk listed) { building := .new } joined
    [.string "10 pvid untagged\n20", .string "30 untagged"]
    ⟨by decide +kernel, by decide +kernel⟩ rfl (.inr ⟨rfl, .inr rfl⟩) (.inr (.inl rfl))).2.2
    ⟨by simp [trunk, listed], ⟨by simp [trunk, listed], by simp [trunk, listed]⟩, fun _ =>
      ⟨fun _ _ _ => admits_noChecks _, fun _ _ _ => .inl (admits_noChecks _)⟩⟩

/-- Two VLANs with the pvid, which the compiler accepts, and which no port has. -/
theorem two_pvids_never_settle :
    Compiled [.string "10 pvid\n20 pvid"] [⟨10, true, false⟩, ⟨20, true, false⟩] ∧
      ¬Converges noChecks {} (trunk [⟨10, true, false⟩, ⟨20, true, false⟩]) { building := .new }
        joined := by
  refine ⟨⟨by decide +kernel, by decide +kernel⟩, fun h => ?_⟩
  have hrange : ∀ v ∈ (trunk [⟨10, true, false⟩, ⟨20, true, false⟩]).bridgeVlans,
      InRange v.vid := by decide
  obtain ⟨-, hcons, -⟩ :=
    (converges_iff_of_range hrange rfl (.inr ⟨rfl, .inr rfl⟩) (.inr (.inl rfl))).1 h
  have hsame := hcons.pvid ⟨10, true, false⟩ (by simp [trunk]) ⟨20, true, false⟩ (by simp [trunk])
    rfl rfl
  simp at hsame

end Netcfgd.Bridge
