import Netcfgd.Document
import Netcfgd.NormalForm

/-!
# The VLANs of a bridge port

A port of a bridge holds a VLAN once, with its untagged flag, and one VLAN at most is its pvid
(`Port`). The kernel dumps it as attributes, VLANs in a row with equal flags as the first and the
last of them (`kernelDump`), and `ncfg_dump_bridge_vlans` reads them back.

What it reads is the VLANs of the port, each once and in order (`dumpBridgeVlans_kernelDump`).
-/

namespace Netcfgd.Bridge

abbrev Bytes := List UInt8

/-! ## The port -/

/-- `NCFG_BRIDGE_VLAN_ID_MIN` and `NCFG_VLAN_ID_MAX`. -/
def InRange (vid : ℤ) : Prop := 1 ≤ vid ∧ vid ≤ 4094

instance (vid : ℤ) : Decidable (InRange vid) := inferInstanceAs (Decidable (_ ∧ _))

/-- A port of a bridge : the untagged flag of each VLAN on it, and the one that is the pvid. -/
@[ext] structure Port where
  untagged : ℤ → Option Bool
  pvid : Option ℤ
  inRange : ∀ vid, untagged vid ≠ none → InRange vid
  pvid_held : ∀ vid, pvid = some vid → untagged vid ≠ none

namespace Port

def empty : Port := ⟨fun _ => none, none, by simp, by simp⟩

/-- A port has a VLAN as it is listed. -/
def Has (p : Port) (v : BridgeVlan) : Prop :=
  p.untagged v.vid = some v.untagged ∧ (v.pvid = true ↔ p.pvid = some v.vid)

/-- `bridge.vlan.add` : the flags of the VLAN are replaced, and the pvid moves. An id that is no
VLAN is refused. -/
def add (p : Port) (v : BridgeVlan) : Port :=
  if h : InRange v.vid then
    { untagged := Function.update p.untagged v.vid (some v.untagged)
      pvid := if v.pvid then some v.vid else if p.pvid = some v.vid then none else p.pvid
      inRange := fun vid hvid => by
        by_cases heq : vid = v.vid
        · exact heq ▸ h
        · rw [Function.update_of_ne heq] at hvid
          exact p.inRange vid hvid
      pvid_held := fun vid hvid => by
        by_cases heq : vid = v.vid
        · simp [heq]
        · rw [Function.update_of_ne heq]
          split_ifs at hvid
          · exact absurd (Option.some.inj hvid).symm heq
          · exact p.pvid_held vid hvid }
  else p

/-- `bridge.vlan.del`. -/
def del (p : Port) (vid : ℤ) : Port where
  untagged := Function.update p.untagged vid none
  pvid := if p.pvid = some vid then none else p.pvid
  inRange other hother := by
    by_cases heq : other = vid
    · simp [heq] at hother
    · rw [Function.update_of_ne heq] at hother
      exact p.inRange other hother
  pvid_held other hother := by
    split_ifs at hother with hpvid
    have hne : other ≠ vid := fun heq => hpvid (heq ▸ hother)
    rw [Function.update_of_ne hne]
    exact p.pvid_held other hother

section Ops

variable {p : Port} {v w : BridgeVlan} {vid : ℤ} {u : Bool}

theorem Has.eq_of_vid (hv : p.Has v) (hw : p.Has w) (h : v.vid = w.vid) : v = w := by
  obtain ⟨vid, pvid, untagged⟩ := v
  obtain ⟨vid', pvid', untagged'⟩ := w
  obtain ⟨huntagged, hpvid⟩ := hv
  obtain ⟨huntagged', hpvid'⟩ := hw
  dsimp only at h huntagged hpvid huntagged' hpvid'
  subst h
  rw [huntagged, Option.some.injEq] at huntagged'
  rw [BridgeVlan.mk.injEq, Bool.eq_iff_iff, hpvid, hpvid']
  exact ⟨rfl, Iff.rfl, huntagged'⟩

theorem Has.eq_of_pvid (hv : p.Has v) (hw : p.Has w) (hpv : v.pvid = true) (hpw : w.pvid = true) :
    v = w := by
  refine hv.eq_of_vid hw (Option.some.inj ?_)
  rw [← hv.2.1 hpv, hw.2.1 hpw]

theorem untagged_add (h : InRange v.vid) :
    (p.add v).untagged vid = some u ↔
      v.vid = vid ∧ v.untagged = u ∨ v.vid ≠ vid ∧ p.untagged vid = some u := by
  rw [add, dif_pos h]
  dsimp only
  by_cases heq : v.vid = vid
  · simp [← heq]
  · rw [Function.update_of_ne (Ne.symm heq)]
    simp [heq]

theorem pvid_add (h : InRange v.vid) :
    (p.add v).pvid = some vid ↔
      v.pvid = true ∧ v.vid = vid ∨ v.pvid = false ∧ v.vid ≠ vid ∧ p.pvid = some vid := by
  rw [add, dif_pos h]
  dsimp only
  rcases hpvid : v.pvid with _ | _
  · by_cases hheld : p.pvid = some v.vid
    · simp [hheld, eq_comm]
    · have hne : p.pvid = some vid → v.vid ≠ vid := fun hp heq => hheld (heq ▸ hp)
      simpa [hheld] using hne
  · simp

theorem untagged_del :
    (p.del vid).untagged w.vid = some u ↔ w.vid ≠ vid ∧ p.untagged w.vid = some u := by
  by_cases heq : w.vid = vid
  · simp [del, heq]
  · simp [del, heq]

theorem pvid_del : (p.del vid).pvid = some w.vid ↔ w.vid ≠ vid ∧ p.pvid = some w.vid := by
  simp only [del]
  by_cases hheld : p.pvid = some vid
  · simp [hheld, eq_comm]
  · have hne : p.pvid = some w.vid → w.vid ≠ vid := fun hp heq => hheld (heq ▸ hp)
    simpa [hheld] using hne

theorem has_del : (p.del vid).Has v ↔ v.vid ≠ vid ∧ p.Has v := by
  unfold Has
  rw [untagged_del, pvid_del]
  by_cases heq : v.vid = vid <;> simp [heq]

end Ops

/-- The VLANs of a port, in order. -/
def entries (p : Port) : List BridgeVlan :=
  (List.range 4094).filterMap fun n : ℕ =>
    (p.untagged ((n : ℤ) + 1)).map fun untagged =>
      ⟨(n : ℤ) + 1, p.pvid = some ((n : ℤ) + 1), untagged⟩

/-- The entries of a port are the VLANs it has. -/
theorem mem_entries {p : Port} {v : BridgeVlan} : v ∈ p.entries ↔ p.Has v := by
  obtain ⟨vid, pvid, untagged⟩ := v
  unfold entries Has
  simp only [List.mem_filterMap, List.mem_range, Option.map_eq_some_iff, BridgeVlan.mk.injEq]
  constructor
  · rintro ⟨n, -, u, hu, rfl, rfl, rfl⟩
    simp [hu]
  · rintro ⟨huntagged, hpvid⟩
    obtain ⟨hmin, hmax⟩ := p.inRange vid (by simp [huntagged])
    have hvid : ((vid.toNat - 1 : ℕ) : ℤ) + 1 = vid := by omega
    refine ⟨vid.toNat - 1, by omega, untagged, by rw [hvid, huntagged], hvid, ?_, rfl⟩
    rw [hvid, Bool.eq_iff_iff, decide_eq_true_iff, hpvid]

/-- Each VLAN stands once among the entries. -/
theorem pairwise_entries (p : Port) : p.entries.Pairwise (·.vid < ·.vid) := by
  refine List.Pairwise.filterMap _ (fun m n hlt v hv w hw => ?_) List.pairwise_lt_range
  obtain ⟨u, -, rfl⟩ := Option.map_eq_some_iff.1 hv
  obtain ⟨u', -, rfl⟩ := Option.map_eq_some_iff.1 hw
  dsimp only
  omega

end Port

/-- A list that a port can be as : no VLAN has two sets of flags, and there is one pvid at most. -/
structure Consistent (vlans : List BridgeVlan) : Prop where
  flags : ∀ v ∈ vlans, ∀ w ∈ vlans, v.vid = w.vid → v = w
  pvid : ∀ v ∈ vlans, ∀ w ∈ vlans, v.pvid = true → w.pvid = true → v = w

theorem Consistent.tail {v : BridgeVlan} {vlans : List BridgeVlan}
    (h : Consistent (v :: vlans)) : Consistent vlans :=
  ⟨fun a ha b hb => h.flags a (List.mem_cons_of_mem _ ha) b (List.mem_cons_of_mem _ hb),
    fun a ha b hb => h.pvid a (List.mem_cons_of_mem _ ha) b (List.mem_cons_of_mem _ hb)⟩

theorem Consistent.sub {vlans vlans' : List BridgeVlan} (h : Consistent vlans)
    (hsub : ∀ v ∈ vlans', v ∈ vlans) : Consistent vlans' :=
  ⟨fun a ha b hb => h.flags a (hsub a ha) b (hsub b hb),
    fun a ha b hb => h.pvid a (hsub a ha) b (hsub b hb)⟩

theorem Consistent.of_has {p : Port} {vlans : List BridgeVlan} (h : ∀ v ∈ vlans, p.Has v) :
    Consistent vlans :=
  ⟨fun v hv w hw => (h v hv).eq_of_vid (h w hw), fun v hv w hw => (h v hv).eq_of_pvid (h w hw)⟩

namespace Port

theorem untagged_adds : ∀ {vlans : List BridgeVlan} {p : Port} {vid : ℤ} {u : Bool},
    (∀ v ∈ vlans, InRange v.vid) → Consistent vlans →
      ((vlans.foldl add p).untagged vid = some u ↔
        (∃ v ∈ vlans, v.vid = vid ∧ v.untagged = u) ∨
          (∀ v ∈ vlans, v.vid ≠ vid) ∧ p.untagged vid = some u)
  | [], p, vid, u, _, _ => by simp
  | a :: vlans, p, vid, u, hrange, hcons => by
    rw [List.foldl_cons, untagged_adds (fun v hv => hrange v (List.mem_cons_of_mem _ hv))
      hcons.tail, untagged_add (hrange a List.mem_cons_self)]
    simp only [List.mem_cons, exists_eq_or_imp, forall_eq_or_imp]
    constructor
    · rintro (h | ⟨hnone, ⟨hvid, huntagged⟩ | ⟨hvid, huntagged⟩⟩)
      · exact .inl (.inr h)
      · exact .inl (.inl ⟨hvid, huntagged⟩)
      · exact .inr ⟨⟨hvid, hnone⟩, huntagged⟩
    · rintro ((⟨hvid, huntagged⟩ | h) | ⟨⟨hvid, hnone⟩, huntagged⟩)
      · by_cases hlater : ∃ v ∈ vlans, v.vid = vid
        · obtain ⟨v, hv, hvid'⟩ := hlater
          have heq : a = v := hcons.flags a List.mem_cons_self v (List.mem_cons_of_mem _ hv)
            (hvid.trans hvid'.symm)
          exact .inl ⟨v, hv, hvid', heq ▸ huntagged⟩
        · exact .inr ⟨fun v hv hvid' => hlater ⟨v, hv, hvid'⟩, .inl ⟨hvid, huntagged⟩⟩
      · exact .inl h
      · exact .inr ⟨hnone, .inr ⟨hvid, huntagged⟩⟩

theorem pvid_adds : ∀ {vlans : List BridgeVlan} {p : Port} {vid : ℤ},
    (∀ v ∈ vlans, InRange v.vid) → Consistent vlans →
      ((vlans.foldl add p).pvid = some vid ↔
        (∃ v ∈ vlans, v.pvid = true ∧ v.vid = vid) ∨
          (∀ v ∈ vlans, v.pvid = false ∧ v.vid ≠ vid) ∧ p.pvid = some vid)
  | [], p, vid, _, _ => by simp
  | a :: vlans, p, vid, hrange, hcons => by
    rw [List.foldl_cons, pvid_adds (fun v hv => hrange v (List.mem_cons_of_mem _ hv)) hcons.tail,
      pvid_add (hrange a List.mem_cons_self)]
    simp only [List.mem_cons, exists_eq_or_imp, forall_eq_or_imp]
    constructor
    · rintro (h | ⟨hnone, ⟨hpvid, hvid⟩ | ⟨hpvid, hvid, hheld⟩⟩)
      · exact .inl (.inr h)
      · exact .inl (.inl ⟨hpvid, hvid⟩)
      · exact .inr ⟨⟨⟨hpvid, hvid⟩, hnone⟩, hheld⟩
    · rintro ((⟨hpvid, hvid⟩ | h) | ⟨⟨⟨hpvid, hvid⟩, hnone⟩, hheld⟩)
      · by_cases hlater : ∃ v ∈ vlans, v.pvid = true ∨ v.vid = vid
        · obtain ⟨v, hv, hwhy⟩ := hlater
          have heq : a = v := by
            rcases hwhy with hpvid' | hvid'
            · exact hcons.pvid a List.mem_cons_self v (List.mem_cons_of_mem _ hv) hpvid hpvid'
            · exact hcons.flags a List.mem_cons_self v (List.mem_cons_of_mem _ hv)
                (hvid.trans hvid'.symm)
          exact .inl ⟨v, hv, heq ▸ hpvid, heq ▸ hvid⟩
        · push Not at hlater
          exact .inr ⟨fun v hv => ⟨by simpa using (hlater v hv).1, (hlater v hv).2⟩,
            .inl ⟨hpvid, hvid⟩⟩
      · exact .inl h
      · exact .inr ⟨hnone, .inr ⟨hpvid, hvid, hheld⟩⟩

/-- What the port holds after adding some : a VLAN it held keeps its flags, but for the pvid, which
another one may take. -/
theorem has_adds {vlans : List BridgeVlan} {p : Port} {v : BridgeVlan}
    (hrange : ∀ v ∈ vlans, InRange v.vid) (hcons : Consistent vlans) :
    (vlans.foldl add p).Has v ↔ v ∈ vlans ∨ (∀ a ∈ vlans, a.vid ≠ v.vid) ∧
      (p.Has v ∧ (v.pvid = true → ∀ a ∈ vlans, a.pvid = false) ∨
        v.pvid = false ∧ p.Has { v with pvid := true } ∧ ∃ a ∈ vlans, a.pvid = true) := by
  have huntagged : (vlans.foldl add p).untagged v.vid = some v.untagged ↔ _ :=
    untagged_adds hrange hcons
  have hpvid : (vlans.foldl add p).pvid = some v.vid ↔ _ := pvid_adds hrange hcons
  unfold Has
  rw [huntagged, hpvid]
  by_cases hadded : ∃ a ∈ vlans, a.vid = v.vid
  · obtain ⟨a, ha, hvid⟩ := hadded
    have honly : ∀ b ∈ vlans, b.vid = v.vid → b = a := fun b hb hbvid =>
      hcons.flags b hb a ha (hbvid.trans hvid.symm)
    have hnot : ¬∀ b ∈ vlans, b.vid ≠ v.vid := fun h => h a ha hvid
    have hnot' : ¬∀ b ∈ vlans, b.pvid = false ∧ b.vid ≠ v.vid := fun h => (h a ha).2 hvid
    simp only [hnot, hnot', false_and, or_false]
    constructor
    · rintro ⟨⟨b, hb, hbvid, hbuntagged⟩, hb'⟩
      obtain rfl := honly b hb hbvid
      have hsame : b = v := by
        obtain ⟨vid, pvid, untagged⟩ := v
        obtain ⟨vid', pvid', untagged'⟩ := b
        dsimp only at hbvid hbuntagged
        subst hbvid hbuntagged
        rw [BridgeVlan.mk.injEq, Bool.eq_iff_iff]
        refine ⟨rfl, ⟨fun h => hb'.2 ⟨_, hb, h, rfl⟩, fun h => ?_⟩, rfl⟩
        obtain ⟨e, he, hepvid, hevid⟩ := hb'.1 h
        rw [honly e he hevid] at hepvid
        exact hepvid
      exact hsame ▸ hb
    · intro hv
      refine ⟨⟨v, hv, rfl, rfl⟩, fun h => ⟨v, hv, h, rfl⟩, ?_⟩
      rintro ⟨e, he, hepvid, hevid⟩
      rw [← hcons.flags e he v hv hevid]
      exact hepvid
  · push Not at hadded
    have hnotmem : v ∉ vlans := fun hv => hadded v hv rfl
    have hnone : ¬∃ a ∈ vlans, a.vid = v.vid ∧ a.untagged = v.untagged := fun ⟨a, ha, hvid, _⟩ =>
      hadded a ha hvid
    have hnone' : ¬∃ a ∈ vlans, a.pvid = true ∧ a.vid = v.vid := fun ⟨a, ha, _, hvid⟩ =>
      hadded a ha hvid
    have hall : (∀ a ∈ vlans, a.pvid = false ∧ a.vid ≠ v.vid) ↔ ∀ a ∈ vlans, a.pvid = false :=
      ⟨fun h a ha => (h a ha).1, fun h a ha => ⟨h a ha, hadded a ha⟩⟩
    have htrue : (∀ a ∈ vlans, a.vid ≠ v.vid) ↔ True := iff_true_intro hadded
    have htaken : (∃ a ∈ vlans, a.pvid = true) ↔ ¬∀ a ∈ vlans, a.pvid = false := by
      push Not
      simp
    simp only [hnotmem, hnone, hnone', hall, htrue, htaken, false_or, true_and]
    by_cases hfree : ∀ a ∈ vlans, a.pvid = false
    · simp only [eq_true hfree, implies_true, true_and, and_true, not_true_eq_false, and_false,
        or_false]
    · simp only [eq_false hfree, imp_false, false_and, not_false_eq_true, and_true, iff_false]
      rcases v.pvid with _ | _
      · by_cases hheld : p.pvid = some v.vid <;> simp [hheld]
      · simp

theorem has_dels {v : BridgeVlan} : ∀ {vids : List ℤ} {p : Port},
    (vids.foldl del p).Has v ↔ v.vid ∉ vids ∧ p.Has v
  | [], p => by simp
  | vid :: vids, p => by
    rw [List.foldl_cons, has_dels, has_del, List.mem_cons, not_or, and_assoc, and_left_comm]

end Port

/-! ## The dump of the kernel -/

structure Attr where
  kind : ℕ
  value : Bytes
  deriving DecidableEq, Repr

/-- `IFLA_BRIDGE_VLAN_INFO`. -/
def vlanInfo : ℕ := 2

/-- The flags of `struct bridge_vlan_info`. -/
def flagPvid : ℕ := 2
def flagUntagged : ℕ := 4
def flagRangeBegin : ℕ := 8
def flagRangeEnd : ℕ := 16

/-- A `__u16` as the kernel writes it. -/
def word (n : ℕ) : Bytes := [UInt8.ofNat (n % 256), UInt8.ofNat (n / 256)]

def infoOf (v : BridgeVlan) (range : ℕ) : Attr :=
  ⟨vlanInfo, word ((if v.pvid then flagPvid else 0) + (if v.untagged then flagUntagged else 0) +
    range) ++ word v.vid.toNat⟩

/-- VLANs in a row, from the first to the one with the id `last`, as they are sent. -/
def sent (first : BridgeVlan) (last : ℤ) : List Attr :=
  if first.vid = last then [infoOf first 0]
  else [infoOf first flagRangeBegin, infoOf { first with vid := last } flagRangeEnd]

/-- The dump, from within a run of VLANs in a row with equal flags. -/
def dumpFrom (first : BridgeVlan) (last : ℤ) : List BridgeVlan → List Attr
  | [] => sent first last
  | v :: vlans =>
    if v.vid = last + 1 ∧ v.pvid = first.pvid ∧ v.untagged = first.untagged then
      dumpFrom first v.vid vlans
    else sent first last ++ dumpFrom v v.vid vlans

def dumpOf : List BridgeVlan → List Attr
  | [] => []
  | v :: vlans => dumpFrom v v.vid vlans

def kernelDump (p : Port) : List Attr := dumpOf p.entries

/-! ## Reading the dump -/

/-- `ncfg_bridge_vlan_record_t`. -/
structure Record where
  index : ℕ
  vid : ℕ
  pvid : Bool
  untagged : Bool
  deriving DecidableEq, Repr

/-- `compare_vlans`. -/
def compareVlans : Record → Record → Ordering :=
  compareLex (compareOn Record.index) <| compareLex (compareOn Record.vid) <|
    compareLex (compareOn Record.pvid) (compareOn Record.untagged)

/-- A `__u16` of a value, from a place on. -/
def wordAt (value : Bytes) (place : ℕ) : ℕ :=
  (value.getD place 0).toNat + 256 * (value.getD (place + 1) 0).toNat

/-- The loop of `ncfg_dump_bridge_vlans` : what was pushed, and `start` while a range is open. -/
structure Walk where
  out : List Record := []
  start : Option Record := none

def Walk.step (index : ℕ) (w : Walk) (attr : Attr) : Walk :=
  if attr.kind ≠ vlanInfo ∨ attr.value.length < 4 then w
  else
    let flags := wordAt attr.value 0
    let record : Record :=
      ⟨index, wordAt attr.value 2, flags &&& flagPvid ≠ 0, flags &&& flagUntagged ≠ 0⟩
    if flags &&& flagRangeBegin ≠ 0 then { w with start := some record }
    else
      match w.start with
      | some start =>
        if flags &&& flagRangeEnd ≠ 0 then
          { out := w.out ++ (List.range' start.vid (record.vid + 1 - start.vid)).map fun vid =>
              { start with vid }
            start := none }
        else { w with out := w.out ++ [record] }
      | none => { w with out := w.out ++ [record] }

/-- `ncfg_dump_bridge_vlans` on the attributes of `AF_SPEC`. A range that never ended counts for
its first VLAN. -/
def dumpBridgeVlans (index : ℕ) (attrs : List Attr) : List Record :=
  let w := attrs.foldl (Walk.step index) {}
  NormalForm.stableSort compareVlans (w.out ++ w.start.toList)

def recordOf (index : ℕ) (v : BridgeVlan) : Record := ⟨index, v.vid.toNat, v.pvid, v.untagged⟩

/-! ## What is read of a dump -/

section Read

variable {index : ℕ} {out : List Record} {v first : BridgeVlan} {last : ℤ}

theorem wordAt_word {n : ℕ} (h : n < 65536) (rest : Bytes) : wordAt (word n ++ rest) 0 = n := by
  simp only [wordAt, word, List.cons_append, List.nil_append, List.getD_cons_zero,
    List.getD_cons_succ, UInt8.toNat_ofNat']
  omega

theorem wordAt_word_word {n : ℕ} (h : n < 65536) (first : ℕ) :
    wordAt (word first ++ word n) 2 = n := by
  simp only [wordAt, word, List.cons_append, List.nil_append, List.getD_cons_zero,
    List.getD_cons_succ, UInt8.toNat_ofNat']
  omega

theorem info_read (range : ℕ) (hrange : range ∈ [0, flagRangeBegin, flagRangeEnd])
    (hv : InRange v.vid) :
    wordAt (infoOf v range).value 2 = v.vid.toNat ∧
      (wordAt (infoOf v range).value 0 &&& flagPvid ≠ 0 ↔ v.pvid = true) ∧
      (wordAt (infoOf v range).value 0 &&& flagUntagged ≠ 0 ↔ v.untagged = true) ∧
      (wordAt (infoOf v range).value 0 &&& flagRangeBegin ≠ 0 ↔ range = flagRangeBegin) ∧
      (wordAt (infoOf v range).value 0 &&& flagRangeEnd ≠ 0 ↔ range = flagRangeEnd) := by
  have hvid : v.vid.toNat < 65536 := by
    obtain ⟨hmin, hmax⟩ := hv
    omega
  refine ⟨wordAt_word_word hvid _, ?_⟩
  simp only [List.mem_cons, List.not_mem_nil, or_false] at hrange
  have hflags : (if v.pvid then flagPvid else 0) + (if v.untagged then flagUntagged else 0) +
      range < 65536 := by
    rcases hrange with rfl | rfl | rfl <;> split_ifs <;> decide
  rw [infoOf, wordAt_word hflags]
  rcases hrange with rfl | rfl | rfl <;> cases v.pvid <;> cases v.untagged <;> decide

theorem step_info (range : ℕ) (hrange : range ∈ [0, flagRangeBegin, flagRangeEnd])
    (hv : InRange v.vid) (w : Walk) :
    Walk.step index w (infoOf v range) =
      if range = flagRangeBegin then { w with start := some (recordOf index v) }
      else
        match w.start with
        | some start =>
          if range = flagRangeEnd then
            { out := w.out ++ (List.range' start.vid (v.vid.toNat + 1 - start.vid)).map fun vid =>
                { start with vid }
              start := none }
          else { w with out := w.out ++ [recordOf index v] }
        | none => { w with out := w.out ++ [recordOf index v] } := by
  obtain ⟨hvid, hpvid, huntagged, hbegin, hend⟩ := info_read range hrange hv
  unfold Walk.step
  rw [if_neg (by simp [infoOf, word])]
  simp only [hvid, hpvid, huntagged, hbegin, hend, Bool.decide_eq_true, recordOf]

def runOf (index : ℕ) (first : BridgeVlan) (last : ℤ) : List Record :=
  (List.range' first.vid.toNat (last.toNat + 1 - first.vid.toNat)).map fun vid =>
    ⟨index, vid, first.pvid, first.untagged⟩

theorem runOf_self (v : BridgeVlan) : runOf index v v.vid = [recordOf index v] := by
  have hcount : v.vid.toNat + 1 - v.vid.toNat = 1 := by omega
  simp [runOf, hcount, recordOf]

theorem foldl_sent (hfirst : InRange first.vid) (hlast : InRange last) :
    (sent first last).foldl (Walk.step index) ⟨out, none⟩ =
      ⟨out ++ runOf index first last, none⟩ := by
  unfold sent
  split_ifs with h
  · rw [List.foldl_cons, step_info 0 (by simp) hfirst]
    have hone : last.toNat + 1 - first.vid.toNat = 1 := by rw [h]; omega
    simp [flagRangeBegin, runOf, hone, recordOf]
  · rw [List.foldl_cons, step_info flagRangeBegin (by simp) hfirst, if_pos rfl, List.foldl_cons,
      step_info flagRangeEnd (by simp) hlast]
    rfl

theorem runOf_succ (hv : v.vid = last + 1) (hfirst : InRange first.vid) (hle : first.vid ≤ last)
    (hpvid : v.pvid = first.pvid) (huntagged : v.untagged = first.untagged) :
    runOf index first v.vid = runOf index first last ++ [recordOf index v] := by
  have hmin : 1 ≤ first.vid := hfirst.1
  have hcount : v.vid.toNat + 1 - first.vid.toNat = last.toNat + 1 - first.vid.toNat + 1 := by omega
  have hplace : first.vid.toNat + 1 * (last.toNat + 1 - first.vid.toNat) = v.vid.toNat := by omega
  rw [runOf, hcount, List.range'_concat, List.map_append, hplace, List.map_singleton, ← runOf,
    recordOf, hpvid, huntagged]

theorem foldl_dumpFrom : ∀ (vlans : List BridgeVlan) {first : BridgeVlan} {last : ℤ}
    {out : List Record}, InRange first.vid → InRange last → first.vid ≤ last →
    (∀ v ∈ vlans, InRange v.vid ∧ last < v.vid) → vlans.Pairwise (·.vid < ·.vid) →
      (dumpFrom first last vlans).foldl (Walk.step index) ⟨out, none⟩ =
        ⟨out ++ runOf index first last ++ vlans.map (recordOf index), none⟩
  | [], first, last, out, hfirst, hlast, _, _, _ => by
    rw [dumpFrom, foldl_sent hfirst hlast, List.map_nil, List.append_nil]
  | v :: vlans, first, last, out, hfirst, hlast, hle, hall, hpair => by
    obtain ⟨hv, hlt⟩ := hall v List.mem_cons_self
    obtain ⟨hhead, htail⟩ := List.pairwise_cons.1 hpair
    have hrest : ∀ w ∈ vlans, InRange w.vid ∧ v.vid < w.vid := fun w hw =>
      ⟨(hall w (List.mem_cons_of_mem _ hw)).1, hhead w hw⟩
    rw [dumpFrom, List.map_cons]
    split_ifs with hrow
    · obtain ⟨hnext, hpvid, huntagged⟩ := hrow
      rw [foldl_dumpFrom vlans hfirst hv (by omega) hrest htail,
        runOf_succ hnext hfirst hle hpvid huntagged]
      simp
    · rw [List.foldl_append, foldl_sent hfirst hlast, foldl_dumpFrom vlans hv hv le_rfl hrest htail,
        runOf_self]
      simp

theorem foldl_dumpOf {vlans : List BridgeVlan} (hrange : ∀ v ∈ vlans, InRange v.vid)
    (hpair : vlans.Pairwise (·.vid < ·.vid)) :
    (dumpOf vlans).foldl (Walk.step index) {} = ⟨vlans.map (recordOf index), none⟩ := by
  rcases vlans with _ | ⟨v, vlans⟩
  · rfl
  · obtain ⟨hhead, htail⟩ := List.pairwise_cons.1 hpair
    have hv := hrange v List.mem_cons_self
    rw [dumpOf, foldl_dumpFrom vlans hv hv le_rfl
      (fun w hw => ⟨hrange w (List.mem_cons_of_mem _ hw), hhead w hw⟩) htail, runOf_self]
    rfl

/-- The dump of a port reads back as its entries. -/
theorem dumpBridgeVlans_kernelDump (index : ℕ) (p : Port) :
    dumpBridgeVlans index (kernelDump p) = p.entries.map (recordOf index) := by
  have hpair := p.pairwise_entries
  have hrange : ∀ v ∈ p.entries, InRange v.vid := fun v hv =>
    p.inRange v.vid (by simp [(Port.mem_entries.1 hv).1])
  rw [dumpBridgeVlans, kernelDump, foldl_dumpOf hrange hpair]
  dsimp only
  rw [Option.toList_none, List.append_nil]
  refine NormalForm.stableSort_of_ascending (List.Pairwise.isChain ?_)
  rw [List.pairwise_map]
  refine hpair.imp_of_mem fun {v w} hv hw hlt => ?_
  have hle : v.vid.toNat < w.vid.toNat := by
    have := (hrange v hv).1
    omega
  have hcompare : compareVlans (recordOf index v) (recordOf index w) = .lt := by
    simp [compareVlans, compareLex, compareOn, recordOf, Nat.compare_eq_lt.2 hle]
  rw [hcompare]
  simp

end Read

end Netcfgd.Bridge
