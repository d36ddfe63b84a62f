import Netcfgd.Owned

/-!
# What the record says of routes

The record of a route is its interface and its destination (`absorb`), while the kernel
tells routes apart by gateway, table and metric as well (`RouteId`). A `route.del` drops the
entry of its interface and destination whatever else is installed there.

So the record names an interface and a destination exactly where the last op on the pair is
a `route.add` (`recorded_iff`), and the kernel holds a route exactly where it was added and
not deleted since (`mem_installed_iff`). The two agree on every pair if and only if no pair
ends on a `route.del` that leaves another route of the pair behind (`routes_complete_iff`).
-/

namespace Netcfgd

open KeyedList

/-- What the kernel knows a route by. -/
@[ext] structure RouteId where
  interface : String
  destination : String
  via : Option String
  table : ℤ
  metric : Option ℤ
  deriving DecidableEq, Repr

/-- A route that is added or deleted. -/
inductive RouteOp
  | add (iface : String) (route : Route)
  | del (iface : String) (route : Route)
  deriving DecidableEq, Repr

namespace RouteOp

def toOp : RouteOp → Op
  | add iface route => .routeAdd iface route
  | del iface route => .routeDel iface route

def isAdd : RouteOp → Bool
  | add .. => true
  | del .. => false

def ident : RouteOp → RouteId
  | add iface r => ⟨iface, r.destination, r.via, r.inTable, r.metric⟩
  | del iface r => ⟨iface, r.destination, r.via, r.inTable, r.metric⟩

def pair (op : RouteOp) : String × String :=
  (op.ident.interface, op.ident.destination)

end RouteOp

/-- The routes that stand after some operations. -/
def installed (ops : List RouteOp) : Finset RouteId :=
  ops.foldl (fun held op => if op.isAdd then insert op.ident held else held.erase op.ident) ∅

/-- The routes on record after some operations. -/
def recordedRoutes (ops : List RouteOp) : List OwnedObject :=
  (absorbAll (ops.map RouteOp.toOp) (OwnedState.empty : OwnedState Unit).toOwnedLists).routes

/-- The record has an entry for exactly the pairs that a route is installed at. -/
def RoutesComplete (ops : List RouteOp) : Prop :=
  ∀ iface destination, (∃ o ∈ recordedRoutes ops, o.interface = iface ∧ o.key = destination) ↔
    ∃ id ∈ installed ops, id.interface = iface ∧ id.destination = destination

/-- No pair ends on a `route.del` that leaves another route of the pair behind : every
other route added at the pair before it was itself deleted in between. -/
def EndsAlone (ops : List RouteOp) : Prop :=
  ∀ (pre : List RouteOp) (op : RouteOp) (post : List RouteOp), ops = pre ++ op :: post →
    op.isAdd = false →
    (∀ later ∈ post, later.pair ≠ op.pair) →
    ∀ (pre₁ : List RouteOp) (added : RouteOp) (pre₂ : List RouteOp), pre = pre₁ ++ added :: pre₂ →
      added.isAdd → added.pair = op.pair →
      added.ident ≠ op.ident → ∃ deleted ∈ pre₂, deleted.isAdd = false ∧
        deleted.ident = added.ident

/-! ## The last op on a route or a pair -/

theorem snoc_eq_append_cons {α : Type*} {l pre post : List α} {a b : α}
    (h : l ++ [a] = pre ++ b :: post) : (post = [] ∧ b = a) ∨
      ∃ post', post = post' ++ [a] ∧ l = pre ++ b :: post' := by
  rcases List.eq_nil_or_concat post with rfl | ⟨post', last, rfl⟩
  · exact Or.inl ⟨rfl, (List.singleton_inj.1 (List.append_inj' h rfl).2).symm⟩
  · have h' : l ++ [a] = (pre ++ b :: post') ++ [last] := by simpa using h
    obtain ⟨hl, ha⟩ := List.append_inj' h' rfl
    exact Or.inr ⟨post', by rw [List.singleton_inj.1 ha, List.concat_eq_append], hl⟩

theorem append_cons_eq_append_cons {α : Type*} {pre pre' post post' : List α} {a b : α}
    (h : pre ++ a :: post = pre' ++ b :: post') :
    (pre = pre' ∧ a = b ∧ post = post') ∨ (∃ mid, pre' = pre ++ a :: mid ∧ post = mid ++ b :: post')
      ∨ ∃ mid, pre = pre' ++ b :: mid ∧ post' = mid ++ a :: post := by
  rcases List.append_eq_append_iff.1 h with ⟨mid, rfl, hmid⟩ | ⟨mid, rfl, hmid⟩
  · cases mid with
    | nil => exact Or.inl (by simpa using hmid)
    | cons c mid =>
      obtain ⟨rfl, rfl⟩ := List.cons.inj hmid
      exact Or.inr (Or.inl ⟨mid, rfl, rfl⟩)
  · cases mid with
    | nil => exact Or.inl (by simpa [eq_comm] using hmid)
    | cons c mid =>
      obtain ⟨rfl, rfl⟩ := List.cons.inj hmid
      exact Or.inr (Or.inr ⟨mid, rfl, rfl⟩)

theorem exists_last {α : Type*} {P : α → Prop} {l : List α} (h : ∃ a ∈ l, P a) :
    ∃ pre a post, l = pre ++ a :: post ∧ P a ∧ ∀ b ∈ post, ¬P b := by
  induction l using List.reverseRecOn with
  | nil => simp at h
  | append_singleton l a ih =>
    by_cases ha : P a
    · exact ⟨l, a, [], rfl, ha, by simp⟩
    · obtain ⟨b, hb, hPb⟩ := h
      have hbl : b ∈ l := (List.mem_append.1 hb).resolve_right fun hs =>
        ha (List.mem_singleton.1 hs ▸ hPb)
      obtain ⟨pre, c, post, rfl, hPc, hpost⟩ := ih ⟨b, hbl, hPb⟩
      refine ⟨pre, c, post ++ [a], by simp, hPc, fun d hd => ?_⟩
      rcases List.mem_append.1 hd with hd | hd
      · exact hpost d hd
      · exact List.mem_singleton.1 hd ▸ ha

/-! ## The kernel -/

theorem installed_append (ops : List RouteOp) (op : RouteOp) :
    installed (ops ++ [op]) =
      if op.isAdd then insert op.ident (installed ops) else (installed ops).erase op.ident := by
  simp [installed]

theorem mem_installed_iff {ops : List RouteOp} {id : RouteId} :
    id ∈ installed ops ↔ ∃ (pre : List RouteOp) (op : RouteOp) (post : List RouteOp),
      ops = pre ++ op :: post ∧ op.isAdd ∧ op.ident = id ∧
      ∀ later ∈ post, later.ident = id → later.isAdd := by
  induction ops using List.reverseRecOn with
  | nil => simp [installed]
  | append_singleton ops op ih =>
    rw [installed_append]
    constructor
    · intro h
      by_cases hop : op.isAdd ∧ op.ident = id
      · exact ⟨ops, op, [], rfl, hop.1, hop.2, by simp⟩
      · have hmem : id ∈ installed ops := by
          by_cases ha : op.isAdd
          · rw [if_pos ha, Finset.mem_insert] at h
            exact h.resolve_left fun he => hop ⟨ha, he.symm⟩
          · rw [if_neg ha] at h
            exact Finset.mem_of_mem_erase h
        obtain ⟨pre, o, post, rfl, ho, hid, hlater⟩ := ih.1 hmem
        refine ⟨pre, o, post ++ [op], by simp, ho, hid, fun later hl he => ?_⟩
        rcases List.mem_append.1 hl with hl | hl
        · exact hlater later hl he
        · obtain rfl := List.mem_singleton.1 hl
          by_contra ha
          rw [if_neg ha] at h
          exact Finset.ne_of_mem_erase h he.symm
    · rintro ⟨pre, o, post, heq, ho, hid, hlater⟩
      rcases snoc_eq_append_cons heq with ⟨rfl, rfl⟩ | ⟨post', rfl, rfl⟩
      · rw [if_pos ho, hid]
        exact Finset.mem_insert_self _ _
      · have hmem : id ∈ installed (pre ++ o :: post') := ih.2
          ⟨pre, o, post', rfl, ho, hid, fun later hl => hlater later (by simp [hl])⟩
        split_ifs with ha
        · exact Finset.mem_insert_of_mem hmem
        · exact Finset.mem_erase.2 ⟨fun he => ha (hlater op (by simp) he.symm), hmem⟩

/-! ## The record -/

theorem routesEdit_toOp (op : RouteOp) : routesEdit op.toOp =
    some (if op.isAdd then .put ⟨op.ident.interface, op.ident.destination, .static⟩
      else .drop op.pair) := by
  cases op <;> rfl

def routeEdits (ops : List RouteOp) : List (Edit OwnedObject.id) :=
  (ops.map RouteOp.toOp).filterMap routesEdit

theorem recordedRoutes_eq (ops : List RouteOp) : recordedRoutes ops = run (routeEdits ops) [] :=
  edited_routes.absorbAll (ops.map RouteOp.toOp) _

theorem find_append_op (ops : List RouteOp) (op : RouteOp) (k : String × String) :
    (find OwnedObject.id k (recordedRoutes (ops ++ [op]))).isSome =
      if op.pair = k then op.isAdd
      else (find OwnedObject.id k (recordedRoutes ops)).isSome := by
  have hrun : recordedRoutes (ops ++ [op]) =
      (if op.isAdd then Edit.put ⟨op.ident.interface, op.ident.destination, .static⟩
        else Edit.drop op.pair : Edit OwnedObject.id).apply (recordedRoutes ops) := by
    rw [recordedRoutes_eq, recordedRoutes_eq, routeEdits, routeEdits, List.map_append,
      List.filterMap_append, run_append, List.map_singleton, List.filterMap_cons,
      routesEdit_toOp]
    rfl
  have hkeyed : Keyed OwnedObject.id (recordedRoutes ops) := by
    rw [recordedRoutes_eq]
    exact keyed_run _ (keyed_nil _)
  rw [hrun, Edit.find_apply _ k hkeyed]
  by_cases ha : op.isAdd
  · simp only [ha, if_true, Edit.target, OwnedObject.id, Edit.value, RouteOp.pair]
    split_ifs <;> rfl
  · simp only [ha, Bool.false_eq_true, if_false, Edit.target, Edit.value]
    split_ifs <;> simp

theorem recorded_iff_find (ops : List RouteOp) (k : String × String) :
    (∃ o ∈ recordedRoutes ops, o.interface = k.1 ∧ o.key = k.2) ↔
      (find OwnedObject.id k (recordedRoutes ops)).isSome := by
  rw [← mem_map_iff_find, List.mem_map]
  simp only [OwnedObject.id, Prod.ext_iff]

theorem recorded_iff (ops : List RouteOp) (k : String × String) :
    (∃ o ∈ recordedRoutes ops, o.interface = k.1 ∧ o.key = k.2) ↔
      ∃ (pre : List RouteOp) (op : RouteOp) (post : List RouteOp),
        ops = pre ++ op :: post ∧ op.isAdd ∧ op.pair = k ∧
        ∀ later ∈ post, later.pair ≠ k := by
  rw [recorded_iff_find]
  induction ops using List.reverseRecOn with
  | nil => simp [recordedRoutes, absorbAll, OwnedState.empty, find]
  | append_singleton ops op ih =>
    rw [find_append_op]
    by_cases hk : op.pair = k
    · rw [if_pos hk]
      constructor
      · intro ha
        exact ⟨ops, op, [], rfl, ha, hk, by simp⟩
      · rintro ⟨pre, o, post, heq, ho, -, hlater⟩
        rcases snoc_eq_append_cons heq with ⟨rfl, rfl⟩ | ⟨post', rfl, rfl⟩
        · exact ho
        · exact absurd hk (hlater op (by simp))
    · rw [if_neg hk, ih]
      constructor
      · rintro ⟨pre, o, post, rfl, ho, hp, hlater⟩
        refine ⟨pre, o, post ++ [op], by simp, ho, hp, fun later hl => ?_⟩
        rcases List.mem_append.1 hl with hl | hl
        · exact hlater later hl
        · exact List.mem_singleton.1 hl ▸ hk
      · rintro ⟨pre, o, post, heq, ho, hp, hlater⟩
        rcases snoc_eq_append_cons heq with ⟨rfl, rfl⟩ | ⟨post', rfl, rfl⟩
        · exact absurd hp hk
        · exact ⟨pre, o, post', rfl, ho, hp, fun later hl => hlater later (by simp [hl])⟩

/-! ## Completeness -/

theorem RouteOp.pair_eq_of_ident_eq {a b : RouteOp} (h : a.ident = b.ident) : a.pair = b.pair := by
  simp [RouteOp.pair, h]

/-- Every record stands for an installed route. -/
theorem installed_of_recorded {ops : List RouteOp} {k : String × String}
    (h : ∃ o ∈ recordedRoutes ops, o.interface = k.1 ∧ o.key = k.2) :
    ∃ id ∈ installed ops, id.interface = k.1 ∧ id.destination = k.2 := by
  obtain ⟨pre, op, post, hops, ha, rfl, hlater⟩ := (recorded_iff ops k).1 h
  refine ⟨op.ident, mem_installed_iff.2 ⟨pre, op, post, hops, ha, rfl, ?_⟩, rfl, rfl⟩
  intro later hl he
  exact absurd (RouteOp.pair_eq_of_ident_eq he) (hlater later hl)

/-- Where the record is complete, no pair ends on a deletion that leaves a route behind. -/
theorem endsAlone_of_routesComplete {ops : List RouteOp} (h : RoutesComplete ops) :
    EndsAlone ops := by
  rintro pre op post rfl hop hlast pre₁ added pre₂ rfl hadd hpair hne
  by_contra hnone
  push Not at hnone
  have hmem : added.ident ∈ installed (pre₁ ++ added :: pre₂ ++ op :: post) := by
    refine mem_installed_iff.2 ⟨pre₁, added, pre₂ ++ op :: post, by simp, hadd, rfl, ?_⟩
    intro later hl he
    rcases List.mem_append.1 hl with hl | hl
    · by_contra ha
      exact hnone later hl (by simpa using ha) he
    · rcases List.mem_cons.1 hl with rfl | hl
      · exact absurd he.symm hne
      · exact absurd ((RouteOp.pair_eq_of_ident_eq he).trans hpair) (hlast later hl)
  obtain ⟨pre', op', post', heq, hadd', hpair', hlast'⟩ :=
    (recorded_iff _ op.pair).1 ((h op.pair.1 op.pair.2).2
      ⟨added.ident, hmem, congrArg Prod.fst hpair, congrArg Prod.snd hpair⟩)
  rcases append_cons_eq_append_cons heq with ⟨-, rfl, -⟩ | ⟨mid, -, rfl⟩ | ⟨mid, -, rfl⟩
  · rw [hop] at hadd'
    exact absurd hadd' (by simp)
  · exact hlast op' (by simp) hpair'
  · exact hlast' op (by simp) rfl

/-- An installed route's pair ends on a `route.add`, where no pair ends on a `route.del`
that leaves a route behind. -/
theorem recorded_of_installed {ops : List RouteOp} (h : EndsAlone ops) {id : RouteId}
    (hid : id ∈ installed ops) :
    ∃ o ∈ recordedRoutes ops, o.interface = id.interface ∧ o.key = id.destination := by
  obtain ⟨pre, op, post, hops, ha, rfl, hlater⟩ := mem_installed_iff.1 hid
  have hmem : op ∈ ops := by rw [hops]; simp
  obtain ⟨pre', last, post', hops', hpair, hlast⟩ :=
    exists_last (P := fun o : RouteOp => o.pair = op.pair) ⟨op, hmem, rfl⟩
  refine (recorded_iff ops op.pair).2 ⟨pre', last, post', hops', ?_, hpair, hlast⟩
  by_contra hdel
  rcases append_cons_eq_append_cons (hops.symm.trans hops') with
    ⟨-, rfl, -⟩ | ⟨mid, rfl, rfl⟩ | ⟨mid, -, rfl⟩
  · exact hdel ha
  · by_cases hsame : op.ident = last.ident
    · exact hdel (hlater last (by simp) hsame.symm)
    · obtain ⟨deleted, hdel', hd, he⟩ := h _ last post' hops' (by simpa using hdel)
        (fun later hl => hpair ▸ hlast later hl) pre op mid rfl ha hpair.symm hsame
      have := hlater deleted (by simp [hdel']) he
      rw [hd] at this
      exact absurd this (by simp)
  · exact hlast op (by simp) rfl

/-- The record of routes is complete if and only if no pair ends on a `route.del` that
leaves another route of the pair behind. -/
theorem routes_complete_iff (ops : List RouteOp) : RoutesComplete ops ↔ EndsAlone ops := by
  refine ⟨endsAlone_of_routesComplete, fun h iface destination => ⟨?_, ?_⟩⟩
  · exact installed_of_recorded (k := (iface, destination))
  · rintro ⟨id, hid, rfl, rfl⟩
    exact recorded_of_installed h hid

/-- The planner's change of a metric, the new route before the old one goes : the default
route that survives is not in the record. -/
theorem metric_change_unrecorded :
    let old : Route := { destination := "default", via := some "192.0.2.1", metric := some 100 }
    let new : Route := { destination := "default", via := some "192.0.2.1", metric := some 50 }
    ¬RoutesComplete [.add "eth0" old, .add "eth0" new, .del "eth0" old] := by
  intro old new h
  have hmem := (h "eth0" "default").2 ⟨⟨"eth0", "default", some "192.0.2.1", 254, some 50⟩,
    by decide, rfl, rfl⟩
  obtain ⟨o, ho, -⟩ := hmem
  have hnil : recordedRoutes [.add "eth0" old, .add "eth0" new, .del "eth0" old] = [] := by
    decide
  simp [hnil] at ho

end Netcfgd
