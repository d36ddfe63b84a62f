import Mathlib.Data.List.Chain
import Mathlib.Data.List.Forall2
import Mathlib.Data.List.Perm.Basic
import Mathlib.Data.List.Perm.Subperm
import Mathlib.Data.List.Pairwise
import Mathlib.Data.Option.Basic
import Mathlib.Data.Sum.Basic
import Mathlib.Logic.Equiv.Basic
import Mathlib.Order.Basic

/-!
# Normal forms by sorting

An insertion sort over a comparison that need not be a total order, and what it takes for its
result not to depend on the order it was given : no two different entries compare equal, and
those that compare less do so transitively (`orderFree_iff_trans`). Of the comparison itself only
that it is oriented is asked, which is enough for a sorted list to stay as it is
(`stableSort_stableSort`).

A `Form` says of a type which of its values are the same but for the order of some lists, what
the normal one among them is, and when there is only one. Forms are put together as types are :
`sorted`, `each` and `setOf` for lists, `optional`, `pair`, `either`, and `through` for a record
that is a product.
-/

namespace NormalForm

variable {α β : Type*} {cmp : α → α → Ordering}

variable {l l' : List α}

/-! ## Comparing by a field -/

def comparing (f : α → β) (cmp : β → β → Ordering) : α → α → Ordering :=
  fun a b => cmp (f a) (f b)

instance (f : α → β) (cmp : β → β → Ordering) [Std.OrientedCmp cmp] :
    Std.OrientedCmp (comparing f cmp) where
  eq_swap {a b} := by
    change cmp (f a) (f b) = (cmp (f b) (f a)).swap
    exact Std.OrientedCmp.eq_swap

/-! ## The sort -/

/-- An element moved down past the ones greater than it, the nearest first. -/
def sink (cmp : α → α → Ordering) (x : α) : List α → List α
  | [] => [x]
  | e :: rest => if cmp e x = .gt then e :: sink cmp x rest else x :: e :: rest

/-- A stable insertion sort. What is sorted already is kept nearest first. -/
def stableSort (cmp : α → α → Ordering) (l : List α) : List α :=
  (l.foldl (fun done x => sink cmp x done) []).reverse

/-- Which values are the same but for the order of lists, and the normal one among them. -/
structure Form (α : Type*) where
  normal : α → α
  /-- The second is the first but for the order of lists, and for repeats in sets. -/
  Alike : α → α → Prop
  /-- The value has one normal form however its lists are ordered. -/
  Told : α → Prop
  alike_refl : ∀ a, Alike a a
  alike_normal : ∀ a, Alike a (normal a)
  normal_normal : ∀ a, normal (normal a) = normal a
  told_iff : ∀ a, Told a ↔ ∀ b, Alike a b → normal b = normal a

theorem sink_perm (x : α) : ∀ l : List α, (sink cmp x l).Perm (x :: l)
  | [] => List.Perm.refl _
  | e :: rest => by
    unfold sink
    split_ifs
    · exact ((sink_perm x rest).cons e).trans (List.Perm.swap x e rest)
    · exact List.Perm.refl _

theorem foldl_sink_perm (cmp : α → α → Ordering) : ∀ (l done : List α),
    (l.foldl (fun done x => sink cmp x done) done).Perm (l ++ done)
  | [], _ => List.Perm.refl _
  | x :: l, done =>
    (foldl_sink_perm cmp l (sink cmp x done)).trans
      (((sink_perm x done).append_left l).trans List.perm_middle)

theorem stableSort_perm (cmp : α → α → Ordering) (l : List α) : (stableSort cmp l).Perm l := by
  have h := foldl_sink_perm cmp l []
  rw [List.append_nil] at h
  exact (List.reverse_perm _).trans h

theorem mem_stableSort {a : α} : a ∈ stableSort cmp l ↔ a ∈ l :=
  (stableSort_perm cmp l).mem_iff

theorem sink_map {g : α → α} (hg : ∀ a b, cmp (g a) (g b) = cmp a b) (x : α) :
    ∀ l : List α, sink cmp (g x) (l.map g) = (sink cmp x l).map g
  | [] => rfl
  | e :: rest => by
    simp only [List.map_cons, sink, hg]
    split_ifs
    · rw [sink_map hg x rest, List.map_cons]
    · rfl

theorem stableSort_map {g : α → α} (hg : ∀ a b, cmp (g a) (g b) = cmp a b) (l : List α) :
    stableSort cmp (l.map g) = (stableSort cmp l).map g := by
  have h : ∀ (l done : List α),
      (l.map g).foldl (fun done x => sink cmp x done) (done.map g) =
        (l.foldl (fun done x => sink cmp x done) done).map g := by
    intro l
    induction l with
    | nil => exact fun _ => rfl
    | cons x l ih =>
      intro done
      rw [List.map_cons, List.foldl_cons, List.foldl_cons, sink_map hg, ih]
  rw [stableSort, stableSort, List.map_reverse, ← h l []]
  rfl

/-! ## What is sorted stays -/

def Ascending (cmp : α → α → Ordering) (l : List α) : Prop :=
  l.IsChain fun a b => cmp a b ≠ .gt

theorem isChain_sink [Std.OrientedCmp cmp] (x : α) : ∀ {l : List α},
    l.IsChain (fun b a => cmp a b ≠ .gt) → (sink cmp x l).IsChain fun b a => cmp a b ≠ .gt
  | [], _ => List.IsChain.singleton x
  | e :: rest, h => by
    unfold sink
    split_ifs with hgreater
    · have hx : cmp x e ≠ .gt := by
        rw [Std.OrientedCmp.lt_of_gt hgreater]
        decide
      have hsink := isChain_sink x (l := rest) h.tail
      cases rest with
      | nil => exact List.IsChain.cons_cons hx hsink
      | cons e' rest =>
        unfold sink at hsink ⊢
        split_ifs at hsink ⊢
        · exact List.IsChain.cons_cons (List.isChain_cons_cons.1 h).1 hsink
        · exact List.IsChain.cons_cons hx hsink
    · exact List.IsChain.cons_cons hgreater h

theorem ascending_stableSort [Std.OrientedCmp cmp] (l : List α) :
    Ascending cmp (stableSort cmp l) := by
  have h : ∀ (l : List α) {done : List α}, done.IsChain (fun b a => cmp a b ≠ .gt) →
      (l.foldl (fun done x => sink cmp x done) done).IsChain fun b a => cmp a b ≠ .gt := by
    intro l
    induction l with
    | nil => exact fun h => h
    | cons x l ih => exact fun h => ih (isChain_sink x h)
  exact List.isChain_reverse.2 (h l List.IsChain.nil)

theorem stableSort_of_ascending (h : Ascending cmp l) : stableSort cmp l = l := by
  have hfold : ∀ (l done : List α), Ascending cmp (done.reverse ++ l) →
      l.foldl (fun done x => sink cmp x done) done = l.reverse ++ done := by
    intro l
    induction l with
    | nil => exact fun _ _ => rfl
    | cons x l ih =>
      intro done hasc
      have hsink : sink cmp x done = x :: done := by
        cases done with
        | nil => rfl
        | cons e done =>
          rw [List.reverse_cons, List.append_assoc] at hasc
          have hnext := (List.isChain_append.1 hasc).2.1
          rw [sink, if_neg (List.isChain_cons_cons.1 hnext).1]
      rw [List.foldl_cons, hsink, ih (x :: done) (by simpa using hasc)]
      simp
  rw [stableSort, hfold l [] h, List.append_nil, List.reverse_reverse]

theorem stableSort_stableSort [Std.OrientedCmp cmp] (l : List α) :
    stableSort cmp (stableSort cmp l) = stableSort cmp l :=
  stableSort_of_ascending (ascending_stableSort l)

/-! ## When the order given does not matter -/

def OrderFree (cmp : α → α → Ordering) (l : List α) : Prop :=
  ∀ l', l'.Perm l → stableSort cmp l' = stableSort cmp l

/-- Different entries are told apart, and consistently. -/
structure ToldApart (cmp : α → α → Ordering) (l : List α) : Prop where
  eq_of_tie : ∀ a ∈ l, ∀ b ∈ l, cmp a b = .eq → a = b
  trans : ∀ a ∈ l, ∀ b ∈ l, ∀ c ∈ l, cmp a b = .lt → cmp b c = .lt → cmp a c = .lt

theorem sink_injective [Std.OrientedCmp cmp] (x : α) : ∀ {l l' : List α},
    sink cmp x l = sink cmp x l' → l = l'
  | [], [], _ => rfl
  | [], e :: rest, h => by
    have hlen := congrArg List.length h
    rw [(sink_perm x _).length_eq, (sink_perm x _).length_eq] at hlen
    simp at hlen
  | e :: rest, [], h => by
    have hlen := congrArg List.length h
    rw [(sink_perm x _).length_eq, (sink_perm x _).length_eq] at hlen
    simp at hlen
  | e :: rest, e' :: rest', h => by
    have hself : ∀ {y : α}, cmp y x = .gt → y ≠ x := by
      rintro y hgt rfl
      have hself : cmp y y = .eq := Std.ReflCmp.compare_self
      rw [hself] at hgt
      cases hgt
    unfold sink at h
    split_ifs at h with hgt hgt' hgt'
    · obtain ⟨rfl, hrest⟩ := List.cons.inj h
      rw [sink_injective x hrest]
    · exact absurd (List.cons.inj h).1 (hself hgt)
    · exact absurd (List.cons.inj h).1.symm (hself hgt')
    · exact (List.cons.inj h).2

theorem OrderFree.of_cons [Std.OrientedCmp cmp] {x : α} (h : OrderFree cmp (x :: l)) :
    OrderFree cmp l := by
  intro l' hl'
  have hmore : ∀ m : List α, m.Perm l → (m ++ [x]).Perm (x :: l) := fun m hm =>
    List.perm_append_singleton x m |>.trans (hm.cons x)
  have heq := (h _ (hmore l' hl')).trans (h _ (hmore l (List.Perm.refl l))).symm
  simp only [stableSort, List.foldl_append, List.foldl_cons, List.foldl_nil] at heq ⊢
  rw [sink_injective x (List.reverse_injective heq)]

theorem OrderFree.of_perm (h : OrderFree cmp l) (hp : l'.Perm l) :
    OrderFree cmp l' :=
  fun m hm => (h m (hm.trans hp)).trans (h l' hp).symm

theorem OrderFree.of_sublist [Std.OrientedCmp cmp] (hl : l'.Sublist l) :
    ∀ p, OrderFree cmp (p ++ l) → OrderFree cmp (p ++ l') := by
  induction hl with
  | slnil => exact fun _ h => h
  | cons a _ ih => exact fun p h => ih p (h.of_perm List.perm_middle.symm).of_cons
  | cons_cons a _ ih =>
    intro p h
    have hnext := ih (p ++ [a])
    rw [List.append_assoc, List.append_assoc] at hnext
    exact hnext h

theorem OrderFree.of_subset [Std.OrientedCmp cmp] (h : OrderFree cmp l)
    (hnodup : l'.Nodup) (hsub : l' ⊆ l) : OrderFree cmp l' := by
  obtain ⟨m, hm, hsublist⟩ := List.subperm_of_subset hnodup hsub
  exact (OrderFree.of_sublist hsublist [] h).of_perm hm.symm

theorem OrderFree.eq_of_tie [Std.OrientedCmp cmp] (h : OrderFree cmp l) {a b : α}
    (ha : a ∈ l) (hb : b ∈ l) (htie : cmp a b = .eq) : a = b := by
  by_contra hne
  have htwo : OrderFree cmp [a, b] :=
    h.of_subset (by simpa using hne) (by simp [ha, hb])
  have hascending : ∀ {x y : α}, cmp x y = .eq → Ascending cmp [x, y] := fun hxy =>
    List.isChain_cons_cons.2 ⟨by simp [hxy], List.IsChain.singleton _⟩
  have heq := htwo [b, a] (List.Perm.swap a b [])
  rw [stableSort_of_ascending (hascending htie),
    stableSort_of_ascending (hascending (Std.OrientedCmp.eq_symm htie))] at heq
  exact hne (List.cons.inj heq).1.symm

theorem OrderFree.trans [Std.OrientedCmp cmp] (h : OrderFree cmp l) {a b c : α}
    (ha : a ∈ l) (hb : b ∈ l) (hc : c ∈ l) (hab : cmp a b = .lt) (hbc : cmp b c = .lt) :
    cmp a c = .lt := by
  have hne : ∀ {x y : α}, cmp x y ≠ .eq → x ≠ y := by
    rintro x y hxy rfl
    exact hxy Std.ReflCmp.compare_self
  rcases hac : cmp a c with _ | _ | _
  · rfl
  · rw [h.eq_of_tie ha hc hac, Std.OrientedCmp.gt_of_lt hbc] at hab
    cases hab
  · -- both ways round the cycle are sorted already
    have hca := Std.OrientedCmp.lt_of_gt hac
    have hthree : OrderFree cmp [a, b, c] := by
      refine h.of_subset ?_ (by simp [ha, hb, hc])
      simp [hne (x := a) (y := b) (by simp [hab]), hne (x := b) (y := c) (by simp [hbc]),
        hne (x := a) (y := c) (by simp [hac])]
    have hascending : ∀ {x y z : α}, cmp x y = .lt → cmp y z = .lt → Ascending cmp [x, y, z] :=
      fun hxy hyz => List.isChain_cons_cons.2 ⟨by simp [hxy],
        List.isChain_cons_cons.2 ⟨by simp [hyz], List.IsChain.singleton _⟩⟩
    have hround : [b, c, a].Perm [a, b, c] := List.perm_append_singleton a [b, c]
    have heq := hthree [b, c, a] hround
    rw [stableSort_of_ascending (hascending hab hbc),
      stableSort_of_ascending (hascending hbc hca)] at heq
    exact absurd (List.cons.inj heq).1.symm (hne (by simp [hab]))

theorem ToldApart.pairwise [Std.OrientedCmp cmp] (h : ToldApart cmp l) (hl' : l'.Perm l) :
    (stableSort cmp l').Pairwise fun a b => a ∈ l ∧ b ∈ l ∧ cmp a b ≠ .gt := by
  let r : α → α → Prop := fun a b => a ∈ l ∧ b ∈ l ∧ cmp a b ≠ .gt
  have hlt : ∀ {a b : α}, r a b → a = b ∨ cmp a b = .lt := by
    rintro a b ⟨ha, hb, hle⟩
    rcases hab : cmp a b with _ | _ | _
    · exact .inr rfl
    · exact .inl (h.eq_of_tie a ha b hb hab)
    · exact absurd hab hle
  have : Trans r r r := ⟨fun {a b c} hab hbc => by
    refine ⟨hab.1, hbc.2.1, ?_⟩
    rcases hlt hab with rfl | hab'
    · exact hbc.2.2
    · rcases hlt hbc with rfl | hbc'
      · exact hab.2.2
      · rw [h.trans a hab.1 b hab.2.1 c hbc.2.1 hab' hbc']
        decide⟩
  refine List.IsChain.pairwise (R := r) ?_
  refine List.IsChain.imp_of_mem_imp (fun a b ha hb hle => ?_) (ascending_stableSort l')
  exact ⟨hl'.mem_iff.1 (mem_stableSort.1 ha), hl'.mem_iff.1 (mem_stableSort.1 hb), hle⟩

/-- The order given does not matter exactly when the entries are told apart. -/
theorem orderFree_iff_trans [Std.OrientedCmp cmp] {l : List α} :
    OrderFree cmp l ↔ ToldApart cmp l := by
  refine ⟨fun h => ⟨fun a ha b hb => h.eq_of_tie ha hb,
    fun a ha b hb c hc => h.trans ha hb hc⟩, fun h l' hl' => ?_⟩
  refine List.Perm.eq_of_pairwise ?_ (h.pairwise hl') (h.pairwise (List.Perm.refl l))
    ((stableSort_perm cmp l').trans (hl'.trans (stableSort_perm cmp l).symm))
  rintro a b - - ⟨ha, hb, hab⟩ ⟨-, -, hba⟩
  refine h.eq_of_tie a ha b hb ?_
  rcases hcmp : cmp a b with _ | _ | _
  · exact absurd (Std.OrientedCmp.gt_of_lt hcmp) hba
  · rfl
  · exact absurd hcmp hab

theorem toldApart_of_trans [Std.TransCmp cmp] :
    ToldApart cmp l ↔ ∀ a ∈ l, ∀ b ∈ l, cmp a b = .eq → a = b :=
  ⟨fun h => h.eq_of_tie, fun h => ⟨h, fun _ _ _ _ _ _ => Std.TransCmp.lt_trans⟩⟩

/-! ## Sets -/

/-- What is kept after an entry : what differs from the last kept. -/
def keepAfter (cmp : α → α → Ordering) (kept : α) : List α → List α
  | [] => []
  | b :: rest =>
    if cmp kept b = .eq then keepAfter cmp kept rest else b :: keepAfter cmp b rest

def sortSet (cmp : α → α → Ordering) (l : List α) : List α :=
  match stableSort cmp l with
  | [] => []
  | a :: rest => a :: keepAfter cmp a rest

theorem keepAfter_sublist : ∀ (a : α) (l : List α), (keepAfter cmp a l).Sublist l
  | _, [] => List.Sublist.refl _
  | a, b :: rest => by
    unfold keepAfter
    split_ifs
    · exact (keepAfter_sublist a rest).cons b
    · exact (keepAfter_sublist b rest).cons_cons b

theorem mem_keepAfter [Std.LawfulEqCmp cmp] {x : α} : ∀ {a : α} {l : List α},
    x ∈ a :: keepAfter cmp a l ↔ x ∈ a :: l
  | _, [] => Iff.rfl
  | a, b :: rest => by
    unfold keepAfter
    split_ifs with heq
    · rw [mem_keepAfter, ← Std.LawfulEqCmp.eq_of_compare heq]
      simp
    · rw [List.mem_cons, mem_keepAfter, List.mem_cons (b := a)]

theorem strict_keepAfter [Std.OrientedCmp cmp] [Std.LawfulEqCmp cmp] : ∀ {a : α} {l : List α},
    (a :: l).Pairwise (fun a b => cmp a b ≠ .gt) →
      (a :: keepAfter cmp a l).Pairwise fun a b => cmp a b = .lt
  | a, [], _ => List.pairwise_singleton _ a
  | a, b :: rest, h => by
    obtain ⟨hhead, htail⟩ := List.pairwise_cons.1 h
    unfold keepAfter
    split_ifs with heq
    · exact strict_keepAfter (h.sublist ((List.sublist_cons_self b rest).cons_cons a))
    · refine List.pairwise_cons.2 ⟨fun x hx => ?_, strict_keepAfter htail⟩
      have hmem := mem_keepAfter.1 hx
      have hab : cmp a b = .lt := by
        rcases hcmp : cmp a b with _ | _ | _
        · rfl
        · exact absurd hcmp heq
        · exact absurd hcmp (hhead b List.mem_cons_self)
      rcases hcmp : cmp a x with _ | _ | _
      · rfl
      · -- an equal entry further on would have stood before `b`
        rw [← Std.LawfulEqCmp.eq_of_compare hcmp] at hmem
        rcases List.mem_cons.1 hmem with rfl | hmem
        · exact absurd Std.ReflCmp.compare_self heq
        · exact absurd (Std.OrientedCmp.gt_of_lt hab) ((List.pairwise_cons.1 htail).1 a hmem)
      · exact absurd hcmp (hhead x hmem)

theorem strict_sortSet (cmp : α → α → Ordering) [Std.TransCmp cmp] [Std.LawfulEqCmp cmp]
    (l : List α) : (sortSet cmp l).Pairwise fun a b => cmp a b = .lt := by
  have htold : ToldApart cmp l := toldApart_of_trans.2 fun a _ b _ => Std.LawfulEqCmp.eq_of_compare
  have hpairwise := (htold.pairwise (List.Perm.refl l)).imp fun h => h.2.2
  unfold sortSet
  split
  · exact List.Pairwise.nil
  · rename_i a rest heq
    rw [heq] at hpairwise
    exact strict_keepAfter hpairwise

theorem mem_sortSet [Std.LawfulEqCmp cmp] {a : α} : a ∈ sortSet cmp l ↔ a ∈ l := by
  have hsorted : a ∈ stableSort cmp l ↔ a ∈ l := mem_stableSort
  refine Iff.trans ?_ hsorted
  unfold sortSet
  split
  · rename_i heq
    rw [heq]
  · rename_i b rest heq
    rw [heq]
    exact mem_keepAfter

theorem sortSet_subperm (cmp : α → α → Ordering) (l : List α) : (sortSet cmp l).Subperm l := by
  refine List.Subperm.trans ?_ (stableSort_perm cmp l).subperm
  unfold sortSet
  split
  · rename_i heq
    rw [heq]
  · rename_i b rest heq
    rw [heq]
    exact ((keepAfter_sublist b rest).cons_cons b).subperm

theorem sortSet_congr [Std.TransCmp cmp] [Std.LawfulEqCmp cmp] (h : ∀ a, a ∈ l ↔ a ∈ l') :
    sortSet cmp l = sortSet cmp l' := by
  have hnodup : ∀ l : List α, (sortSet cmp l).Nodup := fun l =>
    (strict_sortSet cmp l).imp fun {a b} hab => by
      rintro rfl
      have hself : cmp a a = .eq := Std.ReflCmp.compare_self
      rw [hself] at hab
      cases hab
  refine List.Perm.eq_of_pairwise (fun a b _ _ hab hba => ?_) (strict_sortSet cmp l)
    (strict_sortSet cmp l') ((List.perm_ext_iff_of_nodup (hnodup l) (hnodup l')).2 fun a => ?_)
  · rw [Std.OrientedCmp.gt_of_lt hab] at hba
    cases hba
  · rw [mem_sortSet, mem_sortSet, h a]

/-! ## Forms -/

namespace Form

def same : Form α where
  normal := id
  Alike := Eq
  Told _ := True
  alike_refl _ := rfl
  alike_normal _ := rfl
  normal_normal _ := rfl
  told_iff a := by simp [eq_comm]

def through (e : α ≃ β) (f : Form β) : Form α where
  normal a := e.symm (f.normal (e a))
  Alike a b := f.Alike (e a) (e b)
  Told a := f.Told (e a)
  alike_refl a := f.alike_refl (e a)
  alike_normal a := by
    rw [Equiv.apply_symm_apply]
    exact f.alike_normal (e a)
  normal_normal a := by rw [Equiv.apply_symm_apply, f.normal_normal]
  told_iff a := by
    rw [f.told_iff]
    refine ⟨fun h b hb => congrArg e.symm (h (e b) hb), fun h b hb => ?_⟩
    have hnormal := h (e.symm b) (by rwa [Equiv.apply_symm_apply])
    rw [Equiv.apply_symm_apply] at hnormal
    exact e.symm.injective hnormal

def pair (f : Form α) (g : Form β) : Form (α × β) where
  normal p := (f.normal p.1, g.normal p.2)
  Alike p q := f.Alike p.1 q.1 ∧ g.Alike p.2 q.2
  Told p := f.Told p.1 ∧ g.Told p.2
  alike_refl p := ⟨f.alike_refl p.1, g.alike_refl p.2⟩
  alike_normal p := ⟨f.alike_normal p.1, g.alike_normal p.2⟩
  normal_normal p := by simp only [f.normal_normal, g.normal_normal]
  told_iff p := by
    rw [f.told_iff, g.told_iff]
    refine ⟨fun h q hq => Prod.ext (h.1 q.1 hq.1) (h.2 q.2 hq.2), fun h => ⟨fun a ha => ?_,
      fun b hb => ?_⟩⟩
    · exact congrArg Prod.fst (h (a, p.2) ⟨ha, g.alike_refl p.2⟩)
    · exact congrArg Prod.snd (h (p.1, b) ⟨f.alike_refl p.1, hb⟩)

def either (f : Form α) (g : Form β) : Form (α ⊕ β) where
  normal := Sum.map f.normal g.normal
  Alike := Sum.LiftRel f.Alike g.Alike
  Told := Sum.elim f.Told g.Told
  alike_refl
    | .inl a => .inl (f.alike_refl a)
    | .inr b => .inr (g.alike_refl b)
  alike_normal
    | .inl a => .inl (f.alike_normal a)
    | .inr b => .inr (g.alike_normal b)
  normal_normal
    | .inl a => congrArg Sum.inl (f.normal_normal a)
    | .inr b => congrArg Sum.inr (g.normal_normal b)
  told_iff
    | .inl a => by
      refine (f.told_iff a).trans ⟨fun h => ?_, fun h b hb => Sum.inl.inj (h (.inl b) (.inl hb))⟩
      rintro _ (hb | _)
      exact congrArg Sum.inl (h _ hb)
    | .inr a => by
      refine (g.told_iff a).trans ⟨fun h => ?_, fun h b hb => Sum.inr.inj (h (.inr b) (.inr hb))⟩
      rintro _ (_ | hb)
      exact congrArg Sum.inr (h _ hb)

def optional (f : Form α) : Form (Option α) where
  normal := Option.map f.normal
  Alike := Option.Rel f.Alike
  Told o := ∀ a ∈ o, f.Told a
  alike_refl
    | none => .none
    | some a => .some (f.alike_refl a)
  alike_normal
    | none => .none
    | some a => .some (f.alike_normal a)
  normal_normal
    | none => rfl
    | some a => congrArg some (f.normal_normal a)
  told_iff
    | none => by
      refine ⟨fun _ => ?_, fun _ a ha => by cases ha⟩
      rintro _ ⟨⟩
      rfl
    | some a => by
      simp only [Option.mem_some_iff, forall_eq', f.told_iff]
      refine ⟨fun h => ?_, fun h b hb => Option.some.inj (h (some b) (.some hb))⟩
      rintro _ (hb | _)
      exact congrArg some (h _ hb)

def setOf (cmp : α → α → Ordering) [Std.TransCmp cmp] [Std.LawfulEqCmp cmp] :
    Form (List α) where
  normal := sortSet cmp
  Alike l l' := l'.Subperm l ∧ l ⊆ l'
  Told _ := True
  alike_refl l := ⟨List.Subperm.refl l, List.Subset.refl l⟩
  alike_normal l := ⟨sortSet_subperm cmp l, fun _ ha => mem_sortSet.2 ha⟩
  normal_normal l := sortSet_congr fun _ => mem_sortSet
  told_iff l := by
    refine ⟨fun _ l' h => sortSet_congr fun a => ⟨fun ha => h.1.subset ha, fun ha => h.2 ha⟩,
      fun _ => trivial⟩

theorem map_normal {f : Form α} {l l' : List α} (hl : List.Forall₂ f.Alike l l')
    (h : ∀ a ∈ l, f.Told a) : l'.map f.normal = l.map f.normal := by
  induction hl with
  | nil => rfl
  | @cons a b l l' hab _ ih =>
    have hhead := (f.told_iff a).1 (h a List.mem_cons_self) b hab
    rw [List.map_cons, List.map_cons, hhead, ih fun x hx => h x (List.mem_cons_of_mem a hx)]

theorem told_of_map_normal {f : Form α} {l : List α}
    (h : ∀ l', List.Forall₂ f.Alike l l' → (l'.map f.normal).Perm (l.map f.normal)) :
    ∀ a ∈ l, f.Told a := by
  intro a ha
  refine (f.told_iff a).2 fun b hb => ?_
  obtain ⟨before, after, rfl⟩ := List.append_of_mem ha
  have hrefl : ∀ l, List.Forall₂ f.Alike l l := fun l =>
    List.forall₂_same.2 fun a _ => f.alike_refl a
  have hperm := h (before ++ b :: after)
    (List.rel_append (hrefl before) (List.Forall₂.cons hb (hrefl after)))
  rw [List.map_append, List.map_append, List.perm_append_left_iff, List.map_cons,
    List.map_cons] at hperm
  have hsingle : [f.normal b].Perm [f.normal a] := (List.perm_append_right_iff _).1 hperm
  exact List.singleton_perm_singleton.1 hsingle

/-- A list whose order is its meaning, of entries that have lists of their own. -/
def each (f : Form α) : Form (List α) where
  normal := List.map f.normal
  Alike := List.Forall₂ f.Alike
  Told l := ∀ a ∈ l, f.Told a
  alike_refl l := List.forall₂_same.2 fun a _ => f.alike_refl a
  alike_normal l := List.forall₂_map_right_iff.2 (List.forall₂_same.2 fun a _ => f.alike_normal a)
  normal_normal l := by
    rw [List.map_map]
    exact List.map_congr_left fun a _ => f.normal_normal a
  told_iff l := ⟨fun h _ hl' => map_normal hl' h,
    fun h => told_of_map_normal fun l' hl' => h l' hl' ▸ List.Perm.refl _⟩

/-- A list whose order is none of its meaning, sorted by a comparison. -/
def sorted (cmp : α → α → Ordering) [Std.OrientedCmp cmp] (f : Form α) : Form (List α) where
  normal l := stableSort cmp (l.map f.normal)
  Alike l l' := ∃ m, List.Forall₂ f.Alike l m ∧ m.Perm l'
  Told l := (∀ a ∈ l, f.Told a) ∧ ToldApart cmp (l.map f.normal)
  alike_refl l := ⟨l, List.forall₂_same.2 fun a _ => f.alike_refl a, List.Perm.refl l⟩
  alike_normal l := ⟨l.map f.normal, List.forall₂_map_right_iff.2 (List.forall₂_same.2
    fun a _ => f.alike_normal a), (stableSort_perm cmp _).symm⟩
  normal_normal l := by
    have hmap : ∀ a ∈ stableSort cmp (l.map f.normal), f.normal a = id a := by
      intro a ha
      obtain ⟨b, -, rfl⟩ := List.mem_map.1 (mem_stableSort.1 ha)
      exact f.normal_normal b
    rw [List.map_congr_left hmap, List.map_id, stableSort_stableSort]
  told_iff l := by
    refine ⟨fun h l' => ?_, fun h => ⟨told_of_map_normal fun l' hl' => ?_, ?_⟩⟩
    · rintro ⟨m, hm, hperm⟩
      refine orderFree_iff_trans.2 h.2 _ ?_
      rw [← map_normal hm h.1]
      exact (hperm.map f.normal).symm
    · have heq := h l' ⟨l', hl', List.Perm.refl l'⟩
      exact (stableSort_perm cmp _).symm.trans (heq ▸ stableSort_perm cmp _)
    · refine orderFree_iff_trans.1 fun m hm => ?_
      obtain ⟨l', rfl, hl'⟩ := (congrFun₂ (List.eq_map_comp_perm f.normal) m l).mpr hm
      exact h l' ⟨l, List.forall₂_same.2 fun a _ => f.alike_refl a, hl'.symm⟩

@[simp] theorem normal_sorted_same (cmp : α → α → Ordering) [Std.OrientedCmp cmp] (l : List α) :
    (sorted cmp same).normal l = stableSort cmp l := by
  change stableSort cmp (l.map id) = stableSort cmp l
  rw [List.map_id]

theorem normal_sorted {cmp : α → α → Ordering} [Std.OrientedCmp cmp] {f : Form α}
    (hf : ∀ a b, cmp (f.normal a) (f.normal b) = cmp a b) (l : List α) :
    (sorted cmp f).normal l = (stableSort cmp l).map f.normal :=
  stableSort_map hf l

/-- Entries of one key are one entry, once each is in its normal form. -/
def OneEach {κ : Type*} (key : α → κ) (normal : α → α) (l : List α) : Prop :=
  ∀ a ∈ l, ∀ b ∈ l, key a = key b → normal a = normal b

theorem told_sorted {κ : Type*} {cmp : α → α → Ordering} [Std.TransCmp cmp] {f : Form α}
    {key : α → κ} (hkey : ∀ a b, cmp a b = .eq ↔ key a = key b)
    (hf : ∀ a, key (f.normal a) = key a) (l : List α) :
    (sorted cmp f).Told l ↔ (∀ a ∈ l, f.Told a) ∧ OneEach key f.normal l := by
  refine and_congr Iff.rfl (toldApart_of_trans.trans ?_)
  simp only [List.forall_mem_map, hkey, hf]
  rfl

theorem told_sorted_same {cmp : α → α → Ordering} [Std.OrientedCmp cmp] (l : List α) :
    (sorted cmp same).Told l ↔ ToldApart cmp l := by
  change (∀ a ∈ l, True) ∧ ToldApart cmp (l.map id) ↔ _
  simp

theorem told_sorted_all {cmp : α → α → Ordering} [Std.TransCmp cmp]
    (heq : ∀ a b, cmp a b = .eq → a = b) (l : List α) : (sorted cmp same).Told l :=
  ⟨fun _ _ => trivial, toldApart_of_trans.2 fun a _ b _ => heq a b⟩

end Form

end NormalForm
