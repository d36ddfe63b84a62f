import Mathlib.Data.List.Basic
import Mathlib.Tactic

/-!
# Adding what is wanted, removing what is not

A store of entries, each with a key, and a list of wants. A want is covered by some of the
entries, and its own entry is what adding it installs (`Policy`). One round adds the entry
of every want that nothing held covers, and removes every removable entry that is not kept
(`round`, and `settle` for what it leaves).

The forward half asks which entries cover a want, the backward half which entries are kept,
and nothing forces the two to agree. If they do (`Policy.Lawful`) : a want covers its own
entry, covering and keeping depend on the key alone, and what covers a want is kept, one
round is enough, in that a second one neither adds nor removes (`round_settle`).

A store that spells what it is given its own way may hold something else than was asked for,
or refuse it (`Stored`). One round is then enough for a part of the store exactly where every
want of that part, unless it was covered before, is answered by what the store makes of it
(`Stored.quiet_iff`).
-/

set_option linter.unusedSectionVars false

namespace Reconcile

variable {ω ε κ : Type*} [DecidableEq κ]

structure Policy (ω ε κ : Type*) where
  key : ε → κ
  entry : ω → ε
  covers : ω → ε → Bool
  removable : ε → Bool
  /-- Whether an entry is still wanted, as the removing half decides it. -/
  keeps : ε → Bool

structure Policy.Lawful (p : Policy ω ε κ) (wants : List ω) : Prop where
  covers_entry : ∀ w, p.covers w (p.entry w)
  covers_key : ∀ w {e e'}, p.key e = p.key e' → p.covers w e → p.covers w e'
  keeps_key : ∀ {e e'}, p.key e = p.key e' → p.keeps e → p.keeps e'
  keeps_of_covers : ∀ w ∈ wants, ∀ e, p.covers w e → p.keeps e

def install (key : ε → κ) (held : List ε) (e : ε) : List ε :=
  if held.any fun e' => key e' = key e then held else held ++ [e]

def uninstall (key : ε → κ) (held : List ε) (k : κ) : List ε :=
  held.filter fun e => key e ≠ k

section Store

variable {key : ε → κ}

theorem mem_install {held : List ε} {e x : ε} (h : x ∈ install key held e) : x ∈ held ∨ x = e := by
  unfold install at h
  split_ifs at h
  · exact Or.inl h
  · simpa using h

theorem subset_install (key : ε → κ) (held : List ε) (e : ε) : held ⊆ install key held e := by
  unfold install
  split_ifs
  · exact List.Subset.refl _
  · exact List.subset_append_left _ _

theorem exists_key_install (key : ε → κ) (held : List ε) (e : ε) :
    ∃ x ∈ install key held e, key x = key e := by
  unfold install
  split_ifs with h
  · simpa using h
  · exact ⟨e, by simp, rfl⟩

theorem subset_foldl_install (key : ε → κ) :
    ∀ (es held : List ε), held ⊆ es.foldl (install key) held
  | [], held => List.Subset.refl held
  | e :: es, held => fun _ hx => subset_foldl_install key es _ (subset_install key held e hx)

theorem mem_foldl_install :
    ∀ {es held : List ε} {x : ε}, x ∈ es.foldl (install key) held → x ∈ held ∨ x ∈ es
  | [], _, _, h => Or.inl h
  | e :: es, held, x, h => by
    rw [List.foldl_cons] at h
    rcases mem_foldl_install h with h | h
    · rcases mem_install h with h | rfl
      · exact Or.inl h
      · exact Or.inr List.mem_cons_self
    · exact Or.inr (List.mem_cons_of_mem _ h)

theorem exists_key_foldl_install (key : ε → κ) :
    ∀ {es : List ε} (held : List ε) {e : ε}, e ∈ es →
      ∃ x ∈ es.foldl (install key) held, key x = key e
  | e' :: es, held, e, h => by
    rcases List.mem_cons.1 h with rfl | h
    · obtain ⟨x, hx, hk⟩ := exists_key_install key held e
      exact ⟨x, subset_foldl_install key es _ hx, hk⟩
    · rw [List.foldl_cons]
      exact exists_key_foldl_install key _ h

theorem mem_foldl_uninstall :
    ∀ {ks : List κ} {held : List ε} {x : ε},
      x ∈ ks.foldl (uninstall key) held ↔ x ∈ held ∧ key x ∉ ks
  | [], _, _ => by simp
  | k :: ks, held, x => by
    rw [List.foldl_cons, mem_foldl_uninstall]
    simp only [uninstall, List.mem_filter, decide_eq_true_eq, List.mem_cons, not_or]
    tauto

end Store

variable (p : Policy ω ε κ)

def additions (wants : List ω) (held : List ε) : List ε :=
  (wants.filter fun w => !held.any (p.covers w)).map p.entry

def removals (held : List ε) : List ε :=
  held.filter fun e => p.removable e && !p.keeps e

/-- One round : the additions, then the removals, both decided from what was held. -/
def settle (wants : List ω) (held : List ε) : List ε :=
  ((removals p held).map p.key).foldl (uninstall p.key)
    ((additions p wants held).foldl (install p.key) held)

/-- What one operation changes. -/
inductive Change (ε κ : Type*)
  | add (e : ε)
  | remove (k : κ)

/-- The kernel, on one change. -/
def Change.apply (key : ε → κ) (held : List ε) : Change ε κ → List ε
  | add e => install key held e
  | remove k => uninstall key held k

def Change.at (key : ε → κ) : Change ε κ → κ
  | add e => key e
  | remove k => k

theorem filter_apply (key : ε → κ) (q : κ → Bool) (held : List ε) (c : Change ε κ) :
    (c.apply key held).filter (fun e => q (key e)) =
      if q (c.at key) then c.apply key (held.filter fun e => q (key e))
      else held.filter fun e => q (key e) := by
  cases c with
  | add e =>
    change (install key held e).filter (fun e => q (key e)) =
      if q (key e) then install key (held.filter fun e => q (key e)) e
      else held.filter fun e => q (key e)
    unfold install
    by_cases hq : q (key e)
    · have hany : ((held.filter fun e' => q (key e')).any fun e' => key e' = key e) =
          held.any fun e' => key e' = key e := by
        rw [List.any_filter]
        congr 1
        funext e'
        by_cases hkey : key e' = key e <;> simp [hkey, hq]
      rw [if_pos hq, hany]
      split_ifs
      · rfl
      · simp [hq]
    · rw [if_neg hq]
      split_ifs
      · rfl
      · simp [hq]
  | remove k =>
    change (uninstall key held k).filter (fun e => q (key e)) =
      if q k then uninstall key (held.filter fun e => q (key e)) k
      else held.filter fun e => q (key e)
    simp only [uninstall, List.filter_filter]
    by_cases hq : q k
    · rw [if_pos hq]
      exact congrArg (List.filter · held) (funext fun e => Bool.and_comm _ _)
    · rw [if_neg hq]
      refine congrArg (List.filter · held) (funext fun e => ?_)
      by_cases hkey : key e = k <;> simp [hkey, hq]

/-- What one round adds and removes. -/
def round (wants : List ω) (held : List ε) : List (Change ε κ) :=
  (additions p wants held).map Change.add ++
    (removals p held).map fun e => Change.remove (p.key e)

/-- A round settles what is held. -/
theorem foldl_round (wants : List ω) (held : List ε) :
    (round p wants held).foldl (Change.apply p.key) held = settle p wants held := by
  simp only [round, settle, List.foldl_append, List.foldl_map]
  rfl

variable {p} {wants : List ω} {held : List ε}

theorem mem_settle_of_keeps (hp : p.Lawful wants) {x : ε}
    (hx : x ∈ (additions p wants held).foldl (install p.key) held) (hk : p.keeps x) :
    x ∈ settle p wants held := by
  refine mem_foldl_uninstall.2 ⟨hx, fun hmem => ?_⟩
  obtain ⟨d, hd, hkey⟩ := List.mem_map.1 hmem
  have hnot : p.keeps d = false := by
    have hd := (List.mem_filter.1 hd).2
    simp only [Bool.and_eq_true, Bool.not_eq_true'] at hd
    exact hd.2
  have : p.keeps d := hp.keeps_key hkey.symm hk
  rw [hnot] at this
  exact absurd this (by simp)

theorem covered_settle (hp : p.Lawful wants) {w : ω} (hw : w ∈ wants) :
    ∃ x ∈ settle p wants held, p.covers w x := by
  by_cases hc : held.any (p.covers w)
  · obtain ⟨x, hx, hcx⟩ := List.any_eq_true.1 hc
    exact ⟨x, mem_settle_of_keeps hp (subset_foldl_install p.key _ _ hx)
      (hp.keeps_of_covers w hw x hcx), hcx⟩
  · have hadd : p.entry w ∈ additions p wants held :=
      List.mem_map_of_mem (List.mem_filter.2 ⟨hw, by simpa using hc⟩)
    obtain ⟨x, hx, hkey⟩ := exists_key_foldl_install p.key held hadd
    have hcx : p.covers w x := hp.covers_key w hkey.symm (hp.covers_entry w)
    exact ⟨x, mem_settle_of_keeps hp hx (hp.keeps_of_covers w hw x hcx), hcx⟩

theorem additions_settle (hp : p.Lawful wants) : additions p wants (settle p wants held) = [] := by
  rw [additions, List.map_eq_nil_iff, List.filter_eq_nil_iff]
  intro w hw
  obtain ⟨x, hx, hc⟩ := covered_settle hp hw
  simpa using ⟨x, hx, hc⟩

variable (held) in
theorem removals_settle (hp : p.Lawful wants) : removals p (settle p wants held) = [] := by
  rw [removals, List.filter_eq_nil_iff]
  intro x hx hrem
  obtain ⟨hmem, hnot⟩ := mem_foldl_uninstall.1 hx
  rcases mem_foldl_install hmem with hmem | hmem
  · exact hnot (List.mem_map_of_mem (List.mem_filter.2 ⟨hmem, hrem⟩))
  · -- what was added answers its own want, so it is kept
    obtain ⟨w, hw, rfl⟩ := List.mem_map.1 hmem
    have hk := hp.keeps_of_covers w (List.mem_filter.1 hw).1 _ (hp.covers_entry w)
    simp [hk] at hrem

/-- After a round there is nothing more to do. -/
theorem round_settle (hp : p.Lawful wants) : round p wants (settle p wants held) = [] := by
  rw [round, additions_settle hp, removals_settle _ hp]
  rfl

/-! ## A store with its own spelling -/

/-- A policy over a store that makes of a want what it will : `entry w` is what it then
holds, and `none` a refusal. -/
structure Stored (ω ε κ : Type*) where
  key : ε → κ
  entry : ω → Option ε
  covers : ω → ε → Bool
  removable : ε → Bool
  keeps : ε → Bool

namespace Stored

/-- The two halves agree on the wants, and a want that some stored entry answers is answered
by its own. -/
structure Lawful (p : Stored ω ε κ) (wants : List ω) : Prop where
  covers_key : ∀ w {e e'}, p.key e = p.key e' → p.covers w e → p.covers w e'
  keeps_key : ∀ {e e'}, p.key e = p.key e' → p.keeps e → p.keeps e'
  keeps_of_covers : ∀ w ∈ wants, ∀ e, p.covers w e → p.keeps e
  answered :
    ∀ w w' e, p.entry w' = some e → p.covers w e → ∃ e', p.entry w = some e' ∧ p.covers w e'

variable (p : Stored ω ε κ)

def pending (wants : List ω) (held : List ε) : List ω :=
  wants.filter fun w => !held.any (p.covers w)

def surplus (held : List ε) : List ε :=
  held.filter fun e => p.removable e && !p.keeps e

def changes (wants : List ω) (held : List ε) : List (Change ε κ) :=
  ((p.pending wants held).filterMap p.entry).map Change.add ++
    (p.surplus held).map fun e => Change.remove (p.key e)

def settled (wants : List ω) (held : List ε) : List ε :=
  (p.changes wants held).foldl (Change.apply p.key) held

variable {p} {wants : List ω} {held : List ε}

theorem mem_pending {w : ω} :
    w ∈ p.pending wants held ↔ w ∈ wants ∧ ∀ e ∈ held, ¬p.covers w e := by
  simp [pending, List.mem_filter]

theorem pending_flatMap {α : Type*} (f : α → List ω) (l : List α) :
    p.pending (l.flatMap f) held = l.flatMap fun a => p.pending (f a) held := by
  simp only [pending, List.filter_flatMap]

theorem map_pending {α β : Type*} (f : α → ω) (g : ω → β) (l : List α) :
    (p.pending (l.map f) held).map g =
      l.flatMap fun a => if held.any (p.covers (f a)) then [] else [g (f a)] := by
  induction l with
  | nil => rfl
  | cons a l ih =>
    rw [List.map_cons, List.flatMap_cons, ← ih, pending, List.filter_cons]
    by_cases h : held.any (p.covers (f a)) <;> simp [h, pending]

theorem mem_surplus {e : ε} :
    e ∈ p.surplus held ↔ e ∈ held ∧ p.removable e ∧ ¬p.keeps e := by
  simp [surplus, List.mem_filter]

theorem mem_settled {e : ε} : e ∈ p.settled wants held ↔
    e ∈ ((p.pending wants held).filterMap p.entry).foldl (install p.key) held ∧
      ∀ d ∈ p.surplus held, p.key d ≠ p.key e := by
  have hremove : ∀ (ds held : List ε),
      (ds.map fun d => Change.remove (p.key d)).foldl (Change.apply p.key) held =
        (ds.map p.key).foldl (uninstall p.key) held := by
    intro ds held
    rw [List.foldl_map, List.foldl_map]
    rfl
  have hadd : ∀ (es held : List ε),
      (es.map Change.add).foldl (Change.apply p.key) held = es.foldl (install p.key) held := by
    intro es held
    rw [List.foldl_map]
    rfl
  rw [settled, changes, List.foldl_append, hadd, hremove, mem_foldl_uninstall]
  simp only [List.mem_map, not_exists, not_and]

theorem mem_settled_of_keeps (hp : p.Lawful wants) {e : ε}
    (he : e ∈ ((p.pending wants held).filterMap p.entry).foldl (install p.key) held)
    (hk : p.keeps e) : e ∈ p.settled wants held :=
  mem_settled.2 ⟨he, fun _ hd hkey => (mem_surplus.1 hd).2.2 (hp.keeps_key hkey.symm hk)⟩

theorem covered_settled_iff (hp : p.Lawful wants) {w : ω} (hw : w ∈ wants) :
    (∃ e ∈ p.settled wants held, p.covers w e) ↔
      (∃ e ∈ held, p.covers w e) ∨ ∃ e, p.entry w = some e ∧ p.covers w e := by
  constructor
  · rintro ⟨e, he, hc⟩
    rcases mem_foldl_install (mem_settled.1 he).1 with he | he
    · exact Or.inl ⟨e, he, hc⟩
    · obtain ⟨w', -, he⟩ := List.mem_filterMap.1 he
      exact Or.inr (hp.answered w w' e he hc)
  · rintro (⟨e, he, hc⟩ | ⟨e, he, hc⟩)
    · exact ⟨e, mem_settled_of_keeps hp (subset_foldl_install p.key _ _ he)
        (hp.keeps_of_covers w hw e hc), hc⟩
    · by_cases hheld : ∃ e ∈ held, p.covers w e
      · obtain ⟨e, he, hc⟩ := hheld
        exact ⟨e, mem_settled_of_keeps hp (subset_foldl_install p.key _ _ he)
          (hp.keeps_of_covers w hw e hc), hc⟩
      · have hadd : e ∈ (p.pending wants held).filterMap p.entry :=
          List.mem_filterMap.2
            ⟨w, mem_pending.2 ⟨hw, fun e he hc => hheld ⟨e, he, hc⟩⟩, he⟩
        obtain ⟨x, hx, hkey⟩ := exists_key_foldl_install p.key held hadd
        have hcx : p.covers w x := hp.covers_key w hkey.symm hc
        exact ⟨x, mem_settled_of_keeps hp hx (hp.keeps_of_covers w hw x hcx), hcx⟩

/-- A second round leaves a part of the store alone exactly where every want of that part was
covered, or is answered by what the store makes of it. `own` are the entries of the part,
`mine` its wants. -/
theorem quiet_iff (hp : p.Lawful wants) {own : ε → Prop} {mine : ω → Prop}
    (hown : ∀ w e, p.entry w = some e → own e → mine w) :
    ((∀ w ∈ p.pending wants (p.settled wants held), ¬mine w) ∧
        ∀ e ∈ p.surplus (p.settled wants held), ¬own e) ↔
      ∀ w ∈ wants, mine w →
        (∃ e ∈ held, p.covers w e) ∨ ∃ e, p.entry w = some e ∧ p.covers w e := by
  constructor
  · rintro ⟨hadd, -⟩ w hw hmine
    rw [← covered_settled_iff hp hw]
    by_contra hnot
    exact hadd w (mem_pending.2 ⟨hw, fun e he hc => hnot ⟨e, he, hc⟩⟩) hmine
  · intro h
    refine ⟨fun w hw hmine => ?_, fun e he heown => ?_⟩
    · obtain ⟨hw, hnot⟩ := mem_pending.1 hw
      obtain ⟨e, he, hc⟩ := (covered_settled_iff hp hw).2 (h w hw hmine)
      exact hnot e he hc
    · obtain ⟨he, hrem, hkeep⟩ := mem_surplus.1 he
      obtain ⟨he, hnot⟩ := mem_settled.1 he
      rcases mem_foldl_install he with he | he
      · exact hnot e (mem_surplus.2 ⟨he, hrem, hkeep⟩) rfl
      · -- what was added answers its own want, so it is kept
        obtain ⟨w, hw, he⟩ := List.mem_filterMap.1 he
        obtain ⟨hw, hnone⟩ := mem_pending.1 hw
        rcases h w hw (hown w e he heown) with ⟨x, hx, hc⟩ | ⟨x, hx, hc⟩
        · exact hnone x hx hc
        · rw [he] at hx
          obtain rfl := Option.some.inj hx
          exact hkeep (hp.keeps_of_covers w hw e hc)

end Stored

end Reconcile
