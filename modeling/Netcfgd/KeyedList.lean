import Mathlib.Data.List.Basic
import Mathlib.Data.List.Nodup
import Mathlib.Tactic

/-!
# Keyed lists

A list whose entries carry a key, edited one key at a time. `put` replaces the entry at
its key and moves it to the end, `drop` removes the first entry at a key, `bump` changes
the entry at its key in place and appends it when there is none. A list is `Keyed` if no
key occurs twice, and every edit keeps that (`Edit.keyed_apply`).

Read as a finite map, an edit touches one key (`Edit.find_apply`). Read as a list, an edit
commutes with keeping the entries of any set of keys (`Edit.filter_apply`), so a sequence
of edits that resets every key it touches leaves the untouched entries in their order,
followed by what it makes of the empty list (`run_eq_of_resets`). Such a sequence is
idempotent (`run_run_of_resets`).
-/

set_option linter.unusedSectionVars false

namespace KeyedList

variable {α κ : Type*} [DecidableEq κ] {key : α → κ}

def Keyed (key : α → κ) (l : List α) : Prop :=
  (l.map key).Nodup

/-- The first entry at `k`. -/
def find (key : α → κ) (k : κ) (l : List α) : Option α :=
  l.find? fun a => key a = k

/-- Remove the first entry at `k`, keeping the order of the rest. -/
def drop (key : α → κ) (k : κ) (l : List α) : List α :=
  l.eraseP fun a => key a = k

/-- Replace whatever is at the key of `a`, at the end. -/
def put (key : α → κ) (a : α) (l : List α) : List α :=
  drop key (key a) l ++ [a]

/-- Change the first entry at the key of `new` by `f`, or append `new`. -/
def bump (key : α → κ) (new : α) (f : α → α) : List α → List α
  | [] => [new]
  | a :: l => if key a = key new then f a :: l else a :: bump key new f l

inductive Edit (key : α → κ)
  | put (a : α)
  | drop (k : κ)
  | bump (new : α) (f : α → α) (keeps : ∀ a, key (f a) = key a)

namespace Edit

def target : Edit key → κ
  | put a => key a
  | drop k => k
  | bump new _ _ => key new

def resets : Edit key → Bool
  | put _ => true
  | drop _ => true
  | bump _ _ _ => false

def apply : Edit key → List α → List α
  | put a, l => KeyedList.put key a l
  | drop k, l => KeyedList.drop key k l
  | bump new f _, l => KeyedList.bump key new f l

def value : Edit key → Option α → Option α
  | put a, _ => some a
  | drop _, _ => none
  | bump new _ _, none => some new
  | bump _ f _, some a => some (f a)

end Edit

def run (es : List (Edit key)) (l : List α) : List α :=
  es.foldl (fun l e => e.apply l) l

@[simp] theorem run_nil (l : List α) : run ([] : List (Edit key)) l = l :=
  rfl

@[simp] theorem run_cons (e : Edit key) (es : List (Edit key)) (l : List α) :
    run (e :: es) l = run es (e.apply l) :=
  rfl

theorem run_append (es es' : List (Edit key)) (l : List α) :
    run (es ++ es') l = run es' (run es l) := by
  simp [run]

/-! ## Keys -/

theorem keyed_nil (key : α → κ) : Keyed key [] := by
  simp [Keyed]

variable {l : List α}

theorem Keyed.filter (hl : Keyed key l) (p : α → Bool) : Keyed key (l.filter p) :=
  List.Nodup.sublist (List.filter_sublist.map key) hl

theorem drop_eq_filter (k : κ) :
    ∀ {l : List α}, Keyed key l → drop key k l = l.filter fun a => key a ≠ k
  | [], _ => rfl
  | a :: l, hl => by
    obtain ⟨ha, hl⟩ := List.nodup_cons.1 hl
    by_cases h : key a = k
    · have hne : ∀ b ∈ l, key b ≠ k := fun b hb hk =>
        ha (h.trans hk.symm ▸ List.mem_map_of_mem hb)
      simpa [drop, h] using (List.filter_eq_self.2 fun b hb => by simpa using hne b hb).symm
    · have ih := drop_eq_filter k hl
      unfold drop at ih
      simp [drop, h, ih]

theorem map_bump (new : α) (f : α → α) (keeps : ∀ a, key (f a) = key a) :
    ∀ l : List α, (bump key new f l).map key =
      if key new ∈ l.map key then l.map key else l.map key ++ [key new]
  | [] => by simp [bump]
  | a :: l => by
    by_cases h : key a = key new
    · simp [bump, h, keeps]
    · have ih := map_bump new f keeps l
      have h' : key new ≠ key a := fun e => h e.symm
      simp only [bump, if_neg h, List.map_cons, ih, List.mem_cons, h', false_or]
      split_ifs <;> simp

theorem keyed_append_singleton {a : α} (hl : Keyed key l) (ha : key a ∉ l.map key) :
    Keyed key (l ++ [a]) := by
  unfold Keyed
  rw [List.map_append, List.nodup_append]
  refine ⟨hl, List.nodup_singleton _, ?_⟩
  rintro x hx y hy rfl
  exact ha (List.mem_singleton.1 hy ▸ hx)

theorem Edit.keyed_apply (e : Edit key) (hl : Keyed key l) :
    Keyed key (e.apply l) := by
  cases e with
  | put a =>
    simp only [apply, KeyedList.put, drop_eq_filter _ hl]
    exact keyed_append_singleton (hl.filter _) (by simp)
  | drop k =>
    simp only [apply, drop_eq_filter _ hl]
    exact hl.filter _
  | bump new f keeps =>
    simp only [Keyed, apply, map_bump new f keeps]
    split_ifs with h
    · exact hl
    · simpa [Keyed] using keyed_append_singleton hl h

theorem keyed_run : ∀ (es : List (Edit key)) {l : List α}, Keyed key l → Keyed key (run es l)
  | [], _, hl => hl
  | e :: es, _, hl => keyed_run es (e.keyed_apply hl)

/-! ## As a finite map -/

theorem find_bump (k : κ) (new : α) (f : α → α) (keeps : ∀ a, key (f a) = key a) :
    ∀ l : List α, find key k (bump key new f l) =
      if key new = k then (Edit.bump new f keeps).value (find key k l) else find key k l
  | [] => by
    by_cases h : key new = k <;> simp [bump, find, h, Edit.value]
  | a :: l => by
    have ih := find_bump k new f keeps l
    unfold find at ih ⊢
    by_cases ha : key a = key new
    · by_cases h : key new = k
      · simp [bump, ha, h, keeps, Edit.value]
      · simp [bump, ha, h, keeps]
    · by_cases hk : key a = k
      · have h : key new ≠ k := fun e => ha (hk.trans e.symm)
        have h' : k ≠ key new := fun e => h e.symm
        simp [bump, hk, h, h']
      · simp [bump, ha, hk, ih]

theorem find_filter_ne (k k' : κ) (l : List α) :
    find key k (l.filter fun a => key a ≠ k') = if k' = k then none else find key k l := by
  unfold find
  rw [List.find?_filter]
  split_ifs with h
  · simp [h]
  · congr 1
    funext a
    by_cases ha : key a = k
    · simp [ha, Ne.symm h]
    · simp [ha]

theorem Edit.find_apply (e : Edit key) (k : κ) (hl : Keyed key l) :
    find key k (e.apply l) =
      if e.target = k then e.value (find key k l) else find key k l := by
  cases e with
  | put a =>
    simp only [apply, KeyedList.put, drop_eq_filter _ hl, target, value]
    have h : find key k (l.filter fun b => key b ≠ key a) = _ := find_filter_ne k (key a) l
    unfold find at h ⊢
    rw [List.find?_append, h]
    split_ifs with hk
    · simp [hk]
    · simp [hk]
  | drop k' =>
    simp only [apply, drop_eq_filter _ hl, target, value]
    exact find_filter_ne k k' l
  | bump new f keeps => exact find_bump k new f keeps l

theorem find_of_mem : ∀ {l : List α}, Keyed key l → ∀ {a : α}, a ∈ l → find key (key a) l = some a
  | [], _, _, h => by simp at h
  | b :: l, hn, a, h => by
    obtain ⟨hb, hn⟩ := List.nodup_cons.1 hn
    rcases List.mem_cons.1 h with rfl | h
    · simp [find]
    · have hne : key b ≠ key a := fun e => hb (e ▸ List.mem_map_of_mem h)
      have ih := find_of_mem hn h
      unfold find at ih ⊢
      rw [List.find?_cons_of_neg (by simpa using hne)]
      exact ih

/-- An entry put in another's place, under a key that is new. -/
theorem find_set {a old : α} (k : κ) : ∀ {l : List α} {i : ℕ}, Keyed key l → l[i]? = some old →
    key a ∉ l.map key → find key k (l.set i a) =
      if key a = k then some a else if key old = k then none else find key k l
  | [], _, _, hi, _ => by simp at hi
  | b :: l, 0, hl, hi, _ => by
    obtain rfl : b = old := by simpa using hi
    obtain ⟨hb, -⟩ := List.nodup_cons.1 hl
    unfold find
    rw [List.set_cons_zero]
    by_cases hk : key b = k
    · have hnone : l.find? (fun a => key a = k) = none := List.find?_eq_none.2 fun c hc hck =>
        hb (hk.trans (of_decide_eq_true hck).symm ▸ List.mem_map_of_mem hc)
      by_cases ha : key a = k <;> simp [ha, hk, hnone]
    · by_cases ha : key a = k <;> simp [ha, hk]
  | b :: l, i + 1, hl, hi, ha => by
    obtain ⟨hb, hl⟩ := List.nodup_cons.1 hl
    rw [List.map_cons, List.mem_cons, not_or] at ha
    have hi : l[i]? = some old := by simpa using hi
    have ih := find_set k hl hi ha.2
    unfold find at ih ⊢
    rw [List.set_cons_succ]
    by_cases hk : key b = k
    · have hold : ¬ key old = k := fun h =>
        hb (hk.trans h.symm ▸ List.mem_map_of_mem (List.mem_of_getElem? hi))
      have ha : ¬ key a = k := fun h => ha.1 (h.trans hk.symm)
      simp [hk, hold, ha]
    · simp [hk, ih]

theorem mem_map_iff_find {k : κ} :
    k ∈ l.map key ↔ (find key k l).isSome := by
  simp [find]

/-! ## As a list -/

theorem filter_bump (p : κ → Bool) (new : α) (f : α → α) (keeps : ∀ a, key (f a) = key a) :
    ∀ l : List α, (bump key new f l).filter (fun a => p (key a)) =
      if p (key new) then bump key new f (l.filter fun a => p (key a))
      else l.filter fun a => p (key a)
  | [] => by by_cases h : p (key new) <;> simp [bump, h]
  | a :: l => by
    have ih := filter_bump p new f keeps l
    by_cases ha : key a = key new
    · by_cases h : p (key new) <;> simp [bump, ha, h, keeps]
    · by_cases hp : p (key a)
      · by_cases h : p (key new)
        · simp [bump, ha, hp, h, ih]
        · simp [bump, ha, hp, h, ih]
      · simp [bump, ha, hp, ih]

/-- An edit commutes with keeping the entries of a set of keys that has its target, and
leaves the entries of any other set alone. -/
theorem Edit.filter_apply (e : Edit key) (p : κ → Bool) (hl : Keyed key l) :
    (e.apply l).filter (fun a => p (key a)) =
      if p e.target then e.apply (l.filter fun a => p (key a))
      else l.filter fun a => p (key a) := by
  have hdrop : ∀ k, (l.filter fun a => key a ≠ k).filter (fun a => p (key a)) =
      if p k then (l.filter fun a => p (key a)).filter (fun a => key a ≠ k)
      else l.filter fun a => p (key a) := by
    intro k
    rw [List.filter_filter]
    split_ifs with h
    · rw [List.filter_filter]
      exact List.filter_congr fun a _ => Bool.and_comm _ _
    · refine List.filter_congr fun a _ => ?_
      by_cases ha : key a = k <;> simp [ha, h]
  cases e with
  | put a =>
    simp only [apply, KeyedList.put, drop_eq_filter _ hl, drop_eq_filter _ (hl.filter _), target,
      List.filter_append, hdrop]
    by_cases h : p (key a) <;> simp [h]
  | drop k =>
    simp only [apply, drop_eq_filter _ hl, drop_eq_filter _ (hl.filter _), target]
    exact hdrop k
  | bump new f keeps => exact filter_bump p new f keeps l

def resetKeys (es : List (Edit key)) : List κ :=
  (es.filter Edit.resets).map Edit.target

theorem resetKeys_append (es : List (Edit key)) (e : Edit key) :
    resetKeys (es ++ [e]) = resetKeys es ++ if e.resets then [e.target] else [] := by
  by_cases h : e.resets <;> simp [resetKeys, h]

theorem mem_resetKeys {es : List (Edit key)} {e : Edit key} (he : e ∈ es) (hr : e.resets) :
    e.target ∈ resetKeys es :=
  List.mem_map_of_mem (List.mem_filter.2 ⟨he, hr⟩)

theorem Edit.apply_of_resets {e : Edit key} (he : e.resets) (hl : Keyed key l) :
    e.apply l = (l.filter fun a => key a ≠ e.target) ++ (e.value none).toList := by
  cases e with
  | put a => rw [apply, KeyedList.put, drop_eq_filter _ hl]; rfl
  | drop k => rw [apply, drop_eq_filter _ hl, value, Option.toList_none, List.append_nil]; rfl
  | bump new f keeps => simp [resets] at he

theorem Edit.filter_apply_of_resets {e : Edit key} (he : e.resets) (ks : List κ)
    (hl : Keyed key l) : (e.apply l).filter (fun a => key a ∈ ks ++ [e.target]) =
      ((l.filter fun a => key a ∈ ks).filter fun a => key a ≠ e.target) ++
        (e.value none).toList := by
  have hf := e.filter_apply (fun k => k ∈ ks ++ [e.target]) hl
  simp only [List.mem_append, List.mem_singleton, or_true, decide_true, if_true] at hf ⊢
  rw [hf, Edit.apply_of_resets he (hl.filter _), List.filter_filter, List.filter_filter]
  congr 1
  refine List.filter_congr fun a _ => ?_
  by_cases ha : key a = e.target <;> simp [ha]

theorem filter_run_resetKeys (es : List (Edit key)) {m : List α} (hl : Keyed key l)
    (hm : Keyed key m) : (run es l).filter (fun a => key a ∈ resetKeys es) =
      (run es m).filter fun a => key a ∈ resetKeys es := by
  induction es using List.reverseRecOn with
  | nil => simp [resetKeys]
  | append_singleton es e ih =>
    have hl' := keyed_run es hl
    have hm' := keyed_run es hm
    simp only [run_append, run_cons, run_nil, resetKeys_append]
    by_cases he : e.resets
    · rw [if_pos he, Edit.filter_apply_of_resets he _ hl', Edit.filter_apply_of_resets he _ hm', ih]
    · have h₁ := e.filter_apply (fun k => k ∈ resetKeys es) hl'
      have h₂ := e.filter_apply (fun k => k ∈ resetKeys es) hm'
      simp only [he, Bool.false_eq_true, if_false, List.append_nil]
      rw [h₁, h₂, ih]

theorem filter_run_untouched (p : κ → Bool) (es : List (Edit key))
    (hl : Keyed key l) (hp : ∀ e ∈ es, p e.target = false) :
    (run es l).filter (fun a => p (key a)) = l.filter fun a => p (key a) := by
  induction es generalizing l with
  | nil => rfl
  | cons e es ih =>
    rw [run_cons, ih (e.keyed_apply hl) fun e' he' => hp e' (List.mem_cons_of_mem _ he'),
      e.filter_apply p hl, hp e List.mem_cons_self]
    simp

theorem pairwise_run (es : List (Edit key)) (ts : List κ) (hts : ∀ e ∈ es, e.target ∈ ts)
    (hl : Keyed key l) :
    ((run es l).map key).Pairwise fun x y => x ∈ resetKeys es → y ∈ ts := by
  induction es using List.reverseRecOn with
  | nil => exact List.pairwise_iff_forall_sublist.2 fun _ h => by simp [resetKeys] at h
  | append_singleton es e ih =>
    have hl' := keyed_run es hl
    have ih := ih fun e' he' => hts e' (List.mem_append_left _ he')
    have ht : e.target ∈ ts := hts e (by simp)
    simp only [run_append, run_cons, run_nil, resetKeys_append]
    by_cases he : e.resets
    · rw [if_pos he, Edit.apply_of_resets he hl', List.map_append, List.pairwise_append]
      refine ⟨?_, ?_, ?_⟩
      · -- what stays is not at the target, so it was reset before or not at all
        refine List.Pairwise.imp_of_mem ?_ (ih.sublist (List.filter_sublist.map key))
        intro x y hx _ hxy hmem
        obtain ⟨a, ha, rfl⟩ := List.mem_map.1 hx
        have hne : key a ≠ e.target := by simpa using (List.mem_filter.1 ha).2
        exact hxy (by simpa [hne] using hmem)
      · cases h : e.value none <;> simp
      · intro x _ y hy _
        have hv : y = e.target := by
          cases e <;> simp_all [Edit.value, Edit.target]
        exact hv ▸ ht
    · cases e with
      | put a => simp [Edit.resets] at he
      | drop k => simp [Edit.resets] at he
      | bump new f keeps =>
        simp only [Edit.resets, Bool.false_eq_true, if_false, List.append_nil, Edit.apply,
          map_bump new f keeps]
        split_ifs
        · exact ih
        · refine List.pairwise_append.2 ⟨ih, List.pairwise_singleton _ _, ?_⟩
          intro x _ y hy _
          exact List.mem_singleton.1 hy ▸ ht

theorem eq_filter_append_filter {p : α → Bool} :
    ∀ {l : List α}, l.Pairwise (fun a b => p a → p b) →
      l = l.filter (fun a => !p a) ++ l.filter p
  | [], _ => rfl
  | a :: l, h => by
    obtain ⟨ha, hl⟩ := List.pairwise_cons.1 h
    by_cases hp : p a
    · have hall : ∀ b ∈ l, p b := fun b hb => ha b hb hp
      have h₀ : l.filter (fun a => !p a) = [] := by
        simpa [List.filter_eq_nil_iff] using hall
      have h₁ : l.filter p = l := List.filter_eq_self.2 hall
      simp [hp, h₀, h₁]
    · have ih := eq_filter_append_filter hl
      simpa [hp] using ih

/-- If every key the edits touch is also reset by one of them, the run leaves the
untouched entries in their order, followed by what it makes of the empty list. -/
theorem run_eq_of_resets {es : List (Edit key)} (hes : ∀ e ∈ es, e.target ∈ resetKeys es)
    (hl : Keyed key l) :
    run es l = l.filter (fun a => key a ∉ resetKeys es) ++ run es [] := by
  have shape : ∀ {m : List α}, Keyed key m → run es m =
      m.filter (fun a => key a ∉ resetKeys es) ++
        (run es m).filter fun a => key a ∈ resetKeys es := by
    intro m hm
    have hpw : (run es m).Pairwise fun a b =>
        decide (key a ∈ resetKeys es) → decide (key b ∈ resetKeys es) := by
      simpa [List.pairwise_map] using pairwise_run es (resetKeys es) hes hm
    have hun := filter_run_untouched (fun k => !decide (k ∈ resetKeys es)) es hm
      fun e he => by simpa using hes e he
    have h := eq_filter_append_filter hpw
    rw [hun] at h
    simpa using h
  have h₀ := shape (keyed_nil key)
  rw [List.filter_nil, List.nil_append] at h₀
  rw [shape hl, h₀, ← filter_run_resetKeys es hl (keyed_nil key)]

theorem run_run_of_resets {es : List (Edit key)} (hes : ∀ e ∈ es, e.target ∈ resetKeys es)
    (hl : Keyed key l) : run es (run es l) = run es l := by
  have hrun := run_eq_of_resets hes hl
  have h₀ : (run es []).filter (fun a => key a ∉ resetKeys es) = [] := by
    have := filter_run_untouched (fun k => !decide (k ∈ resetKeys es)) es
      (keyed_nil key) fun e he => by simpa using hes e he
    simpa using this
  rw [run_eq_of_resets hes (keyed_run es hl), hrun, List.filter_append, h₀, List.append_nil,
    List.filter_filter]
  simp

end KeyedList
