import Mathlib.Data.List.Pairwise
import Mathlib.Data.Finset.Card
import Mathlib.Data.Finset.Dedup
import Mathlib.Data.Finset.Insert

/-!
# A sorted array with room for so many

An array without repeats, kept in order by a comparison, and a binary search for the place of an
element. An element goes in at its place if it is not there and there is room (`insert`).

`place_none` and `place_some` say what the search finds ; `sorted_insert`, `length_insert_le` and
`mem_insert` what an insertion keeps. `mem_insertAll` is the run : where the room is enough for all
of them, the array has exactly the elements that went in.
-/

namespace Netcfgd.SortedSet

variable {α : Type*} (cmp : α → α → Ordering)

/-- In order, each element once. -/
def Sorted (xs : List α) : Prop := xs.Pairwise fun a b => cmp a b = .lt

/-- The binary search between two places : nothing where the element is there, and else the place
it goes to. -/
def place (xs : List α) (x : α) (low high : ℕ) : Option ℕ :=
  if low < high then
    let middle := low + (high - low) / 2
    match xs[middle]?.map fun y => cmp y x with
    | some .eq => none
    | some .lt => place xs x (middle + 1) high
    | _ => place xs x low middle
  else some low
termination_by high - low

def insert (room : ℕ) (xs : List α) (x : α) : List α :=
  match place cmp xs x 0 xs.length with
  | none => xs
  | some low => if room ≤ xs.length then xs else xs.take low ++ x :: xs.drop low

def insertAll (room : ℕ) (xs ys : List α) : List α := ys.foldl (insert cmp room) xs

variable {cmp} {room : ℕ} {xs : List α} {x : α} {low high : ℕ}

/-! ## The search -/

/-- What is below `low` comes before the element, and what is from `high` on after it. -/
structure Between (cmp : α → α → Ordering) (xs : List α) (x : α) (low high : ℕ) : Prop where
  le : low ≤ high
  before : ∀ (i : ℕ) (y : α), xs[i]? = some y → i < low → cmp y x = .lt
  after : ∀ (i : ℕ) (y : α), xs[i]? = some y → high ≤ i → cmp x y = .lt

theorem between_ends (xs : List α) (x : α) : Between cmp xs x 0 xs.length where
  le := Nat.zero_le _
  before _ _ _ h := absurd h (Nat.not_lt_zero _)
  after i y hy h := by
    rw [List.getElem?_eq_none h] at hy
    cases hy

theorem place_none (h : place cmp xs x low high = none) :
    ∃ y ∈ xs, cmp y x = .eq := by
  fun_induction place cmp xs x low high with
  | case1 low high _ middle heq =>
    obtain ⟨y, hy, hcmp⟩ := Option.map_eq_some_iff.1 heq
    exact ⟨y, List.mem_of_getElem? hy, hcmp⟩
  | case2 _ _ _ _ _ ih => exact ih h
  | case3 _ _ _ _ _ _ ih => exact ih h
  | case4 => cases h

theorem Sorted.lt_of_lt (h : Sorted cmp xs) {i j : ℕ} {a b : α} (ha : xs[i]? = some a)
    (hb : xs[j]? = some b) (hij : i < j) : cmp a b = .lt := by
  obtain ⟨hi, rfl⟩ := List.getElem?_eq_some_iff.1 ha
  obtain ⟨hj, rfl⟩ := List.getElem?_eq_some_iff.1 hb
  exact List.pairwise_iff_getElem.1 h i j hi hj hij

theorem place_some [Std.TransCmp cmp] (hsorted : Sorted cmp xs)
    (hbetween : Between cmp xs x low high)
    (hhigh : high ≤ xs.length) {p : ℕ} (h : place cmp xs x low high = some p) :
    Between cmp xs x p p := by
  fun_induction place cmp xs x low high with
  | case1 => cases h
  | case2 low high hlt middle heq ih =>
    obtain ⟨m, hm, hcmp⟩ := Option.map_eq_some_iff.1 heq
    have hmiddle : middle = low + (high - low) / 2 := rfl
    refine ih ⟨by omega, fun i y hy hi => ?_, hbetween.after⟩ hhigh h
    rcases Nat.lt_or_eq_of_le (Nat.lt_succ_iff.1 hi) with hi | rfl
    · exact Std.TransCmp.lt_trans (hsorted.lt_of_lt hy hm hi) hcmp
    · rwa [Option.some.inj (hy.symm.trans hm)]
  | case3 low high hlt middle hneq hnlt ih =>
    have hmiddle : middle = low + (high - low) / 2 := rfl
    have hinside : middle < xs.length := by omega
    obtain ⟨m, hm⟩ : ∃ m, xs[middle]? = some m := ⟨_, List.getElem?_eq_getElem hinside⟩
    have hcmp : cmp x m = .lt := by
      rw [hm] at hneq hnlt
      refine Std.OrientedCmp.gt_iff_lt.1 ?_
      cases hc : cmp m x with
      | lt => exact absurd (congrArg some hc) hnlt
      | eq => exact absurd (congrArg some hc) hneq
      | gt => rfl
    refine ih ⟨by omega, hbetween.before, fun i y hy hi => ?_⟩ (by omega) h
    rcases Nat.lt_or_eq_of_le hi with hi | rfl
    · exact Std.TransCmp.lt_trans hcmp (hsorted.lt_of_lt hm hy hi)
    · rwa [Option.some.inj (hy.symm.trans hm)]
  | case4 low high hlt =>
    obtain rfl := Option.some.inj h
    have heq : low = high := le_antisymm hbetween.le (not_lt.1 hlt)
    subst heq
    exact hbetween

theorem Between.take {p : ℕ} (h : Between cmp xs x p p) : ∀ y ∈ xs.take p, cmp y x = .lt := by
  intro y hy
  obtain ⟨i, hi, rfl⟩ := List.mem_iff_getElem.1 hy
  rw [List.length_take] at hi
  refine h.before i _ ?_ (lt_of_lt_of_le hi (min_le_left _ _))
  rw [List.getElem_take, List.getElem?_eq_getElem]

theorem Between.drop {p : ℕ} (h : Between cmp xs x p p) : ∀ y ∈ xs.drop p, cmp x y = .lt := by
  intro y hy
  obtain ⟨i, hi, rfl⟩ := List.mem_iff_getElem.1 hy
  rw [List.length_drop] at hi
  refine h.after (p + i) _ ?_ (Nat.le_add_right _ _)
  rw [List.getElem_drop, List.getElem?_eq_getElem]

/-! ## One element -/

theorem length_insert_le (h : xs.length ≤ room) : (insert cmp room xs x).length ≤ room := by
  unfold insert
  cases place cmp xs x 0 xs.length with
  | none => exact h
  | some p =>
    dsimp only
    split_ifs with hroom
    · exact h
    · rw [List.length_append, List.length_cons, List.length_take, List.length_drop]
      omega

theorem mem_insert [Std.LawfulEqCmp cmp] (hroom : x ∈ xs ∨ xs.length < room) (y : α) :
    y ∈ insert cmp room xs x ↔ y = x ∨ y ∈ xs := by
  unfold insert
  cases hplace : place cmp xs x 0 xs.length with
  | none =>
    obtain ⟨z, hz, heq⟩ := place_none hplace
    have hx : x ∈ xs := Std.LawfulEqCmp.eq_of_compare heq ▸ hz
    exact ⟨Or.inr, fun h => h.elim (· ▸ hx) id⟩
  | some p =>
    dsimp only
    split_ifs with hfull
    · have hx : x ∈ xs := hroom.resolve_right (by omega)
      exact ⟨Or.inr, fun h => h.elim (· ▸ hx) id⟩
    · have hsplit : y ∈ xs ↔ y ∈ xs.take p ∨ y ∈ xs.drop p := by
        rw [← List.mem_append, List.take_append_drop]
      rw [List.mem_append, List.mem_cons, hsplit]
      tauto

theorem sorted_insert [Std.TransCmp cmp] (h : Sorted cmp xs) :
    Sorted cmp (insert cmp room xs x) := by
  unfold insert
  cases hplace : place cmp xs x 0 xs.length with
  | none => exact h
  | some p =>
    have hbetween := place_some h (between_ends xs x) le_rfl hplace
    dsimp only
    split_ifs with hroom
    · exact h
    · refine List.pairwise_append.2 ⟨h.sublist (List.take_sublist _ _),
        List.pairwise_cons.2 ⟨hbetween.drop, h.sublist (List.drop_sublist _ _)⟩, ?_⟩
      intro a ha b hb
      rcases List.mem_cons.1 hb with rfl | hb
      · exact hbetween.take a ha
      · exact Std.TransCmp.lt_trans (hbetween.take a ha) (hbetween.drop b hb)

/-! ## All of them -/

theorem length_insertAll_le (ys : List α) (h : xs.length ≤ room) :
    (insertAll cmp room xs ys).length ≤ room := by
  induction ys generalizing xs with
  | nil => exact h
  | cons y ys ih => exact ih (length_insert_le h)

theorem insertAll_append (xs ys zs : List α) :
    insertAll cmp room xs (ys ++ zs) = insertAll cmp room (insertAll cmp room xs ys) zs :=
  List.foldl_append

/-- Inserting keeps the order. -/
theorem sorted_insertAll [Std.TransCmp cmp] (ys : List α) (h : Sorted cmp xs) :
    Sorted cmp (insertAll cmp room xs ys) := by
  induction ys generalizing xs with
  | nil => exact h
  | cons y ys ih => exact ih (sorted_insert h)

theorem Sorted.nodup [Std.LawfulEqCmp cmp] (h : Sorted cmp xs) : xs.Nodup :=
  List.Pairwise.imp (fun {a b} hlt heq => by
    rw [heq, @Std.ReflCmp.compare_self _ cmp] at hlt
    cases hlt) h

theorem mem_insertAll [Std.TransCmp cmp] [Std.LawfulEqCmp cmp] [DecidableEq α] (ys : List α)
    (hsorted : Sorted cmp xs) (hroom : (xs ++ ys).toFinset.card ≤ room) (y : α) :
    y ∈ insertAll cmp room xs ys ↔ y ∈ xs ∨ y ∈ ys := by
  induction ys generalizing xs with
  | nil => simp [insertAll]
  | cons z ys ih =>
    have hz : z ∈ xs ∨ xs.length < room := by
      by_contra hno
      rw [not_or, not_lt] at hno
      have hsub : (z :: xs).toFinset ⊆ (xs ++ z :: ys).toFinset := by
        intro a ha
        simp only [List.mem_toFinset, List.mem_cons, List.mem_append] at ha ⊢
        tauto
      have hcard := Finset.card_le_card hsub
      rw [List.toFinset_card_of_nodup (List.nodup_cons.2 ⟨hno.1, hsorted.nodup⟩),
        List.length_cons] at hcard
      omega
    have hmem := @mem_insert _ cmp _ _ _ _ hz
    have hsame : (insert cmp room xs z ++ ys).toFinset = (xs ++ z :: ys).toFinset := by
      ext a
      simp only [List.mem_toFinset, List.mem_append, List.mem_cons, hmem]
      tauto
    have hrest := ih (@sorted_insert _ cmp room xs z _ hsorted) (hsame ▸ hroom)
    change y ∈ insertAll cmp room (insert cmp room xs z) ys ↔ _
    rw [hrest, hmem, List.mem_cons]
    tauto

end Netcfgd.SortedSet
