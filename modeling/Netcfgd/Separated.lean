import Mathlib.Data.List.Basic

/-!
# Lists that can be taken apart again

A list made of pieces determines the pieces where a separator that none of them holds tells them
from each other (`append_sep_inj`, `splitOn_ended`). Any list is the pieces that a separator ends
and a tail that none does (`ended_segments`), and taking a list apart can stop and go on anywhere
(`segments_append`, `tail_append`).
-/

namespace Netcfgd.Separated

variable {α : Type*}

/-! ## Separators -/

/-- Two lists are the same up to their first separator and behind it. -/
theorem append_sep_inj {sep : α} : ∀ {a b x y : List α}, sep ∉ a → sep ∉ b →
    a ++ sep :: x = b ++ sep :: y → a = b ∧ x = y
  | [], [], _, _, _, _, h => ⟨rfl, (List.cons.inj h).2⟩
  | [], _ :: _, _, _, _, hb, h =>
    absurd ((List.cons.inj h).1 ▸ List.mem_cons_self) hb
  | _ :: _, [], _, _, ha, _, h =>
    absurd ((List.cons.inj h).1 ▸ List.mem_cons_self) ha
  | c :: a, d :: b, x, y, ha, hb, h => by
    obtain ⟨rfl, htail⟩ := List.cons.inj h
    have hrest := append_sep_inj (fun hc => ha (List.mem_cons_of_mem c hc))
      (fun hc => hb (List.mem_cons_of_mem c hc)) htail
    exact ⟨congrArg (c :: ·) hrest.1, hrest.2⟩

/-- Pieces with the separator after each. -/
def ended (sep : α) (words : List (List α)) : List α := words.flatMap (· ++ [sep])

@[simp] theorem ended_nil (sep : α) : ended sep [] = [] := rfl

@[simp] theorem ended_cons (sep : α) (w : List α) (words : List (List α)) :
    ended sep (w :: words) = w ++ sep :: ended sep words := by
  simp [ended]

/-! ## What a separator ends -/

/-- The pieces of a list that a separator ends. -/
def segments [DecidableEq α] (sep : α) (x : List α) : List (List α) := (x.splitOn sep).dropLast

/-- What stands after the last separator. -/
def tail [DecidableEq α] (sep : α) (x : List α) : List α := (x.splitOn sep).getLast?.getD []

section Segments

variable [DecidableEq α] {sep : α} {p x y : List α}

theorem splitOn_ne_nil (sep : α) (x : List α) : x.splitOn sep ≠ [] := by
  rw [List.splitOn_eq_splitOnP]
  exact List.splitOnP_ne_nil _ x

theorem first_cases (sep : α) (x : List α) : sep ∉ x ∨ ∃ p y, x = p ++ sep :: y ∧ sep ∉ p := by
  by_cases h : sep ∈ x
  · exact .inr (List.eq_append_cons_of_mem h)
  · exact .inl h

theorem splitOn_of_not_mem (h : sep ∉ x) : x.splitOn sep = [x] := by
  rw [List.splitOn_eq_splitOnP, List.splitOnP_eq_singleton]
  intro c hc
  simpa using fun heq : c = sep => h (heq ▸ hc)

theorem splitOn_ended : ∀ {ws : List (List α)}, (∀ w ∈ ws, sep ∉ w) →
    (ended sep ws).splitOn sep = ws ++ [[]]
  | [], _ => rfl
  | w :: ws, h => by
    rw [List.forall_mem_cons] at h
    rw [ended_cons, List.splitOn_append_cons_self_of_not_mem h.1, splitOn_ended h.2,
      List.cons_append]

theorem segments_of_not_mem (h : sep ∉ x) : segments sep x = [] := by
  rw [segments, splitOn_of_not_mem h, List.dropLast_singleton]

theorem tail_of_not_mem (h : sep ∉ x) : tail sep x = x := by
  rw [tail, splitOn_of_not_mem h, List.getLast?_singleton, Option.getD_some]

theorem segments_cons (h : sep ∉ p) : segments sep (p ++ sep :: y) = p :: segments sep y := by
  rw [segments, List.splitOn_append_cons_self_of_not_mem h,
    List.dropLast_cons_of_ne_nil (splitOn_ne_nil sep y), segments]

theorem tail_cons (h : sep ∉ p) : tail sep (p ++ sep :: y) = tail sep y := by
  rw [tail, List.splitOn_append_cons_self_of_not_mem h, List.getLast?_cons, tail,
    List.getLast?_eq_some_getLast (splitOn_ne_nil sep y)]
  rfl

/-- From a list that no separator ends, by one piece more in front. -/
theorem segments_induction {motive : List α → Prop} (last : ∀ x, sep ∉ x → motive x)
    (word : ∀ p y, sep ∉ p → motive y → motive (p ++ sep :: y)) (x : List α) : motive x := by
  induction hlen : x.length using Nat.strongRecOn generalizing x with
  | ind n ih =>
    rcases first_cases sep x with hx | ⟨p, y, rfl, hp⟩
    · exact last x hx
    · refine word p y hp (ih y.length ?_ y rfl)
      rw [← hlen, List.length_append, List.length_cons]
      omega

/-- The pieces and the tail make the list. -/
theorem ended_segments (sep : α) (x : List α) : ended sep (segments sep x) ++ tail sep x = x := by
  induction x using @segments_induction _ _ sep with
  | last x hx => rw [segments_of_not_mem hx, tail_of_not_mem hx, ended_nil, List.nil_append]
  | word p y hp ih => rw [segments_cons hp, tail_cons hp, ended_cons, List.append_assoc,
      List.cons_append, ih]

/-- The pieces of two lists, the tail of the first going before the second. -/
theorem segments_append (sep : α) (x y : List α) :
    segments sep (x ++ y) = segments sep x ++ segments sep (tail sep x ++ y) := by
  induction x using @segments_induction _ _ sep with
  | last x hx => rw [segments_of_not_mem hx, tail_of_not_mem hx, List.nil_append]
  | word p x hp ih => rw [List.append_assoc, List.cons_append, segments_cons hp, segments_cons hp,
      tail_cons hp, ih, List.cons_append]

theorem tail_append (sep : α) (x y : List α) :
    tail sep (x ++ y) = tail sep (tail sep x ++ y) := by
  induction x using @segments_induction _ _ sep with
  | last x hx => rw [tail_of_not_mem hx]
  | word p x hp ih => rw [List.append_assoc, List.cons_append, tail_cons hp, tail_cons hp, ih]

end Segments

end Netcfgd.Separated
