import Mathlib.Computability.Language

/-!
# Readers that take a text a piece at a time

A step says how long the piece is that a text starts with, none where it starts with no piece
(`StepOf`). Taking step after step comes to the end of exactly the texts that are such pieces one
after the other (`takes_iff`), whatever it is that each step does to find out. A step that learns of
the first symbol how many follow is one (`Decoder.stepOf`).
-/

namespace Netcfgd.Steps

variable {α : Type*}

def takesFrom (step : List α → ℕ) : ℕ → List α → Bool
  | _, [] => true
  | 0, _ :: _ => false
  | fuel + 1, text => step text ≠ 0 && takesFrom step fuel (text.drop (step text))

/-- Whether a text is taken to its end. No step is taken twice at one place. -/
def takes (step : List α → ℕ) (text : List α) : Bool := takesFrom step text.length text

/-- A step finds the piece of a language that a text starts with. -/
structure StepOf (L : Language α) (step : List α → ℕ) : Prop where
  sound : ∀ {text}, step text ≠ 0 → ∃ piece ∈ L, ∃ rest, text = piece ++ rest ∧
    step text = piece.length
  complete : ∀ {piece}, piece ∈ L → ∀ rest, step (piece ++ rest) = piece.length

section Takes

variable {L : Language α} {step : List α → ℕ}

theorem append_mem_kstar {piece rest : List α} (hpiece : piece ∈ L) (hrest : rest ∈ KStar.kstar L) :
    piece ++ rest ∈ KStar.kstar L := by
  obtain ⟨pieces, rfl, hpieces⟩ := Language.mem_kstar.1 hrest
  exact Language.mem_kstar.2 ⟨piece :: pieces, rfl, List.forall_mem_cons.2 ⟨hpiece, hpieces⟩⟩

theorem mem_kstar_of_takes (h : StepOf L step) : ∀ {fuel : ℕ} {text : List α},
    takesFrom step fuel text = true → text ∈ KStar.kstar L
  | _, [], _ => Language.nil_mem_kstar L
  | 0, _ :: _, htakes => by cases htakes
  | fuel + 1, first :: text, htakes => by
    obtain ⟨hstep, hrest⟩ := Bool.and_eq_true_iff.1 htakes
    obtain ⟨piece, hpiece, rest, htext, hlength⟩ := h.sound (of_decide_eq_true hstep)
    rw [hlength, htext, List.drop_left] at hrest
    rw [htext]
    exact append_mem_kstar hpiece (mem_kstar_of_takes h hrest)

theorem takes_of_pieces (h : StepOf L step) : ∀ {pieces : List (List α)} {fuel : ℕ},
    (∀ piece ∈ pieces, piece ∈ L ∧ piece ≠ []) → pieces.flatten.length ≤ fuel →
      takesFrom step fuel pieces.flatten = true
  | [], fuel, _, _ => by cases fuel <;> rfl
  | piece :: pieces, fuel, hpieces, hfuel => by
    obtain ⟨⟨hpiece, hne⟩, hlater⟩ := List.forall_mem_cons.1 hpieces
    obtain ⟨first, more, rfl⟩ := List.exists_cons_of_ne_nil hne
    have hstep := h.complete hpiece pieces.flatten
    rw [List.flatten_cons, List.length_append, List.length_cons] at hfuel
    cases fuel with
    | zero => omega
    | succ fuel =>
      rw [List.flatten_cons, takesFrom.eq_def]
      dsimp only [List.cons_append]
      rw [List.cons_append] at hstep
      rw [hstep, ← List.cons_append, List.drop_left, takes_of_pieces h hlater (by omega)]
      simp

/-- Steps take a text exactly where it is words of the language. -/
theorem takes_iff (h : StepOf L step) {text : List α} :
    takes step text = true ↔ text ∈ KStar.kstar L := by
  refine ⟨mem_kstar_of_takes h, fun htext => ?_⟩
  obtain ⟨pieces, rfl, hpieces⟩ := Language.mem_kstar_iff_exists_nonempty.1 htext
  exact takes_of_pieces h hpieces le_rfl

end Takes

/-! ## Of the first symbol, how many follow -/

/-- How many symbols follow a first one, and which may. -/
structure Decoder (α : Type*) where
  follow : α → Option ℕ
  good : α → List α → Bool

def Decoder.step (d : Decoder α) : List α → ℕ
  | [] => 0
  | first :: rest =>
    match d.follow first with
    | none => 0
    | some n => if n ≤ rest.length ∧ d.good first (rest.take n) then n + 1 else 0

theorem Decoder.stepOf {L : Language α} {d : Decoder α} (hnil : [] ∉ L)
    (h : ∀ first more, first :: more ∈ L ↔
      d.follow first = some more.length ∧ d.good first more = true) : StepOf L d.step where
  sound := by
    rintro (_ | ⟨first, rest⟩) hstep
    · exact absurd rfl hstep
    · rw [Decoder.step] at hstep ⊢
      rcases hfollow : d.follow first with _ | n
      · simp [hfollow] at hstep
      · rw [hfollow] at hstep
        dsimp only at hstep ⊢
        by_cases hgood : n ≤ rest.length ∧ d.good first (rest.take n) = true
        · have hlength : (rest.take n).length = n := List.length_take_of_le hgood.1
          refine ⟨first :: rest.take n, (h _ _).2 ⟨by rw [hlength, hfollow], hgood.2⟩, rest.drop n,
            by rw [List.cons_append, List.take_append_drop], ?_⟩
          rw [if_pos hgood, List.length_cons, hlength]
        · rw [if_neg hgood] at hstep
          exact absurd rfl hstep
  complete := by
    rintro (_ | ⟨first, more⟩) hpiece rest
    · exact absurd hpiece hnil
    · obtain ⟨hfollow, hgood⟩ := (h _ _).1 hpiece
      rw [List.cons_append, Decoder.step, hfollow]
      dsimp only
      rw [List.take_left' rfl, if_pos ⟨by simp, hgood⟩, List.length_cons]

end Netcfgd.Steps
