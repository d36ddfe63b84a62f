import Mathlib.Data.List.Forall2

/-!
# Computations that may fail

What it takes for a computation in `Except` to succeed : each of its steps does (`bind_eq_ok`,
`map_eq_ok`), and a list is gone through where each of its elements is (`mapM_eq_ok`).
-/

namespace Netcfgd

variable {α β ε : Type}

theorem bind_eq_ok {x : Except ε α} {f : α → Except ε β} {b : β} :
    x >>= f = .ok b ↔ ∃ a, x = .ok a ∧ f a = .ok b := by
  cases x <;> simp [bind, Except.bind]

theorem map_eq_ok {x : Except ε α} {f : α → β} {b : β} :
    x.map f = .ok b ↔ ∃ a, x = .ok a ∧ f a = b := by
  cases x <;> simp [Except.map]

theorem mapM_eq_ok {f : α → Except ε β} :
    ∀ {l : List α} {out : List β}, l.mapM f = .ok out ↔ List.Forall₂ (fun a b => f a = .ok b) l out
  | [], out => by simp [pure, Except.pure, eq_comm]
  | a :: l, out => by
    simp only [List.mapM_cons, bind_eq_ok, mapM_eq_ok, pure, Except.pure, Except.ok.injEq,
      List.forall₂_cons_left_iff]
    constructor
    · rintro ⟨b, hb, bs, hbs, rfl⟩
      exact ⟨b, bs, hb, hbs, rfl⟩
    · rintro ⟨b, bs, hb, hbs, rfl⟩
      exact ⟨b, hb, bs, hbs, rfl⟩

end Netcfgd
