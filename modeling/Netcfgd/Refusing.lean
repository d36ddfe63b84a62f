import Netcfgd.Reconcile

/-!
# A store that refuses

A store of entries with a key each that refuses to add where the key is taken (`Refuses`). Changes
at one key are carried out whatever happens at others : `filter_foldl_apply` is what a run leaves
at a part of the keys, and `refuses_iff` that a run is refused where it is at one key.
-/

namespace Reconcile

variable {ε κ : Type*} [DecidableEq κ] {key : ε → κ}

def Change.Taken (key : ε → κ) (held : List ε) : Change ε κ → Prop
  | .add e => ∃ e' ∈ held, key e' = key e
  | .remove _ => False

def Refuses (key : ε → κ) : List ε → List (Change ε κ) → Prop
  | _, [] => False
  | held, c :: cs => c.Taken key held ∨ Refuses key (c.apply key held) cs

@[simp] theorem refuses_nil (held : List ε) : ¬Refuses key held [] := id

theorem refuses_cons {held : List ε} {c : Change ε κ} {cs : List (Change ε κ)} :
    Refuses key held (c :: cs) ↔ c.Taken key held ∨ Refuses key (c.apply key held) cs :=
  Iff.rfl

theorem filter_foldl_apply (q : κ → Bool) : ∀ (cs : List (Change ε κ)) (held : List ε),
    (cs.foldl (Change.apply key) held).filter (fun e => q (key e)) =
      (cs.filter fun c => q (c.at key)).foldl (Change.apply key)
        (held.filter fun e => q (key e))
  | [], _ => rfl
  | c :: cs, held => by
    rw [List.foldl_cons, filter_foldl_apply q cs, filter_apply, List.filter_cons]
    split_ifs <;> rfl

theorem Change.taken_filter {c : Change ε κ} {held : List ε} :
    c.Taken key (held.filter fun e => key e = c.at key) ↔ c.Taken key held := by
  cases c with
  | add e =>
    constructor
    · rintro ⟨e', he', hk⟩
      exact ⟨e', (List.mem_filter.1 he').1, hk⟩
    · rintro ⟨e', he', hk⟩
      exact ⟨e', List.mem_filter.2 ⟨he', decide_eq_true hk⟩, hk⟩
  | remove k => exact Iff.rfl

theorem refuses_iff : ∀ {cs : List (Change ε κ)} {held : List ε}, Refuses key held cs ↔
    ∃ k, Refuses key (held.filter fun e => key e = k) (cs.filter fun c => c.at key = k)
  | [], held => by simp
  | c :: cs, held => by
    rw [refuses_cons, refuses_iff]
    have hstep : ∀ k, (c.apply key held).filter (fun e => key e = k) =
        if c.at key = k then c.apply key (held.filter fun e => key e = k)
        else held.filter fun e => key e = k := by
      intro k
      simpa using filter_apply key (fun k' => decide (k' = k)) held c
    constructor
    · rintro (htaken | ⟨k, hk⟩)
      · refine ⟨c.at key, ?_⟩
        rw [List.filter_cons_of_pos (by simp), refuses_cons]
        exact .inl (Change.taken_filter.2 htaken)
      · refine ⟨k, ?_⟩
        rw [hstep] at hk
        by_cases hc : c.at key = k
        · rw [List.filter_cons_of_pos (by simpa using hc), refuses_cons]
          exact .inr (by rwa [if_pos hc] at hk)
        · rw [List.filter_cons_of_neg (by simpa using hc)]
          rwa [if_neg hc] at hk
    · rintro ⟨k, hk⟩
      by_cases hc : c.at key = k
      · rw [List.filter_cons_of_pos (by simpa using hc), refuses_cons] at hk
        rcases hk with htaken | hk
        · subst hc
          exact .inl (Change.taken_filter.1 htaken)
        · exact .inr ⟨k, by rw [hstep, if_pos hc]; exact hk⟩
      · rw [List.filter_cons_of_neg (by simpa using hc)] at hk
        exact .inr ⟨k, by rw [hstep, if_neg hc]; exact hk⟩

theorem filter_flatMap_key {α β : Type*} {f : α → List β} {key : α → κ} {key' : β → κ}
    (h : ∀ a, ∀ b ∈ f a, key' b = key a) (k : κ) : ∀ l : List α,
    (l.flatMap f).filter (fun b => key' b = k) = (l.filter fun a => key a = k).flatMap f
  | [] => rfl
  | a :: l => by
    rw [List.flatMap_cons, List.filter_append, filter_flatMap_key h k l, List.filter_cons]
    by_cases hk : key a = k
    · rw [if_pos (by simpa using hk), List.flatMap_cons,
        List.filter_eq_self.2 fun b hb => by simpa [h a b hb] using hk]
    · rw [if_neg (by simpa using hk), List.filter_eq_nil_iff.2 fun b hb => by
        simpa [h a b hb] using hk, List.nil_append]

theorem filter_key_cases {held : List ε} (h : (held.map key).Nodup) (k : κ) :
    held.filter (fun e => key e = k) = [] ∨ ∃ e, held.filter (fun e => key e = k) = [e] := by
  have hnodup : ((held.filter fun e => key e = k).map key).Nodup :=
    h.sublist (List.filter_sublist.map key)
  have hall : ∀ e ∈ held.filter fun e => key e = k, key e = k := fun e he =>
    by simpa using (List.mem_filter.1 he).2
  rcases hf : held.filter fun e => key e = k with _ | ⟨e, _ | ⟨e', rest⟩⟩
  · exact .inl rfl
  · exact .inr ⟨e, rfl⟩
  · rw [hf] at hnodup hall
    have heq : key e = key e' := (hall e (by simp)).trans (hall e' (by simp)).symm
    simp [heq] at hnodup

end Reconcile
