import Netcfgd.Schedule

/-!
# The instants of a schedule

`ncfg_schedule_expand` into an array of some capacity (`expandInto`), and what the pieces are over
all of time : an instant is a number of seconds since a Sunday midnight UTC, it is in a piece
exactly where the written window holds at the local time, and the pieces are in order with a gap
between any two of one day (`expand_instants`).
-/

namespace Netcfgd.Schedule

/-- `ncfg_schedule_expand`, into an array that holds `capacity` pieces. -/
def expandInto (capacity : ℕ) (hours : Option (List Char)) (days : List String) (offset : ℤ) :
    List Piece :=
  match windowOf hours with
  | .error _ => []
  | .ok w =>
    if capacity < (pieces w days offset).length then []
    else join ((pieces w days offset).mergeSort pieceLe)

/-- An instant is in some piece. -/
def InPieces (l : List Piece) (t : ℤ) : Prop := Covered l (t / 86400 % 7) (t % 86400)

/-- A local time is in the window of a schedule : on the day the window starts on, or the day after
it where it runs past midnight. -/
def InWindow (w : Window) (days : List String) (t : ℤ) : Prop :=
  w.Holds (DayIn days) (t / 86400 % 7) (t % 86400)

/-- A piece is before another of the same kind : with a second between them on one day, or on an
earlier day. -/
def Piece.Before (p q : Piece) : Prop :=
  p.day = q.day ∧ p.last + 1 < q.first ∨ ∃ c ∈ p.day, ∃ d ∈ q.day, c < d

/-! ## Joining -/

/-- A piece starts no later than another. -/
def startsBy (p q : Piece) : Prop :=
  p.dayNumber < q.dayNumber ∨ p.dayNumber = q.dayNumber ∧ p.first ≤ q.first

theorem startsBy_of_pieceLe {p q : Piece} (h : pieceLe p q) : startsBy p q := by
  simp only [pieceLe, decide_eq_true_eq] at h
  unfold startsBy
  omega

theorem mem_joinFrom : ∀ {qs : List Piece} {last r : Piece}, r ∈ joinFrom last qs →
    ∃ q ∈ last :: qs, r.day = q.day ∧ r.first = q.first
  | [], last, r, h => ⟨last, List.mem_cons_self, by simp [List.mem_singleton.1 h]⟩
  | q :: qs, last, r, h => by
    rw [joinFrom] at h
    split_ifs at h
    · obtain ⟨s, hs, hr⟩ := mem_joinFrom h
      rcases List.mem_cons.1 hs with rfl | hs
      · exact ⟨last, List.mem_cons_self, hr⟩
      · exact ⟨s, List.mem_cons_of_mem _ (List.mem_cons_of_mem _ hs), hr⟩
    · rcases List.mem_cons.1 h with rfl | h
      · exact ⟨r, List.mem_cons_self, rfl, rfl⟩
      · obtain ⟨s, hs, hr⟩ := mem_joinFrom h
        exact ⟨s, List.mem_cons_of_mem _ hs, hr⟩

/-- Joining adds no piece. -/
theorem length_joinFrom_le : ∀ (qs : List Piece) (last : Piece),
    (joinFrom last qs).length ≤ qs.length + 1
  | [], _ => le_rfl
  | q :: qs, last => by
    rw [joinFrom]
    have hjoined := length_joinFrom_le qs (last.through q)
    have hapart := length_joinFrom_le qs q
    split_ifs <;> simp only [List.length_cons] <;> omega

/-- All pieces are of every day, or none is. -/
def Uniform (l : List Piece) : Prop := ∀ p ∈ l, ∀ q ∈ l, p.day = none → q.day = none

theorem before_of_startsBy {p q r : Piece} (hp : ∀ d ∈ p.day, 0 ≤ d) (hq : ∀ d ∈ q.day, 0 ≤ d)
    (huniform : p.day = none ↔ r.day = none) (hpq : startsBy p q) (hqr : startsBy q r)
    (hgap : ¬(q.day = p.day ∧ q.first ≤ p.last + 1)) : p.Before r := by
  unfold startsBy Piece.dayNumber at hpq hqr
  unfold Piece.Before
  cases hpd : p.day with
  | none =>
    have hrd := huniform.1 hpd
    cases hqd : q.day with
    | none =>
      simp only [hpd, hqd, hrd, true_and, Option.getD_none, lt_irrefl, false_or] at hpq hqr hgap
      exact .inl ⟨hrd.symm, by omega⟩
    | some d =>
      have := hq d hqd
      simp only [hqd, hrd, Option.getD_some, Option.getD_none] at hqr
      omega
  | some c =>
    have hc := hp c hpd
    cases hrd : r.day with
    | none => exact absurd (huniform.2 hrd) (by simp [hpd])
    | some e =>
      cases hqd : q.day with
      | none =>
        simp only [hpd, hqd, Option.getD_some, Option.getD_none] at hpq
        omega
      | some d =>
        simp only [hpd, hqd, hrd, Option.getD_some, Option.some.injEq] at hpq hqr hgap
        simp only [Option.some.injEq, Option.mem_def, exists_eq_left']
        omega

/-- Joined pieces stand apart, in order. -/
theorem before_joinFrom : ∀ {qs : List Piece} {last : Piece}, (∀ p ∈ last :: qs, p.Valid) →
    Uniform (last :: qs) → (last :: qs).Pairwise startsBy → (joinFrom last qs).Pairwise Piece.Before
  | [], last, _, _, _ => List.pairwise_singleton _ last
  | q :: qs, last, hvalid, huniform, hsorted => by
    obtain ⟨hlast, hrest⟩ := List.pairwise_cons.1 hsorted
    obtain ⟨hq, hqs⟩ := List.pairwise_cons.1 hrest
    have hv := fun p hp => hvalid p (List.mem_cons_of_mem _ hp)
    rw [joinFrom]
    split_ifs with hjoin
    · refine before_joinFrom (fun p hp => ?_) (fun p hp r hr h => ?_)
        (List.pairwise_cons.2 ⟨fun r hr => hlast r (List.mem_cons_of_mem _ hr), hqs⟩)
      · rcases List.mem_cons.1 hp with rfl | hp
        · exact (hvalid _ List.mem_cons_self).through (hv _ List.mem_cons_self)
        · exact hv p (List.mem_cons_of_mem _ hp)
      · have hold : ∀ x ∈ last.through q :: qs, ∃ y ∈ last :: q :: qs, y.day = x.day := by
          intro x hx
          rcases List.mem_cons.1 hx with rfl | hx
          · exact ⟨last, List.mem_cons_self, rfl⟩
          · exact ⟨x, List.mem_cons_of_mem _ (List.mem_cons_of_mem _ hx), rfl⟩
        obtain ⟨p', hp', hpd⟩ := hold p hp
        obtain ⟨r', hr', hrd⟩ := hold r hr
        exact hrd ▸ huniform p' hp' r' hr' (hpd.trans h)
    · refine List.pairwise_cons.2 ⟨fun r hr => ?_, before_joinFrom hv
        (fun p hp r hr => huniform p (List.mem_cons_of_mem _ hp) r
          (List.mem_cons_of_mem _ hr)) hrest⟩
      obtain ⟨s, hs, hday, hfirst⟩ := mem_joinFrom hr
      have hs' : s ∈ last :: q :: qs := List.mem_cons_of_mem _ hs
      have hqs' : startsBy q s := by
        rcases List.mem_cons.1 hs with rfl | hs
        · exact .inr ⟨rfl, le_rfl⟩
        · exact hq s hs
      have hbefore := before_of_startsBy
        (fun d hd => ((hvalid last List.mem_cons_self).day d hd).1)
        (fun d hd => ((hv q List.mem_cons_self).day d hd).1)
        ⟨huniform last List.mem_cons_self s hs', huniform s hs' last List.mem_cons_self⟩
        (hlast q List.mem_cons_self) hqs' hjoin
      unfold Piece.Before at hbefore ⊢
      rwa [hday, hfirst]

/-! ## The pieces of a schedule -/

/-- The pieces of a window are of one sort. -/
theorem uniform_pieces (w : Window) (days : List String) (offset : ℤ) :
    Uniform (pieces w days offset) := by
  have hday : ∀ p ∈ pieces w days offset, ∃ m ∈ maskDays days, p.day = none ↔ m = none := by
    intro p hp
    obtain ⟨l, hl, hp⟩ := List.mem_flatMap.1 hp
    obtain ⟨m, hm, hl⟩ := List.mem_flatMap.1 hl
    refine ⟨m, hm, ?_⟩
    have hlocal : l.1 = none ↔ m = none := by
      unfold localPieces at hl
      split_ifs at hl
      · rw [List.mem_singleton.1 hl]
      · simp only [List.mem_cons, List.not_mem_nil, or_false] at hl
        rcases hl with rfl | rfl <;> simp
    rw [← hlocal]
    simp only [toUtc] at hp
    split_ifs at hp
    · rw [List.mem_singleton.1 hp]
      simp
    · simp only [List.mem_cons, List.not_mem_nil, or_false] at hp
      rcases hp with rfl | rfl <;> simp
  intro p hp q hq hnone
  obtain ⟨m, hm, hpm⟩ := hday p hp
  obtain ⟨m', hm', hqm⟩ := hday q hq
  obtain ⟨-, ⟨hall, -⟩ | ⟨hno, -⟩⟩ := maskDays_spec days
  · rw [hall, List.mem_singleton] at hm'
    exact hqm.2 hm'
  · exact absurd (hpm.1 hnone ▸ hm) hno

/-- A window that is read is one of a day. -/
theorem proper_of_windowOf {hours : Option (List Char)} {w : Window} (h : windowOf hours = .ok w) :
    w.Proper := by
  cases hours with
  | none =>
    obtain rfl := Except.ok.inj h
    exact proper_whole
  | some text => exact (written_of_hoursParse h).toProper

/-- An instant is in one of the pieces where local time is in the written window ; and the pieces
are of seconds of a day, in order, with a gap between any two of one day, and fit the array. -/
theorem expand_instants {hours : Option (List Char)} {w : Window} (h : windowOf hours = .ok w)
    {capacity : ℕ} (hcap : piecesMax ≤ capacity) (days : List String) (offset : ℤ) :
    (∀ t, InPieces (expandInto capacity hours days offset) t ↔ InWindow w days (t + offset)) ∧
      (expandInto capacity hours days offset).Pairwise Piece.Before ∧
      (∀ p ∈ expandInto capacity hours days offset, p.Valid) ∧
      (expandInto capacity hours days offset).length ≤ capacity := by
  have hw := proper_of_windowOf h
  have hlen := length_pieces_le w days offset
  have heq : expandInto capacity hours days offset = expand hours days offset := by
    rw [expand_eq h, expandInto, h]
    exact if_neg (by omega)
  have hvalid := valid_expand h hw days offset
  rw [heq]
  refine ⟨fun t => ?_, ?_, hvalid, ?_⟩
  · have hday : localDay offset (t / 86400 % 7) (t % 86400) = (t + offset) / 86400 % 7 := by
      unfold localDay
      omega
    have hsecond : localSecond offset (t % 86400) = (t + offset) % 86400 := by
      unfold localSecond
      omega
    rw [InPieces, covered_expand h hw days offset (by omega) (by omega), hday, hsecond]
    rfl
  · have hsorted := List.pairwise_mergeSort pieceLe_trans pieceLe_total (pieces w days offset)
    have hmem : ∀ p, p ∈ (pieces w days offset).mergeSort pieceLe ↔ p ∈ pieces w days offset :=
      fun p => List.mem_mergeSort
    have hsortValid : ∀ p ∈ (pieces w days offset).mergeSort pieceLe, p.Valid :=
      fun p hp => valid_pieces hw days offset p ((hmem p).1 hp)
    have huniform : Uniform ((pieces w days offset).mergeSort pieceLe) :=
      fun p hp q hq => uniform_pieces w days offset p ((hmem p).1 hp) q ((hmem q).1 hq)
    rw [expand_eq h]
    cases hs : (pieces w days offset).mergeSort pieceLe with
    | nil => exact List.Pairwise.nil
    | cons p ps =>
      rw [hs] at hsorted hsortValid huniform
      exact before_joinFrom hsortValid huniform (hsorted.imp startsBy_of_pieceLe)
  · have hperm := (List.mergeSort_perm (pieces w days offset) pieceLe).length_eq
    rw [expand_eq h]
    cases hs : (pieces w days offset).mergeSort pieceLe with
    | nil => simp [join]
    | cons p ps =>
      rw [hs, List.length_cons] at hperm
      have := length_joinFrom_le ps p
      simp only [join]
      omega

/-- Saturday nights, in a place west of UTC. -/
theorem saturday_night :
    (∀ t, InPieces (expandInto 28 (some (Window.text ⟨79200, 25200⟩)) ["sat"] (-18000)) t ↔
      InWindow ⟨79200, 25200⟩ ["sat"] (t + -18000)) ∧
    (expandInto 28 (some (Window.text ⟨79200, 25200⟩)) ["sat"] (-18000)).length ≤ 28 := by
  have h := expand_instants (w := ⟨79200, 25200⟩)
    (windowOf_text ⟨⟨by decide, by decide, by decide⟩, by decide, by decide, by decide⟩)
    (by decide : piecesMax ≤ 28) ["sat"] (-18000)
  exact ⟨h.1, h.2.2.2⟩

end Netcfgd.Schedule
