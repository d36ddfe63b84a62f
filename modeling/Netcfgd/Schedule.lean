import Mathlib.Data.Int.Notation
import Mathlib.Data.List.Sort
import Mathlib.Tactic.Common
import Mathlib.Tactic.IntervalCases

/-!
# Schedules

`src/model/schedule.c`. A firewall rule says when it applies in the machine's local time : an
`hours` window, past midnight where it ends before it starts, and `days`. The kernel reads its
clock in UTC, so the window is cut into UTC pieces, each a day or every day and an inclusive
range of seconds (`expand`).

A time is a day, 0 for Sunday, and a second of it. `covers_expand` says that the pieces cover a
UTC time exactly where the window holds at the local one (`Window.Holds`, `localDay`,
`localSecond`).
-/

namespace Netcfgd.Schedule

/-! ## The window, from its text -/

def digitValue (c : Char) : ℕ := c.toNat - '0'.toNat

/-- `clock_read` : `H:MM` or `HH:MM`, up to 24:00, in seconds, and the text after it. -/
def clockRead (text : List Char) : Option (ℕ × List Char) :=
  let digits := (text.take 2).takeWhile Char.isDigit
  let hours := digits.foldl (fun n c => n * 10 + digitValue c) 0
  match text.drop digits.length with
  | ':' :: tens :: ones :: rest =>
    if digits = [] ∨ ¬(tens.isDigit ∧ digitValue tens ≤ 5) ∨ ¬ones.isDigit then none
    else
      let minutes := digitValue tens * 10 + digitValue ones
      if 24 < hours ∨ hours = 24 ∧ minutes ≠ 0 then none
      else some (hours * 3600 + minutes * 60, rest)
  | _ => none

/-- A window of the day, in seconds since local midnight, the end exclusive. -/
structure Window where
  start : ℕ
  stop : ℕ
  deriving DecidableEq, Repr

/-- `ncfg_schedule_hours_parse`. -/
def hoursParse (text : List Char) : Except String Window :=
  let malformed := "is not a window of the day: write it as `22:00-07:00`, from and until, in " ++
    "the machine's local time"
  match clockRead text with
  | some (start, '-' :: rest) =>
    match clockRead rest with
    | some (stop, []) =>
      if start = 86400 then
        .error "starts at 24:00, which is the next day's 00:00: write that"
      else if start = stop % 86400 then
        .error ("starts where it ends, which is a window of nothing or of the whole day: " ++
          "for the whole day, leave `hours` out")
      else .ok ⟨start, if stop = 0 then 86400 else stop⟩
    | _ => .error malformed
  | _ => .error malformed

def twoDigits (n : ℕ) : List Char :=
  [Nat.digitChar (n / 10), Nat.digitChar (n % 10)]

/-- `HH:MM`. -/
def clockText (seconds : ℕ) : List Char :=
  twoDigits (seconds / 3600) ++ ':' :: twoDigits (seconds % 3600 / 60)

def Window.text (w : Window) : List Char :=
  clockText w.start ++ '-' :: clockText w.stop

/-! ## Days -/

/-- `day_words`. -/
def dayWords : List String := ["sun", "mon", "tue", "wed", "thu", "fri", "sat"]

/-- `day_names`. -/
def dayNames : List String :=
  ["sunday", "monday", "tuesday", "wednesday", "thursday", "friday", "saturday"]

/-- `ncfg_schedule_day` : 0 for Sunday. -/
def dayOf (word : String) : Option ℕ :=
  (List.range 7).find? fun day => dayWords[day]? = some word ∨ dayNames[day]? = some word

/-- `ncfg_schedule_day_word`. -/
def dayWord (day : ℕ) : String :=
  dayWords[day]?.getD "any"

/-! ## Pieces -/

/-- `ncfg_schedule_piece_t` : a day in UTC, or every day, and seconds since UTC midnight, both
ends inclusive. -/
structure Piece where
  day : Option ℤ
  first : ℤ
  last : ℤ
  deriving DecidableEq, Repr

/-- `whole_days` : floor division by a day. -/
def wholeDays (seconds : ℤ) : ℤ :=
  if 0 ≤ seconds then seconds.tdiv 86400 else -((-seconds + 86400 - 1).tdiv 86400)

/-- `to_utc` : one local piece, its end exclusive, moved to UTC. -/
def toUtc (day : Option ℤ) (start stop offset : ℤ) : List Piece :=
  let shift := wholeDays (start - offset)
  let start' := start - offset - shift * 86400
  let stop' := stop - offset - shift * 86400
  let day' := day.map fun d => ((d + shift).tmod 7 + 7).tmod 7
  if stop' ≤ 86400 then [⟨day', start', stop' - 1⟩]
  else [⟨day', start', 86400 - 1⟩, ⟨day'.map fun d => (d + 1).tmod 7, 0, stop' - 86400 - 1⟩]

def Piece.dayNumber (p : Piece) : ℤ := p.day.getD (-1)

/-- `piece_order`, as an order. -/
def pieceLe (p q : Piece) : Bool :=
  p.dayNumber < q.dayNumber ∨ p.dayNumber = q.dayNumber ∧
    (p.first < q.first ∨ p.first = q.first ∧ p.last ≤ q.last)

/-- A piece that runs on to the end of another, where that is later. -/
def Piece.through (p q : Piece) : Piece :=
  { p with last := if p.last < q.last then q.last else p.last }

/-- The pieces after `last`, joined to it where one begins by the second after it ends. -/
def joinFrom (last : Piece) : List Piece → List Piece
  | [] => [last]
  | q :: qs =>
    if q.day = last.day ∧ q.first ≤ last.last + 1 then joinFrom (last.through q) qs
    else last :: joinFrom q qs

/-- Pieces that touch, joined. -/
def join : List Piece → List Piece
  | [] => []
  | p :: ps => joinFrom p ps

/-- The days a schedule names, with none for every day : so are all seven. -/
def maskDays (days : List String) : List (Option ℤ) :=
  let mask := (List.range 7).filter fun day => days.any fun word => dayOf word = some day
  if mask = [] ∨ mask.length = 7 then [none] else mask.map fun day : ℕ => some (day : ℤ)

def localPieces (w : Window) (day : Option ℤ) : List (Option ℤ × ℤ × ℤ) :=
  if w.start < w.stop then [(day, w.start, w.stop)]
  else [(day, w.start, 86400), (day.map fun d => (d + 1).tmod 7, 0, w.stop)]

/-- `NCFG_SCHEDULE_PIECES_MAX`. -/
def piecesMax : ℕ := 28

/-- The window of an `hours` that may be absent. -/
def windowOf (hours : Option (List Char)) : Except String Window :=
  hours.elim (.ok ⟨0, 86400⟩) hoursParse

/-- The pieces of a window, in universal time. -/
def pieces (w : Window) (days : List String) (offset : ℤ) : List Piece :=
  ((maskDays days).flatMap (localPieces w)).flatMap fun p => toUtc p.1 p.2.1 p.2.2 offset

/-- `ncfg_schedule_expand` : no pieces where the window does not parse. -/
def expand (hours : Option (List Char)) (days : List String) (offset : ℤ) : List Piece :=
  match windowOf hours with
  | .error _ => []
  | .ok w =>
    if piecesMax < (pieces w days offset).length then []
    else join ((pieces w days offset).mergeSort pieceLe)

/-- A piece the kernel can hold : a day of the week, and seconds of the day in order. -/
structure Piece.Valid (p : Piece) : Prop where
  day : ∀ d ∈ p.day, 0 ≤ d ∧ d < 7
  first : 0 ≤ p.first
  le : p.first ≤ p.last
  last : p.last < 86400

/-- A window of a day. -/
structure Window.Proper (w : Window) : Prop where
  start : w.start < 86400
  stop : 0 < w.stop ∧ w.stop ≤ 86400
  ne : w.start ≠ w.stop

/-- A window that can be written : whole minutes, and not the whole day. -/
structure Window.Written (w : Window) : Prop extends w.Proper where
  startMinute : w.start % 60 = 0
  stopMinute : w.stop % 60 = 0
  notAll : w.start ≠ w.stop % 86400

/-! ## The arithmetic of moving a piece -/

theorem wholeDays_eq (seconds : ℤ) : wholeDays seconds = seconds / 86400 := by
  unfold wholeDays
  split_ifs with h
  · exact Int.tdiv_eq_ediv_of_nonneg h
  · rw [Int.tdiv_eq_ediv_of_nonneg (by omega)]
    omega

theorem tmod_tmod_seven (d : ℤ) : (d.tmod 7 + 7).tmod 7 = d % 7 := by
  have hlo : -7 < d.tmod 7 := by
    have := Int.lt_tmod_of_pos d (show (0 : ℤ) < 7 by decide)
    omega
  have hdiv := Int.tmod_add_mul_tdiv d 7
  rw [Int.tmod_eq_emod_of_nonneg (by omega)]
  omega

theorem tmod_succ_seven {d : ℤ} (h : 0 ≤ d) : (d + 1).tmod 7 = (d + 1) % 7 :=
  Int.tmod_eq_emod_of_nonneg (by omega)

def Piece.Covers (p : Piece) (day second : ℤ) : Prop :=
  (∀ d ∈ p.day, d = day) ∧ p.first ≤ second ∧ second ≤ p.last

/-- A second of the week is in a piece. -/
def Covered (pieces : List Piece) (day second : ℤ) : Prop :=
  ∃ p ∈ pieces, p.Covers day second

/-- The local day of a UTC time, `offset` seconds east. -/
def localDay (offset day second : ℤ) : ℤ := (day * 86400 + second + offset) / 86400 % 7

def localSecond (offset second : ℤ) : ℤ := (second + offset) % 86400

section Moving

variable {start stop offset day second : ℤ}

theorem covered_toUtc_some {d : ℤ} (hstart : 0 ≤ start) (hlt : start < stop) (hstop : stop ≤ 86400)
    (hd : 0 ≤ d ∧ d < 7) (hday : 0 ≤ day ∧ day < 7) (hs : 0 ≤ second ∧ second < 86400) :
    Covered (toUtc (some d) start stop offset) day second ↔
      localDay offset day second = d ∧ start ≤ localSecond offset second ∧
        localSecond offset second < stop := by
  simp only [Covered, toUtc, wholeDays_eq, Option.map_some, tmod_tmod_seven, localDay, localSecond]
  have hnext : 0 ≤ (d + (start - offset) / 86400) % 7 := by omega
  rw [tmod_succ_seven hnext]
  split_ifs with hend
  · simp only [List.mem_singleton, exists_eq_left, Piece.Covers, Option.mem_def, Option.some.injEq,
      forall_eq']
    omega
  · simp only [List.mem_cons, List.not_mem_nil, or_false, exists_eq_or_imp, exists_eq_left,
      Piece.Covers, Option.mem_def, Option.some.injEq, forall_eq']
    omega

theorem covered_toUtc_none (hstart : 0 ≤ start) (hlt : start < stop) (hstop : stop ≤ 86400)
    (hs : 0 ≤ second ∧ second < 86400) :
    Covered (toUtc none start stop offset) day second ↔
      start ≤ localSecond offset second ∧ localSecond offset second < stop := by
  simp only [Covered, toUtc, wholeDays_eq, Option.map_none, localSecond]
  split_ifs with hend
  · simp only [List.mem_singleton, exists_eq_left, Piece.Covers, Option.mem_def, reduceCtorEq,
      false_imp_iff, implies_true, true_and]
    omega
  · simp only [List.mem_cons, List.not_mem_nil, or_false, exists_eq_or_imp, exists_eq_left,
      Piece.Covers, Option.mem_def, reduceCtorEq, false_imp_iff, implies_true, true_and]
    omega

end Moving

/-! ## Sorting and joining -/

theorem pieceLe_trans (p q r : Piece) (hpq : pieceLe p q) (hqr : pieceLe q r) : pieceLe p r := by
  simp only [pieceLe, decide_eq_true_eq] at hpq hqr ⊢
  omega

theorem pieceLe_total (p q : Piece) : (pieceLe p q || pieceLe q p) = true := by
  simp only [pieceLe, Bool.or_eq_true, decide_eq_true_eq]
  omega

theorem first_le_of_pieceLe {p q : Piece} (h : pieceLe p q) (hday : q.day = p.day) :
    p.first ≤ q.first := by
  have : q.dayNumber = p.dayNumber := by rw [Piece.dayNumber, Piece.dayNumber, hday]
  simp only [pieceLe, decide_eq_true_eq] at h
  omega

theorem covered_cons {p : Piece} {ps : List Piece} {day second : ℤ} :
    Covered (p :: ps) day second ↔ p.Covers day second ∨ Covered ps day second := by
  simp [Covered]

theorem covers_through {last q : Piece} {day second : ℤ} (hday : q.day = last.day)
    (hfirst : last.first ≤ q.first) (hnext : q.first ≤ last.last + 1) :
    (last.through q).Covers day second ↔ last.Covers day second ∨ q.Covers day second := by
  simp only [Piece.Covers, Piece.through, hday]
  by_cases hd : ∀ d ∈ last.day, d = day
  · simp only [eq_true hd, true_and]
    split_ifs <;> omega
  · simp only [eq_false hd, false_and, or_self]

theorem covered_joinFrom {day second : ℤ} :
    ∀ (qs : List Piece) (last : Piece), (∀ q ∈ qs, q.day = last.day → last.first ≤ q.first) →
      qs.Pairwise (fun p q => pieceLe p q) →
      (Covered (joinFrom last qs) day second ↔ Covered (last :: qs) day second)
  | [], _, _, _ => Iff.rfl
  | q :: qs, last, hlast, hsorted => by
    obtain ⟨hq, hqs⟩ := List.pairwise_cons.1 hsorted
    by_cases h : q.day = last.day ∧ q.first ≤ last.last + 1
    · have hrest : ∀ r ∈ qs, r.day = (last.through q).day → (last.through q).first ≤ r.first :=
        fun r hr hday => hlast r (List.mem_cons_of_mem _ hr) hday
      rw [joinFrom, if_pos h, covered_joinFrom qs _ hrest hqs, covered_cons, covered_cons,
        covered_cons, covers_through h.1 (hlast q List.mem_cons_self h.1) h.2, or_assoc]
    · rw [joinFrom, if_neg h, covered_cons, covered_cons,
        covered_joinFrom qs q (fun r hr hday => first_le_of_pieceLe (hq r hr) hday) hqs]

theorem covered_join_sort (pieces : List Piece) (day second : ℤ) :
    Covered (join (pieces.mergeSort pieceLe)) day second ↔ Covered pieces day second := by
  have hsorted := List.pairwise_mergeSort pieceLe_trans pieceLe_total pieces
  have hmem : Covered (pieces.mergeSort pieceLe) day second ↔ Covered pieces day second := by
    simp only [Covered, List.mem_mergeSort]
  rw [← hmem]
  cases hs : pieces.mergeSort pieceLe with
  | nil => rfl
  | cons p ps =>
    rw [hs] at hsorted
    obtain ⟨hp, hps⟩ := List.pairwise_cons.1 hsorted
    exact covered_joinFrom ps p (fun q hq hday => first_le_of_pieceLe (hp q hq) hday) hps

/-! ## Well-formed pieces -/

theorem Piece.Valid.through {p q : Piece} (hp : p.Valid) (hq : q.Valid) : (p.through q).Valid := by
  refine ⟨hp.day, hp.first, ?_, ?_⟩
  · have := hp.le
    simp only [Piece.through]
    split_ifs <;> omega
  · have := hp.last
    have := hq.last
    simp only [Piece.through]
    split_ifs <;> omega

theorem valid_joinFrom :
    ∀ (qs : List Piece) (last : Piece), last.Valid → (∀ q ∈ qs, q.Valid) →
      ∀ p ∈ joinFrom last qs, p.Valid
  | [], last, hlast, _, p, hp => by
    obtain rfl := List.mem_singleton.1 hp
    exact hlast
  | q :: qs, last, hlast, hqs, p, hp => by
    have hq := hqs q List.mem_cons_self
    have hqs' : ∀ r ∈ qs, r.Valid := fun r hr => hqs r (List.mem_cons_of_mem _ hr)
    rw [joinFrom] at hp
    split_ifs at hp
    · exact valid_joinFrom qs _ (hlast.through hq) hqs' p hp
    · rcases List.mem_cons.1 hp with rfl | hp
      · exact hlast
      · exact valid_joinFrom qs q hq hqs' p hp

theorem valid_join_sort {pieces : List Piece} (h : ∀ p ∈ pieces, p.Valid) :
    ∀ p ∈ join (pieces.mergeSort pieceLe), p.Valid := by
  have hsort : ∀ p ∈ pieces.mergeSort pieceLe, p.Valid := fun p hp => h p (List.mem_mergeSort.1 hp)
  cases hs : pieces.mergeSort pieceLe with
  | nil => simp [join]
  | cons p ps =>
    rw [hs] at hsort
    exact valid_joinFrom ps p (hsort p List.mem_cons_self) fun q hq =>
      hsort q (List.mem_cons_of_mem _ hq)

theorem valid_toUtc {day : Option ℤ} {start stop offset : ℤ} (hlt : start < stop)
    (hlen : stop - start ≤ 86400) :
    ∀ p ∈ toUtc day start stop offset, p.Valid := by
  intro p hp
  simp only [toUtc, wholeDays_eq, tmod_tmod_seven] at hp
  have hmoved : ∀ d ∈ day.map fun d => (d + (start - offset) / 86400) % 7, 0 ≤ d ∧ d < 7 := by
    intro d hd
    obtain ⟨d', -, rfl⟩ := Option.mem_map.1 hd
    omega
  split_ifs at hp with hend
  · obtain rfl := List.mem_singleton.1 hp
    refine ⟨hmoved, ?_, ?_, ?_⟩ <;> dsimp only <;> omega
  · simp only [List.mem_cons, List.not_mem_nil, or_false] at hp
    rcases hp with rfl | rfl
    · refine ⟨hmoved, ?_, ?_, ?_⟩ <;> dsimp only <;> omega
    · refine ⟨fun d hd => ?_, ?_, ?_, ?_⟩
      · obtain ⟨d', hd', rfl⟩ := Option.mem_map.1 hd
        rw [tmod_succ_seven (hmoved d' hd').1]
        omega
      all_goals
        dsimp only
        omega

/-! ## What the pieces of a schedule cover -/

/-- A window holds at a local time, on the days of which `days` is true : past midnight where it
ends before it starts. -/
def Window.Holds (w : Window) (days : ℤ → Prop) (day second : ℤ) : Prop :=
  if w.start < w.stop then days day ∧ (w.start : ℤ) ≤ second ∧ second < w.stop
  else days day ∧ (w.start : ℤ) ≤ second ∨ days ((day - 1) % 7) ∧ second < w.stop

/-- A day the words name, or any. -/
def DayIn (days : List String) (day : ℤ) : Prop :=
  (∀ word ∈ days, dayOf word = none) ∨ ∃ word ∈ days, ∃ d : ℕ, dayOf word = some d ∧ (d : ℤ) = day

theorem dayOf_lt {word : String} {d : ℕ} (h : dayOf word = some d) : d < 7 :=
  List.mem_range.1 (List.mem_of_find?_eq_some h)

theorem mem_mask {days : List String} {d : ℕ} :
    d ∈ ((List.range 7).filter fun day => days.any fun word => dayOf word = some day) ↔
      ∃ word ∈ days, dayOf word = some d := by
  simp only [List.mem_filter, List.mem_range, List.any_eq_true, decide_eq_true_eq]
  exact ⟨fun h => h.2, fun ⟨word, hw, hd⟩ => ⟨dayOf_lt hd, word, hw, hd⟩⟩

theorem maskDays_spec (days : List String) :
    (∀ m ∈ maskDays days, ∀ d ∈ m, 0 ≤ d ∧ d < 7) ∧
      ((maskDays days = [none] ∧ ∀ day, 0 ≤ day → day < 7 → DayIn days day) ∨
        none ∉ maskDays days ∧ ∀ day, some day ∈ maskDays days ↔ DayIn days day) := by
  set mask := (List.range 7).filter fun day => days.any fun word => dayOf word = some day with hmask
  have hm : maskDays days = if mask = [] ∨ mask.length = 7 then [none]
      else mask.map fun day : ℕ => some (day : ℤ) := rfl
  by_cases hevery : mask = [] ∨ mask.length = 7
  · rw [hm, if_pos hevery]
    refine ⟨by simp, .inl ⟨rfl, fun day h0 h7 => ?_⟩⟩
    rcases hevery with hnil | hall
    · refine .inl fun word hw => ?_
      by_contra hne
      obtain ⟨d, hd⟩ := Option.ne_none_iff_exists'.1 hne
      have : d ∈ mask := mem_mask.2 ⟨word, hw, hd⟩
      simp [hnil] at this
    · have hfull : mask = List.range 7 :=
        List.filter_eq_self.2 (List.length_filter_eq_length_iff.1 (by simpa [hmask] using hall))
      have hmem : day.toNat ∈ mask := by
        rw [hfull, List.mem_range]
        omega
      obtain ⟨word, hw, hd⟩ := mem_mask.1 hmem
      exact .inr ⟨word, hw, _, hd, by omega⟩
  · rw [hm, if_neg hevery]
    push Not at hevery
    refine ⟨fun m hmem d hd => ?_, .inr ⟨by simp, fun day => ?_⟩⟩
    · obtain ⟨k, hk, rfl⟩ := List.mem_map.1 hmem
      obtain rfl := Option.some_inj.1 hd
      obtain ⟨word, -, hw⟩ := mem_mask.1 hk
      have := dayOf_lt hw
      omega
    · simp only [List.mem_map, Option.some.injEq]
      constructor
      · rintro ⟨k, hk, rfl⟩
        obtain ⟨word, hw, hd⟩ := mem_mask.1 hk
        exact .inr ⟨word, hw, k, hd, rfl⟩
      · rintro (hnone | ⟨word, hw, d, hd, rfl⟩)
        · exfalso
          refine hevery.1 (List.eq_nil_iff_forall_not_mem.2 fun d hd => ?_)
          obtain ⟨word, hw, hd⟩ := mem_mask.1 hd
          rw [hnone word hw] at hd
          cases hd
        · exact ⟨d, mem_mask.2 ⟨word, hw, hd⟩, rfl⟩

section Expanding

variable {w : Window} {offset day second : ℤ}

theorem covered_flatMap {α : Type*} {l : List α} {f : α → List Piece} :
    Covered (l.flatMap f) day second ↔ ∃ a ∈ l, Covered (f a) day second := by
  simp only [Covered, List.mem_flatMap]
  exact ⟨fun ⟨p, ⟨a, ha, hp⟩, hc⟩ => ⟨a, ha, p, hp, hc⟩,
    fun ⟨a, ha, p, hp, hc⟩ => ⟨p, ⟨a, ha, hp⟩, hc⟩⟩

theorem covered_localPieces_some (hw : w.Proper) {d : ℤ} (hd : 0 ≤ d ∧ d < 7)
    (hday : 0 ≤ day ∧ day < 7) (hs : 0 ≤ second ∧ second < 86400) :
    Covered ((localPieces w (some d)).flatMap fun p => toUtc p.1 p.2.1 p.2.2 offset) day second ↔
      w.Holds (fun x => x = d) (localDay offset day second) (localSecond offset second) := by
  have hw1 := hw.start
  have hw2 := hw.stop
  have hw3 := hw.ne
  have hsec : 0 ≤ localSecond offset second ∧ localSecond offset second < 86400 := by
    unfold localSecond
    omega
  have hlocal : 0 ≤ localDay offset day second ∧ localDay offset day second < 7 := by
    unfold localDay
    omega
  rw [covered_flatMap, localPieces, Window.Holds]
  split_ifs with hlt
  · simp only [List.mem_singleton, exists_eq_left]
    exact covered_toUtc_some (by omega) (by omega) (by omega) hd hday hs
  · simp only [List.mem_cons, List.not_mem_nil, or_false, exists_eq_or_imp, exists_eq_left,
      Option.map_some, tmod_succ_seven hd.1]
    rw [covered_toUtc_some (by omega) (by omega) (by omega) hd hday hs,
      covered_toUtc_some (by omega) (by omega) (by omega) (by omega) hday hs]
    omega

theorem covered_localPieces_none (hw : w.Proper) (hs : 0 ≤ second ∧ second < 86400) :
    Covered ((localPieces w none).flatMap fun p => toUtc p.1 p.2.1 p.2.2 offset) day second ↔
      w.Holds (fun _ => True) (localDay offset day second) (localSecond offset second) := by
  have hw1 := hw.start
  have hw2 := hw.stop
  have hw3 := hw.ne
  have hsec : 0 ≤ localSecond offset second ∧ localSecond offset second < 86400 := by
    unfold localSecond
    omega
  rw [covered_flatMap, localPieces, Window.Holds]
  split_ifs with hlt
  · simp only [List.mem_singleton, exists_eq_left, true_and]
    exact covered_toUtc_none (by omega) (by omega) (by omega) hs
  · simp only [List.mem_cons, List.not_mem_nil, or_false, exists_eq_or_imp, exists_eq_left,
      Option.map_none, true_and]
    rw [covered_toUtc_none (by omega) (by omega) (by omega) hs,
      covered_toUtc_none (by omega) (by omega) (by omega) hs]
    omega

theorem Window.holds_iff_exists {days : ℤ → Prop} :
    w.Holds days day second ↔ ∃ d, days d ∧ w.Holds (fun x => x = d) day second := by
  unfold Window.Holds
  split_ifs
  · exact ⟨fun ⟨h, hs⟩ => ⟨day, h, rfl, hs⟩, fun ⟨d, h, hd, hs⟩ => ⟨hd ▸ h, hs⟩⟩
  · constructor
    · rintro (⟨h, hs⟩ | ⟨h, hs⟩)
      · exact ⟨_, h, .inl ⟨rfl, hs⟩⟩
      · exact ⟨_, h, .inr ⟨rfl, hs⟩⟩
    · rintro ⟨d, h, ⟨rfl, hs⟩ | ⟨rfl, hs⟩⟩
      · exact .inl ⟨h, hs⟩
      · exact .inr ⟨h, hs⟩

theorem Window.holds_congr {days days' : ℤ → Prop} (hday : 0 ≤ day ∧ day < 7)
    (h : ∀ d, 0 ≤ d → d < 7 → (days d ↔ days' d)) :
    w.Holds days day second ↔ w.Holds days' day second := by
  unfold Window.Holds
  rw [h day hday.1 hday.2, h ((day - 1) % 7) (by omega) (by omega)]

theorem covered_pieces (hw : w.Proper) (days : List String) (hday : 0 ≤ day ∧ day < 7)
    (hs : 0 ≤ second ∧ second < 86400) :
    Covered (pieces w days offset) day second ↔
      w.Holds (DayIn days) (localDay offset day second) (localSecond offset second) := by
  have hlocal : 0 ≤ localDay offset day second ∧ localDay offset day second < 7 := by
    unfold localDay
    omega
  have hassoc : pieces w days offset = (maskDays days).flatMap fun m =>
      (localPieces w m).flatMap fun p => toUtc p.1 p.2.1 p.2.2 offset := List.flatMap_assoc
  obtain ⟨hrange, ⟨hm, hall⟩ | ⟨hnone, hin⟩⟩ := maskDays_spec days
  · rw [hassoc, hm, List.flatMap_singleton, covered_localPieces_none hw hs]
    exact Window.holds_congr hlocal fun d h0 h7 => iff_of_true trivial (hall d h0 h7)
  · rw [hassoc, covered_flatMap, Window.holds_iff_exists]
    constructor
    · rintro ⟨m, hm, hc⟩
      cases m with
      | none => exact absurd hm hnone
      | some d =>
        rw [covered_localPieces_some hw (hrange _ hm d rfl) hday hs] at hc
        exact ⟨d, (hin d).1 hm, hc⟩
    · rintro ⟨d, hd, hc⟩
      have hm := (hin d).2 hd
      refine ⟨some d, hm, ?_⟩
      rwa [covered_localPieces_some hw (hrange _ hm d rfl) hday hs]

/-- A window has room for its pieces. -/
theorem length_pieces_le (w : Window) (days : List String) (offset : ℤ) :
    (pieces w days offset).length ≤ piecesMax := by
  have hutc : ∀ p : Option ℤ × ℤ × ℤ, (toUtc p.1 p.2.1 p.2.2 offset).length ≤ 2 := by
    intro p
    simp only [toUtc]
    split_ifs <;> simp
  have hlocal : ∀ m : Option ℤ, (localPieces w m).length ≤ 2 := by
    intro m
    unfold localPieces
    split_ifs <;> simp
  have hmask : (maskDays days).length ≤ 7 := by
    simp only [maskDays]
    split_ifs
    · simp
    · rw [List.length_map]
      exact (List.length_filter_le _ _).trans (by simp)
  have hbound : ∀ {α : Type} {β : Type} {f : α → List β} (l : List α), (∀ a, (f a).length ≤ 2) →
      (l.flatMap f).length ≤ 2 * l.length := by
    intro α β f l hf
    induction l with
    | nil => simp
    | cons a l ih =>
      rw [List.flatMap_cons, List.length_append, List.length_cons]
      have := hf a
      omega
  have h1 := hbound ((maskDays days).flatMap (localPieces w)) hutc
  have h2 := hbound (maskDays days) hlocal
  unfold pieces piecesMax
  omega

end Expanding

/-- Expanding is sorting the pieces and joining them. -/
theorem expand_eq {hours : Option (List Char)} {w : Window} (h : windowOf hours = .ok w)
    (days : List String) (offset : ℤ) :
    expand hours days offset = join ((pieces w days offset).mergeSort pieceLe) := by
  rw [expand, h]
  exact if_neg (Nat.not_lt.2 (length_pieces_le w days offset))

/-- What is expanded covers the seconds the window holds. -/
theorem covered_expand {hours : Option (List Char)} {w : Window} (h : windowOf hours = .ok w)
    (hw : w.Proper) (days : List String) (offset : ℤ) {day second : ℤ} (hday : 0 ≤ day ∧ day < 7)
    (hs : 0 ≤ second ∧ second < 86400) :
    Covered (expand hours days offset) day second ↔
      w.Holds (DayIn days) (localDay offset day second) (localSecond offset second) := by
  rw [expand_eq h, covered_join_sort, covered_pieces hw days hday hs]

/-- Every piece is valid. -/
theorem valid_pieces {w : Window} (hw : w.Proper) (days : List String) (offset : ℤ) :
    ∀ p ∈ pieces w days offset, p.Valid := by
  have hw1 := hw.start
  have hw2 := hw.stop
  have hw3 := hw.ne
  intro p hp
  obtain ⟨l, hl, hp⟩ := List.mem_flatMap.1 hp
  obtain ⟨m, -, hl⟩ := List.mem_flatMap.1 hl
  unfold localPieces at hl
  split_ifs at hl with hlt
  · obtain rfl := List.mem_singleton.1 hl
    exact valid_toUtc (by dsimp only; omega) (by dsimp only; omega) p hp
  · simp only [List.mem_cons, List.not_mem_nil, or_false] at hl
    rcases hl with rfl | rfl
    · exact valid_toUtc (by dsimp only; omega) (by dsimp only; omega) p hp
    · exact valid_toUtc (by dsimp only; omega) (by dsimp only; omega) p hp

/-- Every expanded piece is valid. -/
theorem valid_expand {hours : Option (List Char)} {w : Window} (h : windowOf hours = .ok w)
    (hw : w.Proper) (days : List String) (offset : ℤ) :
    ∀ p ∈ expand hours days offset, p.Valid := by
  rw [expand_eq h]
  exact valid_join_sort (valid_pieces hw days offset)

/-! ## Reading a window, and its normal spelling -/

theorem isDigit_digitChar {n : ℕ} (h : n < 10) : (Nat.digitChar n).isDigit = true := by
  interval_cases n <;> rfl

theorem digitValue_digitChar {n : ℕ} (h : n < 10) : digitValue (Nat.digitChar n) = n := by
  interval_cases n <;> rfl

theorem clockRead_le {text rest : List Char} {seconds : ℕ}
    (h : clockRead text = some (seconds, rest)) : seconds ≤ 86400 ∧ seconds % 60 = 0 := by
  simp only [clockRead] at h
  split at h
  case h_1 tens ones rest' hdrop =>
    split_ifs at h with hbad hlate
    simp only [Option.some.injEq, Prod.mk.injEq] at h
    push Not at hbad hlate
    have htens := hbad.2.1.2
    have hones : digitValue ones ≤ 9 := by
      have := Char.isDigit_iff_toNat.1 hbad.2.2
      unfold digitValue
      simp only [Char.reduceToNat] at this ⊢
      omega
    omega
  case h_2 => cases h

theorem clockRead_clockText {seconds : ℕ} (h : seconds ≤ 86400) (h60 : seconds % 60 = 0)
    (rest : List Char) : clockRead (clockText seconds ++ rest) = some (seconds, rest) := by
  have h1 : seconds / 3600 / 10 < 10 := by omega
  have h2 : seconds / 3600 % 10 < 10 := by omega
  have h3 : seconds % 3600 / 60 / 10 < 10 := by omega
  have h4 : seconds % 3600 / 60 % 10 < 10 := by omega
  simp only [clockText, twoDigits, clockRead, List.cons_append, List.nil_append,
    List.take_succ_cons,
    List.take_zero, List.takeWhile_cons, isDigit_digitChar h1, isDigit_digitChar h2, if_true,
    List.takeWhile_nil, List.length_cons, List.length_nil, List.drop_succ_cons, List.drop_zero,
    List.foldl_cons, List.foldl_nil, digitValue_digitChar h1, digitValue_digitChar h2,
    digitValue_digitChar h3, digitValue_digitChar h4, isDigit_digitChar h3, isDigit_digitChar h4]
  rw [if_neg (by simp; omega), if_neg (by omega)]
  simp only [Option.some.injEq, Prod.mk.injEq, and_true]
  omega

theorem written_of_hoursParse {text : List Char} {w : Window} (h : hoursParse text = .ok w) :
    w.Written := by
  simp only [hoursParse] at h
  split at h
  case h_2 => cases h
  case h_1 start rest hstart =>
    split at h
    case h_2 => cases h
    case h_1 stop hstop =>
      have h1 := clockRead_le hstart
      have h2 := clockRead_le hstop
      split_ifs at h with hlate hsame hzero
      all_goals
        cases h
        refine ⟨⟨?_, ?_, ?_⟩, h1.2, ?_, ?_⟩ <;> dsimp only <;> omega

theorem hoursParse_text {w : Window} (hw : w.Written) : hoursParse w.text = .ok w := by
  have hstart := hw.start
  have hstop := hw.stop
  have hlast := clockRead_clockText (by omega : w.stop ≤ 86400) hw.stopMinute []
  rw [List.append_nil] at hlast
  simp only [hoursParse, Window.text,
    clockRead_clockText (by omega : w.start ≤ 86400) hw.startMinute, hlast]
  rw [if_neg (by omega), if_neg hw.notAll, if_neg (by omega)]

theorem windowOf_text {w : Window} (hw : w.Written) : windowOf (some w.text) = .ok w :=
  hoursParse_text hw

theorem proper_whole : Window.Proper ⟨0, 86400⟩ := by
  constructor <;> decide

theorem dayOf_dayWord {day : ℕ} (h : day < 7) : dayOf (dayWord day) = some day := by
  interval_cases day <;> rfl

end Netcfgd.Schedule
