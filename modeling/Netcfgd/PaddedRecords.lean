import Mathlib.Data.List.Basic
import Mathlib.Tactic.Common

/-!
# Records that state their length

Records one after the other, each with a header that says how long it is and each padded to a
multiple of some unit. The padding of the last may be missing, in whole or in part.

A reader that refuses every length below a header's comes to an end (`Reader.outcome_walk`). It ends
where the whole is such records (`Reader.ended_iff`), and otherwise refuses what comes after the
longest part that is (`Reader.longest`) ; what it hands out is inside of what it was given, and no
two of them overlap (`Reader.inside`, `Reader.apart`).
-/

namespace Netcfgd.Records

def padded (unit n : ℕ) : ℕ := (n + (unit - 1)) / unit * unit

inductive Next (α ρ : Type*)
  | ended
  | bad
  | ok (record : ρ) (rest : List α)

/-- A reader of records : what it finds next is what the header states. -/
structure Reader (α ρ : Type*) where
  unit : ℕ
  header : ℕ
  size : List α → ℕ
  next : List α → Next α ρ
  value : ρ → List α
  unit_pos : 0 < unit
  unit_le : unit ≤ header
  size_append : ∀ {front : List α} (back : List α), front.length = header →
    size (front ++ back) = size front
  next_nil : next [] = .ended
  next_bad : ∀ {text : List α}, text ≠ [] →
    text.length < header ∨ size text < header ∨ text.length < size text → next text = .bad
  next_ok : ∀ {text : List α}, header ≤ text.length → header ≤ size text →
    size text ≤ text.length → ∃ record,
      next text = .ok record (text.drop (padded unit (size text))) ∧
        value record = (text.take (size text)).drop header

inductive Outcome
  | ended
  | bad
  deriving DecidableEq

/-- What a walk handed out and from where, how it ended if it did, and what is left. -/
structure Walked (α ρ : Type*) where
  found : List (ℕ × ρ)
  outcome : Option Outcome
  rest : List α

theorem le_padded {unit : ℕ} (h : 0 < unit) (n : ℕ) : n ≤ padded unit n := by
  have := Nat.div_add_mod (n + (unit - 1)) unit
  have := Nat.mod_lt (n + (unit - 1)) h
  rw [padded, Nat.mul_comm]
  omega

namespace Reader

variable {α ρ : Type*} (d : Reader α ρ)

def walk : ℕ → ℕ → List α → Walked α ρ
  | 0, _, text => ⟨[], none, text⟩
  | calls + 1, place, text =>
    match d.next text with
    | .ended => ⟨[], some .ended, text⟩
    | .bad => ⟨[], some .bad, text⟩
    | .ok record rest =>
      let later := walk calls (place + (text.length - rest.length)) rest
      { later with found := (place, record) :: later.found }

def IsRecord (text : List α) : Prop := d.header ≤ text.length ∧ d.size text = text.length

/-- Records with these values one after the other, the last of which may lack padding. -/
inductive Padded : List α → List (List α) → Prop
  | nil : Padded [] []
  | last {record pad : List α} : d.IsRecord record →
      pad.length ≤ padded d.unit record.length - record.length →
        Padded (record ++ pad) [record.drop d.header]
  | cons {record pad rest : List α} {values : List (List α)} : d.IsRecord record →
      pad.length = padded d.unit record.length - record.length → Padded rest values →
        Padded (record ++ pad ++ rest) (record.drop d.header :: values)

variable {d} {text rest front back : List α} {place calls : ℕ} {record : ρ}

theorem size_of_front (h : d.header ≤ front.length) (back : List α) :
    d.size (front ++ back) = d.size front := by
  have htake : (front.take d.header).length = d.header := List.length_take_of_le h
  rw [← List.take_append_drop d.header front, List.append_assoc, d.size_append _ htake,
    d.size_append _ htake]

theorem next_eq_ok (h : d.next text = .ok record rest) : ∃ n, d.header ≤ n ∧ n ≤ text.length ∧
    d.IsRecord (text.take n) ∧ rest = text.drop (padded d.unit n) ∧
      d.value record = (text.take n).drop d.header := by
  by_cases hnil : text = []
  · rw [hnil, d.next_nil] at h
    cases h
  by_cases hno : text.length < d.header ∨ d.size text < d.header ∨ text.length < d.size text
  · rw [d.next_bad hnil hno] at h
    cases h
  have hheader : d.header ≤ text.length := Nat.not_lt.1 fun hlt => hno (.inl hlt)
  have hsize : d.header ≤ d.size text := Nat.not_lt.1 fun hlt => hno (.inr (.inl hlt))
  have hlong : d.size text ≤ text.length := Nat.not_lt.1 fun hlt => hno (.inr (.inr hlt))
  obtain ⟨record', hnext, hvalue⟩ := d.next_ok hheader hsize hlong
  rw [h] at hnext
  injection hnext with hrecord hrest
  subst hrecord
  have hlength : (text.take (d.size text)).length = d.size text := List.length_take_of_le hlong
  refine ⟨d.size text, hsize, hlong, ⟨by rw [hlength]; exact hsize, ?_⟩, hrest, hvalue⟩
  have hpre : d.size (text.take (d.size text) ++ text.drop (d.size text)) =
      d.size (text.take (d.size text)) := size_of_front (by rw [hlength]; exact hsize) _
  rw [List.take_append_drop] at hpre
  rw [hlength, ← hpre]

theorem nil_of_ended (h : d.next text = .ended) : text = [] := by
  by_contra hnil
  by_cases hno : text.length < d.header ∨ d.size text < d.header ∨ text.length < d.size text
  · rw [d.next_bad hnil hno] at h
    cases h
  · obtain ⟨record, hnext, -⟩ := d.next_ok (Nat.not_lt.1 fun hlt => hno (.inl hlt))
      (Nat.not_lt.1 fun hlt => hno (.inr (.inl hlt)))
      (Nat.not_lt.1 fun hlt => hno (.inr (.inr hlt)))
    rw [hnext] at h
    cases h

theorem next_of_record (h : d.IsRecord front) (back : List α) : ∃ record,
    d.next (front ++ back) = .ok record ((front ++ back).drop (padded d.unit front.length)) := by
  have hsize : d.size (front ++ back) = front.length := (size_of_front h.1 back).trans h.2
  have hlong : front.length ≤ (front ++ back).length := by simp
  obtain ⟨record, hnext, -⟩ := d.next_ok (Nat.le_trans h.1 hlong) (hsize ▸ h.1) (hsize ▸ hlong)
  exact ⟨record, hsize ▸ hnext⟩

theorem length_of_next (h : d.next text = .ok record rest) :
    d.unit + rest.length ≤ text.length ∧ ∃ n, d.header ≤ n ∧ n + rest.length ≤ text.length := by
  obtain ⟨n, hheader, hlong, -, rfl, -⟩ := next_eq_ok h
  have := le_padded d.unit_pos n
  have := d.unit_le
  rw [List.length_drop]
  exact ⟨by omega, n, hheader, by omega⟩

theorem walk_ok (h : d.next text = .ok record rest) : d.walk (calls + 1) place text =
    let later := d.walk calls (place + (text.length - rest.length)) rest
    { later with found := (place, record) :: later.found } := by
  rw [walk, h]

theorem values_nil {values : List (List α)} (h : d.Padded [] values) : values = [] := by
  generalize hnil : ([] : List α) = front at h
  have hheader : 0 < d.header := Nat.lt_of_lt_of_le d.unit_pos d.unit_le
  cases h with
  | nil => rfl
  | last hrecord _ =>
    have := hrecord.1
    rw [(List.append_eq_nil_iff.1 hnil.symm).1, List.length_nil] at this
    omega
  | cons hrecord _ _ =>
    have := hrecord.1
    rw [(List.append_eq_nil_iff.1 (List.append_eq_nil_iff.1 hnil.symm).1).1,
      List.length_nil] at this
    omega

theorem outcome_walk : ∀ {calls place : ℕ} {text : List α}, text.length < calls * d.unit →
    (d.walk calls place text).outcome ≠ none
  | 0, _, text, h => by omega
  | calls + 1, place, text, h => by
    rcases hnext : d.next text with _ | _ | ⟨record, rest⟩
    · simp [walk, hnext]
    · simp [walk, hnext]
    · have hlength := (length_of_next hnext).1
      rw [Nat.add_mul, Nat.one_mul] at h
      rw [walk_ok hnext]
      exact outcome_walk (by omega)

/-- What was walked over is the records found. What is left is nothing where the walk ended, and
starts with no record where it was refused. -/
theorem parts_walk : ∀ {calls place : ℕ} {text : List α}, ∃ front,
    text = front ++ (d.walk calls place text).rest ∧
      d.Padded front ((d.walk calls place text).found.map fun found => d.value found.2) ∧
      ((d.walk calls place text).outcome = some .ended → (d.walk calls place text).rest = []) ∧
      ((d.walk calls place text).outcome = some .bad →
        d.next (d.walk calls place text).rest = .bad)
  | 0, _, text => ⟨[], rfl, .nil, nofun, nofun⟩
  | calls + 1, place, text => by
    rcases hnext : d.next text with _ | _ | ⟨record, rest⟩
    · obtain rfl := nil_of_ended hnext
      exact ⟨[], by simp [walk, hnext], by simpa [walk, hnext] using Padded.nil,
        fun _ => by simp [walk, hnext], by simp [walk, hnext]⟩
    · exact ⟨[], by simp [walk, hnext], by simpa [walk, hnext] using Padded.nil,
        by simp [walk, hnext], fun _ => by simp [walk, hnext]⟩
    · rw [walk_ok hnext]
      obtain ⟨front, htext, hfront, hended, hbad⟩ :=
        @parts_walk calls (place + (text.length - rest.length)) rest
      obtain ⟨n, -, hlong, hrecord, hrest, hvalue⟩ := next_eq_ok hnext
      have hn : (text.take n).length = n := List.length_take_of_le hlong
      refine ⟨text.take n ++ (text.drop n).take (padded d.unit n - n) ++ front, ?_, ?_, hended,
        hbad⟩
      · have hskip : text.drop n = (text.drop n).take (padded d.unit n - n) ++ rest := by
          have hpad := le_padded d.unit_pos n
          have hsplit := (List.take_append_drop (padded d.unit n - n) (text.drop n)).symm
          rwa [List.drop_drop, Nat.add_sub_cancel' hpad, ← hrest] at hsplit
        dsimp only
        rw [List.append_assoc, List.append_assoc, ← htext, ← hskip, List.take_append_drop]
      · rw [List.map_cons, hvalue]
        by_cases hfull : padded d.unit n ≤ text.length
        · exact .cons hrecord (by rw [hn, List.length_take_of_le (by rw [List.length_drop]; omega)])
            hfront
        · have hnone : rest = [] := by rw [hrest, List.drop_eq_nil_of_le (by omega)]
          rw [hnone] at htext
          obtain rfl : front = [] := (List.append_eq_nil_iff.1 htext.symm).1
          rw [List.append_nil, values_nil hfront]
          refine .last hrecord ?_
          rw [hn, List.length_take]
          exact Nat.min_le_left _ _

theorem rest_walk_le (calls place : ℕ) (text : List α) :
    (d.walk calls place text).rest.length ≤ text.length := by
  obtain ⟨front, htext, -⟩ := @parts_walk _ _ d calls place text
  have := congrArg List.length htext
  rw [List.length_append] at this
  omega

theorem walk_length_le (h : d.next text = .ok record rest) :
    (d.walk (calls + 1) place text).rest.length ≤ rest.length := by
  rw [walk_ok h]
  exact rest_walk_le _ _ _

theorem longest {values : List (List α)} : ∀ {front : List α}, d.Padded front values →
    ∀ {calls place : ℕ} {text : List α}, front <+: text → (d.walk calls place text).outcome ≠ none →
      front.length + (d.walk calls place text).rest.length ≤ text.length := by
  intro front hfront
  induction hfront with
  | nil =>
    intro calls place text _ _
    rw [List.length_nil, Nat.zero_add]
    exact rest_walk_le calls place text
  | @last record pad hrecord hpad =>
    rintro calls place text ⟨more, rfl⟩ hends
    cases calls with
    | zero => exact absurd rfl hends
    | succ calls =>
      obtain ⟨found, hnext⟩ := next_of_record hrecord (pad ++ more)
      rw [← List.append_assoc] at hnext
      have hrest : (d.walk (calls + 1) place _).rest.length ≤ _ := walk_length_le hnext
      have := le_padded d.unit_pos record.length
      simp only [List.length_append, List.length_drop] at hrest ⊢
      omega
  | @cons record pad rest values hrecord hpad _ ih =>
    rintro calls place text ⟨more, rfl⟩ hends
    cases calls with
    | zero => exact absurd rfl hends
    | succ calls =>
      obtain ⟨found, hnext⟩ := next_of_record hrecord (pad ++ (rest ++ more))
      have hskip : (record ++ (pad ++ (rest ++ more))).drop (padded d.unit record.length) =
          rest ++ more := by
        have := le_padded d.unit_pos record.length
        rw [← List.append_assoc, List.drop_left' (by rw [List.length_append]; omega)]
      have htext : record ++ pad ++ rest ++ more = record ++ (pad ++ (rest ++ more)) := by simp
      rw [htext, walk_ok hnext, hskip] at hends ⊢
      have hlater := ih (List.prefix_append rest more) hends
      simp only [List.length_append] at hlater ⊢
      omega

theorem ended_iff (h : (d.walk calls place text).outcome ≠ none) :
    (d.walk calls place text).outcome = some .ended ↔ ∃ values, d.Padded text values := by
  obtain ⟨front, htext, hfront, hended, hbad⟩ := @parts_walk _ _ d calls place text
  constructor
  · intro hend
    rw [hended hend, List.append_nil] at htext
    exact ⟨_, by simpa only [← htext] using hfront⟩
  · rintro ⟨values, hpadded⟩
    have hrest : (d.walk calls place text).rest = [] := by
      have := longest hpadded (List.prefix_refl text) h
      exact List.eq_nil_of_length_eq_zero (by omega)
    rcases hout : (d.walk calls place text).outcome with _ | _ | _
    · exact absurd hout h
    · rfl
    · have hnext := hbad hout
      rw [hrest, d.next_nil] at hnext
      cases hnext

def stop (d : Reader α ρ) (found : ℕ × ρ) : ℕ := found.1 + d.header + (d.value found.2).length

theorem stop_le (h : d.next text = .ok record rest) : d.stop (place, record) ≤
    place + (text.length - rest.length) ∧
      d.value record = (text.drop d.header).take (d.value record).length := by
  obtain ⟨n, hheader, hlong, -, rfl, hvalue⟩ := next_eq_ok h
  have hlength : (d.value record).length = n - d.header := by
    rw [hvalue, List.length_drop, List.length_take_of_le hlong]
  have := le_padded d.unit_pos n
  rw [List.length_drop, stop, hlength]
  exact ⟨by omega, by rw [hvalue, List.drop_take]⟩

theorem inside : ∀ {calls place : ℕ} {text : List α}, ∀ found ∈ (d.walk calls place text).found,
    place ≤ found.1 ∧ d.stop found ≤ place + text.length ∧ d.value found.2 =
      (text.drop (found.1 - place + d.header)).take (d.value found.2).length
  | 0, _, _ => by simp [walk]
  | calls + 1, place, text => by
    intro found hfound
    rcases hnext : d.next text with _ | _ | ⟨record, rest⟩
    · simp [walk, hnext] at hfound
    · simp [walk, hnext] at hfound
    · obtain ⟨hstop, hvalue⟩ : d.stop (place, record) ≤ _ ∧ _ := stop_le hnext
      obtain ⟨-, n, -, hlong⟩ := length_of_next hnext
      rw [walk_ok hnext] at hfound
      rcases List.mem_cons.1 hfound with rfl | hfound
      · exact ⟨Nat.le_refl _, by omega, by simpa using hvalue⟩
      · obtain ⟨hplace, hend, hlater⟩ := inside found hfound
        refine ⟨by omega, by omega, ?_⟩
        have hrest : rest = text.drop (text.length - rest.length) := by
          obtain ⟨m, -, -, -, hrest, -⟩ := next_eq_ok hnext
          rw [hrest, List.length_drop]
          by_cases hm : padded d.unit m ≤ text.length
          · rw [Nat.sub_sub_self hm]
          · rw [List.drop_eq_nil_of_le (by omega), List.drop_eq_nil_of_le (by omega)]
        have hindex : found.1 - place + d.header = text.length - rest.length +
            (found.1 - (place + (text.length - rest.length)) + d.header) := by omega
        rw [hindex, ← List.drop_drop, ← hrest]
        exact hlater

theorem apart : ∀ {calls place : ℕ} {text : List α},
    (d.walk calls place text).found.Pairwise fun earlier later => d.stop earlier ≤ later.1
  | 0, _, _ => by simp [walk]
  | calls + 1, place, text => by
    rcases hnext : d.next text with _ | _ | ⟨record, rest⟩
    · simp [walk, hnext]
    · simp [walk, hnext]
    · rw [walk_ok hnext]
      refine List.pairwise_cons.2 ⟨fun later hlater => ?_, apart⟩
      exact Nat.le_trans (stop_le hnext).1 (inside later hlater).1

/-- A walk of a call for each unit and one more, from the start of a text. -/
def wholeWalk (d : Reader α ρ) (text : List α) : Walked α ρ :=
  d.walk (text.length / d.unit + 1) 0 text

/-- What is to be said of a walk over a text, whatever the text is. -/
structure WalksWell (d : Reader α ρ) (text : List α) : Prop where
  ends : (d.wholeWalk text).outcome = some .ended ∨ (d.wholeWalk text).outcome = some .bad
  inside : ∀ found ∈ (d.wholeWalk text).found, d.stop found ≤ text.length ∧
    d.value found.2 = (text.drop (found.1 + d.header)).take (d.value found.2).length
  apart : (d.wholeWalk text).found.Pairwise fun earlier later => d.stop earlier ≤ later.1
  ended : (d.wholeWalk text).outcome = some .ended ↔ ∃ values, d.Padded text values
  front : ∃ front, text = front ++ (d.wholeWalk text).rest ∧
    d.Padded front ((d.wholeWalk text).found.map fun found => d.value found.2) ∧
      ∀ other values, other <+: text → d.Padded other values → other.length ≤ front.length

/-- A walk of any text ends, with its records apart and inside. -/
theorem walksWell (d : Reader α ρ) (text : List α) : d.WalksWell text := by
  have hends : (d.wholeWalk text).outcome ≠ none := by
    refine outcome_walk ?_
    rw [Nat.add_mul, Nat.one_mul, Nat.mul_comm]
    exact Nat.lt_mul_div_succ text.length d.unit_pos
  obtain ⟨front, htext, hfront, -⟩ := @parts_walk _ _ d (text.length / d.unit + 1) 0 text
  refine ⟨?_, fun found hfound => ?_, apart, ended_iff hends, front, htext, hfront, ?_⟩
  · rcases hout : (d.wholeWalk text).outcome with _ | _ | _
    · exact absurd hout hends
    · exact .inl rfl
    · exact .inr rfl
  · obtain ⟨-, hstop, hvalue⟩ := inside found hfound
    exact ⟨by omega, by simpa using hvalue⟩
  · intro other values hpre hpadded
    have hlonger := longest hpadded hpre hends
    have hlength := congrArg List.length htext
    rw [List.length_append] at hlength
    omega

end Reader

end Netcfgd.Records
