import Mathlib.Data.List.DropRight
import Mathlib.Tactic.NormNum
import Netcfgd.CNumber
import Netcfgd.JsonRoundTrip

/-!
# Shaped rates

`rate_bits` (`src/compile/lower_device.c`) reads the rate of a `qdisc` block : a number and a unit
or none, with blanks around each. The number goes through `strtoull` in a buffer of 32 bytes.
`render_rate` (`src/compile/render_device.c`) writes a rate back, in the largest unit that divides
it.

`rateBits_eq_ok` is what is accepted. That is more and less than digits in a unit : signs and
line breaks pass, a minus sign wraps around, and 32 digits are refused whatever their value
(`rate_exact`). Each rate that is written is read back (`rateBits_renderRate`).
-/

namespace Netcfgd.Rate

open Netcfgd.CNumber
open Netcfgd.Json (ascii asciis decimal decimalDigits)

variable {multiplier rate : ℕ}

abbrev Bytes := List UInt8

/-! ## Reading -/

/-- `INT64_MAX`. -/
def rateMax : ℕ := 2 ^ 63 - 1

/-- `units`, of `rate_bits`. -/
def units : List (Bytes × ℕ) :=
  [(asciis "gbit", 1000000000), (asciis "mbit", 1000000), (asciis "kbit", 1000), (asciis "bit", 1)]

def isBlank (c : UInt8) : Bool := c = ascii ' ' || c = 9

def trimmed (text : Bytes) : Bytes := (text.dropWhile isBlank).rdropWhile isBlank

/-- The number of a trimmed text and the multiplier of its unit. -/
def parts (body : Bytes) : Bytes × ℕ :=
  match units.find? fun u => u.1.isSuffixOf body with
  | some (suffix, multiplier) =>
    ((body.take (body.length - suffix.length)).rdropWhile isBlank, multiplier)
  | none => (body, 1)

def notARate (text : Bytes) : Bytes :=
  asciis "`" ++ text ++ asciis ("` is not a rate: a number and one of `bit`, `kbit`, `mbit`, " ++
    "`gbit`, as in `100mbit`")

/-- `rate_bits` : the rate in bits per second, or the diagnostic. -/
def rateBits (text : Bytes) : Except Bytes ℕ :=
  let (number, multiplier) := parts (trimmed text)
  if number.length = 0 ∨ 32 ≤ number.length then .error (notARate text)
  else
    match strtoull number with
    | some (n, []) =>
      if n = 0 then .error (asciis "a shaped rate of zero would pass nothing")
      else if rateMax / multiplier < n then
        .error (asciis "`" ++ text ++ asciis "` is too large a rate")
      else .ok (n * multiplier)
    | _ => .error (notARate text)

/-! ## Writing -/

/-- `units`, of `render_rate`. -/
def renderUnits : List (Bytes × ℤ) :=
  [(asciis "gbit", 1000000000), (asciis "mbit", 1000000), (asciis "kbit", 1000)]

def quotedRate (n : ℤ) (suffix : Bytes) : Bytes :=
  ascii '"' :: (decimal n ++ suffix) ++ [ascii '"']

/-- `render_rate`. -/
def renderRate (bits : ℤ) : Bytes :=
  match renderUnits.find? fun u => bits.tmod u.2 = 0 with
  | some (suffix, multiplier) => quotedRate (bits.tdiv multiplier) suffix
  | none => quotedRate bits (asciis "bit")

/-! ## What a text says -/

/-- A text is `number` in a unit, with blanks before, between and after. -/
def Written (text number : Bytes) (multiplier : ℕ) : Prop :=
  ∃ before between after unit, text = before ++ number ++ between ++ unit ++ after ∧
    (∀ c ∈ before, isBlank c = true) ∧ (∀ c ∈ between, isBlank c = true) ∧
    (∀ c ∈ after, isBlank c = true) ∧ (unit, multiplier) ∈ ([], 1) :: units

/-- A text is digits in a unit, and `rate` is what they come to, at most the largest rate. -/
def Means (text : Bytes) (rate : ℕ) : Prop :=
  ∃ digits multiplier, Written text digits multiplier ∧ digits ≠ [] ∧
    (∀ c ∈ digits, isDigit c = true) ∧ 1 ≤ valueOf digits ∧
    valueOf digits * multiplier ≤ rateMax ∧ rate = valueOf digits * multiplier

/-- A text is 32 digits or more in a unit, and a rate as written. -/
def Long (text : Bytes) : Prop :=
  ∃ digits multiplier, Written text digits multiplier ∧ 32 ≤ digits.length ∧
    (∀ c ∈ digits, isDigit c = true) ∧ 1 ≤ valueOf digits ∧ valueOf digits * multiplier ≤ rateMax

/-- The digits of a text have a sign or other white space before them, and `strtoull` makes a
rate of them. -/
def Loose (text : Bytes) : Prop :=
  ∃ number multiplier space sign digits, Written text number multiplier ∧
    Spells number space sign digits ∧ (space ≠ [] ∨ sign ≠ []) ∧
    (∀ c ∈ number.head?, isBlank c = false) ∧ number.length < 32 ∧
    1 ≤ converted sign digits ∧ converted sign digits * multiplier ≤ rateMax

/-! ## The parts of a text -/

variable {text number digits : Bytes}

theorem Written.multiplier_pos (h : Written text number multiplier) : 0 < multiplier := by
  obtain ⟨-, -, -, unit, -, -, -, -, hunit⟩ := h
  simp only [units, List.mem_cons, Prod.mk.injEq, List.not_mem_nil, or_false] at hunit
  omega

theorem isBlank_of_isDigit {c : UInt8} (h : isDigit c = true) : isBlank c = false := by
  have hspace := not_isSpace_of_isDigit h
  cases hc : isBlank c with
  | false => rfl
  | true =>
    have : isSpace c = true := by
      rcases (by simpa [isBlank] using hc : c = ascii ' ' ∨ c = 9) with rfl | rfl <;> decide
    exact absurd (this.symm.trans hspace) (by decide)

theorem rdropWhile_append_blanks {p : UInt8 → Bool} {a b : Bytes} (hb : ∀ c ∈ b, p c = true) :
    (a ++ b).rdropWhile p = a.rdropWhile p := by
  rw [List.rdropWhile, List.rdropWhile, List.reverse_append,
    List.dropWhile_append_of_pos fun c hc => hb c (List.mem_reverse.1 hc)]

theorem rdropWhile_of_last {p : UInt8 → Bool} {a : Bytes} (h : ∀ c ∈ a.getLast?, p c = false) :
    a.rdropWhile p = a := by
  rw [List.rdropWhile_eq_self_iff]
  intro hne
  simp [h _ (List.getLast_mem_getLast? hne)]

theorem trimmed_append {before body after : Bytes} (hbefore : ∀ c ∈ before, isBlank c = true)
    (hafter : ∀ c ∈ after, isBlank c = true) (hne : body ≠ [])
    (hhead : ∀ c ∈ body.head?, isBlank c = false) (hlast : ∀ c ∈ body.getLast?, isBlank c = false) :
    trimmed (before ++ body ++ after) = body := by
  obtain ⟨c, body, rfl⟩ := List.exists_cons_of_ne_nil hne
  rw [trimmed, List.append_assoc, List.dropWhile_append_of_pos hbefore, List.cons_append,
    List.dropWhile_cons_of_neg (by simp [hhead c rfl]), ← List.cons_append,
    rdropWhile_append_blanks hafter, rdropWhile_of_last hlast]

theorem units_eq : units = [([103, 98, 105, 116], 1000000000), ([109, 98, 105, 116], 1000000),
    ([107, 98, 105, 116], 1000), ([98, 105, 116], 1)] :=
  rfl

theorem find_unit {front : Bytes} {c : UInt8} {unit : Bytes}
    (hc : isDigit c = true ∨ isBlank c = true) (hunit : (unit, multiplier) ∈ units) :
    (units.find? fun u => u.1.isSuffixOf (front ++ [c] ++ unit)) = some (unit, multiplier) := by
  have hletter : ∀ d ∈ ([103, 109, 107] : Bytes), (d == c) = false := by
    intro d hd
    simp only [List.mem_cons, List.not_mem_nil, or_false] at hd
    rw [beq_eq_false_iff_ne]
    rcases hd with rfl | rfl | rfl <;> rintro rfl <;> revert hc <;> decide
  rw [units_eq] at hunit ⊢
  simp only [List.mem_cons, Prod.mk.injEq, List.not_mem_nil, or_false] at hunit
  rcases hunit with ⟨rfl, rfl⟩ | ⟨rfl, rfl⟩ | ⟨rfl, rfl⟩ | ⟨rfl, rfl⟩
  · simp [List.find?, List.isSuffixOf, List.isPrefixOf]
  · simp [List.find?, List.isSuffixOf, List.isPrefixOf]
  · simp [List.find?, List.isSuffixOf, List.isPrefixOf]
  · simp [List.find?, List.isSuffixOf, List.isPrefixOf, hletter]

theorem find_none {front : Bytes} {c : UInt8} (hc : isDigit c = true) :
    (units.find? fun u => u.1.isSuffixOf (front ++ [c])) = none := by
  have ht : (116 : UInt8) ≠ c := by
    rintro rfl
    exact absurd hc (by decide)
  simp [units_eq, List.isSuffixOf, List.isPrefixOf, ht]

theorem parts_of_written (h : Written text number multiplier)
    (hhead : ∀ c ∈ number.head?, isBlank c = false)
    (hne : number ≠ []) (hlast : ∀ c ∈ number.getLast?, isDigit c = true) :
    parts (trimmed text) = (number, multiplier) := by
  obtain ⟨before, between, after, unit, rfl, hbefore, hbetween, hafter, hunit⟩ := h
  obtain ⟨front, c, rfl⟩ := (List.eq_nil_or_concat' number).resolve_left hne
  have hc : isDigit c = true := hlast c (by simp)
  have hlast' : ∀ d ∈ (front ++ [c]).getLast?, isBlank d = false := fun d hd =>
    isBlank_of_isDigit (hlast d hd)
  rcases List.mem_cons.1 hunit with hnone | hsome
  · obtain ⟨rfl, rfl⟩ := Prod.mk.inj hnone
    have htext : before ++ (front ++ [c]) ++ between ++ [] ++ after =
        before ++ (front ++ [c]) ++ (between ++ after) := by simp
    rw [htext, trimmed_append hbefore (by simpa [or_imp, forall_and] using ⟨hbetween, hafter⟩)
      hne hhead hlast', parts, find_none hc]
  · have hbody : ∃ front' c', front ++ [c] ++ between = front' ++ [c'] ∧
        (isDigit c' = true ∨ isBlank c' = true) := by
      rcases List.eq_nil_or_concat' between with rfl | ⟨between, b, rfl⟩
      · exact ⟨front, c, by simp, .inl hc⟩
      · exact ⟨front ++ [c] ++ between, b, by simp, .inr (hbetween b (by simp))⟩
    obtain ⟨front', c', hfront, hc'⟩ := hbody
    have hends : unit ≠ [] ∧ ∀ d ∈ unit.getLast?, isBlank d = false := by
      rw [units_eq] at hsome
      simp only [List.mem_cons, Prod.mk.injEq, List.not_mem_nil, or_false] at hsome
      rcases hsome with ⟨rfl, -⟩ | ⟨rfl, -⟩ | ⟨rfl, -⟩ | ⟨rfl, -⟩ <;>
        exact ⟨by simp, fun d hd => by cases hd; rfl⟩
    have htext : before ++ (front ++ [c]) ++ between ++ unit ++ after =
        before ++ (front ++ [c] ++ between ++ unit) ++ after := by simp
    have hhead' : ∀ d ∈ (front ++ [c] ++ between ++ unit).head?, isBlank d = false := by
      intro d hd
      rw [List.append_assoc, List.head?_append] at hd
      obtain ⟨d', hd'⟩ := Option.isSome_iff_exists.1 (List.isSome_head?.2 hne)
      exact hhead d (by simpa [hd'] using hd)
    have hlast'' : ∀ d ∈ (front ++ [c] ++ between ++ unit).getLast?, isBlank d = false := by
      rw [List.getLast?_append_of_ne_nil _ hends.1]
      exact hends.2
    rw [htext, trimmed_append hbefore hafter (by simp) hhead' hlast'', parts, hfront,
      find_unit hc' hsome]
    dsimp only
    rw [← hfront, List.length_append, Nat.add_sub_cancel, List.take_left,
      rdropWhile_append_blanks hbetween, rdropWhile_of_last hlast']

theorem written_of_parts (h : parts (trimmed text) = (number, multiplier)) :
    Written text number multiplier ∧ ∀ c ∈ number.head?, isBlank c = false := by
  have hbody : ∃ before after, text = before ++ trimmed text ++ after ∧
      (∀ c ∈ before, isBlank c = true) ∧ (∀ c ∈ after, isBlank c = true) ∧
      ∀ c ∈ (trimmed text).head?, isBlank c = false := by
    refine ⟨text.takeWhile isBlank, (text.dropWhile isBlank).rtakeWhile isBlank, ?_,
      fun c hc => List.mem_takeWhile_imp hc, fun c hc => List.mem_rtakeWhile_imp hc, ?_⟩
    · rw [trimmed, List.append_assoc, List.rdropWhile_append_rtakeWhile,
        List.takeWhile_append_dropWhile]
    · intro c hc
      obtain ⟨rest, hrest⟩ := List.rdropWhile_prefix isBlank (text.dropWhile isBlank)
      have hnot := List.head?_dropWhile_not isBlank text
      rw [trimmed] at hc
      rw [← hrest, List.head?_append, Option.mem_def.1 hc] at hnot
      exact hnot
  obtain ⟨before, after, htext, hbefore, hafter, hhead⟩ := hbody
  rw [parts] at h
  split at h
  · rename_i suffix m hfind
    obtain ⟨hnumber, rfl⟩ := Prod.mk.inj h
    have hsuffix : suffix <:+ trimmed text :=
      List.isSuffixOf_iff_suffix.1 (by simpa using List.find?_some hfind)
    obtain ⟨front, hfront⟩ := hsuffix
    have htake : (trimmed text).take ((trimmed text).length - suffix.length) = front := by
      rw [← hfront, List.length_append, Nat.add_sub_cancel, List.take_left]
    rw [htake] at hnumber
    have hsplit : front = number ++ front.rtakeWhile isBlank := by
      rw [← hnumber, List.rdropWhile_append_rtakeWhile]
    refine ⟨⟨before, front.rtakeWhile isBlank, after, suffix, ?_, hbefore,
      fun c hc => List.mem_rtakeWhile_imp hc, hafter,
      List.mem_cons_of_mem _ (List.mem_of_find?_eq_some hfind)⟩, ?_⟩
    · rw [List.append_assoc before number, ← hsplit, List.append_assoc before front, hfront]
      exact htext
    · intro c hc
      refine hhead c ?_
      rw [← hfront, hsplit]
      rcases number with _ | ⟨d, number⟩
      · cases hc
      · exact hc
  · obtain ⟨rfl, rfl⟩ := Prod.mk.inj h
    exact ⟨⟨before, [], after, [], by simpa using htext, hbefore, by simp, hafter, by simp⟩, hhead⟩

/-! ## What is accepted -/

/-- `rate_bits` accepts a text where `strtoull` reads its number to the end, in 31 bytes at most,
as a rate that fits. -/
theorem rateBits_eq_ok :
    rateBits text = .ok rate ↔
      ∃ number multiplier space sign digits, Written text number multiplier ∧
        Spells number space sign digits ∧ (∀ c ∈ number.head?, isBlank c = false) ∧
        number.length < 32 ∧ 1 ≤ converted sign digits ∧
        converted sign digits * multiplier ≤ rateMax ∧
        rate = converted sign digits * multiplier := by
  constructor
  · intro h
    obtain ⟨⟨number, multiplier⟩, hparts⟩ : ∃ p, parts (trimmed text) = p := ⟨_, rfl⟩
    rw [rateBits, hparts] at h
    dsimp only at h
    split_ifs at h with hlength
    split at h
    · rename_i n hnumber
      split_ifs at h with hzero hlarge
      obtain ⟨space, sign, digits, hspells, rfl⟩ := strtoull_eq_some.1 hnumber
      obtain ⟨hwritten, hhead⟩ := written_of_parts hparts
      push Not at hlength
      refine ⟨number, multiplier, space, sign, digits, hwritten, hspells, hhead, hlength.2,
        Nat.one_le_iff_ne_zero.2 hzero, ?_, (Except.ok.inj h).symm⟩
      exact (Nat.le_div_iff_mul_le hwritten.multiplier_pos).1 (not_lt.1 hlarge)
    · cases h
  · rintro ⟨number, multiplier, space, sign, digits, hwritten, hspells, hhead, hlength, hpos, hmax,
      rfl⟩
    have hparts := parts_of_written hwritten hhead hspells.ne_nil hspells.getLast?_isDigit
    have hlarge : ¬rateMax / multiplier < converted sign digits :=
      not_lt.2 ((Nat.le_div_iff_mul_le hwritten.multiplier_pos).2 hmax)
    have hlength' : ¬(number.length = 0 ∨ 32 ≤ number.length) := by
      have := List.length_pos_iff.2 hspells.ne_nil
      omega
    rw [rateBits, hparts]
    dsimp only
    rw [if_neg hlength', hspells.strtoull_eq]
    dsimp only
    rw [if_neg (by omega), if_neg hlarge]

theorem spells_digits (hne : digits ≠ []) (hdigits : ∀ c ∈ digits, isDigit c = true) :
    Spells digits [] [] digits :=
  ⟨rfl, by simp, .inl rfl, hdigits, hne⟩

theorem head_of_digits (h : ∀ c ∈ digits, isDigit c = true) :
    ∀ c ∈ digits.head?, isBlank c = false :=
  fun c hc => isBlank_of_isDigit (h c (List.mem_of_mem_head? hc))

/-- A rate is written in one way. -/
theorem Written.ext {number' space sign space' sign' digits' : Bytes}
    {multiplier' : ℕ} (h : Written text number multiplier)
    (h' : Written text number' multiplier') (hspells : Spells number space sign digits)
    (hspells' : Spells number' space' sign' digits')
    (hhead : ∀ c ∈ number.head?, isBlank c = false)
    (hhead' : ∀ c ∈ number'.head?, isBlank c = false) :
    number = number' ∧ multiplier = multiplier' := by
  have hparts := parts_of_written h hhead hspells.ne_nil hspells.getLast?_isDigit
  have hparts' := parts_of_written h' hhead' hspells'.ne_nil hspells'.getLast?_isDigit
  exact Prod.mk.inj (hparts.symm.trans hparts')

/-! ## What is written -/

theorem decimal_natCast (n : ℕ) : decimal n = (decimalDigits n).map digit := by
  rw [decimal, if_neg (by omega)]
  rfl

theorem valueOf_decimal (n : ℕ) : valueOf (decimal n) = n := by
  rw [decimal_natCast, valueOf_map _ (Json.digits_lt n), decimalDigits]
  split_ifs with hn
  · simp [hn]
  · rw [List.reverse_reverse, Nat.ofDigits_digits]

theorem spells_decimal (n : ℕ) : Spells (decimal n) [] [] (decimal n) := by
  refine spells_digits ?_ ?_
  · rcases Json.decimalDigits_cases n with ⟨-, h⟩ | ⟨d, ds, h, -, -⟩ <;>
      simp [decimal_natCast, h]
  · intro c hc
    obtain ⟨d, hd, rfl⟩ := List.mem_map.1 (by rwa [decimal_natCast] at hc)
    exact isDigit_digit (Json.digits_lt n d hd)

theorem length_decimal {n : ℕ} (h : n ≤ rateMax) : (decimal n).length < 32 := by
  have hlength : (Nat.digits 10 n).length ≤ 19 :=
    (Nat.digits_length_le_iff (by norm_num) n).2 (lt_of_le_of_lt h (by norm_num [rateMax]))
  simp only [decimal_natCast, List.length_map, decimalDigits]
  split_ifs
  · simp
  · rw [List.length_reverse]
    omega

theorem rateBits_decimal {n : ℕ} {unit : Bytes} (hunit : (unit, multiplier) ∈ units)
    (hpos : 1 ≤ n) (hmax : n * multiplier ≤ rateMax) :
    rateBits (decimal n ++ unit) = .ok (n * multiplier) := by
  have hspells := spells_decimal n
  have hwritten : Written (decimal n ++ unit) (decimal n) multiplier :=
    ⟨[], [], [], unit, by simp, by simp, by simp, by simp, List.mem_cons_of_mem _ hunit⟩
  have hn : n ≤ rateMax := le_trans (Nat.le_mul_of_pos_right n hwritten.multiplier_pos) hmax
  have hconverted : converted [] (decimal n) = n := by
    rw [converted, valueOf_decimal, if_neg (by rw [rateMax] at hn; omega), if_neg (by simp)]
  refine rateBits_eq_ok.2 ⟨decimal n, multiplier, [], [], decimal n, hwritten, hspells, ?_,
    length_decimal hn, ?_⟩
  · exact head_of_digits hspells.isDigit_of_mem
  · rw [hconverted]
    exact ⟨hpos, hmax, rfl⟩

/-- A rendered rate is read back. -/
theorem rateBits_renderRate (hpos : 1 ≤ rate) (hmax : rate ≤ rateMax) :
    ∃ text, renderRate rate = ascii '"' :: text ++ [ascii '"'] ∧ rateBits text = .ok rate := by
  rw [renderRate]
  split
  · rename_i suffix multiplier hfind
    obtain ⟨m, rfl, hunit⟩ : ∃ m : ℕ, multiplier = m ∧ (suffix, m) ∈ units := by
      have hmem := List.mem_of_find?_eq_some hfind
      simp only [renderUnits, List.mem_cons, Prod.mk.injEq, List.not_mem_nil, or_false] at hmem
      rcases hmem with ⟨rfl, rfl⟩ | ⟨rfl, rfl⟩ | ⟨rfl, rfl⟩
      · exact ⟨1000000000, rfl, by simp [units]⟩
      · exact ⟨1000000, rfl, by simp [units]⟩
      · exact ⟨1000, rfl, by simp [units]⟩
    have hmod : (rate : ℤ).tmod m = 0 := by simpa using List.find?_some hfind
    have hdvd : m ∣ rate := by exact_mod_cast Int.dvd_of_tmod_eq_zero hmod
    obtain ⟨n, rfl⟩ := hdvd
    have hm : 0 < m := Nat.pos_of_ne_zero fun h => by simp [h] at hpos
    have hdiv : ((m * n : ℕ) : ℤ).tdiv m = n := by
      rw [Nat.cast_mul, Int.mul_tdiv_cancel_left _ (by omega)]
    refine ⟨decimal n ++ suffix, by rw [hdiv, quotedRate], ?_⟩
    rw [mul_comm m n] at hmax hpos ⊢
    exact rateBits_decimal hunit (Nat.pos_of_ne_zero fun h => by simp [h] at hpos) hmax
  · refine ⟨decimal rate ++ asciis "bit", rfl, ?_⟩
    have hunit : (asciis "bit", 1) ∈ units := by simp [units]
    have hread := rateBits_decimal hunit hpos (by simpa using hmax)
    simpa using hread

/-! ## Where the code and the grammar part -/

/-- A product stays in range exactly where the number itself does. -/
theorem converted_nil_eq (hm : 0 < multiplier) :
    converted [] digits * multiplier ≤ rateMax ↔
      valueOf digits * multiplier ≤ rateMax ∧ converted [] digits = valueOf digits := by
  have hle := Nat.le_mul_of_pos_right (converted [] digits) hm
  have hle' := Nat.le_mul_of_pos_right (valueOf digits) hm
  rw [rateMax]
  by_cases hlarge : 2 ^ 64 ≤ valueOf digits
  · have hconverted : converted [] digits = 2 ^ 64 - 1 := if_pos hlarge
    rw [hconverted] at hle ⊢
    omega
  · have hconverted : converted [] digits = valueOf digits := by
      rw [converted, if_neg hlarge, if_neg (by simp)]
    simp [hconverted]

/-- What a text means, through its one way of being written. -/
theorem means_iff :
    Means text rate ↔ ∃ digits multiplier, Written text digits multiplier ∧
      Spells digits [] [] digits ∧ 1 ≤ converted [] digits ∧
      converted [] digits * multiplier ≤ rateMax ∧ rate = converted [] digits * multiplier := by
  constructor
  · rintro ⟨digits, multiplier, hwritten, hne, hdigits, hpos, hmax, rfl⟩
    have hle := Nat.le_mul_of_pos_right (valueOf digits) hwritten.multiplier_pos
    have hconverted : converted [] digits = valueOf digits := by
      rw [rateMax] at hmax
      rw [converted, if_neg (by omega), if_neg (by simp)]
    exact ⟨digits, multiplier, hwritten, spells_digits hne hdigits, hconverted ▸ hpos,
      hconverted ▸ hmax, by rw [hconverted]⟩
  · rintro ⟨digits, multiplier, hwritten, hspells, hpos, hmax, rfl⟩
    obtain ⟨hmax', hconverted⟩ := (converted_nil_eq hwritten.multiplier_pos).1 hmax
    exact ⟨digits, multiplier, hwritten, hspells.digits_ne, hspells.isDigit_of_mem,
      hconverted ▸ hpos, hmax', by rw [hconverted]⟩

/-- What the rate of a text comes to, where it is not one of those that the code and the grammar
read differently. -/
theorem rate_exact (text : Bytes) :
    ((∀ rate, rateBits text = .ok rate ↔ Means text rate) ↔ ¬Long text ∧ ¬Loose text) ∧
      ∀ rate : ℕ, 1 ≤ rate → rate ≤ rateMax →
        ∃ text, renderRate rate = ascii '"' :: text ++ [ascii '"'] ∧ rateBits text = .ok rate := by
  refine ⟨⟨fun h => ⟨?long, ?loose⟩, fun ⟨hlong, hloose⟩ rate => ⟨?accepted, ?meant⟩⟩,
    fun rate hpos hmax => rateBits_renderRate hpos hmax⟩
  case long =>
    rintro ⟨digits, multiplier, hwritten, hlength, hdigits, hpos, hmax⟩
    have hne : digits ≠ [] := by
      rintro rfl
      simp at hlength
    have hok := (h _).2 ⟨digits, multiplier, hwritten, hne, hdigits, hpos, hmax, rfl⟩
    obtain ⟨number, multiplier', space, sign, digits', hwritten', hspells, hhead, hshort, -⟩ :=
      rateBits_eq_ok.1 hok
    have heq := (hwritten.ext hwritten' (spells_digits hne hdigits) hspells
      (head_of_digits hdigits) hhead).1
    rw [heq] at hlength
    omega
  case loose =>
    rintro ⟨number, multiplier, space, sign, digits, hwritten, hspells, hextra, hhead, hlength,
      hpos, hmax⟩
    have hok := rateBits_eq_ok.2 ⟨number, multiplier, space, sign, digits, hwritten, hspells, hhead,
      hlength, hpos, hmax, rfl⟩
    obtain ⟨digits', multiplier', hwritten', hne, hdigits, -⟩ := (h _).1 hok
    have hspells' := spells_digits hne hdigits
    obtain ⟨rfl, -⟩ := hwritten.ext hwritten' hspells hspells' hhead (head_of_digits hdigits)
    obtain ⟨rfl, rfl, -⟩ := hspells.ext hspells'
    simp at hextra
  case accepted =>
    intro hok
    obtain ⟨number, multiplier, space, sign, digits, hwritten, hspells, hhead, hlength, hpos, hmax,
      rfl⟩ := rateBits_eq_ok.1 hok
    by_cases hextra : space ≠ [] ∨ sign ≠ []
    · exact absurd ⟨number, multiplier, space, sign, digits, hwritten, hspells, hextra, hhead,
        hlength, hpos, hmax⟩ hloose
    · push Not at hextra
      obtain ⟨rfl, rfl⟩ := hextra
      obtain rfl : number = digits := by simpa using hspells.text_eq
      exact means_iff.2 ⟨number, multiplier, hwritten, hspells, hpos, hmax, rfl⟩
  case meant =>
    intro hmeans
    have hshort : ∀ digits multiplier, Written text digits multiplier →
        Spells digits [] [] digits → 1 ≤ valueOf digits → valueOf digits * multiplier ≤ rateMax →
        digits.length < 32 := by
      intro digits multiplier hwritten hspells hpos hmax
      by_contra hlength
      exact hlong ⟨digits, multiplier, hwritten, not_lt.1 hlength, hspells.isDigit_of_mem, hpos,
        hmax⟩
    obtain ⟨digits, multiplier, hwritten, hspells, hpos, hmax, rfl⟩ := means_iff.1 hmeans
    obtain ⟨hmax', hconverted⟩ := (converted_nil_eq hwritten.multiplier_pos).1 hmax
    exact rateBits_eq_ok.2 ⟨digits, multiplier, [], [], digits, hwritten, hspells,
      head_of_digits hspells.isDigit_of_mem,
      hshort digits multiplier hwritten hspells (hconverted ▸ hpos) hmax', hpos, hmax, rfl⟩

/-- A number below zero is accepted : it wraps around, to a rate of one bit. -/
theorem negative_accepted : ¬∀ text rate, rateBits text = .ok rate ↔ Means text rate := by
  intro h
  have hok : rateBits (asciis "-18446744073709551615bit") = .ok 1 := rfl
  obtain ⟨digits, multiplier, hwritten, hne, hdigits, -⟩ := (h _ _).1 hok
  have hparts := parts_of_written hwritten (head_of_digits hdigits) hne fun c hc =>
    hdigits c (List.mem_of_getLast? hc)
  have hnumber : parts (trimmed (asciis "-18446744073709551615bit")) =
      (asciis "-18446744073709551615", 1) := rfl
  obtain ⟨rfl, -⟩ := Prod.mk.inj (hnumber.symm.trans hparts)
  exact absurd (hdigits (ascii '-') List.mem_cons_self) (by decide)

end Netcfgd.Rate
