import Mathlib.Data.List.TakeWhile
import Mathlib.Data.Nat.Digits.Lemmas
import Mathlib.Tactic.IntervalCases
import Mathlib.Tactic.Ring

/-!
# Numbers as the C library reads them

`strtoull` in base ten, on a text of bytes : white space, a sign, and digits. A value past 64
bits is the largest one, and a minus sign takes the value from `2 ^ 64`.

`strtoull_eq_some` says what is read as a number to its end, and `Spells.ext` that a text is one
in one way. `valueOf_map` is the value of written digits.
-/

namespace Netcfgd.CNumber

/-! ## Digits -/

/-- `isspace`, in the C locale. -/
def isSpace (c : UInt8) : Bool := c = 32 || (9 ≤ c && c ≤ 13)

/-- `isdigit`. -/
def isDigit (c : UInt8) : Bool := 48 ≤ c && c ≤ 57

/-- The number some decimal digits spell. -/
def valueOf (digits : List UInt8) : ℕ := digits.foldl (fun n c => n * 10 + (c.toNat - 48)) 0

theorem valueOf_append (a b : List UInt8) :
    valueOf (a ++ b) = valueOf a * 10 ^ b.length + valueOf b := by
  induction b using List.reverseRecOn with
  | nil => simp [valueOf]
  | append_singleton b c ih =>
    have hsnoc : ∀ l : List UInt8, valueOf (l ++ [c]) = valueOf l * 10 + (c.toNat - 48) := by
      simp [valueOf]
    rw [← List.append_assoc, hsnoc, hsnoc, ih, List.length_append, List.length_singleton,
      pow_succ]
    ring

def digit (d : ℕ) : UInt8 := UInt8.ofNat (48 + d)

theorem isDigit_digit {d : ℕ} (h : d < 10) : isDigit (digit d) = true := by
  interval_cases d <;> decide

theorem toNat_digit {d : ℕ} (h : d < 10) : (digit d).toNat - 48 = d := by
  interval_cases d <;> decide

theorem valueOf_map : ∀ ds : List ℕ, (∀ d ∈ ds, d < 10) →
    valueOf (ds.map digit) = Nat.ofDigits 10 ds.reverse := by
  intro ds hds
  induction ds using List.reverseRecOn with
  | nil => rfl
  | append_singleton ds d ih =>
    have hd : d < 10 := hds d (by simp)
    rw [List.map_append, valueOf_append, ih fun d' h => hds d' (by simp [h])]
    simp [valueOf, toNat_digit hd, Nat.ofDigits_cons]
    ring

/-! ## The number at the front of a text -/

/-- What `strtoull` makes of a sign and digits. -/
def converted (sign digits : List UInt8) : ℕ :=
  if 2 ^ 64 ≤ valueOf digits then 2 ^ 64 - 1
  else if sign = [45] then (2 ^ 64 - valueOf digits) % 2 ^ 64
  else valueOf digits

def signOf (text : List UInt8) : List UInt8 := text.take 1 |>.filter fun c => c = 43 || c = 45

/-- `strtoull(text, &end, 10)` : the number and what stands after it, if there are digits. -/
def strtoull (text : List UInt8) : Option (ℕ × List UInt8) :=
  let signed := text.dropWhile isSpace
  let sign := signOf signed
  let rest := signed.drop sign.length
  if rest.takeWhile isDigit = [] then none
  else some (converted sign (rest.takeWhile isDigit), rest.dropWhile isDigit)

/-- A text is white space, a sign or none, and digits. -/
structure Spells (text space sign digits : List UInt8) : Prop where
  text_eq : text = space ++ sign ++ digits
  isSpace_of_mem : ∀ c ∈ space, isSpace c = true
  sign_cases : sign = [] ∨ sign = [43] ∨ sign = [45]
  isDigit_of_mem : ∀ c ∈ digits, isDigit c = true
  digits_ne : digits ≠ []

theorem not_isSpace_of_isDigit {c : UInt8} (h : isDigit c = true) : isSpace c = false := by
  simp only [isDigit, isSpace, Bool.and_eq_true, Bool.or_eq_false_iff, decide_eq_true_eq,
    Bool.and_eq_false_iff, decide_eq_false_iff_not, UInt8.le_iff_toNat_le, ← UInt8.toNat_inj] at h ⊢
  simp at h ⊢
  omega

theorem not_sign_of_isDigit {c : UInt8} (h : isDigit c = true) : c ≠ 43 ∧ c ≠ 45 := by
  constructor <;> rintro rfl <;> exact absurd h (by decide)

theorem signOf_digits {digits : List UInt8} (h : ∀ c ∈ digits, isDigit c = true) :
    signOf digits = [] := by
  rcases digits with _ | ⟨c, digits⟩
  · rfl
  · have hc := not_sign_of_isDigit (h c (by simp))
    simp [signOf, hc.1, hc.2]

namespace Spells

variable {text space sign digits : List UInt8}

theorem dropWhile_isSpace (h : Spells text space sign digits) :
    text.dropWhile isSpace = sign ++ digits := by
  obtain ⟨rfl, hspace, hsign, hdigits, hne⟩ := h
  obtain ⟨d, ds, rfl⟩ := List.exists_cons_of_ne_nil hne
  have hd := not_isSpace_of_isDigit (hdigits d (by simp))
  rw [List.append_assoc, List.dropWhile_append_of_pos hspace]
  rcases hsign with rfl | rfl | rfl
  · rw [List.nil_append, List.dropWhile_cons_of_neg (by simp [hd])]
  · rfl
  · rfl

theorem signOf_eq (h : Spells text space sign digits) : signOf (sign ++ digits) = sign := by
  rcases h.sign_cases with hsign | hsign | hsign <;> rw [hsign]
  · exact signOf_digits h.isDigit_of_mem
  · rfl
  · rfl

theorem strtoull_eq (h : Spells text space sign digits) :
    strtoull text = some (converted sign digits, []) := by
  have htake : digits.takeWhile isDigit = digits := List.takeWhile_eq_self_iff.2 h.isDigit_of_mem
  have hdrop : digits.dropWhile isDigit = [] := List.dropWhile_eq_nil_iff.2 h.isDigit_of_mem
  simp only [strtoull, h.dropWhile_isSpace, h.signOf_eq, List.drop_left, htake, hdrop]
  rw [if_neg h.digits_ne]

/-- A text is spelt in one way. -/
theorem ext {space' sign' digits' : List UInt8} (h : Spells text space sign digits)
    (h' : Spells text space' sign' digits') :
    space = space' ∧ sign = sign' ∧ digits = digits' := by
  have hrest : sign ++ digits = sign' ++ digits' := by
    rw [← h.dropWhile_isSpace, h'.dropWhile_isSpace]
  have hsign : sign = sign' := by rw [← h.signOf_eq, hrest, h'.signOf_eq]
  subst hsign
  have hdigits := List.append_cancel_left hrest
  subst hdigits
  have htext := h.text_eq.symm.trans h'.text_eq
  exact ⟨by simpa using htext, rfl, rfl⟩

theorem ne_nil (h : Spells text space sign digits) : text ≠ [] := by
  rw [h.text_eq]
  simp [h.digits_ne]

theorem getLast?_isDigit (h : Spells text space sign digits) :
    ∀ c ∈ text.getLast?, isDigit c = true := by
  obtain ⟨rfl, -, -, hdigits, hne⟩ := h
  intro c hc
  rw [List.getLast?_append_of_ne_nil _ hne] at hc
  exact hdigits c (List.mem_of_getLast? hc)

end Spells

theorem signOf_append_drop (text : List UInt8) :
    signOf text ++ text.drop (signOf text).length = text ∧
      (signOf text = [] ∨ signOf text = [43] ∨ signOf text = [45]) := by
  rcases text with _ | ⟨c, text⟩
  · exact ⟨rfl, .inl rfl⟩
  · by_cases hplus : c = 43
    · subst hplus
      exact ⟨rfl, .inr (.inl rfl)⟩
    by_cases hminus : c = 45
    · subst hminus
      exact ⟨rfl, .inr (.inr rfl)⟩
    · simp [signOf, hplus, hminus]

theorem strtoull_eq_some {text : List UInt8} {n : ℕ} :
    strtoull text = some (n, []) ↔
      ∃ space sign digits, Spells text space sign digits ∧ n = converted sign digits := by
  constructor
  · intro h
    simp only [strtoull] at h
    split_ifs at h with hnone
    obtain ⟨hsigned, hsign⟩ := signOf_append_drop (text.dropWhile isSpace)
    set signed := text.dropWhile isSpace
    set rest := signed.drop (signOf signed).length
    obtain ⟨rfl, hend⟩ : converted (signOf signed) (rest.takeWhile isDigit) = n ∧
        rest.dropWhile isDigit = [] := by simpa using h
    have hrest : rest.takeWhile isDigit = rest := by
      have := List.takeWhile_append_dropWhile (p := isDigit) (l := rest)
      rwa [hend, List.append_nil] at this
    refine ⟨text.takeWhile isSpace, signOf signed, rest.takeWhile isDigit, ⟨?_, ?_, hsign, ?_,
      hnone⟩, rfl⟩
    · rw [hrest, List.append_assoc, hsigned, List.takeWhile_append_dropWhile]
    · exact fun c hc => List.mem_takeWhile_imp hc
    · exact fun c hc => List.mem_takeWhile_imp hc
  · rintro ⟨space, sign, digits, hspells, rfl⟩
    exact hspells.strtoull_eq

end Netcfgd.CNumber
