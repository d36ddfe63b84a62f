import Mathlib.Data.Int.Notation
import Mathlib.Tactic.Common

/-!
# The syntax tree, and walking it

`src/compile/ast.c`, and the scalars and the lists of `lower_value.c`. A file is a list of
items : a block, an assignment, a hook or an include. A string of the tree may hold a NUL,
and the lowering reads it up to the first one (`cText`).

A block is lowered item by item, each item changing what was read so far and saying what is
wrong with it (`overItems`). Two rules go with that : an invariant every item keeps
(`overItems_invariant`), and, for a field some items set and the others leave alone, that the
last item to set it wins (`overItems_last`).
-/

namespace Netcfgd.Compile

/-! ## The tree -/

/-- `ncfg_ast_value_t`. -/
inductive Value
  | string (text : String)
  | number (n : ℤ)
  | boolean (b : Bool)
  | list (entries : List Value)

/-- `ncfg_ast_item_t`. -/
inductive Item
  | block (head : String) (label : Option String) (overrides : Bool) (items : List Item)
  | assignment (key : String) (value : Value)
  | hook (phase body : String)
  | incl (path : String)

/-- `ncfg_ast_value_describe`. -/
def Value.describe : Value → String
  | .string _ => "a string"
  | .number _ => "a number"
  | .boolean _ => "a boolean"
  | .list _ => "a list"

/-! ## Scalars -/

def cText (s : String) : List Char :=
  s.toList.takeWhile (· ≠ '\x00')

/-- `ncfg_as_string`. -/
def asString : Value → Except String String
  | .string s => .ok (String.ofList (cText s))
  | v => .error ("expected a string, found " ++ v.describe)

/-- `ncfg_as_bool`. -/
def asBool : Value → Except String Bool
  | .boolean b => .ok b
  | v => .error ("expected true or false, found " ++ v.describe)

/-- `ncfg_as_u32`. -/
def asU32 : Value → Except String ℤ
  | .number n =>
    if n < 0 ∨ 4294967295 < n then .error (toString n ++ " is out of range here") else .ok n
  | v => .error ("expected a number, found " ++ v.describe)

/-- `is_space`. -/
def isSpace (c : Char) : Bool :=
  c = ' ' ∨ c = '\t' ∨ c = '\r' ∨ c = '\n' ∨ c = '\x0b' ∨ c = '\x0c'

/-- The pieces of a text between separators, with no piece empty. -/
def splitText (separates : Char → Bool) (text : List Char) : List (List Char) :=
  (text.splitOnP separates).filter (· ≠ [])

def trimText (text : List Char) : List Char :=
  ((text.dropWhile isSpace).reverse.dropWhile isSpace).reverse

/-- The entries of a list value that are strings, and what is wrong with the others. -/
def listStrings (entries : List Value) : List String × List String :=
  (entries.filterMap fun v => (asString v).toOption,
    entries.filterMap fun
      | .string _ => none
      | v => some ("expected a string in this list, found " ++ v.describe))

/-- `ncfg_as_words` : a string splits at its spaces, a list gives its elements whole. -/
def asWords : Value → List String × List String
  | .string s => ((splitText isSpace (cText s)).map String.ofList, [])
  | .list entries => listStrings entries
  | v => ([], ["expected a string or a list, found " ++ v.describe])

/-- `ncfg_as_lines` : a string splits at its newlines, each line trimmed. -/
def asLines : Value → List String × List String
  | .string s =>
    (((splitText (· = '\n') (cText s)).map trimText).filter (· ≠ []) |>.map String.ofList, [])
  | .list entries => listStrings entries
  | v => ([], ["expected a string or a list, found " ++ v.describe])

/-! ## Going through the items of a block -/

variable {α β : Type*}

/-- The first element a test takes replaced, where there is one. -/
def setFirst (p : β → Bool) (x : β) : List β → Option (List β)
  | [] => none
  | b :: bs => if p b then some (x :: bs) else (setFirst p x bs).map (b :: ·)

theorem mem_of_setFirst {p : β → Bool} {x y : β} :
    ∀ {bs bs' : List β}, setFirst p x bs = some bs' → y ∈ bs' → y = x ∨ y ∈ bs
  | b :: bs, bs', h, hy => by
    unfold setFirst at h
    split_ifs at h
    · cases h
      exact (List.mem_cons.1 hy).imp_right (List.mem_cons_of_mem _)
    · obtain ⟨bs'', hbs, rfl⟩ := Option.map_eq_some_iff.1 h
      rcases List.mem_cons.1 hy with rfl | hy
      · exact .inr List.mem_cons_self
      · exact (mem_of_setFirst hbs hy).imp_right (List.mem_cons_of_mem _)

/-- Read a list from the left, with what is wrong with its elements in order. -/
def overItems (f : α → β → α × List String) : α → List β → α × List String
  | a, [] => (a, [])
  | a, i :: is =>
    let (a', wrong) := f a i
    let (a'', wrong') := overItems f a' is
    (a'', wrong ++ wrong')

@[simp] theorem overItems_nil (f : α → β → α × List String) (a : α) : overItems f a [] = (a, []) :=
  rfl

theorem overItems_cons (f : α → β → α × List String) (a : α) (i : β) (is : List β) :
    overItems f a (i :: is) =
      ((overItems f (f a i).1 is).1, (f a i).2 ++ (overItems f (f a i).1 is).2) :=
  rfl

theorem overItems_invariant {f : α → β → α × List String} {P : α → Prop} :
    ∀ (is : List β) {a : α}, P a → (∀ i ∈ is, ∀ a, P a → P (f a i).1) → P (overItems f a is).1
  | [], _, ha, _ => ha
  | i :: is, a, ha, h => by
    rw [overItems_cons]
    exact overItems_invariant is (h i List.mem_cons_self a ha)
      fun j hj => h j (List.mem_cons_of_mem _ hj)

theorem overItems_invariant_ok {f : α → β → α × List String} {P : α → Prop}
    (h : ∀ a i, (f a i).2 = [] → P a → P (f a i).1) :
    ∀ (is : List β) {a : α}, (overItems f a is).2 = [] → P a → P (overItems f a is).1
  | [], _, _, ha => ha
  | i :: is, a, hok, ha => by
    rw [overItems_cons] at hok ⊢
    obtain ⟨hi, his⟩ := List.append_eq_nil_iff.1 hok
    exact overItems_invariant_ok h is his (h a i hi ha)

def lastSome (g : β → Option α) : List β → Option α
  | [] => none
  | i :: is => (lastSome g is).or (g i)

theorem exists_of_lastSome {g : β → Option α} :
    ∀ {is : List β} {x : α}, lastSome g is = some x → ∃ i ∈ is, g i = some x
  | i :: is, x, h => by
    unfold lastSome at h
    cases hl : lastSome g is with
    | none =>
      rw [hl, Option.none_or] at h
      exact ⟨i, List.mem_cons_self, h⟩
    | some y =>
      rw [hl, Option.some_or] at h
      obtain ⟨j, hj, hg⟩ := exists_of_lastSome (hl.trans h)
      exact ⟨j, List.mem_cons_of_mem _ hj, hg⟩

theorem lastSome_map {γ : Type*} (g : β → Option α) (f : α → γ) :
    ∀ is : List β, lastSome (fun i => (g i).map f) is = (lastSome g is).map f
  | [] => rfl
  | i :: is => by
    rw [lastSome, lastSome, lastSome_map g f is]
    cases lastSome g is <;> rfl

theorem overItems_last {γ : Type*} {f : α → β → α × List String} (field : α → γ)
    (sets : β → Option γ)
    (h : ∀ a i, (f a i).2 = [] → field (f a i).1 = (sets i).getD (field a)) :
    ∀ (is : List β) (a : α), (overItems f a is).2 = [] →
      field (overItems f a is).1 = (lastSome sets is).getD (field a)
  | [], _, _ => rfl
  | i :: is, a, hok => by
    rw [overItems_cons] at hok ⊢
    obtain ⟨hi, his⟩ := List.append_eq_nil_iff.1 hok
    rw [overItems_last field sets h is _ his, h a i hi, lastSome]
    cases lastSome sets is <;> rfl

theorem overItems_adds {γ : Type*} {f : α → β → α × List String} (field : α → List γ)
    (adds : β → List γ) (h : ∀ a i, (f a i).2 = [] → field (f a i).1 = field a ++ adds i) :
    ∀ (is : List β) (a : α), (overItems f a is).2 = [] →
      field (overItems f a is).1 = field a ++ is.flatMap adds
  | [], a, _ => by simp
  | i :: is, a, hok => by
    rw [overItems_cons] at hok ⊢
    obtain ⟨hi, his⟩ := List.append_eq_nil_iff.1 hok
    rw [overItems_adds field adds h is _ his, h a i hi, List.flatMap_cons, List.append_assoc]

theorem overItems_some {f : α → β → α × List String} {P : α → Prop} {Q : β → Prop}
    (h : ∀ a i, (f a i).2 = [] → (P (f a i).1 ↔ P a ∨ Q i)) :
    ∀ (is : List β) (a : α), (overItems f a is).2 = [] →
      (P (overItems f a is).1 ↔ P a ∨ ∃ i ∈ is, Q i)
  | [], a, _ => by simp
  | i :: is, a, hok => by
    rw [overItems_cons] at hok ⊢
    obtain ⟨hi, his⟩ := List.append_eq_nil_iff.1 hok
    rw [overItems_some h is _ his, h a i hi, or_assoc]
    simp

theorem overItems_ok {f : α → β → α × List String} :
    ∀ {is : List β} {a : α}, (overItems f a is).2 = [] → ∀ i ∈ is, ∃ a', (f a' i).2 = []
  | i :: is, a, hok, j, hj => by
    rw [overItems_cons] at hok
    obtain ⟨hi, his⟩ := List.append_eq_nil_iff.1 hok
    rcases List.mem_cons.1 hj with rfl | hj
    · exact ⟨a, hi⟩
    · exact overItems_ok his j hj

end Netcfgd.Compile
