import Mathlib.Algebra.GroupWithZero.Nat
import Mathlib.Data.List.Basic

/-!
# How a shell reads a text

The quoting rules of the shell, a byte at a time : what is open around a byte (`Opened`), and what
it does there (`Control.step`). A text is read into its words and operators (`read`).

A template is a text with places for values. Where each place stands in single quotes or in a
comment (`Enclosed`), and the values have no quote and no newline that would end either, the filled
template is read as the template is, with the values in their places (`read_fill`) : no byte of a
value ends a word, starts another or is expanded. A value with a single quote is always read
otherwise (`tokens_ne_of_quote`).
-/

namespace Netcfgd.Shell

inductive Symbol (κ : Type*)
  | byte (b : UInt8)
  | value (k : κ)
deriving DecidableEq

/-- What a shell is inside of. -/
inductive Opened
  | single
  | double
  | parameter
  | command
  | backquote
deriving DecidableEq

/-- A symbol of a word, with what is open around it, the innermost first, and whether a backslash
stands before it. -/
structure Part (κ : Type*) where
  within : List Opened
  escaped : Bool
  symbol : Symbol κ
deriving DecidableEq

inductive Token (κ : Type*)
  | word (parts : List (Part κ))
  | operator (b : UInt8)
deriving DecidableEq

/-! ## One byte -/

/-- Where the reader is. The last byte is kept where it can matter to the next one. -/
structure Control where
  opened : List Opened := []
  comment : Bool := false
  escaped : Bool := false
  inWord : Bool := false
  last : Option UInt8 := some 10
deriving DecidableEq

/-- What a byte does : it belongs to the word, with others or alone, or it ends it. -/
inductive Effect
  | keep (parts : List (Bool × UInt8))
  | skip
  | blank
  | operator (b : UInt8)

def isBlank (b : UInt8) : Bool := b = 32 || b = 9

/-- A newline and the characters of the operators : `&`, `(`, `)`, `;`, `<`, `>` and `|`. -/
def isOperator (b : UInt8) : Bool :=
  b = 10 || b = 38 || b = 40 || b = 41 || b = 59 || b = 60 || b = 62 || b = 124

/-- What a backslash in double quotes escapes : `$`, a backquote, a double quote, a backslash. -/
def isEscapedInDouble (b : UInt8) : Bool := b = 36 || b = 96 || b = 34 || b = 92

/-- Go on in the word. Two `$` are the number of the process, and open nothing. -/
def Control.add (c : Control) (b : UInt8) : Control × Effect :=
  ({ c with inWord := true, last := if b = 36 ∧ c.last = some 36 then none else some b },
    .keep [(false, b)])

def Control.openWith (c : Control) (o : Opened) (parts : List (Bool × UInt8)) : Control × Effect :=
  ({ c with opened := o :: c.opened, inWord := true, last := none }, .keep parts)

def Control.close (c : Control) (parts : List (Bool × UInt8)) : Control × Effect :=
  ({ c with opened := c.opened.tail, inWord := true, last := none }, .keep parts)

/-- A byte outside of quotes and comments, with no backslash before it. -/
def Control.stepBare (c : Control) (b : UInt8) : Control × Effect :=
  if b = 39 ∧ ¬(c.opened.head? = some .parameter ∧ .double ∈ c.opened) then c.openWith .single []
  else if b = 34 then c.openWith .double []
  else if c.opened.head? = some .parameter then
    if b = 125 then c.close [(false, b)] else c.add b
  else if b = 35 ∧ c.last.any (fun l => isBlank l || isOperator l) then
    ({ c with comment := true }, .skip)
  else if c.opened = [] then
    if isBlank b then ({ c with inWord := false, last := some b }, .blank)
    else if isOperator b then ({ c with inWord := false, last := some b }, .operator b)
    else c.add b
  else if c.opened.head? = some .command ∧ b = 41 then c.close [(false, b)]
  else if c.opened.head? = some .command ∧ b = 40 then c.openWith .command [(false, b)]
  else c.add b

def Control.step (c : Control) (b : UInt8) : Control × Effect :=
  if c.comment then
    if b ≠ 10 then (c, .skip)
    else if c.opened = [] then
      ({ c with comment := false, inWord := false, last := some b }, .operator b)
    else ({ c with comment := false, last := some b }, .keep [(false, b)])
  else if c.opened.head? = some .single then
    if b = 39 then c.close [] else ({ c with inWord := true, last := none }, .keep [(false, b)])
  else if c.escaped then
    if b = 10 then ({ c with escaped := false }, .skip)
    else if c.opened.head? = some .double ∧ isEscapedInDouble b = false then
      ({ c with escaped := false, inWord := true, last := some b }, .keep [(false, 92), (false, b)])
    else ({ c with escaped := false, inWord := true, last := none }, .keep [(true, b)])
  else if b = 92 then ({ c with escaped := true }, .skip)
  else if b = 123 ∧ c.last = some 36 then c.openWith .parameter [(false, b)]
  else if b = 40 ∧ c.last = some 36 then c.openWith .command [(false, b)]
  else if b = 96 then
    if c.opened.head? = some .backquote then c.close [(false, b)]
    else c.openWith .backquote [(false, b)]
  else if c.opened.head? = some .double then
    if b = 34 then c.close [] else c.add b
  else c.stepBare b

/-! ## A text -/

section Read

variable {κ : Type*}

def endWord (c : Control) (w : List (Part κ)) : List (Token κ) :=
  if c.inWord then [.word w] else []

/-- The words and operators of a text. A value belongs to the word it stands in. -/
def read : Control → List (Part κ) → List (Symbol κ) → List (Token κ)
  | c, w, [] => endWord c w
  | c, w, .value k :: rest =>
    if c.comment then read c w rest
    else read { c with escaped := false, inWord := true, last := none }
      (w ++ [⟨c.opened, c.escaped, .value k⟩]) rest
  | c, w, .byte b :: rest =>
    match c.step b with
    | (next, .keep parts) =>
      read next (w ++ parts.map fun p => ⟨c.opened, p.1, .byte p.2⟩) rest
    | (next, .skip) => read next w rest
    | (next, .blank) => endWord c w ++ read next [] rest
    | (next, .operator o) => endWord c w ++ .operator o :: read next [] rest

def tokens (text : List UInt8) : List (Token κ) := read {} [] (text.map .byte)

/-! ## Templates -/

/-- A template with its places filled. -/
def fill (σ : κ → List UInt8) (template : List (Symbol κ)) : List UInt8 :=
  template.flatMap fun x => match x with
    | .byte b => [b]
    | .value k => σ k

def fillPart (σ : κ → List UInt8) (p : Part κ) : List (Part κ) :=
  match p.symbol with
  | .byte _ => [p]
  | .value k => (σ k).map fun b => { p with symbol := .byte b }

def fillToken (σ : κ → List UInt8) : Token κ → Token κ
  | .word parts => .word (parts.flatMap (fillPart σ))
  | .operator b => .operator b

def Control.next (c : Control) (b : UInt8) : Control := (c.step b).1

def Control.after (c : Control) : List (Symbol κ) → Control
  | [] => c
  | .value _ :: rest => c.after rest
  | .byte b :: rest => (c.next b).after rest

/-- Whether each place stands in a comment, or in single quotes in a word. -/
def Enclosed : Control → List (Symbol κ) → Bool
  | _, [] => true
  | c, .value _ :: rest =>
    (c.comment || (c.opened.head? = some .single && !c.escaped && c.inWord && c.last.isNone)) &&
      Enclosed c rest
  | c, .byte b :: rest => Enclosed (c.next b) rest

/-- The values that stand in single quotes, and those that stand in comments. -/
def placed (inComment : Bool) : Control → List (Symbol κ) → List κ
  | _, [] => []
  | c, .value k :: rest =>
    if c.comment = inComment then k :: placed inComment c rest else placed inComment c rest
  | c, .byte b :: rest => placed inComment (c.next b) rest

theorem enclosed_append {ys : List (Symbol κ)} : ∀ {xs : List (Symbol κ)} {c : Control},
    Enclosed c (xs ++ ys) = (Enclosed c xs && Enclosed (c.after xs) ys)
  | [], _ => rfl
  | .value k :: xs, c => by
    rw [List.cons_append, Enclosed, Enclosed, Control.after, enclosed_append]
    exact (Bool.and_assoc _ _ _).symm
  | .byte b :: xs, c => by rw [List.cons_append, Enclosed, Enclosed, Control.after, enclosed_append]

theorem after_append {ys : List (Symbol κ)} : ∀ {xs : List (Symbol κ)} {c : Control},
    c.after (xs ++ ys) = (c.after xs).after ys
  | [], _ => rfl
  | .value k :: xs, c => by rw [List.cons_append, Control.after, Control.after, after_append]
  | .byte b :: xs, c => by rw [List.cons_append, Control.after, Control.after, after_append]

theorem placed_append {inComment : Bool} {ys : List (Symbol κ)} :
    ∀ {xs : List (Symbol κ)} {c : Control},
      placed inComment c (xs ++ ys) = placed inComment c xs ++ placed inComment (c.after xs) ys
  | [], _ => rfl
  | .value k :: xs, c => by
    rw [List.cons_append, placed, placed, Control.after, placed_append]
    split_ifs <;> rfl
  | .byte b :: xs, c => by rw [List.cons_append, placed, placed, Control.after, placed_append]

def places : List (Symbol κ) → List κ
  | [] => []
  | .value k :: rest => k :: places rest
  | .byte _ :: rest => places rest

theorem length_fill_le (σ : κ → List UInt8) : ∀ template : List (Symbol κ),
    (fill σ template).length ≤
      template.length + ((places template).map fun k => (σ k).length).sum
  | [] => Nat.zero_le _
  | .value k :: rest => by
    have ih := length_fill_le σ rest
    unfold fill at ih ⊢
    rw [places, List.flatMap_cons, List.length_append, List.map_cons, List.sum_cons,
      List.length_cons]
    dsimp only
    omega
  | .byte b :: rest => by
    have ih := length_fill_le σ rest
    unfold fill at ih ⊢
    rw [places, List.flatMap_cons, List.length_append, List.length_singleton, List.length_cons]
    omega

/-! ## Values in their places -/

section Values

variable {σ : κ → List UInt8} {c : Control} {w : List (Part κ)} {rest : List (Symbol κ)}

theorem flatMap_fillPart_bytes (opened : List Opened) (parts : List (Bool × UInt8)) :
    (parts.map fun p => (⟨opened, p.1, .byte p.2⟩ : Part κ)).flatMap (fillPart σ) =
      parts.map fun p => ⟨opened, p.1, .byte p.2⟩ := by
  rw [List.flatMap_map, List.map_eq_flatMap]
  rfl

theorem read_comment (hc : c.comment = true) : ∀ {v : List UInt8}, 10 ∉ v →
    read c w (v.map .byte ++ rest) = read c w rest
  | [], _ => rfl
  | b :: v, hv => by
    have hb : b ≠ 10 := fun h => hv (h ▸ List.mem_cons_self)
    have hstep : c.step b = (c, .skip) := by rw [Control.step, if_pos hc, if_pos hb]
    rw [List.map_cons, List.cons_append, read, hstep]
    exact read_comment hc fun h => hv (List.mem_cons_of_mem b h)

theorem read_single (hc : c.comment = false) (hopened : c.opened.head? = some .single)
    (hword : c.inWord = true) (hlast : c.last = none) : ∀ {v : List UInt8} {w : List (Part κ)},
      39 ∉ v → read c w (v.map .byte ++ rest) =
        read c (w ++ v.map fun b => ⟨c.opened, false, .byte b⟩) rest
  | [], w, _ => by rw [List.map_nil, List.map_nil, List.append_nil, List.nil_append]
  | b :: v, w, hv => by
    have hb : b ≠ 39 := fun h => hv (h ▸ List.mem_cons_self)
    have hstep : c.step b = (c, .keep [(false, b)]) := by
      rw [Control.step, if_neg (by rw [hc]; decide), if_pos hopened, if_neg hb]
      obtain ⟨opened, comment, escaped, inWord, last⟩ := c
      obtain rfl : inWord = true := hword
      obtain rfl : last = none := hlast
      rfl
    rw [List.map_cons, List.cons_append, read, hstep]
    dsimp only
    rw [read_single hc hopened hword hlast fun h => hv (List.mem_cons_of_mem b h),
      List.append_assoc]
    rfl

theorem endWord_fill : (endWord c w).map (fillToken σ) = endWord c (w.flatMap (fillPart σ)) := by
  unfold endWord
  split_ifs <;> rfl

end Values

/-- **Values stay in their places.** A template whose places stand in single quotes or in comments,
filled with values that have nothing that ends either, is read as the template, filled. -/
theorem read_fill {σ : κ → List UInt8} : ∀ {template : List (Symbol κ)} {c : Control}
    {w : List (Part κ)}, Enclosed c template = true →
    (∀ k ∈ placed false c template, 39 ∉ σ k) → (∀ k ∈ placed true c template, 10 ∉ σ k) →
    read c (w.flatMap (fillPart σ)) ((fill σ template).map .byte) =
      (read c w template).map (fillToken σ)
  | [], c, w, _, _, _ => endWord_fill.symm
  | .value k :: rest, c, w, henclosed, hsingle, hcomment => by
    have hfill : (fill σ (.value k :: rest)).map Symbol.byte =
        (σ k).map .byte ++ (fill σ rest).map (@Symbol.byte κ) := by
      rw [fill, List.flatMap_cons, List.map_append]
      rfl
    rw [Enclosed, Bool.and_eq_true] at henclosed
    obtain ⟨hplace, henclosed⟩ := henclosed
    rw [hfill, read]
    rw [placed] at hsingle hcomment
    cases hc : c.comment with
    | true =>
      rw [if_pos hc, List.forall_mem_cons] at hcomment
      rw [if_neg (by rw [hc]; decide)] at hsingle
      rw [read_comment hc hcomment.1, if_pos rfl]
      exact read_fill henclosed hsingle hcomment.2
    | false =>
      rw [if_pos hc, List.forall_mem_cons] at hsingle
      rw [if_neg (by rw [hc]; decide)] at hcomment
      rw [hc, Bool.false_or] at hplace
      simp only [Bool.and_eq_true, decide_eq_true_eq, Bool.not_eq_true', Option.isNone_iff_eq_none]
        at hplace
      obtain ⟨⟨⟨hopened, hescaped⟩, hword⟩, hlast⟩ := hplace
      have hsame : ({ opened := c.opened, inWord := true, last := none } : Control) = c := by
        obtain ⟨opened, comment, escaped, inWord, last⟩ := c
        obtain rfl : comment = false := hc
        obtain rfl : escaped = false := hescaped
        obtain rfl : inWord = true := hword
        obtain rfl : last = none := hlast
        rfl
      rw [read_single hc hopened hword hlast hsingle.1, if_neg (by decide), hsame, hescaped,
        ← read_fill henclosed hsingle.2 hcomment, List.flatMap_append, List.flatMap_singleton]
      rfl
  | .byte b :: rest, c, w, henclosed, hsingle, hcomment => by
    have hfill : (fill σ (.byte b :: rest)).map Symbol.byte =
        Symbol.byte b :: (fill σ rest).map (@Symbol.byte κ) := rfl
    rw [Enclosed] at henclosed
    rw [placed] at hsingle hcomment
    have ih := fun w => @read_fill σ rest (c.next b) w henclosed hsingle hcomment
    rw [hfill, read, read]
    unfold Control.next at ih
    cases hstep : c.step b with
    | mk next effect =>
      rw [hstep] at ih
      cases effect with
      | keep parts =>
        dsimp only
        rw [← ih, List.flatMap_append, flatMap_fillPart_bytes]
      | skip => exact ih w
      | blank =>
        dsimp only
        rw [List.map_append, ← ih [], endWord_fill]
        rfl
      | operator o =>
        dsimp only
        rw [List.map_append, List.map_cons, ← ih [], endWord_fill]
        rfl

/-! ## What is never read -/

/-- No symbol that single quotes stand around is a single quote. -/
def NoQuote (w : List (Part κ)) : Prop :=
  ∀ p ∈ w, p.within.head? = some .single → p.symbol ≠ .byte 39

theorem noQuote_step {c next : Control} {b : UInt8} {parts : List (Bool × UInt8)}
    (h : c.step b = (next, .keep parts)) :
    NoQuote (parts.map fun p => (⟨c.opened, p.1, .byte p.2⟩ : Part κ)) := by
  intro p hp hsingle heq
  obtain ⟨⟨escaped, x⟩, hx, rfl⟩ := List.mem_map.1 hp
  obtain rfl : x = 39 := Symbol.byte.inj heq
  have hne : c.opened ≠ [] := by
    rintro hnil
    rw [hnil] at hsingle
    cases hsingle
  unfold Control.step at h
  by_cases hc : c.comment = true
  · rw [if_pos hc] at h
    by_cases hb : b = 10
    · rw [if_neg (not_not.2 hb), if_neg hne] at h
      obtain rfl : [(false, b)] = parts := Effect.keep.inj (Prod.mk.inj h).2
      rw [hb, List.mem_singleton] at hx
      exact absurd (Prod.mk.inj hx).2 (by decide)
    · rw [if_pos hb] at h
      cases (Prod.mk.inj h).2
  · rw [if_neg hc, if_pos hsingle] at h
    by_cases hb : b = 39
    · rw [if_pos hb] at h
      obtain rfl : [] = parts := Effect.keep.inj (Prod.mk.inj h).2
      cases hx
    · rw [if_neg hb] at h
      obtain rfl : [(false, b)] = parts := Effect.keep.inj (Prod.mk.inj h).2
      rw [List.mem_singleton] at hx
      exact hb (Prod.mk.inj hx).2.symm

theorem noQuote_of_mem_endWord {c : Control} {w parts : List (Part κ)} (hw : NoQuote w)
    (h : .word parts ∈ endWord c w) : NoQuote parts := by
  unfold endWord at h
  split_ifs at h
  · rw [List.mem_singleton] at h
    rwa [Token.word.inj h]
  · cases h

theorem noQuote_of_mem_read : ∀ {text : List UInt8} {c : Control} {w parts : List (Part κ)},
    NoQuote w → .word parts ∈ read c w (text.map .byte) → NoQuote parts
  | [], c, w, parts, hw, h => noQuote_of_mem_endWord hw h
  | b :: text, c, w, parts, hw, h => by
    rw [List.map_cons, read] at h
    cases hstep : c.step b with
    | mk next effect =>
      rw [hstep] at h
      cases effect with
      | keep kept =>
        refine noQuote_of_mem_read (fun p hp => ?_) h
        rcases List.mem_append.1 hp with hp | hp
        · exact hw p hp
        · exact noQuote_step hstep p hp
      | skip => exact noQuote_of_mem_read hw h
      | blank =>
        rcases List.mem_append.1 h with h | h
        · exact noQuote_of_mem_endWord hw h
        · exact noQuote_of_mem_read (fun p hp => by cases hp) h
      | operator o =>
        rcases List.mem_append.1 h with h | h
        · exact noQuote_of_mem_endWord hw h
        · rcases List.mem_cons.1 h with h | h
          · cases h
          · exact noQuote_of_mem_read (fun p hp => by cases hp) h

theorem tokens_ne_of_quote {σ : κ → List UInt8} {template : List (Symbol κ)} {text : List UInt8}
    {k : κ} {parts : List (Part κ)} {within : List Opened}
    (hword : .word parts ∈ read {} [] template)
    (hplace : ⟨.single :: within, false, .value k⟩ ∈ parts) (hquote : 39 ∈ σ k) :
    tokens text ≠ (read {} [] template).map (fillToken σ) := by
  intro heq
  have hmem : .word (parts.flatMap (fillPart σ)) ∈ tokens text := by
    rw [heq]
    exact List.mem_map_of_mem hword
  have hpart : ⟨.single :: within, false, .byte 39⟩ ∈ parts.flatMap (fillPart σ) :=
    List.mem_flatMap.2 ⟨_, hplace, List.mem_map_of_mem hquote⟩
  exact noQuote_of_mem_read (fun p hp => by cases hp) hmem _ hpart rfl rfl

end Read

end Netcfgd.Shell
