import Netcfgd.HookBody

/-!
# Labels and strings read back

`ncfg_render_quote` and `ncfg_render_label` of `src/compile/render.c`, against the lexer and the
grammar that read what they write. A string is quoted, and a label only where it would not be an
identifier.

What is quoted is read as it is (`stringRead`), and so is a label, the words `true` and `false`
apart : they are written bare, and read as booleans (`rendered_read_iff`).
-/

namespace Netcfgd.Parse

open Netcfgd.Json (ascii asciis asciis_ofList Buf)

/-! ## Writing -/

/-- `add_escaped`. -/
def addEscaped (value : Bytes) (out : Buf) : Buf :=
  value.foldl (fun out c =>
    (if c = 92 ∨ c = ascii '"' then out.add [92] else out).add [c]) out

/-- `ncfg_render_quote`. -/
def renderQuote (value : Bytes) (out : Buf) : Buf :=
  (addEscaped value (out.add [ascii '"'])).add [ascii '"']

def isBare : Bytes → Bool
  | [] => false
  | c :: rest => isIdentStart c && rest.all isIdentContinue

/-- `ncfg_render_label`. -/
def renderLabel (name : Bytes) (out : Buf) : Buf :=
  if isBare name then out.add name else renderQuote name out

/-- A text of characters, none of them NUL. -/
structure Utf8Text where
  chars : List Char
  noNul : '\x00' ∉ chars

def Utf8Text.bytes (s : Utf8Text) : Bytes := s.chars.flatMap String.utf8EncodeChar

def escape (c : UInt8) : Bytes := if c = 92 ∨ c = ascii '"' then [92, c] else [c]

def inQuotes (value : Bytes) : Bytes := ascii '"' :: (value.flatMap escape ++ [ascii '"'])

theorem addEscaped_ok : ∀ {value : Bytes} {out : Buf}, (addEscaped value out).failed = false →
    out.failed = false ∧
      addEscaped value out = { out with bytes := out.bytes ++ value.flatMap escape }
  | [], out, h => ⟨h, by simp [addEscaped]⟩
  | c :: value, out, h => by
    have hstep : addEscaped (c :: value) out = addEscaped value
      ((if c = 92 ∨ c = ascii '"' then out.add [92] else out).add [c]) := rfl
    rw [hstep] at h ⊢
    obtain ⟨hc, hrest⟩ := addEscaped_ok h
    obtain ⟨hmark, hadd⟩ := Json.Buf.add_ok hc
    rw [hrest, hadd, List.flatMap_cons, escape]
    split_ifs at hmark ⊢
    · obtain ⟨hout, hslash⟩ := Json.Buf.add_ok hmark
      exact ⟨hout, by rw [hslash]; simp⟩
    · exact ⟨hmark, by simp⟩

theorem length_of_add {out : Buf} {c : UInt8} (h : (out.add [c]).failed = false) :
    out.bytes.length + 1 ≤ out.limit := by
  obtain ⟨hout, -⟩ := Json.Buf.add_ok h
  unfold Json.Buf.add at h
  rw [if_neg (by simp [hout])] at h
  by_contra hover
  rw [if_pos (by rw [List.length_singleton]; omega)] at h
  cases h

theorem renderQuote_ok {value : Bytes} {out : Buf} (h : (renderQuote value out).failed = false) :
    (renderQuote value out).bytes = out.bytes ++ inQuotes value ∧ value.length ≤ out.limit := by
  obtain ⟨hvalue, hclose⟩ := Json.Buf.add_ok h
  obtain ⟨hopen, hescaped⟩ := addEscaped_ok hvalue
  obtain ⟨-, hquote⟩ := Json.Buf.add_ok hopen
  have hroom := length_of_add h
  have hlong : ∀ v : Bytes, v.length ≤ (v.flatMap escape).length := by
    intro v
    induction v with
    | nil => exact Nat.zero_le _
    | cons c v ih =>
      rw [List.flatMap_cons, List.length_append, List.length_cons, escape]
      split_ifs <;> simp only [List.length_cons, List.length_nil] <;> omega
  constructor
  · rw [renderQuote, hclose, hescaped, hquote]
    simp [inQuotes]
  · rw [hescaped, hquote] at hroom
    have := hlong value
    simp only [List.length_append] at hroom
    omega

/-! ## Reading a string -/

/-- A byte that starts a sequence of so many bytes, and ends no string. -/
structure Leads (b : UInt8) (count : ℕ) : Prop where
  quote : b ≠ ascii '"'
  slash : b ≠ 92
  count : utf8SequenceLength b = count

instance (b : UInt8) (count : ℕ) : Decidable (Leads b count) :=
  decidable_of_iff (b ≠ ascii '"' ∧ b ≠ 92 ∧ utf8SequenceLength b = count)
    ⟨fun h => ⟨h.1, h.2.1, h.2.2⟩, fun h => ⟨h.quote, h.slash, h.count⟩⟩

def Scans (bytes : Bytes) : Prop :=
  ∀ n text rest, scanString n text (bytes.flatMap escape ++ rest) =
    scanString (n + (bytes.flatMap escape).length) (text ++ bytes) rest

theorem escape_of_ne {c : UInt8} (hquote : c ≠ ascii '"') (hslash : c ≠ 92) : escape c = [c] :=
  if_neg (by simp [hquote, hslash])

theorem scans_nil : Scans [] := by
  intro n text rest
  rw [List.flatMap_nil, List.append_nil]
  rfl

theorem Scans.append {bytes more : Bytes} (h : Scans bytes) (hmore : Scans more) :
    Scans (bytes ++ more) := by
  intro n text rest
  rw [List.flatMap_append, List.append_assoc, h, hmore, List.length_append, Nat.add_assoc,
    List.append_assoc]

theorem scans_escaped {b : UInt8} (h : b = 92 ∨ b = ascii '"') : Scans [b] := by
  intro n text rest
  rw [List.flatMap_singleton, escape, if_pos h]
  rcases h with rfl | rfl <;> rfl

section Scan

variable {b x y z : UInt8}

theorem scans_one (h : Leads b 1) (hvalid : utf8IsValid [b]) : Scans [b] := by
  intro n text rest
  rw [List.flatMap_singleton, escape_of_ne h.quote h.slash]
  change scanString n text (b :: rest) = _
  rw [scanString.eq_def]
  dsimp only
  rw [if_neg h.quote, if_neg h.slash, h.count]
  exact if_pos hvalid

theorem scans_two (h : Leads b 2) (hx : escape x = [x]) (hvalid : utf8IsValid [b, x]) :
    Scans [b, x] := by
  intro n text rest
  rw [List.flatMap_cons, List.flatMap_singleton, escape_of_ne h.quote h.slash, hx]
  change scanString n text (b :: x :: rest) = _
  rw [scanString.eq_def]
  dsimp only
  rw [if_neg h.quote, if_neg h.slash, h.count]
  exact if_pos hvalid

theorem scans_three (h : Leads b 3) (hx : escape x = [x]) (hy : escape y = [y])
    (hvalid : utf8IsValid [b, x, y]) : Scans [b, x, y] := by
  intro n text rest
  rw [List.flatMap_cons, List.flatMap_cons, List.flatMap_singleton, escape_of_ne h.quote h.slash,
    hx, hy]
  change scanString n text (b :: x :: y :: rest) = _
  rw [scanString.eq_def]
  dsimp only
  rw [if_neg h.quote, if_neg h.slash, h.count]
  exact if_pos hvalid

theorem scans_four (h : Leads b 4) (hx : escape x = [x]) (hy : escape y = [y])
    (hz : escape z = [z]) (hvalid : utf8IsValid [b, x, y, z]) : Scans [b, x, y, z] := by
  intro n text rest
  rw [List.flatMap_cons, List.flatMap_cons, List.flatMap_cons, List.flatMap_singleton,
    escape_of_ne h.quote h.slash, hx, hy, hz]
  change scanString n text (b :: x :: y :: z :: rest) = _
  rw [scanString.eq_def]
  dsimp only
  rw [if_neg h.quote, if_neg h.slash, h.count]
  exact if_pos hvalid

end Scan

def tailByte (k : ℕ) : UInt8 := UInt8.ofNat (k % 64 + 0x80)

theorem escape_tailByte (k : ℕ) : escape (tailByte k) = [tailByte k] := by
  have hall : ∀ k < 64, escape (UInt8.ofNat (k + 0x80)) = [UInt8.ofNat (k + 0x80)] := by decide
  exact hall _ (Nat.mod_lt k (by decide))

theorem leads_two : ∀ k < 32, Leads (UInt8.ofNat (k + 0xc0)) 2 := by decide

theorem leads_three : ∀ k < 16, Leads (UInt8.ofNat (k + 0xe0)) 3 := by decide

theorem leads_four : ∀ k < 8, Leads (UInt8.ofNat (k + 0xf0)) 4 := by decide

theorem tail_bounds (k : ℕ) : (0x80 ≤ tailByte k && tailByte k ≤ 0xbf) = true := by
  have hall :
      ∀ k < 64, (0x80 ≤ UInt8.ofNat (k + 0x80) && UInt8.ofNat (k + 0x80) ≤ 0xbf) = true := by
    decide
  exact hall _ (Nat.mod_lt k (by decide))

theorem valid_two {k : ℕ} (hk : 2 ≤ k) (hlt : k < 32) (j : ℕ) :
    utf8IsValid [UInt8.ofNat (k + 0xc0), tailByte j] = true := by
  have hall : ∀ k < 32, 2 ≤ k →
      (0xc2 ≤ UInt8.ofNat (k + 0xc0) && UInt8.ofNat (k + 0xc0) ≤ 0xdf) = true := by decide
  simp only [utf8IsValid, List.all_cons, List.all_nil, tail_bounds, hall k hlt hk, Bool.and_self]

theorem valid_three {k i : ℕ} (hk : k < 16) (hlow : k = 0 → 32 ≤ i % 64)
    (hhigh : k = 13 → i % 64 < 32) (j : ℕ) :
    utf8IsValid [UInt8.ofNat (k + 0xe0), tailByte i, tailByte j] = true := by
  have hall : ∀ k < 16, ∀ i < 64, (k = 0 → 32 ≤ i) → (k = 13 → i < 32) →
      (if UInt8.ofNat (k + 0xe0) = 0xe0 then decide (0xa0 ≤ UInt8.ofNat (i + 0x80))
        else if UInt8.ofNat (k + 0xe0) = 0xed then decide (UInt8.ofNat (i + 0x80) ≤ 0x9f)
        else 0xe1 ≤ UInt8.ofNat (k + 0xe0) && UInt8.ofNat (k + 0xe0) ≤ 0xef) = true := by
    decide
  simp only [utf8IsValid, List.all_cons, List.all_nil, tail_bounds, Bool.true_and]
  exact hall k hk (i % 64) (Nat.mod_lt i (by decide)) hlow hhigh

theorem valid_four {k i : ℕ} (hk : k ≤ 4) (hlow : k = 0 → 16 ≤ i % 64)
    (hhigh : k = 4 → i % 64 < 16) (j l : ℕ) :
    utf8IsValid [UInt8.ofNat (k + 0xf0), tailByte i, tailByte j, tailByte l] = true := by
  have hall : ∀ k ≤ 4, ∀ i < 64, (k = 0 → 16 ≤ i) → (k = 4 → i < 16) →
      (if UInt8.ofNat (k + 0xf0) = 0xf0 then decide (0x90 ≤ UInt8.ofNat (i + 0x80))
        else if UInt8.ofNat (k + 0xf0) = 0xf4 then decide (UInt8.ofNat (i + 0x80) ≤ 0x8f)
        else 0xf1 ≤ UInt8.ofNat (k + 0xf0) && UInt8.ofNat (k + 0xf0) ≤ 0xf3) = true := by
    decide
  simp only [utf8IsValid, List.all_cons, List.all_nil, tail_bounds, Bool.true_and]
  exact hall k hk (i % 64) (Nat.mod_lt i (by decide)) hlow hhigh

theorem scans_char (c : Char) : Scans (String.utf8EncodeChar c) := by
  have hv : c.val.toNat < 0xd800 ∨ 0xdfff < c.val.toNat ∧ c.val.toNat < 0x110000 := c.valid
  unfold String.utf8EncodeChar
  dsimp only
  generalize c.val.toNat = v at hv
  split_ifs with h1 h2 h3
  · have hall : ∀ v < 128, UInt8.ofNat v = 92 ∨ UInt8.ofNat v = ascii '"' ∨
        Leads (UInt8.ofNat v) 1 ∧ utf8IsValid [UInt8.ofNat v] := by decide
    rcases hall v (by omega) with hslash | hquote | ⟨hlead, hvalid⟩
    · exact scans_escaped (.inl hslash)
    · exact scans_escaped (.inr hquote)
    · exact scans_one hlead hvalid
  · have hlead := leads_two (v / 64 % 32) (Nat.mod_lt _ (by decide))
    exact scans_two hlead (escape_tailByte v) (valid_two (by omega) (Nat.mod_lt _ (by decide)) v)
  · have hlead := leads_three (v / 4096 % 16) (Nat.mod_lt _ (by decide))
    exact scans_three hlead (escape_tailByte (v / 64)) (escape_tailByte v)
      (valid_three (Nat.mod_lt _ (by decide)) (by omega) (by omega) v)
  · have hlead := leads_four (v / 262144 % 8) (Nat.mod_lt _ (by decide))
    exact scans_four hlead (escape_tailByte (v / 4096)) (escape_tailByte (v / 64))
      (escape_tailByte v) (valid_four (by omega) (by omega) (by omega) (v / 64) v)

theorem scans_chars (chars : List Char) : Scans (chars.flatMap String.utf8EncodeChar) := by
  induction chars with
  | nil => exact scans_nil
  | cons c chars ih => exact (scans_char c).append ih

theorem lexString_inQuotes (s : Utf8Text) (hlong : s.bytes.length ≤ defaultLimit) (after : Bytes) :
    lexString (inQuotes s.bytes ++ after) = (.ok (.string s.bytes), (inQuotes s.bytes).length) := by
  have hscan : scanString 1 [] (inQuotes s.bytes ++ after).tail =
      (.ok s.bytes, (inQuotes s.bytes).length) := by
    have htail : (inQuotes s.bytes ++ after).tail =
        s.bytes.flatMap escape ++ (ascii '"' :: after) := by
      simp [inQuotes]
    rw [htail, Utf8Text.bytes, scans_chars, scanString.eq_def, List.nil_append]
    simp only [inQuotes, List.length_cons, List.length_append, List.length_nil, if_true]
    rw [Nat.add_comm 1, Nat.add_assoc]
  rw [lexString, hscan]
  exact if_neg (Nat.not_lt.2 hlong)

/-! ## Reading a label -/

def bareKind (name : Bytes) : TokenKind :=
  if name = asciis "true" then .boolean true
  else if name = asciis "false" then .boolean false
  else .ident name

theorem tokenOf_inQuotes (s : Utf8Text) (hlong : s.bytes.length ≤ defaultLimit) (after : Bytes) :
    tokenOf (inQuotes s.bytes ++ after) =
      (.ok (.string s.bytes), (inQuotes s.bytes).length) := by
  rw [← lexString_inQuotes s hlong after]
  rfl

theorem identStart_plain (c : UInt8) (h : isIdentStart c = true) : punctuation c = none ∧
    c ≠ ascii '"' ∧ ¬(c = ascii '-' ∨ isDigit c = true) ∧ isIdentContinue c = true ∧
      ¬(c = 32 ∨ c = 9 ∨ c = 13) ∧ c ≠ ascii '#' := by
  have hall : ∀ n < 256, isIdentStart (UInt8.ofNat n) = true →
      punctuation (UInt8.ofNat n) = none ∧ UInt8.ofNat n ≠ ascii '"' ∧
        ¬(UInt8.ofNat n = ascii '-' ∨ isDigit (UInt8.ofNat n) = true) ∧
          isIdentContinue (UInt8.ofNat n) = true ∧
            ¬(UInt8.ofNat n = 32 ∨ UInt8.ofNat n = 9 ∨ UInt8.ofNat n = 13) ∧
              UInt8.ofNat n ≠ ascii '#' := by
    decide +kernel
  have hc := hall c.toNat c.toNat_lt
  rw [UInt8.ofNat_toNat] at hc
  exact hc h

theorem tokenOf_bare {name : Bytes} (h : isBare name = true) (after : Bytes) :
    tokenOf (name ++ ascii ' ' :: after) = (.ok (bareKind name), name.length) := by
  cases name with
  | nil => cases h
  | cons c rest =>
    rw [isBare, Bool.and_eq_true] at h
    obtain ⟨hpunctuation, hquote, hnumber, hcontinue, -, -⟩ := identStart_plain c h.1
    have hread : ((c :: rest) ++ ascii ' ' :: after).takeWhile isIdentContinue = c :: rest := by
      rw [List.takeWhile_append_of_pos, List.takeWhile_cons_of_neg (by decide), List.append_nil]
      intro b hb
      rcases List.mem_cons.1 hb with rfl | hb
      · exact hcontinue
      · exact List.all_eq_true.1 h.2 b hb
    rw [List.cons_append, tokenOf, hpunctuation]
    dsimp only
    rw [if_neg hquote, if_neg hnumber, if_pos h.1, lexIdent, ← List.cons_append, hread, bareKind]

theorem Lexer.next_of_token {l : Lexer} {kind : TokenKind} {n : ℕ}
    (h : tokenOf (afterTrivia l.rest) = (.ok kind, n)) : ∃ span l',
      l.next = (.ok ⟨kind, span⟩, l') ∧ l'.rest = (afterTrivia l.rest).drop n := by
  have hrest := Lexer.next_rest l
  rw [afterToken, h] at hrest
  refine ⟨{ (l.advance (trivia l.rest)).here with length := n }, _, ?_, hrest⟩
  rw [afterTrivia] at h
  rw [Lexer.next]
  dsimp only
  rw [Lexer.advance_rest, h]

theorem Parser.pull_of_token {p : Parser} {kind : TokenKind} {n : ℕ}
    (h : tokenOf (afterTrivia p.lexer.rest) = (.ok kind, n)) : ∃ span l',
      p.pull = (⟨kind, span⟩, { p with lexer := l' }) ∧
        l'.rest = (afterTrivia p.lexer.rest).drop n := by
  obtain ⟨span, l', hnext, hrest⟩ := Lexer.next_of_token h
  refine ⟨span, l', ?_, hrest⟩
  rw [Parser.pull, hnext]

/-- A string is read back as the one token there is, from the quotes it was put in. -/
def StringRead (s : Utf8Text) : Prop :=
  ∀ before : Bytes, (renderQuote s.bytes ⟨before, defaultLimit, false⟩).failed = false →
    ∃ text, (renderQuote s.bytes ⟨before, defaultLimit, false⟩).bytes = before ++ text ∧
      ∀ (after : Bytes) (l : Lexer), l.rest = text ++ after →
        ∃ span l', l.next = (.ok ⟨.string s.bytes, span⟩, l') ∧ l'.rest = after

/-- After a head and before a brace, a label is read as the label of the block, by a parser that has
the head behind it, as `parse_block` leaves it, and by one that has looked at what comes next, as
`parse_item` does. -/
def LabelRead (s : Utf8Text) (head : Bytes) : Prop :=
  ∀ before : Bytes, (renderLabel s.bytes ⟨before, defaultLimit, false⟩).failed = false →
    ∃ text, (renderLabel s.bytes ⟨before, defaultLimit, false⟩).bytes = before ++ text ∧
      ∀ (after : Bytes) (span : Span) (p : Parser), p.lookahead = none →
        p.lexer.rest = ascii ' ' :: (text ++ (asciis " \x7b" ++ after)) →
          ∃ brace p', p'.lexer.rest = after ∧ p'.lookahead = none ∧ p'.diags = p.diags ∧
            ∀ body, parseBlockAfterHead body head span p =
              body ⟨head, some s.bytes, span⟩ brace p' ∧
              parseBlockAfterHead body head span p.peek.2 =
                body ⟨head, some s.bytes, span⟩ brace p'

theorem Parser.peek_peek (p : Parser) : p.peek.2.peek = p.peek := by
  obtain ⟨lexer, lookahead, diags⟩ := p
  cases lookahead <;> rfl

/-- A parser that has looked at a token finds it again. -/
theorem parseBlockAfterHead_peek (body : BlockHead → Span → Parser → Option Item × Parser)
    (head : Bytes) (span : Span) (p : Parser) :
    parseBlockAfterHead body head span p.peek.2 = parseBlockAfterHead body head span p := by
  rw [parseBlockAfterHead, Parser.peek_peek, ← parseBlockAfterHead]

theorem afterTrivia_of_plain {c : UInt8} {rest : Bytes} (hblank : ¬(c = 32 ∨ c = 9 ∨ c = 13))
    (hcomment : c ≠ ascii '#') : afterTrivia (c :: rest) = c :: rest ∧
      afterTrivia (ascii ' ' :: c :: rest) = c :: rest := by
  have hnone : triviaIn false (c :: rest) = 0 := by
    rw [triviaIn, if_neg (by decide), if_neg hblank, if_neg hcomment]
  have hone : triviaIn false (ascii ' ' :: c :: rest) = 1 := by
    rw [triviaIn, if_neg (by decide), if_pos (.inl rfl), hnone]
  exact ⟨by rw [afterTrivia, trivia, hnone, List.drop_zero],
    by rw [afterTrivia, trivia, hone, List.drop_one, List.tail_cons]⟩

theorem afterTrivia_inQuotes (value after : Bytes) :
    afterTrivia (inQuotes value ++ after) = inQuotes value ++ after ∧
      afterTrivia (ascii ' ' :: (inQuotes value ++ after)) = inQuotes value ++ after :=
  afterTrivia_of_plain (by decide) (by decide)

/-- A quoted text is lexed back. -/
theorem stringRead (s : Utf8Text) : StringRead s := by
  intro before hok
  obtain ⟨hbytes, hlong⟩ := renderQuote_ok hok
  refine ⟨_, hbytes, fun after l hrest => ?_⟩
  have htoken := tokenOf_inQuotes s hlong after
  rw [← (afterTrivia_inQuotes s.bytes after).1, ← hrest] at htoken
  obtain ⟨span, l', hnext, hleft⟩ := Lexer.next_of_token htoken
  refine ⟨span, l', hnext, ?_⟩
  rw [hleft, hrest, (afterTrivia_inQuotes s.bytes after).1, List.drop_left]

section Block

variable {text after head name : Bytes} {span : Span} {p : Parser} {kind : TokenKind}

/-- The token after a head is the label of the block where it is a name or a string, and where it
is another there is no block. -/
theorem parseBlockAfterHead_of_token (hahead : p.lookahead = none)
    (hrest : p.lexer.rest = ascii ' ' :: (text ++ (asciis " \x7b" ++ after)))
    (htoken : tokenOf (afterTrivia (ascii ' ' :: (text ++ (asciis " \x7b" ++ after)))) =
      (.ok kind, text.length))
    (hstart : afterTrivia (ascii ' ' :: (text ++ (asciis " \x7b" ++ after))) =
      text ++ (asciis " \x7b" ++ after)) :
    (kind = .ident name ∨ kind = .string name → ∃ brace p', p'.lexer.rest = after ∧
      p'.lookahead = none ∧ p'.diags = p.diags ∧
        ∀ body, parseBlockAfterHead body head span p = body ⟨head, some name, span⟩ brace p') ∧
    (∀ b, kind = .boolean b → ∀ body, (parseBlockAfterHead body head span p).1 = none) := by
  obtain ⟨lexer, lookahead, diags⟩ := p
  obtain rfl : lookahead = none := hahead
  rw [← hrest] at htoken hstart
  obtain ⟨at_, l', hpull, hleft⟩ := Parser.pull_of_token (p := ⟨lexer, none, diags⟩) htoken
  have hpeek : Parser.peek ⟨lexer, none, diags⟩ = (⟨kind, at_⟩, ⟨l', some ⟨kind, at_⟩, diags⟩) := by
    rw [Parser.peek]
    dsimp only
    rw [hpull]
  constructor
  · intro hkind
    have hopen : tokenOf (afterTrivia l'.rest) = (.ok .lbrace, 1) := by
      rw [hleft, hstart, List.drop_left]
      change tokenOf (afterTrivia (ascii ' ' :: 123 :: after)) = _
      rw [(afterTrivia_of_plain (by decide) (by decide)).2]
      rfl
    obtain ⟨brace, l'', hbrace, hafter⟩ := Parser.pull_of_token (p := ⟨l', none, diags⟩) hopen
    refine ⟨brace, ⟨l'', none, diags⟩, ?_, rfl, rfl, fun body => ?_⟩
    · rw [hafter, hleft, hstart, List.drop_left]
      change (afterTrivia (ascii ' ' :: 123 :: after)).drop 1 = _
      rw [(afterTrivia_of_plain (by decide) (by decide)).2]
      rfl
    · have htake : Parser.take ⟨l', none, diags⟩ = (⟨.lbrace, brace⟩, ⟨l'', none, diags⟩) := hbrace
      have hbraced : parseBraced body ⟨head, some name, span⟩ ⟨l', none, diags⟩ =
          body ⟨head, some name, span⟩ brace ⟨l'', none, diags⟩ := by
        rw [parseBraced, htake]
        exact if_neg (by simp)
      rw [parseBlockAfterHead, hpeek]
      rcases hkind with rfl | rfl <;> exact hbraced
  · rintro b rfl body
    rw [parseBlockAfterHead, hpeek]
    rfl

end Block

theorem bareStart {name : Bytes} (h : isBare name = true) (after : Bytes) :
    afterTrivia (ascii ' ' :: (name ++ after)) = name ++ after := by
  cases name with
  | nil => cases h
  | cons c rest =>
    rw [isBare, Bool.and_eq_true] at h
    obtain ⟨-, -, -, -, hblank, hcomment⟩ := identStart_plain c h.1
    exact (afterTrivia_of_plain hblank hcomment).2

theorem not_labelRead {s : Utf8Text} {b : Bool} (hbare : isBare s.bytes = true)
    (hkind : bareKind s.bytes = .boolean b) (hlong : s.bytes.length ≤ defaultLimit)
    (head : Bytes) : ¬LabelRead s head := by
  intro h
  have hadd : renderLabel s.bytes ⟨[], defaultLimit, false⟩ = ⟨s.bytes, defaultLimit, false⟩ := by
    rw [renderLabel, if_pos hbare, Json.Buf.add, if_neg, if_neg (by simpa using hlong)]
    · rfl
    · rintro (hnil | hfailed)
      · rw [hnil] at hbare
        cases hbare
      · cases hfailed
  obtain ⟨text, htext, hread⟩ := h [] (by rw [hadd])
  rw [hadd, List.nil_append] at htext
  obtain rfl : s.bytes = text := htext
  have hstart := bareStart hbare (asciis " \x7b" ++ [])
  obtain ⟨brace, p', -, -, -, hblock⟩ := hread [] ⟨0, 0, 0, 0⟩ ⟨⟨_, 0, 1, 1⟩, none, []⟩ rfl rfl
  have htoken : tokenOf (afterTrivia (ascii ' ' :: (s.bytes ++ (asciis " \x7b" ++ [])))) =
      (.ok (bareKind s.bytes), s.bytes.length) := by
    rw [hstart]
    exact tokenOf_bare hbare _
  have hnone := (@parseBlockAfterHead_of_token _ _ head [] ⟨0, 0, 0, 0⟩ ⟨⟨_, 0, 1, 1⟩, none, []⟩ _
    rfl rfl htoken hstart).2 b hkind fun _ _ p => (some (.incl [] ⟨0, 0, 0, 0⟩), p)
  rw [(hblock _).1] at hnone
  cases hnone

/-- A rendered label is read back unless it is the word of a boolean. -/
theorem labelRead_iff (s : Utf8Text) (head : Bytes) :
    LabelRead s head ↔ s.bytes ≠ asciis "true" ∧ s.bytes ≠ asciis "false" := by
  refine ⟨fun h => ⟨fun htrue => ?_, fun hfalse => ?_⟩, fun h before hok => ?_⟩
  · refine not_labelRead (b := true) ?_ ?_ ?_ head h <;> rw [htrue] <;> decide
  · refine not_labelRead (b := false) ?_ ?_ ?_ head h <;> rw [hfalse] <;> decide
  · by_cases hbare : isBare s.bytes = true
    · rw [renderLabel, if_pos hbare] at hok ⊢
      obtain ⟨-, hadd⟩ := Json.Buf.add_ok hok
      refine ⟨s.bytes, by rw [hadd], fun after span p hahead hrest => ?_⟩
      have hstart := bareStart hbare (asciis " \x7b" ++ after)
      have hkind : bareKind s.bytes = .ident s.bytes := by
        rw [bareKind, if_neg h.1, if_neg h.2]
      have htoken : tokenOf (afterTrivia (ascii ' ' :: (s.bytes ++ (asciis " \x7b" ++ after)))) =
          (.ok (.ident s.bytes), s.bytes.length) := by
        rw [hstart, ← hkind]
        exact tokenOf_bare hbare _
      obtain ⟨brace, p', hafter, hnone, hdiags, hblock⟩ :=
        (parseBlockAfterHead_of_token hahead hrest htoken hstart).1 (.inl rfl)
      exact ⟨brace, p', hafter, hnone, hdiags, fun body =>
        ⟨hblock body, (parseBlockAfterHead_peek ..).trans (hblock body)⟩⟩
    · rw [renderLabel, if_neg hbare] at hok ⊢
      obtain ⟨hbytes, hlong⟩ := renderQuote_ok hok
      refine ⟨_, hbytes, fun after span p hahead hrest => ?_⟩
      have hstart := (afterTrivia_inQuotes s.bytes (asciis " \x7b" ++ after)).2
      have htoken := tokenOf_inQuotes s hlong (asciis " \x7b" ++ after)
      rw [← hstart] at htoken
      obtain ⟨brace, p', hafter, hnone, hdiags, hblock⟩ :=
        (parseBlockAfterHead_of_token hahead hrest htoken hstart).1 (.inr rfl)
      exact ⟨brace, p', hafter, hnone, hdiags, fun body =>
        ⟨hblock body, (parseBlockAfterHead_peek ..).trans (hblock body)⟩⟩

/-- Strings and labels read back, but for a label that is one of the words `true` and `false`. -/
theorem rendered_read_iff (s : Utf8Text) :
    (StringRead s ∧ ∀ head, LabelRead s head) ↔
      s.bytes ≠ asciis "true" ∧ s.bytes ≠ asciis "false" := by
  constructor
  · exact fun h => (labelRead_iff s []).1 (h.2 [])
  · exact fun h => ⟨stringRead s, fun head => (labelRead_iff s head).2 h⟩

def wordLabel : Utf8Text := ⟨['t', 'r', 'u', 'e'], by decide⟩

theorem word_label_not_read : ¬∀ s : Utf8Text, StringRead s ∧ ∀ head, LabelRead s head :=
  fun h => ((labelRead_iff wordLabel []).1 ((h wordLabel).2 [])).1 (by decide)

end Netcfgd.Parse
