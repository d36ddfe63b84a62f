import Netcfgd.AttrString
import Netcfgd.Lexer

/-!
# The four readers of UTF-8

`utf8_is_valid` of `src/compile/lex.c`, `utf8_step` of `src/json/write.c`, `is_utf8` of
`src/sys/wire.c` and `is_text` of `src/daemon/wifi.c` decide for themselves which bytes are text.
They agree, on every text, and what they take is the encodings of characters one after the other
(`readers_agree`) ; a string that the lexer or the reader of the kernel's attributes lets in is one
that the JSON writer writes.
-/

namespace Netcfgd.Utf8

open Nftables (Bytes)
open Steps (Decoder StepOf)

variable {bytes more : Bytes}

/-! ## The bytes of a character -/

/-- The encodings of characters : a code point that is no surrogate, in the one way it has. -/
def character : Language UInt8 := {bytes | ∃ c : Char, bytes = String.utf8EncodeChar c}

/-- The texts of RFC 3629. -/
def text : Language UInt8 := KStar.kstar character

/-- `UTF8-tail`. -/
def Tail (b : UInt8) : Prop := 0x80 ≤ b.toNat ∧ b.toNat ≤ 0xbf

/-- `UTF8-char`, in bytes. -/
def Sequence : Bytes → Prop
  | [a] => a.toNat ≤ 0x7f
  | [a, b] => (0xc2 ≤ a.toNat ∧ a.toNat ≤ 0xdf) ∧ Tail b
  | [a, b, c] => (a.toNat = 0xe0 ∧ 0xa0 ≤ b.toNat ∨ 0xe1 ≤ a.toNat ∧ a.toNat ≤ 0xec ∨
      a.toNat = 0xed ∧ b.toNat ≤ 0x9f ∨ 0xee ≤ a.toNat ∧ a.toNat ≤ 0xef) ∧ Tail b ∧ Tail c
  | [a, b, c, d] => (a.toNat = 0xf0 ∧ 0x90 ≤ b.toNat ∨ 0xf1 ≤ a.toNat ∧ a.toNat ≤ 0xf3 ∨
      a.toNat = 0xf4 ∧ b.toNat ≤ 0x8f) ∧ Tail b ∧ Tail c ∧ Tail d
  | _ => False

theorem byte_eq {a : UInt8} {n : ℕ} (h : n = a.toNat) : UInt8.ofNat n = a := by
  rw [h, UInt8.ofNat_toNat]

theorem toNat_byte {n : ℕ} (h : n < 256) : (UInt8.ofNat n).toNat = n := UInt8.toNat_ofNat_of_lt' h

theorem char_of {v : ℕ} (h : v < 0xd800 ∨ 0xdfff < v ∧ v < 0x110000) :
    ∃ c : Char, c.val.toNat = v := by
  have hv : (UInt32.ofNat v).toNat = v := UInt32.toNat_ofNat_of_lt' (by
    show v < 4294967296
    omega)
  exact ⟨⟨UInt32.ofNat v, by rw [UInt32.isValidChar, hv]; exact h⟩, hv⟩

theorem sequence_encodes (h : Sequence bytes) : bytes ∈ character := by
  match bytes, h with
  | [a], h =>
    simp only [Sequence] at h
    obtain ⟨c, hc⟩ := char_of (v := a.toNat) (by omega)
    refine ⟨c, ?_⟩
    unfold String.utf8EncodeChar
    dsimp only
    rw [hc, if_pos (by omega), byte_eq rfl]
  | [a, b], h =>
    simp only [Sequence, Tail] at h
    obtain ⟨c, hc⟩ := char_of (v := a.toNat % 32 * 64 + b.toNat % 64) (by omega)
    refine ⟨c, ?_⟩
    unfold String.utf8EncodeChar
    dsimp only
    rw [hc, if_neg (by omega), if_pos (by omega), byte_eq (a := a) (by omega),
      byte_eq (a := b) (by omega)]
  | [a, b, c], h =>
    simp only [Sequence, Tail] at h
    obtain ⟨k, hk⟩ := char_of (v := (a.toNat % 16 * 64 + b.toNat % 64) * 64 + c.toNat % 64)
      (by omega)
    refine ⟨k, ?_⟩
    unfold String.utf8EncodeChar
    dsimp only
    rw [hk, if_neg (by omega), if_neg (by omega), if_pos (by omega), byte_eq (a := a) (by omega),
      byte_eq (a := b) (by omega), byte_eq (a := c) (by omega)]
  | [a, b, c, d], h =>
    simp only [Sequence, Tail] at h
    obtain ⟨k, hk⟩ := char_of
      (v := ((a.toNat % 8 * 64 + b.toNat % 64) * 64 + c.toNat % 64) * 64 + d.toNat % 64) (by omega)
    refine ⟨k, ?_⟩
    unfold String.utf8EncodeChar
    dsimp only
    rw [hk, if_neg (by omega), if_neg (by omega), if_neg (by omega), byte_eq (a := a) (by omega),
      byte_eq (a := b) (by omega), byte_eq (a := c) (by omega), byte_eq (a := d) (by omega)]

theorem encodes_sequence (c : Char) : Sequence (String.utf8EncodeChar c) := by
  have hv : c.val.toNat < 0xd800 ∨ 0xdfff < c.val.toNat ∧ c.val.toNat < 0x110000 := c.valid
  unfold String.utf8EncodeChar
  dsimp only
  generalize c.val.toNat = v at hv
  split_ifs with h1 h2 h3
  · simp only [Sequence]
    rw [toNat_byte (by omega)]
    omega
  · simp only [Sequence, Tail]
    rw [toNat_byte (by omega), toNat_byte (by omega)]
    omega
  · simp only [Sequence, Tail]
    rw [toNat_byte (by omega), toNat_byte (by omega), toNat_byte (by omega)]
    omega
  · simp only [Sequence, Tail]
    rw [toNat_byte (by omega), toNat_byte (by omega), toNat_byte (by omega),
      toNat_byte (by omega)]
    omega

theorem mem_character : bytes ∈ character ↔ Sequence bytes :=
  ⟨fun ⟨c, hc⟩ => hc ▸ encodes_sequence c, sequence_encodes⟩

theorem nil_notMem : [] ∉ character := fun h => mem_character.1 h

/-! ## The readers -/

/-- `is_text`. -/
def isTextScheme : Scheme where
  lead lead :=
    if lead < 0x80 then some (0, lead.toNat)
    else if lead &&& 0xe0 = 0xc0 then some (1, (lead &&& 0x1f).toNat)
    else if lead &&& 0xf0 = 0xe0 then some (2, (lead &&& 0x0f).toNat)
    else if lead &&& 0xf8 = 0xf0 then some (3, (lead &&& 0x07).toNat)
    else none
  refuses follow point :=
    (follow = 1 ∧ point < 0x80) ∨ (follow = 2 ∧ point < 0x800) ∨ (follow = 3 ∧ point < 0x10000) ∨
      (0xd800 ≤ point ∧ point ≤ 0xdfff) ∨ 0x10ffff < point

def isText (bytes : Bytes) : Bool := Steps.takes isTextScheme.decoder.step bytes

/-- A turn of the loop of `lex_string`, of a byte that is no quote and no backslash. -/
def lexerDecoder : Decoder UInt8 where
  follow lead := some (Parse.utf8SequenceLength lead - 1)
  good lead more := Parse.utf8IsValid (lead :: more)

/-- `utf8_is_valid`, a sequence after another. -/
def lexerTakes (bytes : Bytes) : Bool := Steps.takes lexerDecoder.step bytes

/-- `utf8_step`, to the end. -/
def writerStep : Bytes → ℕ
  | [] => 0
  | first :: rest => Json.utf8Step first rest

def writerTakes (bytes : Bytes) : Bool := Steps.takes writerStep bytes

/-! ## What a byte says -/

theorem forall_byte {P : UInt8 → Prop} (h : ∀ n < 256, P (UInt8.ofNat n)) (b : UInt8) : P b := by
  have hb := h b.toNat b.toNat_lt
  rwa [UInt8.ofNat_toNat] at hb

theorem continues_iff : ∀ b : UInt8,
    (b &&& 0xc0 = 0x80 ↔ 0x80 ≤ b.toNat ∧ b.toNat ≤ 0xbf) ∧ (b &&& 0x3f).toNat = b.toNat % 64 := by
  refine forall_byte ?_
  decide +kernel

/-- A lead is of one of four kinds, of which the second starts and the fourth ends somewhere. -/
def leadOf (low high : ℕ) (a : UInt8) : Option (ℕ × ℕ) :=
  if a.toNat < 0x80 then some (0, a.toNat)
  else if low ≤ a.toNat ∧ a.toNat ≤ 0xdf then some (1, a.toNat % 32)
  else if 0xe0 ≤ a.toNat ∧ a.toNat ≤ 0xef then some (2, a.toNat % 16)
  else if 0xf0 ≤ a.toNat ∧ a.toNat ≤ high then some (3, a.toNat % 8)
  else none

theorem isUtf8_lead : ∀ a, isUtf8Scheme.lead a = leadOf 0xc2 0xf4 a := by
  refine forall_byte ?_
  decide +kernel

theorem isText_lead : ∀ a, isTextScheme.lead a = leadOf 0xc0 0xf7 a := by
  refine forall_byte ?_
  decide +kernel

theorem sequenceLength_eq : ∀ a, Parse.utf8SequenceLength a =
    if a.toNat < 0xc0 then 1
    else if a.toNat ≤ 0xdf then 2
    else if a.toNat ≤ 0xef then 3
    else if a.toNat ≤ 0xf7 then 4
    else 1 := by
  refine forall_byte ?_
  decide +kernel

/-! ## What each reader takes -/

/-- The code point that bytes make, after those that made another. -/
def pointOf (point : ℕ) (more : Bytes) : ℕ :=
  more.foldl (fun point b => point * 64 + b.toNat % 64) point

theorem assembled_eq_some : ∀ {more : Bytes} {point code : ℕ},
    assembled point more = some code ↔ (∀ b ∈ more, Tail b) ∧ code = pointOf point more
  | [], point, code => by simp [assembled, pointOf, eq_comm]
  | b :: more, point, code => by
    obtain ⟨hcontinues, hbits⟩ := continues_iff b
    have hpoint : point <<< 6 ||| b.toNat % 64 = point * 64 + b.toNat % 64 := by
      rw [← Nat.shiftLeft_add_eq_or_of_lt (Nat.mod_lt _ (by decide)), Nat.shiftLeft_eq]
    rw [assembled, hbits, hpoint, List.forall_mem_cons]
    by_cases hb : Tail b
    · rw [if_neg (not_not.2 (hcontinues.2 hb)), assembled_eq_some]
      simp only [hb, true_and]
      rfl
    · rw [if_pos fun h => hb (hcontinues.1 h)]
      simp [hb]

theorem scheme_iff {s : Scheme} {first : UInt8} :
    s.decoder.follow first = some more.length ∧ s.decoder.good first more = true ↔
      ∃ point, s.lead first = some (more.length, point) ∧ (∀ b ∈ more, Tail b) ∧
        s.refuses more.length (pointOf point more) = false := by
  simp only [Scheme.decoder]
  rcases s.lead first with _ | ⟨follow, point⟩
  · simp
  · simp only [Option.map_some, Option.some.injEq, Prod.mk.injEq]
    constructor
    · rintro ⟨rfl, hgood⟩
      rcases hcode : assembled point more with _ | code
      · rw [hcode] at hgood
        cases hgood
      · obtain ⟨htails, rfl⟩ := assembled_eq_some.1 hcode
        rw [hcode] at hgood
        exact ⟨point, ⟨rfl, rfl⟩, htails, by simpa using hgood⟩
    · rintro ⟨_, ⟨rfl, rfl⟩, htails, hrefuses⟩
      rw [assembled_eq_some.2 ⟨htails, rfl⟩]
      exact ⟨rfl, by simpa using hrefuses⟩

def Refuses (low follow point : ℕ) : Prop :=
  (follow = 1 ∧ point < 0x80 ∧ low < 0xc2) ∨ (follow = 2 ∧ point < 0x800) ∨
    (follow = 3 ∧ point < 0x10000) ∨ (0xd800 ≤ point ∧ point ≤ 0xdfff) ∨ 0x10ffff < point

theorem leadOf_eq_some {low high follow point : ℕ} {a : UInt8} (hlow : 0xc0 ≤ low) :
    leadOf low high a = some (follow, point) ↔
      (a.toNat < 0x80 ∧ follow = 0 ∧ point = a.toNat) ∨
      (low ≤ a.toNat ∧ a.toNat ≤ 0xdf ∧ follow = 1 ∧ point = a.toNat % 32) ∨
      (0xe0 ≤ a.toNat ∧ a.toNat ≤ 0xef ∧ follow = 2 ∧ point = a.toNat % 16) ∨
      (0xf0 ≤ a.toNat ∧ a.toNat ≤ high ∧ follow = 3 ∧ point = a.toNat % 8) := by
  unfold leadOf
  split_ifs <;> simp only [Option.some.injEq, Prod.mk.injEq, false_iff] <;> omega

theorem scheme_stepOf {s : Scheme} {low high : ℕ} (hlow : 0xc0 ≤ low ∧ low ≤ 0xc2)
    (hhigh : 0xf4 ≤ high ∧ high ≤ 0xf7) (hlead : ∀ a, s.lead a = leadOf low high a)
    (hrefuses : ∀ follow point, s.refuses follow point = false ↔ ¬Refuses low follow point) :
    StepOf character s.decoder.step := by
  refine Decoder.stepOf nil_notMem fun a more => ?_
  rw [mem_character, scheme_iff]
  simp only [hlead, hrefuses, leadOf_eq_some hlow.1]
  match more with
  | [] =>
    simp only [Sequence, pointOf, Refuses, List.foldl_nil, List.length_nil, true_and]
    constructor
    · exact fun h => ⟨a.toNat, by omega, by simp, by omega⟩
    · rintro ⟨point, hpoint, -, -⟩
      omega
  | [b] =>
    simp only [Sequence, Tail, pointOf, Refuses, List.foldl_cons, List.foldl_nil, List.length_cons,
      List.length_nil, List.forall_mem_singleton, Nat.reduceAdd, true_and]
    constructor
    · exact fun h => ⟨a.toNat % 32, by omega, h.2, by omega⟩
    · rintro ⟨point, hpoint, htail, hpasses⟩
      omega
  | [b, c] =>
    simp only [Sequence, Tail, pointOf, Refuses, List.foldl_cons, List.foldl_nil, List.length_cons,
      List.length_nil, List.forall_mem_cons, Nat.reduceAdd, true_and]
    constructor
    · exact fun h => ⟨a.toNat % 16, by omega, ⟨h.2.1, h.2.2, by simp⟩, by omega⟩
    · rintro ⟨point, hpoint, ⟨hb, hc, -⟩, hpasses⟩
      omega
  | [b, c, d] =>
    simp only [Sequence, Tail, pointOf, Refuses, List.foldl_cons, List.foldl_nil, List.length_cons,
      List.length_nil, List.forall_mem_cons, Nat.reduceAdd, true_and]
    constructor
    · exact fun h => ⟨a.toNat % 8, by omega, ⟨h.2.1, h.2.2.1, h.2.2.2, by simp⟩, by omega⟩
    · rintro ⟨point, hpoint, ⟨hb, hc, hd, -⟩, hpasses⟩
      omega
  | b :: c :: d :: e :: more =>
    simp only [Sequence, List.length_cons]
    constructor
    · exact False.elim
    · rintro ⟨point, hpoint, -⟩
      omega

/-- `is_utf8` takes one character at a step. -/
theorem isUtf8_stepOf : StepOf character isUtf8Scheme.decoder.step := by
  refine scheme_stepOf (by decide) (by decide) isUtf8_lead fun extra code => ?_
  simp only [isUtf8Scheme, decide_eq_false_iff_not, Refuses]
  omega

/-- `is_text` takes one character at a step. -/
theorem isText_stepOf : StepOf character isTextScheme.decoder.step := by
  refine scheme_stepOf (by decide) (by decide) isText_lead fun follow point => ?_
  simp only [isTextScheme, decide_eq_false_iff_not, Refuses]
  omega

theorem lexer_iff {a : UInt8} : a :: more ∈ character ↔
    lexerDecoder.follow a = some more.length ∧ lexerDecoder.good a more = true := by
  rw [mem_character]
  simp only [lexerDecoder, sequenceLength_eq, Option.some.injEq]
  match more with
  | [] =>
    simp only [Sequence, Parse.utf8IsValid, List.length_nil, decide_eq_true_eq,
      UInt8.lt_iff_toNat_lt]
    show _ ↔ _ ∧ a.toNat < 128
    split_ifs <;> omega
  | [b] =>
    simp only [Sequence, Tail, Parse.utf8IsValid, List.all_cons, List.all_nil, Bool.and_true,
      Bool.and_eq_true, decide_eq_true_eq, List.length_singleton, UInt8.le_iff_toNat_le]
    show _ ↔ _ ∧ (128 ≤ b.toNat ∧ b.toNat ≤ 191) ∧ 194 ≤ a.toNat ∧ a.toNat ≤ 223
    split_ifs <;> omega
  | [b, c] =>
    simp only [Sequence, Tail, Parse.utf8IsValid, List.all_cons, List.all_nil, Bool.and_true,
      Bool.and_eq_true, decide_eq_true_eq, UInt8.le_iff_toNat_le, ← UInt8.toNat_inj,
      UInt8.reduceToNat, List.length_cons, List.length_nil]
    split_ifs <;> simp only [decide_eq_true_eq, Bool.and_eq_true, true_and] <;> omega
  | [b, c, d] =>
    simp only [Sequence, Tail, Parse.utf8IsValid, List.all_cons, List.all_nil, Bool.and_true,
      Bool.and_eq_true, decide_eq_true_eq, UInt8.le_iff_toNat_le, ← UInt8.toNat_inj,
      UInt8.reduceToNat, List.length_cons, List.length_nil]
    split_ifs <;> simp only [decide_eq_true_eq, Bool.and_eq_true, true_and] <;> omega
  | b :: c :: d :: e :: more =>
    simp only [Sequence, Parse.utf8IsValid, Bool.and_false, Bool.false_eq_true, and_false]

/-- The lexer takes one character at a step. -/
theorem lexer_stepOf : StepOf character lexerDecoder.step :=
  Decoder.stepOf nil_notMem fun _ _ => lexer_iff

theorem utf8Step_eq (a : UInt8) (rest : Bytes) : Json.utf8Step a rest =
    if a.toNat < 128 then 1
    else if 194 ≤ a.toNat ∧ a.toNat ≤ 223 then
      match rest with
      | b :: _ => if 128 ≤ b.toNat ∧ b.toNat < 192 then 2 else 0
      | _ => 0
    else if 224 ≤ a.toNat ∧ a.toNat ≤ 239 then
      match rest with
      | b :: c :: _ =>
        let point := (a.toNat % 16 * 64 + b.toNat % 64) * 64 + c.toNat % 64
        if (128 ≤ b.toNat ∧ b.toNat < 192) ∧ (128 ≤ c.toNat ∧ c.toNat < 192) ∧
          ¬(point < 0x800 ∨ 0xd800 ≤ point ∧ point ≤ 0xdfff) then 3 else 0
      | _ => 0
    else if 240 ≤ a.toNat ∧ a.toNat ≤ 244 then
      match rest with
      | b :: c :: d :: _ =>
        let point := ((a.toNat % 8 * 64 + b.toNat % 64) * 64 + c.toNat % 64) * 64 + d.toNat % 64
        if (128 ≤ b.toNat ∧ b.toNat < 192) ∧ (128 ≤ c.toNat ∧ c.toNat < 192) ∧
          (128 ≤ d.toNat ∧ d.toNat < 192) ∧ ¬(point < 0x10000 ∨ 0x10ffff < point) then 4 else 0
      | _ => 0
    else 0 := by
  unfold Json.utf8Step
  simp only [UInt8.le_iff_toNat_le, UInt8.lt_iff_toNat_lt, UInt8.reduceToNat, Bool.and_eq_true,
    decide_eq_true_eq]
  rfl

/-- The writer takes one character at a step. -/
theorem writer_stepOf : StepOf character writerStep where
  sound := by
    intro text hstep
    simp only [mem_character]
    match text with
    | [] => exact absurd rfl hstep
    | a :: rest =>
      simp only [writerStep, utf8Step_eq] at hstep ⊢
      split_ifs at hstep ⊢ with h1 h2 h3 h4
      · exact ⟨[a], by simp only [Sequence]; omega, rest, rfl, rfl⟩
      · rcases rest with _ | ⟨b, later⟩
        · exact absurd rfl hstep
        dsimp only at hstep ⊢
        split_ifs at hstep ⊢ with hpoint
        · exact ⟨[a, b], by simp only [Sequence, Tail]; omega, later, rfl, rfl⟩
        · exact absurd rfl hstep
      · rcases rest with _ | ⟨b, _ | ⟨c, later⟩⟩
        · exact absurd rfl hstep
        · exact absurd rfl hstep
        dsimp only at hstep ⊢
        split_ifs at hstep ⊢ with hpoint
        · exact ⟨[a, b, c], by simp only [Sequence, Tail]; omega, later, rfl, rfl⟩
        · exact absurd rfl hstep
      · rcases rest with _ | ⟨b, _ | ⟨c, _ | ⟨d, later⟩⟩⟩
        · exact absurd rfl hstep
        · exact absurd rfl hstep
        · exact absurd rfl hstep
        dsimp only at hstep ⊢
        split_ifs at hstep ⊢ with hpoint
        · exact ⟨[a, b, c, d], by simp only [Sequence, Tail]; omega, later, rfl, rfl⟩
        · exact absurd rfl hstep
      · exact absurd rfl hstep
  complete := by
    intro piece hpiece rest
    rw [mem_character] at hpiece
    match piece, hpiece with
    | [a], h =>
      simp only [Sequence] at h
      simp only [writerStep, utf8Step_eq, List.cons_append, List.length_singleton]
      rw [if_pos (by omega)]
    | [a, b], h =>
      simp only [Sequence, Tail] at h
      simp only [writerStep, utf8Step_eq, List.cons_append, List.length_cons]
      rw [if_neg (by omega), if_pos (by omega), if_pos (by omega)]
      rfl
    | [a, b, c], h =>
      simp only [Sequence, Tail] at h
      simp only [writerStep, utf8Step_eq, List.cons_append, List.length_cons]
      rw [if_neg (by omega), if_neg (by omega), if_pos (by omega), if_pos (by omega)]
      rfl
    | [a, b, c, d], h =>
      simp only [Sequence, Tail] at h
      simp only [writerStep, utf8Step_eq, List.cons_append, List.length_cons]
      rw [if_neg (by omega), if_neg (by omega), if_neg (by omega), if_pos (by omega),
        if_pos (by omega)]
      rfl

/-! ## What is let in can be written -/

/-- A string is written, of its length or to its first NUL, where a buffer has room for it. -/
def Written (bytes : Bytes) : Prop :=
  ∀ scalar ∈ [Json.Scalar.stringBytes bytes, .string bytes], ∀ limit,
    (Json.render Json.compact 0 scalar.value).length ≤ limit →
      (Json.write limit (Json.Script.scalar scalar).calls).done = true

theorem escape_piece {a : UInt8} (h : Sequence (a :: more)) (rest : Bytes) :
    ∃ piece, Json.escape a (more ++ rest) = some (piece, more.length) := by
  have hascii : ∀ a : UInt8, (Json.shortForm a).isSome ∨ a < 0x20 → a.toNat < 128 := by
    refine forall_byte ?_
    decide +kernel
  have hstep : Json.utf8Step a (more ++ rest) = more.length + 1 :=
    writer_stepOf.complete (mem_character.2 h) rest
  have halone : a.toNat < 128 → more.length = 0 := by
    intro ha
    rw [utf8Step_eq, if_pos ha] at hstep
    omega
  rw [Json.escape]
  rcases hshort : Json.shortForm a with _ | short
  · dsimp only
    split_ifs with hcontrol
    · exact ⟨_, by rw [halone (hascii a (.inr hcontrol))]⟩
    · rw [hstep]
      exact ⟨_, rfl⟩
  · exact ⟨short, by rw [halone (hascii a (.inl (by rw [hshort]; rfl)))]⟩

theorem escaped_pieces : ∀ {pieces : List Bytes}, (∀ piece ∈ pieces, piece ∈ character) →
    (Json.escaped pieces.flatten).isSome = true
  | [], _ => by rw [List.flatten_nil, Json.escaped]; rfl
  | piece :: pieces, h => by
    obtain ⟨hpiece, hlater⟩ := List.forall_mem_cons.1 h
    have hrest := escaped_pieces hlater
    cases piece with
    | nil => exact absurd hpiece nil_notMem
    | cons a more =>
      obtain ⟨shown, hescape⟩ := escape_piece (mem_character.1 hpiece) pieces.flatten
      rw [List.flatten_cons, List.cons_append, Json.escaped, hescape]
      dsimp only
      rw [List.drop_left, Option.isSome_map]
      exact hrest

theorem noNul_of_sequence {a : UInt8} (h : Sequence (a :: more)) :
    a :: more = [0] ∨ ∀ b ∈ a :: more, (b ≠ 0 : Bool) = true := by
  have hzero : ∀ b : UInt8, (b ≠ 0 : Bool) = true ↔ b.toNat ≠ 0 := fun b => by
    simp [← UInt8.toNat_inj]
  simp only [hzero]
  rcases more with _ | ⟨b, _ | ⟨c, _ | ⟨d, _ | ⟨e, rest⟩⟩⟩⟩
  · by_cases ha : a = 0
    · exact .inl (by rw [ha])
    · exact .inr (List.forall_mem_singleton.2 fun h0 => ha (UInt8.toNat_inj.1 h0))
  · simp only [Sequence, Tail] at h
    simp only [List.forall_mem_cons]
    exact .inr ⟨by omega, by omega, by simp⟩
  · simp only [Sequence, Tail] at h
    simp only [List.forall_mem_cons]
    exact .inr ⟨by omega, by omega, by omega, by simp⟩
  · simp only [Sequence, Tail] at h
    simp only [List.forall_mem_cons]
    exact .inr ⟨by omega, by omega, by omega, by omega, by simp⟩
  · exact h.elim

theorem cString_pieces : ∀ {pieces : List Bytes}, (∀ piece ∈ pieces, piece ∈ character) →
    ∃ kept : List Bytes, (∀ piece ∈ kept, piece ∈ character) ∧
      Json.Writer.cString pieces.flatten = kept.flatten
  | [], _ => ⟨[], by simp, rfl⟩
  | piece :: pieces, h => by
    obtain ⟨hpiece, hlater⟩ := List.forall_mem_cons.1 h
    obtain ⟨kept, hkept, heq⟩ := cString_pieces hlater
    cases piece with
    | nil => exact absurd hpiece nil_notMem
    | cons a more =>
      rw [Json.Writer.cString] at heq ⊢
      rw [List.flatten_cons]
      rcases noNul_of_sequence (mem_character.1 hpiece) with hnul | hplain
      · exact ⟨[], by simp, by rw [hnul]; rfl⟩
      · refine ⟨(a :: more) :: kept, List.forall_mem_cons.2 ⟨hpiece, hkept⟩, ?_⟩
        rw [List.takeWhile_append_of_pos hplain, heq, List.flatten_cons]

/-- A text is written as it is. -/
theorem written_of_text (h : bytes ∈ text) : Written bytes := by
  obtain ⟨pieces, rfl, hpieces⟩ := Language.mem_kstar.1 h
  obtain ⟨kept, hkept, hcString⟩ := cString_pieces hpieces
  intro scalar hscalar limit hroom
  have hfits : Json.Fits Json.maxDepth (Json.Script.scalar scalar).value := by
    rcases List.mem_cons.1 hscalar with rfl | hscalar
    · exact escaped_pieces hpieces
    · obtain rfl := List.mem_singleton.1 hscalar
      show (Json.escaped (Json.Writer.cString pieces.flatten)).isSome = true
      rw [hcString]
      exact escaped_pieces hkept
  exact (Json.Writer.done_of_fits hfits hroom).1

theorem append_character {before piece : Bytes} (hbefore : before ∈ text)
    (hpiece : piece ∈ character) : before ++ piece ∈ text := by
  obtain ⟨pieces, rfl, hpieces⟩ := Language.mem_kstar.1 hbefore
  refine Language.mem_kstar.2 ⟨pieces ++ [piece], by simp, fun other hother => ?_⟩
  rcases List.mem_append.1 hother with hother | hother
  · exact hpieces other hother
  · rw [List.mem_singleton.1 hother]
    exact hpiece

theorem character_of_valid {a : UInt8} (hlength : Parse.utf8SequenceLength a = more.length + 1)
    (hvalid : Parse.utf8IsValid (a :: more) = true) : a :: more ∈ character :=
  lexer_iff.2 ⟨congrArg (fun n => some (n - 1)) hlength, hvalid⟩

theorem character_of_escape {e c : UInt8} (h : Parse.escaped e = some c) : [c] ∈ character := by
  refine mem_character.2 ?_
  unfold Parse.escaped at h
  split_ifs at h <;> cases h <;> simp only [Sequence] <;> decide

/-- What is lexed after a text is a text. -/
theorem scanString_text {n m : ℕ} {before out : Bytes} (hbefore : before ∈ text)
    (h : Parse.scanString n before bytes = (.ok out, m)) : out ∈ text := by
  fun_induction Parse.scanString n before bytes
  case case2 =>
    cases h
    exact hbefore
  case case4 hescape _ ih => exact ih (append_character hbefore (character_of_escape hescape)) h
  case case6 hlength hvalid ih =>
    exact ih (append_character hbefore (character_of_valid hlength hvalid)) h
  case case8 hlength hvalid ih =>
    exact ih (append_character hbefore (character_of_valid hlength hvalid)) h
  case case10 hlength hvalid ih =>
    exact ih (append_character hbefore (character_of_valid hlength hvalid)) h
  case case12 hlength hvalid ih =>
    exact ih (append_character hbefore (character_of_valid hlength hvalid)) h
  all_goals cases h

/-- The four readers take the texts of RFC 3629 and no others, and what the lexer or the reader of
the kernel's attributes lets in is written. -/
theorem readers_agree :
    (∀ bytes, (lexerTakes bytes = true ↔ bytes ∈ text) ∧ (writerTakes bytes = true ↔ bytes ∈ text) ∧
      (isUtf8 bytes = true ↔ bytes ∈ text) ∧ (isText bytes = true ↔ bytes ∈ text)) ∧
    (∀ bytes out m, Parse.lexString bytes = (.ok (.string out), m) → Written out) ∧
    ∀ size value out, attrString size value = .ok out → Written out := by
  refine ⟨fun bytes => ⟨Steps.takes_iff lexer_stepOf, Steps.takes_iff writer_stepOf,
    Steps.takes_iff isUtf8_stepOf, Steps.takes_iff isText_stepOf⟩, ?_, ?_⟩
  · intro bytes out m h
    unfold Parse.lexString at h
    rcases hscan : Parse.scanString 1 [] bytes.tail with ⟨fault | found, n⟩
    · rw [hscan] at h
      cases h
    · rw [hscan] at h
      dsimp only at h
      split_ifs at h with hlong
      · cases h
      · cases h
        exact written_of_text (scanString_text (Language.nil_mem_kstar _) hscan)
  · intro size value out h
    exact written_of_text ((Steps.takes_iff isUtf8_stepOf).1 (of_attrString h).2.1)

end Netcfgd.Utf8
