import Mathlib.Data.List.TakeWhile
import Netcfgd.JsonRoundTrip

/-!
# JSON written is JSON read

`ncfg_json_pretty` of a value rendered without a blank is the value rendered with its lines
broken (`pretty_render`). The text of the writer is the value rendered without a blank, so it and
its layout both read back (`written_is_read`).
-/

namespace Netcfgd.Json

/-! ## Adding to a buffer -/

/-- A buffer that, unless it has failed, is another with bytes added, and that has not failed where
the other has room for them. -/
def Grew (b : Buf) (bytes : List UInt8) (b' : Buf) : Prop :=
  (b'.failed = false → b.failed = false ∧ b' = { b with bytes := b.bytes ++ bytes }) ∧
    (b.failed = false → b.bytes.length + bytes.length ≤ b.limit → b'.failed = false)

theorem Grew.refl (b : Buf) : Grew b [] b :=
  ⟨fun h => ⟨h, by simp⟩, fun h _ => h⟩

theorem Grew.trans {b b' b'' : Buf} {bytes bytes' : List UInt8} (h : Grew b bytes b')
    (h' : Grew b' bytes' b'') : Grew b (bytes ++ bytes') b'' := by
  constructor
  · intro hok
    obtain ⟨hok', rfl⟩ := h'.1 hok
    obtain ⟨hok'', rfl⟩ := h.1 hok'
    exact ⟨hok'', by simp⟩
  · intro hok hroom
    rw [List.length_append] at hroom
    have hok' := h.2 hok (by omega)
    obtain ⟨-, rfl⟩ := h.1 hok'
    refine h'.2 hok' ?_
    change (b.bytes ++ bytes).length + bytes'.length ≤ b.limit
    rw [List.length_append]
    omega

theorem grew_add (b : Buf) (bytes : List UInt8) : Grew b bytes (b.add bytes) := by
  refine ⟨Buf.add_ok, fun hok hroom => ?_⟩
  unfold Buf.add
  split_ifs with hnothing hlimit
  · exact hok
  · omega
  · exact hok

/-! ## Breaks and strings -/

/-- The layout of `ncfg_json_pretty`. -/
def indented : Layout :=
  ⟨fun depth => 0x0a :: (List.replicate depth (asciis "  ")).flatten, asciis " "⟩

theorem blank_compact : compact.Blank :=
  ⟨fun _ _ hc => (List.not_mem_nil hc).elim, fun _ hc => (List.not_mem_nil hc).elim⟩

theorem blank_indented : indented.Blank := by
  refine ⟨fun depth c hc => ?_, forall_of_all (by decide)⟩
  rcases List.mem_cons.1 hc with rfl | hc
  · decide
  · obtain ⟨piece, hpiece, hc⟩ := List.mem_flatten.1 hc
    rw [List.eq_of_mem_replicate hpiece] at hc
    exact forall_of_all (p := fun c => isBlank c = true) (by decide) c hc

theorem grew_foldl : ∀ (pieces : List (List UInt8)) (b : Buf),
    Grew b pieces.flatten (pieces.foldl Buf.add b)
  | [], b => Grew.refl b
  | piece :: pieces, b => (grew_add b piece).trans (grew_foldl pieces _)

theorem grew_break (b : Buf) (depth : ℕ) : Grew b (indented.brk depth) (prettyBreak b depth) :=
  (grew_add b [0x0a]).trans (grew_foldl _ _)

theorem grew_pending (b : Buf) (depth : ℕ) (pending : Bool) :
    Grew b (if pending then indented.brk depth else [])
      (if pending then prettyBreak b depth else b) := by
  cases pending
  · exact Grew.refl b
  · exact grew_break b depth

theorem prettyString_plain : ∀ {bytes : List UInt8} (b : Buf) (rest : List UInt8),
    (∀ c ∈ bytes, Plain c) →
    ∃ b', prettyString b (bytes ++ rest) = prettyString b' rest ∧ Grew b bytes b'
  | [], b, rest, _ => ⟨b, rfl, Grew.refl b⟩
  | c :: bytes, b, rest, h => by
    obtain ⟨hquote, -, hslash⟩ := h c List.mem_cons_self
    obtain ⟨b', heq, hgrew⟩ := prettyString_plain (b.add [c]) rest fun c' hc' =>
      h c' (List.mem_cons_of_mem _ hc')
    refine ⟨b', ?_, (grew_add b [c]).trans hgrew⟩
    rw [List.cons_append, prettyString.eq_def]
    dsimp only
    rw [if_neg hslash, if_neg hquote, heq]

theorem prettyString_escape (b : Buf) (e : UInt8) (rest : List UInt8) :
    ∃ b', prettyString b (ascii '\\' :: e :: rest) = prettyString b' rest ∧
      Grew b [ascii '\\', e] b' := by
  refine ⟨(b.add [ascii '\\']).add [e], ?_, (grew_add b _).trans (grew_add _ [e])⟩
  rw [prettyString, if_pos rfl]

theorem plain_hexDigit {n : ℕ} (h : n < 16) : Plain (hexDigit n) := by
  unfold Plain
  interval_cases n <;> decide

theorem plain_control {c : UInt8} (h : c < 0x20) : ∀ b ∈ [ascii '0', ascii '0',
    hexDigit (c.toNat / 16), hexDigit (c.toNat % 16)], Plain b := by
  have hbyte : c.toNat < 32 := UInt8.lt_iff_toNat_lt.1 h
  have hzero : Plain (ascii '0') := ⟨by decide, by decide, by decide⟩
  intro b hb
  simp only [List.mem_cons, List.not_mem_nil, or_false] at hb
  rcases hb with rfl | rfl | rfl | rfl
  · exact hzero
  · exact hzero
  · exact plain_hexDigit (by omega)
  · exact plain_hexDigit (by omega)

theorem prettyString_piece {c : UInt8} {rest piece : List UInt8} {step : ℕ}
    (h : escape c rest = some (piece, step)) (b : Buf) (tail : List UInt8) :
    ∃ b', prettyString b (piece ++ tail) = prettyString b' tail ∧ Grew b piece b' := by
  rcases escape_cases h with ⟨e, rfl, -⟩ | ⟨hcontrol, -, rfl⟩ | ⟨-, hplain⟩
  · exact prettyString_escape b e tail
  · obtain ⟨b₁, heq₁, hgrew₁⟩ := prettyString_escape b (ascii 'u') ([ascii '0', ascii '0',
      hexDigit (c.toNat / 16), hexDigit (c.toNat % 16)] ++ tail)
    obtain ⟨b₂, heq₂, hgrew₂⟩ := prettyString_plain b₁ tail (plain_control hcontrol)
    exact ⟨b₂, heq₁.trans heq₂, hgrew₁.trans hgrew₂⟩
  · exact prettyString_plain b tail hplain

theorem prettyString_escaped (bytes : List UInt8) : ∀ {text : List UInt8},
    escaped bytes = some text → ∀ (b : Buf) (rest : List UInt8),
      ∃ b', prettyString b (text ++ ascii '"' :: rest) = (b', some rest) ∧
        Grew b (text ++ [ascii '"']) b' := by
  fun_induction escaped bytes with
  | case1 =>
    intro text h b rest
    cases h
    refine ⟨b.add [ascii '"'], ?_, grew_add b _⟩
    rw [List.nil_append, prettyString.eq_def]
    dsimp only
    rw [if_neg (by decide), if_pos rfl]
  | case2 c rest hesc =>
    intro text h
    cases h
  | case3 c rest piece step hesc ih =>
    intro text h b tail
    obtain ⟨text', htext', rfl⟩ := Option.map_eq_some_iff.1 h
    obtain ⟨b₁, heq₁, hgrew₁⟩ := prettyString_piece hesc b (text' ++ ascii '"' :: tail)
    obtain ⟨b₂, heq₂, hgrew₂⟩ := ih htext' b₁ tail
    refine ⟨b₂, ?_, ?_⟩
    · rw [List.append_assoc, heq₁, heq₂]
    · rw [List.append_assoc]
      exact hgrew₁.trans hgrew₂

/-! ## Values -/

/-- A byte `ncfg_json_pretty` copies where it is not in a string. -/
def Ordinary (c : UInt8) : Prop := c ∉ asciis "\x7b\x7d[],:\""

instance : DecidablePred Ordinary := fun _ => inferInstanceAs (Decidable (_ ∉ _))

theorem Ordinary.ne {c c' : UInt8} (h : Ordinary c) (hc' : c' ∈ asciis "\x7b\x7d[],:\"") :
    c ≠ c' := by
  rintro rfl
  exact h hc'

theorem prettyLoop_ordinary {c : UInt8} (h : Ordinary c) (depth : ℕ) (pending : Bool) (b : Buf)
    (rest : List UInt8) :
    prettyLoop depth pending b (c :: rest) =
      prettyLoop depth false ((if pending then prettyBreak b depth else b).add [c]) rest := by
  rw [prettyLoop.eq_def]
  dsimp only
  rw [if_neg (not_or.2 ⟨h.ne (by decide), h.ne (by decide)⟩), if_neg (h.ne (by decide)),
    if_neg (h.ne (by decide)), if_neg (not_or.2 ⟨h.ne (by decide), h.ne (by decide)⟩),
    if_pos (h.ne (by decide))]

theorem prettyLoop_word {word : List UInt8} (hne : word ≠ []) (h : ∀ c ∈ word, Ordinary c)
    (depth : ℕ) (pending : Bool) (b : Buf) (rest : List UInt8) :
    ∃ b', prettyLoop depth pending b (word ++ rest) = prettyLoop depth false b' rest ∧
      Grew b ((if pending then indented.brk depth else []) ++ word) b' := by
  induction word generalizing pending b with
  | nil => exact absurd rfl hne
  | cons c word ih =>
    have hfirst := prettyLoop_ordinary (h c List.mem_cons_self) depth pending b (word ++ rest)
    have hgrew := (grew_pending b depth pending).trans (grew_add _ [c])
    by_cases hword : word = []
    · subst hword
      exact ⟨_, hfirst, hgrew⟩
    · obtain ⟨b', heq, hgrew'⟩ := ih hword (fun c' hc' => h c' (List.mem_cons_of_mem _ hc')) false
        ((if pending then prettyBreak b depth else b).add [c])
      refine ⟨b', hfirst.trans heq, ?_⟩
      simpa using hgrew.trans hgrew'

theorem prettyLoop_quoted {bytes : List UInt8} (h : (escaped bytes).isSome) (depth : ℕ)
    (pending : Bool) (b : Buf) (rest : List UInt8) :
    ∃ b', prettyLoop depth pending b (quoted bytes ++ rest) = prettyLoop depth false b' rest ∧
      Grew b ((if pending then indented.brk depth else []) ++ quoted bytes) b' := by
  obtain ⟨text, htext⟩ := Option.isSome_iff_exists.1 h
  obtain ⟨b', heq, hgrew⟩ := prettyString_escaped bytes htext
    ((if pending then prettyBreak b depth else b).add [ascii '"']) rest
  have hquoted : quoted bytes = ascii '"' :: (text ++ [ascii '"']) := by simp [quoted, htext]
  refine ⟨b', ?_, ?_⟩
  · rw [hquoted, List.cons_append, prettyLoop.eq_def, List.append_assoc, List.singleton_append]
    dsimp only
    rw [if_neg (by decide), if_neg (by decide), if_neg (by decide), if_neg (by decide),
      if_neg (by decide)]
    split
    all_goals
      rename_i heq'
      rw [heq] at heq'
      cases heq'
    rfl
  · rw [hquoted]
    have hopen := (grew_pending b depth pending).trans (grew_add _ [ascii '"'])
    simpa using hopen.trans hgrew

theorem ordinary_digit {d : ℕ} (h : d < 10) : Ordinary (UInt8.ofNat (48 + d)) := by
  interval_cases d <;> decide

theorem ordinary_decimal (n : ℤ) : ∀ c ∈ decimal n, Ordinary c := by
  intro c hc
  rcases List.mem_append.1 hc with hc | hc
  · split_ifs at hc
    · rw [List.mem_singleton.1 hc]
      decide
    · cases hc
  · obtain ⟨d, hd, rfl⟩ := List.mem_map.1 hc
    exact ordinary_digit (digits_lt _ d hd)

theorem decimal_ne_nil (n : ℤ) : decimal n ≠ [] := by
  obtain ⟨c, rest, heq, -⟩ := decimal_head n
  simp [heq]

theorem prettyLoop_comma (depth : ℕ) (b : Buf) (rest : List UInt8) :
    prettyLoop depth false b (ascii ',' :: rest) =
      prettyLoop depth false (prettyBreak (b.add [ascii ',']) depth) rest := by
  rw [prettyLoop.eq_def]
  dsimp only
  rw [if_neg (by decide), if_pos rfl]

theorem prettyLoop_colon (depth : ℕ) (b : Buf) (rest : List UInt8) :
    prettyLoop depth false b (ascii ':' :: rest) =
      prettyLoop depth false (b.add (asciis ": ")) rest := by
  rw [prettyLoop.eq_def]
  dsimp only
  rw [if_neg (by decide), if_neg (by decide), if_pos rfl]

theorem prettyLoop_opener {c : UInt8} (h : c = ascii '\x7b' ∨ c = ascii '[') (depth : ℕ)
    (pending : Bool) (b : Buf) (rest : List UInt8) :
    prettyLoop depth pending b (c :: rest) =
      prettyLoop (depth + 1) true ((if pending then prettyBreak b depth else b).add [c]) rest := by
  rw [prettyLoop.eq_def]
  dsimp only
  have hnot : c ≠ ascii '\x7d' ∧ c ≠ ascii ']' ∧ c ≠ ascii ',' ∧ c ≠ ascii ':' := by
    rcases h with rfl | rfl <;> decide
  rw [if_neg (not_or.2 ⟨hnot.1, hnot.2.1⟩), if_neg hnot.2.2.1, if_neg hnot.2.2.2, if_pos h]

theorem prettyLoop_closer {c : UInt8} (h : c = ascii '\x7d' ∨ c = ascii ']') (depth : ℕ)
    (pending : Bool) (b : Buf) (rest : List UInt8) :
    prettyLoop (depth + 1) pending b (c :: rest) =
      prettyLoop depth false ((if pending then b else prettyBreak b depth).add [c]) rest := by
  rw [prettyLoop.eq_def]
  dsimp only
  rw [if_pos h]

theorem prettyLoop_container {opener closer : UInt8}
    (hopener : opener = ascii '\x7b' ∨ opener = ascii '[')
    (hcloser : closer = ascii '\x7d' ∨ closer = ascii ']') {depth : ℕ} {inner laid : List UInt8}
    {empty : Bool}
    (h : ∀ b rest, ∃ b', prettyLoop (depth + 1) true b (inner ++ rest) =
      prettyLoop (depth + 1) empty b' rest ∧ Grew b laid b')
    (pending : Bool) (b : Buf) (rest : List UInt8) :
    ∃ b', prettyLoop depth pending b (opener :: (inner ++ closer :: rest)) =
        prettyLoop depth false b' rest ∧
      Grew b ((if pending then indented.brk depth else []) ++ opener :: (laid ++
        ((if empty then [] else indented.brk depth) ++ [closer]))) b' := by
  obtain ⟨b₁, heq₁, hgrew₁⟩ := h ((if pending then prettyBreak b depth else b).add [opener])
    (closer :: rest)
  have hopen := ((grew_pending b depth pending).trans (grew_add _ [opener])).trans hgrew₁
  have hend : Grew b₁ (if empty then [] else indented.brk depth)
      (if empty then b₁ else prettyBreak b₁ depth) := by
    cases empty
    · exact grew_break b₁ depth
    · exact Grew.refl b₁
  have hclose := hopen.trans (hend.trans (grew_add _ [closer]))
  refine ⟨(if empty then b₁ else prettyBreak b₁ depth).add [closer], ?_, ?_⟩
  · exact (prettyLoop_opener hopener _ _ _ _).trans
      (heq₁.trans (prettyLoop_closer hcloser _ _ _ _))
  · simpa using hclose

mutual

theorem pretty_value : ∀ (t : Tree) {room : ℕ}, Fits room t → ∀ (k depth : ℕ) (pending : Bool)
    (b : Buf) (rest : List UInt8),
    ∃ b', prettyLoop depth pending b (render compact k t ++ rest) = prettyLoop depth false b' rest ∧
      Grew b ((if pending then indented.brk depth else []) ++ render indented depth t) b'
  | .null, _, _, _, depth, pending, b, rest => by
    rw [render, render]
    exact prettyLoop_word (by decide) (forall_of_all (by decide)) depth pending b rest
  | .bool v, _, _, _, depth, pending, b, rest => by
    rw [render, render]
    refine prettyLoop_word (by cases v <;> decide) (forall_of_all ?_) depth pending b rest
    cases v <;> decide
  | .int n, _, _, _, depth, pending, b, rest =>
    prettyLoop_word (decimal_ne_nil n) (ordinary_decimal n) depth pending b rest
  | .string bytes, _, hfits, _, depth, pending, b, rest =>
    prettyLoop_quoted hfits depth pending b rest
  | .array items, _, hfits, k, depth, pending, b, rest => by
    obtain ⟨b', heq, hgrew⟩ := prettyLoop_container (.inr rfl) (.inr rfl)
      (fun b rest => pretty_items items hfits.2 (k + 1) (depth + 1) true b rest) pending b rest
    refine ⟨b', ?_, hgrew⟩
    simpa [render, compact] using heq
  | .object members, _, hfits, k, depth, pending, b, rest => by
    obtain ⟨b', heq, hgrew⟩ := prettyLoop_container (.inl rfl) (.inl rfl)
      (fun b rest => pretty_members members hfits.2 (k + 1) (depth + 1) true b rest) pending b rest
    refine ⟨b', ?_, hgrew⟩
    simpa [render, compact] using heq

theorem pretty_items : ∀ (items : List Tree) {room : ℕ}, FitsItems room items →
    ∀ (k depth : ℕ) (first : Bool) (b : Buf) (rest : List UInt8),
    ∃ b', prettyLoop depth first b (renderItems compact k first items ++ rest) =
        prettyLoop depth (first && items.isEmpty) b' rest ∧
      Grew b (renderItems indented depth first items) b'
  | [], _, _, _, _, first, b, rest => ⟨b, by simp [renderItems], Grew.refl b⟩
  | t :: items, _, hfits, k, depth, first, b, rest => by
    obtain ⟨b₁, heq₁, hgrew₁⟩ := pretty_value t hfits.1 k depth first
      (if first then b else prettyBreak (b.add [ascii ',']) depth)
      (renderItems compact k false items ++ rest)
    obtain ⟨b₂, heq₂, hgrew₂⟩ := pretty_items items hfits.2 k depth false b₁ rest
    refine ⟨b₂, ?_, ?_⟩
    · cases first
      · simpa [renderItems, compact, prettyLoop_comma] using heq₁.trans heq₂
      · simpa [renderItems, compact] using heq₁.trans heq₂
    · cases first
      · have hcomma := (grew_add b [ascii ',']).trans (grew_break _ depth)
        simpa [renderItems] using hcomma.trans (hgrew₁.trans hgrew₂)
      · simpa [renderItems] using hgrew₁.trans hgrew₂

theorem pretty_members : ∀ (members : List (List UInt8 × Tree)) {room : ℕ},
    FitsMembers room members → ∀ (k depth : ℕ) (first : Bool) (b : Buf) (rest : List UInt8),
    ∃ b', prettyLoop depth first b (renderMembers compact k first members ++ rest) =
        prettyLoop depth (first && members.isEmpty) b' rest ∧
      Grew b (renderMembers indented depth first members) b'
  | [], _, _, _, _, first, b, rest => ⟨b, by simp [renderMembers], Grew.refl b⟩
  | (name, t) :: members, _, hfits, k, depth, first, b, rest => by
    obtain ⟨b₁, heq₁, hgrew₁⟩ := prettyLoop_quoted hfits.1 depth first
      (if first then b else prettyBreak (b.add [ascii ',']) depth)
      (ascii ':' :: (render compact k t ++ (renderMembers compact k false members ++ rest)))
    obtain ⟨b₂, heq₂, hgrew₂⟩ := pretty_value t hfits.2.1 k depth false (b₁.add (asciis ": "))
      (renderMembers compact k false members ++ rest)
    obtain ⟨b₃, heq₃, hgrew₃⟩ := pretty_members members hfits.2.2 k depth false b₂ rest
    rw [prettyLoop_colon] at heq₁
    have hvalue := (grew_add b₁ (asciis ": ")).trans (hgrew₂.trans hgrew₃)
    refine ⟨b₃, ?_, ?_⟩
    · cases first
      · simpa [renderMembers, compact, prettyLoop_comma] using heq₁.trans (heq₂.trans heq₃)
      · simpa [renderMembers, compact] using heq₁.trans (heq₂.trans heq₃)
    · cases first
      · have hcomma := (grew_add b [ascii ',']).trans (grew_break _ depth)
        simpa [renderMembers, indented, asciis] using hcomma.trans (hgrew₁.trans hvalue)
      · simpa [renderMembers, indented, asciis] using hgrew₁.trans hvalue

end

/-! ## No NUL is written -/

theorem cString_eq {bytes : List UInt8} (h : ∀ c ∈ bytes, c ≠ 0) : Writer.cString bytes = bytes :=
  List.takeWhile_eq_self_iff.2 fun c hc => decide_eq_true (h c hc)

theorem Plain.ne_zero {c : UInt8} (h : Plain c) : c ≠ 0 := by
  rintro rfl
  exact h.2.1 (by decide)

theorem escaped_ne_zero (bytes : List UInt8) : ∀ {text : List UInt8}, escaped bytes = some text →
    ∀ c ∈ text, c ≠ 0 := by
  fun_induction escaped bytes with
  | case1 =>
    intro text h c hc
    cases h
    cases hc
  | case2 c rest hesc =>
    intro text h
    cases h
  | case3 c rest piece step hesc ih =>
    intro text h c' hc'
    obtain ⟨text', htext', rfl⟩ := Option.map_eq_some_iff.1 h
    rcases List.mem_append.1 hc' with hpiece | hrest
    · rcases escape_cases hesc with ⟨e, rfl, hne, -⟩ | ⟨hcontrol, -, rfl⟩ | ⟨-, hplain⟩
      · simp only [List.mem_cons, List.not_mem_nil, or_false] at hpiece
        rcases hpiece with rfl | rfl
        · decide
        · exact hne
      · rcases List.mem_append.1 hpiece with hslash | hdigits
        · exact forall_of_all (p := (· ≠ 0)) (by decide) c' hslash
        · exact (plain_control hcontrol c' hdigits).ne_zero
      · exact (hplain c' hpiece).ne_zero
    · exact ih htext' c' hrest

theorem quoted_ne_zero {bytes : List UInt8} (h : (escaped bytes).isSome) :
    ∀ c ∈ quoted bytes, c ≠ 0 := by
  obtain ⟨text, htext⟩ := Option.isSome_iff_exists.1 h
  have hquote : ascii '"' ≠ 0 := by decide
  have htext' := escaped_ne_zero bytes htext
  simpa [quoted, htext, or_imp, forall_and, hquote] using htext'

theorem decimal_ne_zero (n : ℤ) : ∀ c ∈ decimal n, c ≠ 0 := by
  intro c hc
  rcases List.mem_append.1 hc with hc | hc
  · split_ifs at hc
    · rw [List.mem_singleton.1 hc]
      decide
    · cases hc
  · obtain ⟨d, hd, rfl⟩ := List.mem_map.1 hc
    have hlt := digits_lt _ d hd
    interval_cases d <;> decide

theorem ne_zero_of_isBlank {c : UInt8} (h : isBlank c = true) : c ≠ 0 := by
  rintro rfl
  exact absurd h (by decide)

section

variable {l : Layout}

theorem Layout.Blank.brk_ne_zero (hl : l.Blank) (depth : ℕ) : ∀ c ∈ l.brk depth, c ≠ 0 :=
  fun c hc => ne_zero_of_isBlank (hl.1 depth c hc)

theorem Layout.Blank.gap_ne_zero (hl : l.Blank) : ∀ c ∈ l.gap, c ≠ 0 :=
  fun c hc => ne_zero_of_isBlank (hl.2 c hc)

mutual

theorem render_ne_zero (hl : l.Blank) :
    ∀ (t : Tree) {room : ℕ}, Fits room t → ∀ k, ∀ c ∈ render l k t, c ≠ 0
  | .null, _, _, _ => by
    rw [render]
    exact forall_of_all (by decide)
  | .bool v, _, _, _ => by
    rw [render]
    refine forall_of_all ?_
    cases v <;> decide
  | .int n, _, _, _ => decimal_ne_zero n
  | .string bytes, _, hfits, _ => quoted_ne_zero hfits
  | .array items, _, hfits, k => by
    have hitems := renderItems_ne_zero hl items hfits.2 (k + 1) true
    have hbreak := hl.brk_ne_zero k
    have hmarks : ascii '[' ≠ 0 ∧ ascii ']' ≠ 0 := by decide
    cases hempty : items.isEmpty
    · simpa [render, hempty, or_imp, forall_and, hmarks] using And.intro hitems hbreak
    · simpa [render, hempty, or_imp, forall_and, hmarks] using hitems
  | .object members, _, hfits, k => by
    have hmembers := renderMembers_ne_zero hl members hfits.2 (k + 1) true
    have hbreak := hl.brk_ne_zero k
    have hmarks : ascii '\x7b' ≠ 0 ∧ ascii '\x7d' ≠ 0 := by decide
    cases hempty : members.isEmpty
    · simpa [render, hempty, or_imp, forall_and, hmarks] using And.intro hmembers hbreak
    · simpa [render, hempty, or_imp, forall_and, hmarks] using hmembers

theorem renderItems_ne_zero (hl : l.Blank) : ∀ (items : List Tree) {room : ℕ},
    FitsItems room items → ∀ k first, ∀ c ∈ renderItems l k first items, c ≠ 0
  | [], _, _, _, _ => by simp [renderItems]
  | t :: items, _, hfits, k, first => by
    have hbreak := hl.brk_ne_zero k
    have ht := render_ne_zero hl t hfits.1 k
    have hitems := renderItems_ne_zero hl items hfits.2 k false
    have hcomma : ascii ',' ≠ 0 := by decide
    cases first
    · simpa [renderItems, or_imp, forall_and, hcomma] using
        And.intro hbreak (And.intro ht hitems)
    · simpa [renderItems, or_imp, forall_and] using And.intro hbreak (And.intro ht hitems)

theorem renderMembers_ne_zero (hl : l.Blank) : ∀ (members : List (List UInt8 × Tree)) {room : ℕ},
    FitsMembers room members → ∀ k first, ∀ c ∈ renderMembers l k first members, c ≠ 0
  | [], _, _, _, _ => by simp [renderMembers]
  | (name, t) :: members, _, hfits, k, first => by
    have hbreak := hl.brk_ne_zero k
    have hgap := hl.gap_ne_zero
    have hname := quoted_ne_zero hfits.1
    have ht := render_ne_zero hl t hfits.2.1 k
    have hmembers := renderMembers_ne_zero hl members hfits.2.2 k false
    have hmarks : ascii ',' ≠ 0 ∧ ascii ':' ≠ 0 := by decide
    cases first
    · simpa [renderMembers, or_imp, forall_and, hmarks] using
        And.intro hbreak (And.intro hname (And.intro hgap (And.intro ht hmembers)))
    · simpa [renderMembers, or_imp, forall_and, hmarks] using
        And.intro hbreak (And.intro hname (And.intro hgap (And.intro ht hmembers)))

end

end

/-! ## Whether a value fits -/

mutual

def decFits : ∀ (room : ℕ) (t : Tree), Decidable (Fits room t)
  | _, .null | _, .bool _ | _, .int _ => isTrue trivial
  | _, .string bytes => inferInstanceAs (Decidable ((escaped bytes).isSome = true))
  | room, .array items => @instDecidableAnd _ _ (Nat.decLt 0 room) (decFitsItems (room - 1) items)
  | room, .object members =>
    @instDecidableAnd _ _ (Nat.decLt 0 room) (decFitsMembers (room - 1) members)

def decFitsItems : ∀ (room : ℕ) (items : List Tree), Decidable (FitsItems room items)
  | _, [] => isTrue trivial
  | room, t :: rest => @instDecidableAnd _ _ (decFits room t) (decFitsItems room rest)

def decFitsMembers : ∀ (room : ℕ) (members : List (List UInt8 × Tree)),
    Decidable (FitsMembers room members)
  | _, [] => isTrue trivial
  | room, (name, t) :: rest =>
    @instDecidableAnd _ _ (inferInstanceAs (Decidable ((escaped name).isSome = true)))
      (@instDecidableAnd _ _ (decFits room t) (decFitsMembers room rest))

end

instance (room : ℕ) (t : Tree) : Decidable (Fits room t) := decFits room t

/-! ## What is written is read -/

/-- What is laid out of a compact text : it succeeds, fits or fails, and is the text indented. -/
theorem pretty_render {t : Tree} (hfits : Fits maxDepth t) (limit : ℕ) :
    (pretty limit (render compact 0 t)).1 = true ∧
      ((pretty limit (render compact 0 t)).2.failed = false →
        (pretty limit (render compact 0 t)).2.bytes = render indented 0 t) ∧
      ((render indented 0 t).length ≤ limit →
        (pretty limit (render compact 0 t)).2.failed = false) := by
  obtain ⟨b', heq, hgrew⟩ := pretty_value t hfits 0 0 false { limit } []
  have hpretty : pretty limit (render compact 0 t) = (true, b') := by
    rw [pretty, cString_eq (render_ne_zero blank_compact t hfits 0)]
    rw [List.append_nil] at heq
    rw [heq, prettyLoop.eq_def]
    rfl
  rw [hpretty]
  refine ⟨rfl, fun hok => ?_, fun hroom => hgrew.2 rfl (by simpa using hroom)⟩
  obtain ⟨-, hbytes⟩ := hgrew.1 hok
  simp [hbytes]

/-- Calls that end in `done` are the calls that write one value. The text reads back as that
value, and so does its layout, which is `pretty`'s output wherever there is room for it. -/
theorem written_is_read (limit : ℕ) (calls : List Call) (h : (write limit calls).done) :
    (∃ s : Script, s.calls = calls) ∧
      ∀ s : Script, s.calls = calls → ∀ text, (write limit calls).buf.bytes = text →
        (text.length < 2 ^ 32 → ∃ nodes, parse text = .ok nodes ∧ IsRead nodes s.value) ∧
        ∃ laid, (laid.length < 2 ^ 32 → ∃ nodes, parse laid = .ok nodes ∧ IsRead nodes s.value) ∧
          ∀ limit', (pretty limit' text).1 ∧
            (laid.length ≤ limit' → (pretty limit' text).2.failed = false) ∧
            ((pretty limit' text).2.failed = false → (pretty limit' text).2.bytes = laid) := by
  refine ⟨Writer.exists_script_of_done h, ?_⟩
  rintro s rfl text rfl
  obtain ⟨hfits, htext⟩ := Writer.text_of_script h
  rw [htext]
  refine ⟨read_render blank_compact hfits, render indented 0 s.value,
    read_render blank_indented hfits, fun limit' => ?_⟩
  obtain ⟨hended, hlaid, hroom⟩ := pretty_render hfits limit'
  exact ⟨hended, hroom, hlaid⟩

/-- An array of a string, a number and an empty object, inside an object. -/
def sample : Script :=
  .object [([0x61], .array [.scalar (.stringBytes [0x22, 0x00, 0xc3, 0xa9]),
    .scalar (.int (-9223372036854775808)), .object []])]

theorem sample_is_read : (write 64 sample.calls).done = true ∧
    (∃ nodes, parse (write 64 sample.calls).buf.bytes = .ok nodes ∧ IsRead nodes sample.value) ∧
    (pretty 128 (write 64 sample.calls).buf.bytes).1 = true ∧
    (pretty 128 (write 64 sample.calls).buf.bytes).2.failed = false ∧
    ∃ nodes, parse (pretty 128 (write 64 sample.calls).buf.bytes).2.bytes = .ok nodes ∧
      IsRead nodes sample.value := by
  have hdone : (write 64 sample.calls).done = true := by decide +kernel
  obtain ⟨hread, laid, hlaid, hpretty⟩ :=
    (written_is_read 64 sample.calls hdone).2 sample rfl _ rfl
  obtain ⟨hended, -, hbytes⟩ := hpretty 128
  have hok : (pretty 128 (write 64 sample.calls).buf.bytes).2.failed = false := by decide +kernel
  have hlength : (pretty 128 (write 64 sample.calls).buf.bytes).2.bytes.length < 2 ^ 32 := by
    decide +kernel
  refine ⟨hdone, hread (by decide +kernel), hended, hok, ?_⟩
  rw [hbytes hok] at hlength ⊢
  exact hlaid hlength

end Netcfgd.Json
