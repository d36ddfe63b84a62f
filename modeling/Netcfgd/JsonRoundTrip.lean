import Netcfgd.JsonRead

/-!
# A rendered value reads back

A value rendered with any blanks between its tokens reads back as the nodes of that value in the
order of the text (`parse_render`), and the nodes hold the value (`isRead_laid`). The string and
the number of a token are read on their own (`parseString_escaped`, `parseNumber_decimal`); the
containers go by induction on the value, a child attached to the nodes before it (`grow_more`).
-/

namespace Netcfgd.Json

variable {rest piece : List UInt8}

/-! ## Strings -/

theorem parseString_quote (out rest : List UInt8) :
    parseString out (ascii '"' :: rest) = .ok (out, rest) := by
  rw [parseString, if_pos rfl]

theorem parseString_escape {out rest' : List UInt8} (h : unescape rest = .ok (piece, rest')) :
    parseString out (ascii '\\' :: rest) = parseString (out ++ piece) rest' := by
  have hquote : ¬(ascii '\\' = ascii '"') := by decide
  have hcontrol : ¬(ascii '\\' < 0x20) := by decide
  rw [parseString, if_neg hquote, if_neg hcontrol, if_neg (not_not.2 rfl)]
  split
  · rename_i why heq
    rw [h] at heq
    cases heq
  · rename_i piece' rest'' heq
    rw [h] at heq
    cases heq
    rfl

def Plain (c : UInt8) : Prop := c ≠ ascii '"' ∧ ¬c < 0x20 ∧ c ≠ ascii '\\'

theorem parseString_plain : ∀ {bytes : List UInt8} (out rest : List UInt8), (∀ c ∈ bytes, Plain c) →
    parseString out (bytes ++ rest) = parseString (out ++ bytes) rest
  | [], out, rest, _ => by simp
  | c :: bytes, out, rest, h => by
    obtain ⟨hquote, hcontrol, hslash⟩ := h c List.mem_cons_self
    rw [List.cons_append, parseString, if_neg hquote, if_neg hcontrol, if_pos hslash,
      parseString_plain _ _ fun c' hc' => h c' (List.mem_cons_of_mem _ hc'), List.append_assoc]
    rfl

theorem plain_of_tail {c : UInt8} (h : 0x80 ≤ c) : Plain c := by
  have hbyte : 128 ≤ c.toNat := UInt8.le_iff_toNat_le.1 h
  refine ⟨fun heq => ?_, fun hlt => ?_, fun heq => ?_⟩
  · rw [heq] at hbyte
    revert hbyte
    decide
  · have hlt' : c.toNat < 32 := UInt8.lt_iff_toNat_lt.1 hlt
    omega
  · rw [heq] at hbyte
    revert hbyte
    decide

theorem tail_of_utf8Step {c : UInt8} {step : ℕ} (h : utf8Step c rest = step + 1) :
    ∀ b ∈ rest.take step, 0x80 ≤ b := by
  unfold utf8Step at h
  dsimp only at h
  split_ifs at h
  · obtain rfl : step = 0 := by omega
    simp
  · split at h
    · split_ifs at h with htail
      obtain rfl : step = 1 := by omega
      simp_all
    · omega
  · split at h
    · split_ifs at h with htail
      obtain rfl : step = 2 := by omega
      simp_all
    · omega
  · split at h
    · split_ifs at h with htail
      obtain rfl : step = 3 := by omega
      simp_all
    · omega

theorem hexNibble_hexDigit {n : ℕ} (h : n < 16) : hexNibble (hexDigit n) = some n := by
  interval_cases n <;> decide

theorem readUnicode_control {c : UInt8} (h : c < 0x20) (rest : List UInt8) :
    readUnicode ([ascii '0', ascii '0', hexDigit (c.toNat / 16), hexDigit (c.toNat % 16)] ++ rest) =
      .ok ([c], rest) := by
  have hbyte : c.toNat < 32 := UInt8.lt_iff_toNat_lt.1 h
  have hzero : hexNibble (ascii '0') = some 0 := by decide
  have hunit : readCodeUnit ([ascii '0', ascii '0', hexDigit (c.toNat / 16),
      hexDigit (c.toNat % 16)] ++ rest) = some (c.toNat, rest) := by
    simp only [List.cons_append, List.nil_append, readCodeUnit, hzero,
      hexNibble_hexDigit (show c.toNat / 16 < 16 by omega),
      hexNibble_hexDigit (show c.toNat % 16 < 16 by omega)]
    congr 2
    omega
  rw [readUnicode, hunit]
  dsimp only
  rw [if_neg (by omega), if_neg (by omega), writeUtf8, if_pos (by omega), UInt8.ofNat_toNat]

theorem unescape_of_shortForm {c : UInt8} {short : List UInt8} (h : shortForm c = some short) :
    ∃ e, short = [ascii '\\', e] ∧ e ≠ 0 ∧ ∀ rest, unescape (e :: rest) = .ok ([c], rest) := by
  unfold shortForm at h
  split_ifs at h with h₁ h₂ h₃ h₄ h₅ h₆ h₇
  all_goals
    cases h
    subst_vars
    exact ⟨_, rfl, by decide, fun rest => rfl⟩

theorem escape_cases {c : UInt8} {step : ℕ} (h : escape c rest = some (piece, step)) :
    (∃ e, piece = [ascii '\\', e] ∧ e ≠ 0 ∧ step = 0 ∧
      ∀ tail, unescape (e :: tail) = .ok ([c], tail)) ∨
    (c < 0x20 ∧ step = 0 ∧ piece = [ascii '\\', ascii 'u'] ++
      [ascii '0', ascii '0', hexDigit (c.toNat / 16), hexDigit (c.toNat % 16)]) ∨
    piece = c :: rest.take step ∧ ∀ b ∈ piece, Plain b := by
  unfold escape at h
  split at h
  · rename_i short hshort
    cases h
    obtain ⟨e, heq, hne, hunescape⟩ := unescape_of_shortForm hshort
    exact .inl ⟨e, heq, hne, rfl, hunescape⟩
  · rename_i hshort
    split_ifs at h with hcontrol
    · cases h
      exact .inr (.inl ⟨hcontrol, rfl, rfl⟩)
    · split at h
      · cases h
      · rename_i step' hstep
        cases h
        refine .inr (.inr ⟨rfl, fun b hb => ?_⟩)
        rcases List.mem_cons.1 hb with rfl | hb
        · refine ⟨fun heq => ?_, hcontrol, fun heq => ?_⟩
          · simp [shortForm, heq] at hshort
          · rw [heq] at hshort
            revert hshort
            decide
        · exact plain_of_tail (tail_of_utf8Step hstep b hb)

theorem parseString_piece {c : UInt8} {step : ℕ}
    (h : escape c rest = some (piece, step)) (out tail : List UInt8) :
    parseString out (piece ++ tail) = parseString (out ++ c :: rest.take step) tail := by
  rcases escape_cases h with ⟨e, rfl, -, rfl, hunescape⟩ | ⟨hcontrol, rfl, rfl⟩ | ⟨rfl, hplain⟩
  · exact parseString_escape (hunescape tail)
  · have hu : unescape (ascii 'u' :: ([ascii '0', ascii '0', hexDigit (c.toNat / 16),
        hexDigit (c.toNat % 16)] ++ tail)) = readUnicode _ := rfl
    exact parseString_escape (hu.trans (readUnicode_control hcontrol tail))
  · exact parseString_plain out tail hplain

theorem parseString_escaped (bytes : List UInt8) : ∀ {text : List UInt8},
    escaped bytes = some text → ∀ out rest,
      parseString out (text ++ ascii '"' :: rest) = .ok (out ++ bytes, rest) := by
  fun_induction escaped bytes with
  | case1 =>
    intro text h out rest
    cases h
    rw [List.append_nil]
    exact parseString_quote out rest
  | case2 c rest hesc =>
    intro text h
    cases h
  | case3 c rest piece step hesc ih =>
    intro text h out tail
    obtain ⟨text', htext', rfl⟩ := Option.map_eq_some_iff.1 h
    rw [List.append_assoc, parseString_piece hesc, ih htext']
    simp

theorem parseString_quoted {bytes : List UInt8} (h : (escaped bytes).isSome) (rest : List UInt8) :
    ∃ text, quoted bytes ++ rest = ascii '"' :: text ∧ parseString [] text = .ok (bytes, rest) := by
  obtain ⟨text, htext⟩ := Option.isSome_iff_exists.1 h
  refine ⟨text ++ ascii '"' :: rest, by simp [quoted, htext], ?_⟩
  exact parseString_escaped bytes htext [] rest

/-! ## Numbers -/

def Ends (rest : List UInt8) : Prop :=
  ∀ c ∈ rest.head?, isDigit c = false ∧ c ≠ ascii '.' ∧ c ≠ ascii 'e' ∧ c ≠ ascii 'E'

theorem digits_lt (n : ℕ) : ∀ d ∈ decimalDigits n, d < 10 := by
  intro d hd
  unfold decimalDigits at hd
  split_ifs at hd
  · simp_all
  · exact Nat.digits_lt_base (by norm_num) (List.mem_reverse.1 hd)

theorem isDigit_digit {d : ℕ} (h : d < 10) : isDigit (UInt8.ofNat (48 + d)) = true := by
  interval_cases d <;> decide

theorem digit_ne_sign {d : ℕ} (h : d < 10) : UInt8.ofNat (48 + d) ≠ ascii '-' := by
  interval_cases d <;> decide

theorem decimalDigits_cases (n : ℕ) : n = 0 ∧ decimalDigits n = [0] ∨
    ∃ d ds, decimalDigits n = d :: ds ∧ 1 ≤ d ∧ d < 10 := by
  by_cases hn : n = 0
  · exact .inl ⟨hn, by simp [decimalDigits, hn]⟩
  · right
    have hne : Nat.digits 10 n ≠ [] := Nat.digits_ne_nil_iff_ne_zero.2 hn
    have hlast := Nat.getLast_digit_ne_zero 10 hn
    obtain ⟨d, ds, hds⟩ := List.exists_cons_of_ne_nil (List.reverse_ne_nil_iff.2 hne)
    have hdigits : decimalDigits n = d :: ds := by rw [decimalDigits, if_neg hn, hds]
    refine ⟨d, ds, hdigits, ?_, digits_lt n d (by rw [hdigits]; exact List.mem_cons_self)⟩
    have hd : (Nat.digits 10 n).getLast hne = d := by
      rw [← List.head_reverse (by simpa using hne)]
      simp [hds]
    omega

theorem dropWhile_digits {ds : List ℕ} (hds : ∀ d ∈ ds, d < 10) (hrest : Ends rest) :
    (ds.map (fun d => UInt8.ofNat (48 + d)) ++ rest).dropWhile isDigit = rest := by
  rw [List.dropWhile_append_of_pos]
  · cases rest with
    | nil => rfl
    | cons c rest => rw [List.dropWhile_cons_of_neg (by simp [(hrest c rfl).1])]
  · intro c hc
    obtain ⟨d, hd, rfl⟩ := List.mem_map.1 hc
    exact isDigit_digit (hds d hd)

theorem wholePart_digits (n : ℕ) (hrest : Ends rest) :
    wholePart ((decimalDigits n).map (fun d => UInt8.ofNat (48 + d)) ++ rest) = .ok rest := by
  rcases decimalDigits_cases n with ⟨-, hdigits⟩ | ⟨d, ds, hdigits, hpos, hlt⟩
  · rw [hdigits]
    rfl
  · have hds : ∀ d ∈ ds, d < 10 := fun d' hd' =>
      digits_lt n d' (by rw [hdigits]; exact List.mem_cons_of_mem _ hd')
    have hzero : ¬UInt8.ofNat (48 + d) = ascii '0' := by interval_cases d <;> decide
    have hdigit : 49 ≤ UInt8.ofNat (48 + d) ∧ UInt8.ofNat (48 + d) ≤ 57 := by
      interval_cases d <;> decide
    rw [hdigits, List.map_cons, List.cons_append, wholePart, if_neg hzero, if_pos hdigit,
      dropWhile_digits hds hrest]

theorem fraction_ends (h : Ends rest) : fraction rest = .ok rest := by
  cases rest with
  | nil => rfl
  | cons c rest => rw [fraction, if_neg (h c rfl).2.1]

theorem exponent_ends (h : Ends rest) : exponent rest = .ok rest := by
  cases rest with
  | nil => rfl
  | cons c rest => simp only [exponent, if_neg (not_or.2 (h c rfl).2.2)]

theorem parseNumber_decimal (n : ℤ) (hrest : Ends rest) :
    parseNumber (decimal n ++ rest) = .ok (decimal n, rest) := by
  have hunsigned : unsigned (decimal n ++ rest) =
      (decimalDigits n.natAbs).map (fun d => UInt8.ofNat (48 + d)) ++ rest := by
    unfold decimal
    split_ifs
    · rfl
    · rw [List.nil_append]
      rcases decimalDigits_cases n.natAbs with ⟨-, hdigits⟩ | ⟨d, ds, hdigits, hpos, hlt⟩
      · rw [hdigits]
        rfl
      · rw [hdigits, List.map_cons, List.cons_append, unsigned, if_neg (digit_ne_sign hlt)]
  simp only [parseNumber, hunsigned, wholePart_digits _ hrest, fraction_ends hrest,
    exponent_ends hrest, bind, Except.bind]
  simp [pure, Except.pure]

theorem readDigits_fold : ∀ {ds : List ℕ} {value : ℕ}, (∀ d ∈ ds, d < 10) →
    ds.foldl (fun v d => v * 10 + d) value < 2 ^ 64 →
    readDigits (ds.map fun d => UInt8.ofNat (48 + d)) value =
      some (ds.foldl (fun v d => v * 10 + d) value)
  | [], _, _, _ => rfl
  | d :: ds, value, hds, hlt => by
    have hd : d < 10 := hds d List.mem_cons_self
    have hmono : ∀ (ds : List ℕ) (v : ℕ), v ≤ ds.foldl (fun v d => v * 10 + d) v := by
      intro ds
      induction ds with
      | nil => exact fun v => le_refl v
      | cons d ds ih =>
        intro v
        have := ih (v * 10 + d)
        simp only [List.foldl_cons]
        omega
    have hnext := hmono ds (value * 10 + d)
    have hbyte : (UInt8.ofNat (48 + d)).toNat - 48 = d := by interval_cases d <;> decide
    rw [List.foldl_cons] at hlt
    rw [List.map_cons, readDigits, if_pos (isDigit_digit hd), hbyte, if_neg (by omega),
      readDigits_fold (fun d' hd' => hds d' (List.mem_cons_of_mem _ hd')) hlt, List.foldl_cons]

theorem fold_decimalDigits (n : ℕ) : (decimalDigits n).foldl (fun v d => v * 10 + d) 0 = n := by
  unfold decimalDigits
  split_ifs with hn
  · rw [hn]
    rfl
  · rw [List.foldl_reverse]
    conv_rhs => rw [← Nat.ofDigits_digits 10 n, Nat.ofDigits_eq_foldr]
    congr 1
    funext d v
    push_cast
    ring

theorem jsonInt_decimal {n : ℤ} {node : Node} (htype : node.type = .number)
    (hvalue : node.value = decimal n) (hlow : -2 ^ 63 ≤ n) (hhigh : n < 2 ^ 63) (fallback : ℤ) :
    jsonInt node fallback = n := by
  have hread : readDigits ((decimalDigits n.natAbs).map fun d => UInt8.ofNat (48 + d)) 0 =
      some n.natAbs := by
    have hfold := fold_decimalDigits n.natAbs
    rw [readDigits_fold (digits_lt _) (by rw [hfold]; omega), hfold]
  have hne : (decimalDigits n.natAbs).map (fun d => UInt8.ofNat (48 + d)) ≠ [] := by
    rcases decimalDigits_cases n.natAbs with ⟨-, hdigits⟩ | ⟨d, ds, hdigits, -⟩ <;> simp [hdigits]
  unfold jsonInt
  by_cases hneg : n < 0
  · have htext : node.value = ascii '-' ::
        (decimalDigits n.natAbs).map fun d => UInt8.ofNat (48 + d) := by
      rw [hvalue, decimal, if_pos hneg]
      rfl
    simp only [htype, htext, List.head?_cons, List.tail_cons, if_true, hread]
    rw [if_neg (by simp), if_neg hne, if_neg (by omega)]
    omega
  · have htext : node.value = (decimalDigits n.natAbs).map fun d => UInt8.ofNat (48 + d) := by
      rw [hvalue, decimal, if_neg hneg]
      rfl
    have hsign : ¬node.value.head? = some (ascii '-') := by
      rw [htext]
      rcases decimalDigits_cases n.natAbs with ⟨-, hdigits⟩ | ⟨d, ds, hdigits, hpos, hlt⟩
      · rw [hdigits]
        decide
      · rw [hdigits]
        simpa using digit_ne_sign hlt
    simp only [hsign, if_false]
    rw [if_neg (by rw [htext]; simp only [htype, hne]; simp), htext, if_neg hne, hread]
    dsimp only
    rw [if_neg (by omega)]
    omega

/-! ## The nodes of a value -/

mutual

def size : Tree → ℕ
  | .null | .bool _ | .int _ | .string _ => 1
  | .array items => sizeItems items + 1
  | .object members => sizeMembers members + 1

def sizeItems : List Tree → ℕ
  | [] => 0
  | t :: rest => size t + sizeItems rest

def sizeMembers : List (List UInt8 × Tree) → ℕ
  | [] => 0
  | (_, t) :: rest => size t + sizeMembers rest

end

mutual

/-- The nodes of a value from an index on, in the order of its text. -/
def laid (i : ℕ) (key : Option (List UInt8)) (next : Option ℕ) : Tree → List Node
  | .null => [{ type := .null, key, nextSibling := next }]
  | .bool b => [{ type := .bool, key, boolValue := b, nextSibling := next }]
  | .int n => [{ type := .number, key, value := decimal n, nextSibling := next }]
  | .string bytes => [{ type := .string, key, value := bytes, nextSibling := next }]
  | .array items =>
    { type := .array, key, nextSibling := next, childCount := items.length
      firstChild := if items.isEmpty then none else some (i + 1) } :: laidItems (i + 1) items
  | .object members =>
    { type := .object, key, nextSibling := next, childCount := members.length
      firstChild := if members.isEmpty then none else some (i + 1) } :: laidMembers (i + 1) members

def laidItems (i : ℕ) : List Tree → List Node
  | [] => []
  | t :: rest =>
    laid i none (if rest.isEmpty then none else some (i + size t)) t ++ laidItems (i + size t) rest

def laidMembers (i : ℕ) : List (List UInt8 × Tree) → List Node
  | [] => []
  | (name, t) :: rest =>
    laid i (some name) (if rest.isEmpty then none else some (i + size t)) t ++
      laidMembers (i + size t) rest

end

/-- The nodes of children, with their names where they have one. -/
def laidChildren (i : ℕ) : List (Option (List UInt8) × Tree) → List Node
  | [] => []
  | (key, t) :: rest =>
    laid i key (if rest.isEmpty then none else some (i + size t)) t ++
      laidChildren (i + size t) rest

def element (t : Tree) : Option (List UInt8) × Tree := (none, t)

def member (m : List UInt8 × Tree) : Option (List UInt8) × Tree := (some m.1, m.2)

theorem laidItems_eq : ∀ (i : ℕ) (items : List Tree),
    laidItems i items = laidChildren i (items.map element)
  | _, [] => rfl
  | i, t :: rest => by
    rw [laidItems, List.map_cons, element, laidChildren, laidItems_eq]
    cases rest <;> rfl

theorem laidMembers_eq : ∀ (i : ℕ) (members : List (List UInt8 × Tree)),
    laidMembers i members = laidChildren i (members.map member)
  | _, [] => rfl
  | i, (name, t) :: rest => by
    rw [laidMembers, List.map_cons, member, laidChildren, laidMembers_eq]
    cases rest <;> rfl

mutual

theorem length_laid : ∀ (t : Tree) (i : ℕ) (key : Option (List UInt8)) (next : Option ℕ),
    (laid i key next t).length = size t
  | .null, _, _, _ | .bool _, _, _, _ | .int _, _, _, _ | .string _, _, _, _ => rfl
  | .array items, i, key, next => by
    rw [laid, List.length_cons, length_laidItems items, size]
  | .object members, i, key, next => by
    rw [laid, List.length_cons, length_laidMembers members, size]

theorem length_laidItems : ∀ (items : List Tree) (i : ℕ),
    (laidItems i items).length = sizeItems items
  | [], _ => rfl
  | t :: rest, i => by
    rw [laidItems, List.length_append, length_laid t, length_laidItems rest, sizeItems]

theorem length_laidMembers : ∀ (members : List (List UInt8 × Tree)) (i : ℕ),
    (laidMembers i members).length = sizeMembers members
  | [], _ => rfl
  | (_, t) :: rest, i => by
    rw [laidMembers, List.length_append, length_laid t, length_laidMembers rest, sizeMembers]

end

theorem laid_next (t : Tree) (i : ℕ) (key : Option (List UInt8)) :
    ∃ (n : Node) (rest : List Node), ∀ next,
      laid i key next t = { n with nextSibling := next } :: rest := by
  cases t with
  | null => exact ⟨{ type := .null, key }, [], fun _ => rfl⟩
  | bool b => exact ⟨{ type := .bool, key, boolValue := b }, [], fun _ => rfl⟩
  | int n => exact ⟨{ type := .number, key, value := decimal n }, [], fun _ => rfl⟩
  | string bytes => exact ⟨{ type := .string, key, value := bytes }, [], fun _ => rfl⟩
  | array items =>
    refine ⟨{ type := .array, key, childCount := items.length
              firstChild := if items.isEmpty then none else some (i + 1) },
      laidItems (i + 1) items, fun _ => ?_⟩
    rw [laid]
  | object members =>
    refine ⟨{ type := .object, key, childCount := members.length
              firstChild := if members.isEmpty then none else some (i + 1) },
      laidMembers (i + 1) members, fun _ => ?_⟩
    rw [laid]

theorem modify_middle {α : Type*} (f : α → α) (x : α) (after : List α) :
    ∀ before : List α, (before ++ x :: after).modify before.length f = before ++ f x :: after
  | [] => rfl
  | a :: before => by
    rw [List.cons_append, List.length_cons, List.modify_succ_cons, modify_middle f x after before]
    rfl

/-- The nodes after children were read into the container at an index, after its last one. -/
def grow (p : ℕ) : List Node → Option ℕ → List (Option (List UInt8) × Tree) → List Node
  | nodes, _, [] => nodes
  | nodes, last, (key, t) :: rest =>
    grow p (attach nodes { node := p, lastChild := last, isObject := false } nodes.length ++
      laid nodes.length key none t) (some nodes.length) rest

theorem grow_more : ∀ {rest : List (Option (List UInt8) × Tree)} {before : List Node} {c : Node}
    {between : List Node} {j : ℕ} {key : Option (List UInt8)} {t : Tree},
    j = before.length + 1 + between.length →
    grow before.length (before ++ c :: (between ++ laid j key none t)) (some j) rest =
      before ++ { c with childCount := c.childCount + rest.length } ::
        (between ++ (laid j key (if rest.isEmpty then none else some (j + size t)) t ++
          laidChildren (j + size t) rest))
  | [], before, c, between, j, key, t, _ => by simp [grow, laidChildren]
  | (key', t') :: rest, before, c, between, j, key, t, hj => by
    have hlength : (before ++ c :: (between ++ laid j key none t)).length = j + size t := by
      simp only [List.length_append, List.length_cons, length_laid]
      omega
    obtain ⟨n, tail, hlaid⟩ := laid_next t j key
    have hsibling : (before ++ c :: (between ++ laid j key none t)).modify j
        (fun n => { n with nextSibling := some (j + size t) }) =
        before ++ c :: (between ++ laid j key (some (j + size t)) t) := by
      have hmiddle := modify_middle (fun n : Node => { n with nextSibling := some (j + size t) })
        { n with nextSibling := none } tail (before ++ c :: between)
      have hindex : (before ++ c :: between).length = j := by
        simp only [List.length_append, List.length_cons]
        omega
      rw [hindex] at hmiddle
      simpa [hlaid] using hmiddle
    have hattach : attach (before ++ c :: (between ++ laid j key none t))
        { node := before.length, lastChild := some j, isObject := false } (j + size t) =
        before ++ { c with childCount := c.childCount + 1 } ::
          (between ++ laid j key (some (j + size t)) t) := by
      rw [attach]
      dsimp only
      rw [hsibling, modify_middle]
    rw [grow, hlength, hattach, List.append_assoc, List.cons_append, ← List.append_assoc between,
      grow_more (by simp only [List.length_append, length_laid]; omega)]
    simp [laidChildren, Nat.add_comm 1 rest.length, Nat.add_assoc]

theorem grow_first {children : List (Option (List UInt8) × Tree)} {before : List Node} {c : Node}
    (hc : c.firstChild = none) :
    grow before.length (before ++ [c]) none children =
      before ++ { c with
        childCount := c.childCount + children.length
        firstChild := if children.isEmpty then none else some (before.length + 1) } ::
          laidChildren (before.length + 1) children := by
  cases children with
  | nil => simp [grow, laidChildren, ← hc]
  | cons child rest =>
    obtain ⟨key, t⟩ := child
    have hattach : attach (before ++ [c]) { node := before.length, isObject := false }
        (before.length + 1) =
        before ++ [{ c with
          firstChild := some (before.length + 1), childCount := c.childCount + 1 }] := by
      rw [attach]
      dsimp only
      rw [modify_middle, modify_middle]
    rw [grow, List.length_append, List.length_singleton, hattach, List.append_assoc,
      List.singleton_append, ← List.nil_append (laid _ _ _ _), grow_more (by simp)]
    simp [laidChildren, Nat.add_comm 1 rest.length, Nat.add_assoc]

/-! ## Reading a rendered value -/

def Layout.Blank (l : Layout) : Prop :=
  (∀ depth, ∀ c ∈ l.brk depth, isBlank c = true) ∧ ∀ c ∈ l.gap, isBlank c = true

theorem skipSpace_blank {blank : List UInt8} (h : ∀ c ∈ blank, isBlank c = true)
    (rest : List UInt8) : skipSpace (blank ++ rest) = skipSpace rest :=
  List.dropWhile_append_of_pos h

theorem skipSpace_cons {c : UInt8} (h : isBlank c = false) (rest : List UInt8) :
    skipSpace (c :: rest) = c :: rest :=
  List.dropWhile_cons_of_neg (by simp [h])

/-- A text that starts with neither a blank nor the end of a container. -/
def Starts (text : List UInt8) : Prop :=
  ∃ c rest, text = c :: rest ∧ isBlank c = false ∧ c ≠ ascii ']' ∧ c ≠ ascii '\x7d'

theorem starts_quoted (bytes : List UInt8) : Starts (quoted bytes) :=
  ⟨_, _, rfl, by decide, by decide, by decide⟩

theorem forall_of_all {p : UInt8 → Prop} [DecidablePred p] {l : List UInt8}
    (h : (l.all fun c => decide (p c)) = true) : ∀ c ∈ l, p c :=
  fun c hc => of_decide_eq_true (List.all_eq_true.1 h c hc)

theorem decimal_head (n : ℤ) : ∃ c rest, decimal n = c :: rest ∧
    ∀ c' ∈ asciis "\x7b\x7d[]\"tfn \t\r\n", c ≠ c' := by
  unfold decimal
  split_ifs
  · exact ⟨_, _, rfl, forall_of_all (by decide)⟩
  · rcases decimalDigits_cases n.natAbs with ⟨-, hdigits⟩ | ⟨d, ds, hdigits, -, hlt⟩
    · rw [hdigits]
      exact ⟨_, _, rfl, forall_of_all (by decide)⟩
    · rw [hdigits]
      refine ⟨_, _, rfl, forall_of_all ?_⟩
      interval_cases d <;> decide

theorem starts_decimal (n : ℤ) : Starts (decimal n) := by
  obtain ⟨c, rest, heq, hne⟩ := decimal_head n
  refine ⟨c, rest, heq, ?_, hne _ (by decide), hne _ (by decide)⟩
  simp only [isBlank, Bool.or_eq_false_iff, decide_eq_false_iff_not]
  exact ⟨⟨⟨hne _ (by decide), hne _ (by decide)⟩, hne _ (by decide)⟩, hne _ (by decide)⟩

theorem starts_render (l : Layout) (depth : ℕ) (t : Tree) : Starts (render l depth t) := by
  cases t with
  | null => exact ⟨_, _, rfl, by decide, by decide, by decide⟩
  | bool b => cases b <;> exact ⟨_, _, rfl, by decide, by decide, by decide⟩
  | int n => exact starts_decimal n
  | string bytes => exact starts_quoted bytes
  | array items => exact ⟨_, _, rfl, by decide, by decide, by decide⟩
  | object members => exact ⟨_, _, rfl, by decide, by decide, by decide⟩

theorem Starts.skipSpace {text : List UInt8} (h : Starts text) (rest : List UInt8) :
    skipSpace (text ++ rest) = text ++ rest := by
  obtain ⟨c, text', rfl, hblank, -⟩ := h
  exact skipSpace_cons hblank _

theorem ends_cons {c : UInt8} {rest : List UInt8}
    (h : c = ascii ',' ∨ c = ascii ']' ∨ c = ascii '\x7d' ∨ isBlank c = true) :
    Ends (c :: rest) := by
  intro c' hc'
  obtain rfl : c = c' := by simpa using hc'
  rcases h with rfl | rfl | rfl | hblank
  · decide
  · decide
  · decide
  · simp only [isBlank, Bool.or_eq_true, decide_eq_true_eq] at hblank
    rcases hblank with ((rfl | rfl) | rfl) | rfl <;> decide

theorem ends_blank {blank rest : List UInt8} (h : ∀ c ∈ blank, isBlank c = true)
    (hrest : Ends rest) : Ends (blank ++ rest) := by
  cases blank with
  | nil => exact hrest
  | cons c blank => exact ends_cons (.inr (.inr (.inr (h c List.mem_cons_self))))

namespace Reader

/-- The node the next value is attached to, and the last value in it, are there. -/
def Linked (r : Reader) : Prop :=
  ∀ top ∈ r.stack.head?, top.node < r.nodes.length ∧ ∀ last ∈ top.lastChild, last < r.nodes.length

def attached (r : Reader) : List Node :=
  match r.stack with
  | [] => r.nodes
  | top :: _ => attach r.nodes top r.nodes.length

/-- The stack with the next node the last child of what is open. -/
def stacked (r : Reader) : List OpenFrame :=
  match r.stack with
  | [] => []
  | top :: below => { top with lastChild := some r.nodes.length } :: below

def took (r : Reader) (t : Tree) (rest : List UInt8) : Reader where
  input := rest
  nodes := r.attached ++ laid r.nodes.length r.pending none t
  stack := r.stacked
  expect := .after

theorem length_attach (nodes : List Node) (top : OpenFrame) (index : ℕ) :
    (attach nodes top index).length = nodes.length := by
  unfold attach
  cases top.lastChild <;> simp

theorem length_attached (r : Reader) : r.attached.length = r.nodes.length := by
  unfold attached
  split
  · rfl
  · exact length_attach _ _ _

theorem length_stacked (r : Reader) : r.stacked.length = r.stack.length := by
  unfold stacked
  split <;> simp_all

theorem modify_append_of_lt {α : Type*} {l : List α} (f : α → α) (l' : List α) {i : ℕ}
    (h : i < l.length) : (l ++ l').modify i f = l.modify i f ++ l' := by
  induction l generalizing i with
  | nil => simp at h
  | cons a l ih =>
    cases i with
    | zero => rfl
    | succ i =>
      simp only [List.cons_append, List.modify_succ_cons]
      rw [ih (by simpa using h)]

variable {top : OpenFrame}

theorem attach_append {nodes : List Node} (hnode : top.node < nodes.length)
    (hlast : ∀ last ∈ top.lastChild, last < nodes.length) (index : ℕ) (more : List Node) :
    attach (nodes ++ more) top index = attach nodes top index ++ more := by
  unfold attach
  rcases hchild : top.lastChild with _ | last
  · dsimp only
    rw [modify_append_of_lt _ _ hnode, modify_append_of_lt _ _ (by simpa using hnode)]
  · dsimp only
    rw [modify_append_of_lt _ _ (hlast last hchild),
      modify_append_of_lt _ _ (by simpa using hnode)]

variable {r : Reader}

theorem place_eq (h : r.Linked) (node : Node) :
    r.place node =
      { r with
        nodes := r.attached ++ [{ node with key := r.pending }]
        stack := r.stacked
        pending := none } := by
  unfold place attached stacked
  rcases hstack : r.stack with _ | ⟨top, below⟩
  · simp
  · obtain ⟨hnode, hlast⟩ := h top (by simp [hstack])
    dsimp only
    rw [attach_append hnode hlast]

theorem literal_append (word : String) (rest : List UInt8) :
    literal word (asciis word ++ rest) = some rest := by
  simp [literal, List.isPrefixOf_iff_prefix]

theorem step_scalar {t : Tree} {depth : ℕ} {l : Layout} {rest : List UInt8}
    (hexpect : r.expect = .value) (hinput : skipSpace r.input = render l depth t ++ rest)
    (hends : Ends rest) (hfits : Fits 0 t) (hlinked : r.Linked)
    (hroom : r.nodes.length < maxNodes) :
    r.step = .ok (.inl (r.took t rest)) := by
  have hread (node : Node) (hnode : [{ node with key := r.pending }] =
      laid r.nodes.length r.pending none t) : r.scalar node rest = r.took t rest := by
    rw [scalar, place_eq hlinked, hnode]
    rfl
  have hfull : ¬maxNodes ≤ r.nodes.length := not_le.2 hroom
  have hstep : r.readValue = .ok (r.took t rest) := by
    unfold readValue
    rw [hinput]
    cases t with
    | null =>
      have hword : render l depth .null ++ rest =
          ascii 'n' :: ([ascii 'u', ascii 'l', ascii 'l'] ++ rest) := rfl
      have hliteral : literal "null" (ascii 'n' :: ([ascii 'u', ascii 'l', ascii 'l'] ++ rest)) =
          some rest := literal_append "null" rest
      rw [hword]
      dsimp only
      rw [if_neg (by decide), if_neg hfull, if_neg (by decide), if_neg (by decide),
        if_pos (by decide), hliteral]
      exact congrArg _ (hread _ rfl)
    | bool b =>
      cases b with
      | true =>
        have hword : render l depth (.bool true) ++ rest =
            ascii 't' :: ([ascii 'r', ascii 'u', ascii 'e'] ++ rest) := rfl
        have hliteral : literal "true" (ascii 't' :: ([ascii 'r', ascii 'u', ascii 'e'] ++ rest)) =
            some rest := literal_append "true" rest
        rw [hword]
        dsimp only
        rw [if_neg (by decide), if_neg hfull, if_neg (by decide), if_pos (by decide), hliteral]
        exact congrArg _ (hread _ rfl)
      | false =>
        have hword : render l depth (.bool false) ++ rest =
            ascii 'f' :: ([ascii 'a', ascii 'l', ascii 's', ascii 'e'] ++ rest) := rfl
        have hliteral : literal "false"
            (ascii 'f' :: ([ascii 'a', ascii 'l', ascii 's', ascii 'e'] ++ rest)) = some rest :=
          literal_append "false" rest
        have htrue : literal "true"
            (ascii 'f' :: ([ascii 'a', ascii 'l', ascii 's', ascii 'e'] ++ rest)) = none := rfl
        rw [hword]
        dsimp only
        rw [if_neg (by decide), if_neg hfull, if_neg (by decide), if_pos (by decide), hliteral,
          htrue]
        exact congrArg _ (hread _ rfl)
    | int n =>
      obtain ⟨c, digits, hdecimal, hne⟩ := decimal_head n
      have hnumber : parseNumber (c :: (digits ++ rest)) = .ok (decimal n, rest) := by
        rw [← List.cons_append, ← hdecimal]
        exact parseNumber_decimal n hends
      rw [render, hdecimal, List.cons_append]
      dsimp only
      rw [if_neg (not_or.2 ⟨hne _ (by decide), hne _ (by decide)⟩), if_neg hfull,
        if_neg (hne _ (by decide)), if_neg (not_or.2 ⟨hne _ (by decide), hne _ (by decide)⟩),
        if_neg (hne _ (by decide)), hnumber]
      exact congrArg _ (hread _ rfl)
    | string bytes =>
      obtain ⟨text, htext, hstring⟩ := parseString_quoted hfits rest
      rw [render, htext]
      dsimp only
      rw [if_neg (by decide), if_neg hfull, if_pos rfl, hstring]
      exact congrArg _ (hread _ rfl)
    | array items => exact absurd hfits.1 (by simp)
    | object members => exact absurd hfits.1 (by simp)
  unfold step
  rw [hexpect, hstep]
  rfl

theorem length_took (r : Reader) (t : Tree) (rest : List UInt8) :
    (r.took t rest).nodes.length = r.nodes.length + size t := by
  rw [took, List.length_append, length_attached, length_laid]

theorem size_pos (t : Tree) : 0 < size t := by
  cases t <;> simp [size]

theorem linked_took (h : r.Linked) (t : Tree) (rest : List UInt8) :
    (r.took t rest).Linked := by
  intro top htop
  have hpos := size_pos t
  rw [length_took]
  simp only [took, stacked] at htop
  rcases hstack : r.stack with _ | ⟨top', below⟩
  · simp [hstack] at htop
  · rw [hstack] at htop
    obtain rfl : { top' with lastChild := some r.nodes.length } = top := by simpa using htop
    have hnode := (h top' (by simp [hstack])).1
    refine ⟨by simp only; omega, fun last hlast => ?_⟩
    obtain rfl : r.nodes.length = last := by simpa using hlast
    omega

theorem step_opened (isObject : Bool) {rest : List UInt8} (hexpect : r.expect = .value)
    (hinput : skipSpace r.input = (if isObject then ascii '\x7b' else ascii '[') :: rest)
    (hdepth : r.stack.length < maxDepth) (hroom : r.nodes.length < maxNodes) :
    r.step = .ok (.inl (r.opened isObject rest)):= by
  unfold step
  rw [hexpect]
  dsimp only
  unfold readValue
  rw [hinput]
  dsimp only
  rw [if_pos (by cases isObject <;> decide), if_neg (not_le.2 hdepth), if_neg (not_le.2 hroom)]
  cases isObject <;> rfl

theorem opened_empty (h : r.Linked) (isObject : Bool) (rest : List UInt8) :
    r.opened isObject (closer isObject :: rest) =
      { input := rest
        nodes := r.attached ++
          [{ type := if isObject then .object else .array, key := r.pending }]
        stack := r.stacked
        expect := .after } := by
  have hskip : skipSpace (closer isObject :: rest) = closer isObject :: rest :=
    skipSpace_cons (by cases isObject <;> decide) rest
  unfold opened
  rw [hskip, place_eq h]
  simp

def inside (r : Reader) (isObject : Bool) (input : List UInt8) : Reader where
  input := input
  nodes := r.attached ++ [{ type := if isObject then .object else .array, key := r.pending }]
  stack := { node := r.nodes.length, isObject } :: r.stacked
  expect := if isObject then .key else .value

theorem opened_some (h : r.Linked) (isObject : Bool) {rest : List UInt8} {c : UInt8}
    {rest' : List UInt8} (hskip : skipSpace rest = c :: rest') (hc : c ≠ closer isObject) :
    r.opened isObject rest = r.inside isObject (c :: rest') := by
  unfold opened inside
  rw [hskip, place_eq h]
  simp [hc]

theorem length_inside (r : Reader) (isObject : Bool) (input : List UInt8) :
    (r.inside isObject input).nodes.length = r.nodes.length + 1 := by
  rw [inside, List.length_append, length_attached]
  rfl

theorem linked_inside (r : Reader) (isObject : Bool) (input : List UInt8) :
    (r.inside isObject input).Linked := by
  intro top htop
  obtain rfl : { node := r.nodes.length, isObject } = top := by simpa [inside] using htop
  simp [length_inside]

theorem room_inside (r : Reader) (isObject : Bool) (input : List UInt8) :
    maxDepth - (r.inside isObject input).stack.length = maxDepth - r.stack.length - 1 := by
  rw [inside, List.length_cons, length_stacked]
  omega

variable {below : List OpenFrame}

theorem step_after {r' : Reader} (hexpect : r.expect = .after) (hstack : r.stack = top :: below)
    (h : r.readAfter top below = .ok r') : r.step = .ok (.inl r') := by
  unfold step
  rw [hexpect, hstack]
  dsimp only
  rw [h]
  rfl

theorem run_close {blank tail : List UInt8}
    (hexpect : r.expect = .after) (hstack : r.stack = top :: below)
    (hblank : ∀ c ∈ blank, isBlank c = true)
    (hinput : r.input = blank ++ closer top.isObject :: tail) :
    r.run = Reader.run { r with input := tail, stack := below } := by
  refine run_step (step_after hexpect hstack ?_)
  have hskip : skipSpace r.input = closer top.isObject :: tail := by
    rw [hinput, skipSpace_blank hblank]
    exact skipSpace_cons (by cases top.isObject <;> decide) tail
  unfold readAfter
  rw [hskip]
  dsimp only
  rw [if_neg (by cases top.isObject <;> decide), if_pos rfl]

theorem run_comma {rest : List UInt8}
    (hexpect : r.expect = .after) (hstack : r.stack = top :: below)
    (hinput : r.input = ascii ',' :: rest) :
    r.run = Reader.run
      { r with input := rest, expect := if top.isObject then .key else .value } := by
  refine run_step (step_after hexpect hstack ?_)
  have hskip : skipSpace r.input = ascii ',' :: rest := by
    rw [hinput]
    exact skipSpace_cons (by decide) rest
  unfold readAfter
  rw [hskip]
  dsimp only
  rw [if_pos rfl]

theorem run_key {name rest blank : List UInt8} (hexpect : r.expect = .key)
    (hblank : ∀ c ∈ blank, isBlank c = true) (hname : (escaped name).isSome)
    (hinput : r.input = blank ++ (quoted name ++ ascii ':' :: rest)) :
    r.run = Reader.run { r with input := rest, pending := some name, expect := .value } := by
  refine run_step ?_
  obtain ⟨text, htext, hstring⟩ := parseString_quoted hname (ascii ':' :: rest)
  have hskip : skipSpace r.input = ascii '"' :: text := by
    rw [hinput, skipSpace_blank hblank, htext]
    exact skipSpace_cons (by decide) text
  have hcolon : skipSpace (ascii ':' :: rest) = ascii ':' :: rest := skipSpace_cons (by decide) rest
  unfold step
  rw [hexpect]
  dsimp only
  unfold readKey
  rw [hskip]
  dsimp only
  rw [if_pos rfl, hstring]
  dsimp only
  rw [hcolon]
  dsimp only
  rw [if_pos rfl]
  rfl

theorem ends_items {l : Layout} (hl : l.Blank) (depth outer : ℕ) (items : List Tree)
    (tail : List UInt8) :
    Ends (renderItems l depth false items ++ (l.brk outer ++ ascii ']' :: tail)) := by
  cases items with
  | nil =>
    rw [renderItems, List.nil_append]
    exact ends_blank (hl.1 outer) (ends_cons (.inr (.inl rfl)))
  | cons t rest => exact ends_cons (.inl rfl)

theorem ends_members {l : Layout} (hl : l.Blank) (depth outer : ℕ)
    (members : List (List UInt8 × Tree)) (tail : List UInt8) :
    Ends (renderMembers l depth false members ++ (l.brk outer ++ ascii '\x7d' :: tail)) := by
  cases members with
  | nil =>
    rw [renderMembers, List.nil_append]
    exact ends_blank (hl.1 outer) (ends_cons (.inr (.inr (.inl rfl))))
  | cons m rest => exact ends_cons (.inl rfl)

variable {l : Layout}

theorem took_nodes (hstack : r.stack = top :: below) (t : Tree) (rest : List UInt8) :
    (r.took t rest).nodes =
      attach r.nodes top r.nodes.length ++ laid r.nodes.length r.pending none t := by
  rw [took, attached, hstack]

theorem took_stack (hstack : r.stack = top :: below) (t : Tree) (rest : List UInt8) :
    (r.took t rest).stack = { top with lastChild := some r.nodes.length } :: below := by
  rw [took, stacked, hstack]

theorem grow_container {c : Node} {children : List (Option (List UInt8) × Tree)}
    (hc : c.firstChild = none) (hcount : c.childCount = 0) :
    grow r.nodes.length (r.attached ++ [c]) none children =
      r.attached ++ { c with
        childCount := children.length
        firstChild := if children.isEmpty then none else some (r.nodes.length + 1) } ::
          laidChildren (r.nodes.length + 1) children := by
  rw [← length_attached r, grow_first hc, hcount, Nat.zero_add]

mutual

theorem run_value (hl : l.Blank) : ∀ (t : Tree) (depth : ℕ) {r : Reader} {rest : List UInt8},
    r.expect = .value → skipSpace r.input = render l depth t ++ rest → Ends rest →
    Fits (maxDepth - r.stack.length) t → r.Linked → r.nodes.length + size t ≤ maxNodes →
    r.run = (r.took t rest).run
  | .null, depth, r, rest, hexpect, hinput, hends, hfits, hlinked, hroom =>
    run_step (step_scalar hexpect hinput hends trivial hlinked hroom)
  | .bool b, depth, r, rest, hexpect, hinput, hends, hfits, hlinked, hroom =>
    run_step (step_scalar hexpect hinput hends trivial hlinked hroom)
  | .int n, depth, r, rest, hexpect, hinput, hends, hfits, hlinked, hroom =>
    run_step (step_scalar hexpect hinput hends trivial hlinked hroom)
  | .string bytes, depth, r, rest, hexpect, hinput, hends, hfits, hlinked, hroom =>
    run_step (step_scalar hexpect hinput hends hfits hlinked hroom)
  | .array [], depth, r, rest, hexpect, hinput, hends, hfits, hlinked, hroom => by
    have hdepth : r.stack.length < maxDepth := by
      have := hfits.1
      omega
    rw [run_step (step_opened false hexpect hinput hdepth hroom)]
    exact congrArg run (opened_empty hlinked false rest)
  | .array (t :: items), depth, r, rest, hexpect, hinput, hends, hfits, hlinked, hroom => by
    have hdepth : r.stack.length < maxDepth := by
      have := hfits.1
      omega
    have hinput' : skipSpace r.input = ascii '[' :: (l.brk (depth + 1) ++ (render l (depth + 1) t ++
        (renderItems l (depth + 1) false items ++ (l.brk depth ++ ascii ']' :: rest)))) := by
      rw [hinput, render, renderItems]
      simp
    obtain ⟨c, text, htext, hblank, hclose, -⟩ := starts_render l (depth + 1) t
    have hskip : skipSpace (l.brk (depth + 1) ++ (render l (depth + 1) t ++
        (renderItems l (depth + 1) false items ++ (l.brk depth ++ ascii ']' :: rest)))) =
        c :: (text ++ (renderItems l (depth + 1) false items ++
          (l.brk depth ++ ascii ']' :: rest))) := by
      rw [skipSpace_blank (hl.1 _), (starts_render l (depth + 1) t).skipSpace, htext,
        List.cons_append]
    have hroom' : r.nodes.length + (size t + sizeItems items + 1) ≤ maxNodes := hroom
    rw [run_step (step_opened false hexpect hinput' hdepth (by omega)),
      opened_some hlinked false hskip hclose, ← hskip]
    have hvalue : skipSpace (r.inside false (skipSpace _)).input = _ :=
      (congrArg skipSpace hskip).trans ((skipSpace_cons hblank _).trans
        ((congrArg (· ++ _) htext.symm)))
    refine (run_value hl t (depth + 1) rfl hvalue (ends_items hl (depth + 1) depth items rest)
      (by rw [room_inside]; exact hfits.2.1) (linked_inside r false _)
      (by rw [length_inside]; omega)).trans ?_
    refine (run_items hl items rfl (took_stack rfl t _) rfl rfl rfl
      (by rw [took_stack rfl]; exact (room_inside r false []).symm ▸ hfits.2.2)
      (linked_took (linked_inside r false _) t _)
      (by rw [length_took, length_inside]; omega)).trans ?_
    have hgrow : grow r.nodes.length (r.attached ++ [{ type := .array, key := r.pending }]) none
        ((t :: items).map element) = _ := grow_container rfl rfl
    rw [took_nodes rfl]
    refine congrArg run (Reader.mk.injEq .. |>.mpr ⟨rfl, hgrow.trans ?_, rfl, rfl, rfl⟩)
    rw [laid, laidItems_eq]
    simp [element]
  | .object [], depth, r, rest, hexpect, hinput, hends, hfits, hlinked, hroom => by
    have hdepth : r.stack.length < maxDepth := by
      have := hfits.1
      omega
    rw [run_step (step_opened true hexpect hinput hdepth hroom)]
    exact congrArg run (opened_empty hlinked true rest)
  | .object ((name, t) :: members), depth, r, rest, hexpect, hinput, hends, hfits, hlinked,
      hroom => by
    have hdepth : r.stack.length < maxDepth := by
      have := hfits.1
      omega
    have hinput' : skipSpace r.input = ascii '\x7b' :: (l.brk (depth + 1) ++ (quoted name ++
        ascii ':' :: (l.gap ++ (render l (depth + 1) t ++
          (renderMembers l (depth + 1) false members ++ (l.brk depth ++ ascii '\x7d' :: rest))))))
        := by
      rw [hinput, render, renderMembers]
      simp
    obtain ⟨c, text, htext, -, -, hclose⟩ := starts_quoted name
    have hskip : skipSpace (l.brk (depth + 1) ++ (quoted name ++
        ascii ':' :: (l.gap ++ (render l (depth + 1) t ++
          (renderMembers l (depth + 1) false members ++ (l.brk depth ++ ascii '\x7d' :: rest))))))
        = c :: (text ++ ascii ':' :: (l.gap ++ (render l (depth + 1) t ++
          (renderMembers l (depth + 1) false members ++
            (l.brk depth ++ ascii '\x7d' :: rest))))) := by
      rw [skipSpace_blank (hl.1 _), (starts_quoted name).skipSpace, htext, List.cons_append]
    have hroom' : r.nodes.length + (size t + sizeMembers members + 1) ≤ maxNodes := hroom
    rw [run_step (step_opened true hexpect hinput' hdepth (by omega)),
      opened_some hlinked true hskip hclose, ← List.cons_append, ← htext]
    have hnothing : ∀ c ∈ ([] : List UInt8), isBlank c = true := fun c hc => by cases hc
    rw [run_key rfl hnothing hfits.2.1 rfl]
    refine (run_value hl t (depth + 1)
      (r := { r.inside true _ with input := _, pending := some name, expect := .value }) rfl ?_
      (ends_members hl (depth + 1) depth members rest)
      ((room_inside r true []).symm ▸ hfits.2.2.1) (linked_inside r true [])
      (by rw [length_inside]; omega)).trans ?_
    · rw [skipSpace_blank hl.2]
      exact (starts_render l (depth + 1) t).skipSpace _
    refine (run_members hl members
      (r := took { r.inside true _ with input := _, pending := some name, expect := .value } t _)
      rfl (took_stack rfl t _) rfl rfl rfl
      (by rw [took_stack rfl]; exact (room_inside r true []).symm ▸ hfits.2.2.2)
      (linked_took ?_ t _) (by rw [length_took, length_inside]; omega)).trans ?_
    · exact linked_inside r true []
    have hgrow : grow r.nodes.length (r.attached ++ [{ type := .object, key := r.pending }]) none
        (((name, t) :: members).map member) = _ := grow_container rfl rfl
    rw [took_nodes rfl]
    refine congrArg run (Reader.mk.injEq .. |>.mpr ⟨rfl, hgrow.trans ?_, rfl, rfl, rfl⟩)
    rw [laid, laidMembers_eq]
    simp [member]

theorem run_items (hl : l.Blank) : ∀ (items : List Tree) {r : Reader} {top : OpenFrame}
    {below : List OpenFrame} {depth outer : ℕ} {tail : List UInt8},
    r.expect = .after → r.stack = top :: below → top.isObject = false → r.pending = none →
    r.input = renderItems l depth false items ++ (l.brk outer ++ ascii ']' :: tail) →
    FitsItems (maxDepth - r.stack.length) items → r.Linked →
    r.nodes.length + sizeItems items ≤ maxNodes →
    r.run = Reader.run
      { input := tail
        nodes := grow top.node r.nodes top.lastChild (items.map element)
        stack := below
        expect := .after }
  | [], r, top, below, depth, outer, tail, hexpect, hstack, hobject, hpending, hinput, _, _, _ => by
    have hclose : r.input = l.brk outer ++ closer top.isObject :: tail := by
      rw [hinput, hobject]
      rfl
    rw [run_close hexpect hstack (hl.1 outer) hclose, hexpect, hpending]
    rfl
  | t :: items, r, top, below, depth, outer, tail, hexpect, hstack, hobject, hpending, hinput,
      hfits, hlinked, hroom => by
    have hinput' : r.input = ascii ',' :: (l.brk depth ++ (render l depth t ++
        (renderItems l depth false items ++ (l.brk outer ++ ascii ']' :: tail)))) := by
      rw [hinput, renderItems]
      simp
    rw [sizeItems] at hroom
    rw [run_comma hexpect hstack hinput', hobject]
    simp only [Bool.false_eq_true, if_false]
    refine (run_value hl t depth (r := { r with input := _, expect := .value }) rfl ?_
      (ends_items hl depth outer items tail) hfits.1 hlinked (by simp only; omega)).trans ?_
    · rw [skipSpace_blank (hl.1 depth)]
      exact (starts_render l depth t).skipSpace _
    · refine (run_items hl items rfl (took_stack hstack t _) hobject rfl rfl ?_
        (linked_took hlinked t _) (by rw [length_took]; omega)).trans ?_
      · rw [took_stack hstack]
        rw [hstack] at hfits
        exact hfits.2
      · rw [took_nodes hstack]
        simp only [hpending]
        rfl

theorem run_members (hl : l.Blank) : ∀ (members : List (List UInt8 × Tree)) {r : Reader}
    {top : OpenFrame} {below : List OpenFrame} {depth outer : ℕ} {tail : List UInt8},
    r.expect = .after → r.stack = top :: below → top.isObject = true → r.pending = none →
    r.input = renderMembers l depth false members ++ (l.brk outer ++ ascii '\x7d' :: tail) →
    FitsMembers (maxDepth - r.stack.length) members → r.Linked →
    r.nodes.length + sizeMembers members ≤ maxNodes →
    r.run = Reader.run
      { input := tail
        nodes := grow top.node r.nodes top.lastChild (members.map member)
        stack := below
        expect := .after }
  | [], r, top, below, depth, outer, tail, hexpect, hstack, hobject, hpending, hinput, _, _, _ => by
    have hclose : r.input = l.brk outer ++ closer top.isObject :: tail := by
      rw [hinput, hobject]
      rfl
    rw [run_close hexpect hstack (hl.1 outer) hclose, hexpect, hpending]
    rfl
  | (name, t) :: members, r, top, below, depth, outer, tail, hexpect, hstack, hobject, hpending,
      hinput, hfits, hlinked, hroom => by
    have hinput' : r.input = ascii ',' :: (l.brk depth ++ (quoted name ++ ascii ':' ::
        (l.gap ++ (render l depth t ++
          (renderMembers l depth false members ++ (l.brk outer ++ ascii '\x7d' :: tail)))))) := by
      rw [hinput, renderMembers]
      simp
    rw [sizeMembers] at hroom
    rw [run_comma hexpect hstack hinput', hobject]
    simp only [if_true]
    rw [run_key rfl (hl.1 depth) hfits.1 rfl]
    -- with the name waiting, on the same nodes and the same stack
    generalize hnamed : ({ input := l.gap ++ _, nodes := r.nodes, stack := r.stack,
                           pending := some name, expect := .value } : Reader) = named
    have hstack' : named.stack = top :: below := by rw [← hnamed, hstack]
    have hlinked' : named.Linked := by
      rw [← hnamed]
      exact hlinked
    have hlength : named.nodes.length = r.nodes.length := by rw [← hnamed]
    have hexpect' : named.expect = .value := by rw [← hnamed]
    have hvalue : skipSpace named.input = render l depth t ++
        (renderMembers l depth false members ++ (l.brk outer ++ ascii '\x7d' :: tail)) := by
      rw [← hnamed, skipSpace_blank hl.2]
      exact (starts_render l depth t).skipSpace _
    rw [hstack, ← hstack'] at hfits
    refine (run_value hl t depth hexpect' hvalue (ends_members hl depth outer members tail)
      hfits.2.1 hlinked' (by omega)).trans ?_
    refine (run_members hl members rfl (took_stack hstack' t _) hobject rfl rfl ?_
      (linked_took hlinked' t _) (by rw [length_took]; omega)).trans ?_
    · rw [took_stack hstack', List.length_cons]
      rw [hstack', List.length_cons] at hfits
      exact hfits.2.2
    · rw [took_nodes hstack', ← hnamed]
      rfl

end

end Reader

theorem parse_render {l : Layout} (hl : l.Blank) {t : Tree} (hfits : Fits maxDepth t)
    (hsize : size t ≤ maxNodes) : parse (render l 0 t) = .ok (laid 0 none none t) := by
  have hskip : skipSpace (render l 0 t) = render l 0 t ++ [] := by
    simpa using (starts_render l 0 t).skipSpace []
  have hne : skipSpace (render l 0 t) ≠ [] := by
    obtain ⟨c, rest, heq, -⟩ := starts_render l 0 t
    rw [hskip, heq]
    simp
  have hrun := Reader.run_value hl t 0 (r := { input := render l 0 t }) rfl hskip
    (fun c hc => by cases hc) hfits (fun top htop => by cases htop) (by simpa using hsize)
  rw [parse, if_neg hne, hrun, Reader.run_done rfl]
  rfl

/-! ## The nodes hold the value -/

theorem head_laid (t : Tree) (i : ℕ) (key : Option (List UInt8)) (next : Option ℕ) :
    ∃ n rest, laid i key next t = n :: rest ∧ n.key = key ∧ n.nextSibling = next := by
  cases t <;> exact ⟨_, _, rfl, rfl, rfl⟩

theorem get_middle {α : Type*} (before after : List α) (x : α) :
    (before ++ x :: after)[before.length]? = some x := by
  simp

mutual

theorem holds_laid : ∀ (t : Tree) (before after : List Node) (key : Option (List UInt8))
    (next : Option ℕ), Holds (before ++ (laid before.length key next t ++ after)) before.length t
  | .null, before, after, key, next => ⟨_, get_middle before after _, rfl⟩
  | .bool b, before, after, key, next => ⟨_, get_middle before after _, rfl, rfl⟩
  | .int n, before, after, key, next =>
    ⟨_, get_middle before after _, rfl, rfl, fun hlow hhigh fallback =>
      jsonInt_decimal rfl rfl hlow hhigh fallback⟩
  | .string bytes, before, after, key, next => ⟨_, get_middle before after _, rfl, rfl⟩
  | .array items, before, after, key, next => by
    have hitems (n : Node) := holds_laidItems items (before ++ [n]) after
    refine ⟨_, get_middle before _ _, rfl, rfl, ?_⟩
    rw [laid]
    simpa using hitems _
  | .object members, before, after, key, next => by
    have hmembers (n : Node) := holds_laidMembers members (before ++ [n]) after
    refine ⟨_, get_middle before _ _, rfl, rfl, ?_⟩
    rw [laid]
    simpa using hmembers _

theorem holds_laidItems : ∀ (items : List Tree) (before after : List Node),
    HoldsItems (before ++ (laidItems before.length items ++ after))
      (if items.isEmpty then none else some before.length) items
  | [], _, _ => rfl
  | t :: rest, before, after => by
    obtain ⟨n, nodes, hlaid, hkey, hnext⟩ := head_laid t before.length none
      (if rest.isEmpty then none else some (before.length + size t))
    have hrest := holds_laidItems rest (before ++ laid before.length none
      (if rest.isEmpty then none else some (before.length + size t)) t) after
    rw [List.length_append, length_laid, List.append_assoc] at hrest
    rw [laidItems, List.append_assoc]
    refine ⟨before.length, n, rfl, ?_, hkey, holds_laid t before _ _ _, hnext ▸ hrest⟩
    rw [hlaid]
    exact get_middle before _ n

theorem holds_laidMembers : ∀ (members : List (List UInt8 × Tree)) (before after : List Node),
    HoldsMembers (before ++ (laidMembers before.length members ++ after))
      (if members.isEmpty then none else some before.length) members
  | [], _, _ => rfl
  | (name, t) :: rest, before, after => by
    obtain ⟨n, nodes, hlaid, hkey, hnext⟩ := head_laid t before.length (some name)
      (if rest.isEmpty then none else some (before.length + size t))
    have hrest := holds_laidMembers rest (before ++ laid before.length (some name)
      (if rest.isEmpty then none else some (before.length + size t)) t) after
    rw [List.length_append, length_laid, List.append_assoc] at hrest
    rw [laidMembers, List.append_assoc]
    refine ⟨before.length, n, rfl, ?_, hkey, holds_laid t before _ _ _, hnext ▸ hrest⟩
    rw [hlaid]
    exact get_middle before _ n

end

theorem isRead_laid (t : Tree) : IsRead (laid 0 none none t) t := by
  refine ⟨by simpa using holds_laid t [] [] none none, ?_⟩
  obtain ⟨n, rest, hlaid, hkey, -⟩ := head_laid t 0 none none
  rw [hlaid]
  exact hkey

/-! ## A text is longer than its nodes are many -/

mutual

theorem size_le_render (l : Layout) : ∀ (t : Tree) (depth : ℕ),
    2 * size t ≤ (render l depth t).length + 1
  | .null, depth => by simp [size, render, asciis]
  | .bool b, depth => by cases b <;> simp [size, render, asciis]
  | .int n, depth => by
    obtain ⟨c, rest, heq, -⟩ := decimal_head n
    simp [size, render, heq]
  | .string bytes, depth => by simp [size, render, quoted]
  | .array items, depth => by
    have hitems := size_le_renderItems l items (depth + 1) true
    simp only [size, render, List.length_cons, List.length_append, if_true] at hitems ⊢
    omega
  | .object members, depth => by
    have hmembers := size_le_renderMembers l members (depth + 1) true
    simp only [size, render, List.length_cons, List.length_append, if_true] at hmembers ⊢
    omega

theorem size_le_renderItems (l : Layout) : ∀ (items : List Tree) (depth : ℕ) (first : Bool),
    2 * sizeItems items ≤ (renderItems l depth first items).length + if first then 1 else 0
  | [], _, _ => by simp [sizeItems]
  | t :: rest, depth, first => by
    have ht := size_le_render l t depth
    have hrest := size_le_renderItems l rest depth false
    cases first <;>
    · simp only [sizeItems, renderItems, List.length_append, List.length_singleton, if_true,
        Bool.false_eq_true, if_false, List.length_nil] at hrest ⊢
      omega

theorem size_le_renderMembers (l : Layout) : ∀ (members : List (List UInt8 × Tree)) (depth : ℕ)
    (first : Bool),
    2 * sizeMembers members ≤ (renderMembers l depth first members).length + if first then 1 else 0
  | [], _, _ => by simp [sizeMembers]
  | (name, t) :: rest, depth, first => by
    have ht := size_le_render l t depth
    have hrest := size_le_renderMembers l rest depth false
    cases first <;>
    · simp only [sizeMembers, renderMembers, List.length_append, if_true, Bool.false_eq_true,
        if_false, List.length_nil, List.length_cons] at hrest ⊢
      omega

end

/-- A rendered tree is read back, in either layout. -/
theorem read_render {l : Layout} (hl : l.Blank) {t : Tree} (hfits : Fits maxDepth t)
    (hlength : (render l 0 t).length < 2 ^ 32) :
    ∃ nodes, parse (render l 0 t) = .ok nodes ∧ IsRead nodes t := by
  have hsize := size_le_render l t 0
  have hroom : size t ≤ maxNodes := by
    rw [maxNodes]
    omega
  exact ⟨_, parse_render hl hfits hroom, isRead_laid t⟩

end Netcfgd.Json
