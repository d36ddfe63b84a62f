import Netcfgd.CNumber
import Netcfgd.JsonRoundTrip

/-!
# Scan rows and network lists

`src/backend/supplicant/protocol.c` : what the supplicant answers to `SCAN_RESULTS` and
`LIST_NETWORKS`, a header and a row a line, the columns between tabs. An SSID is any 32 bytes, and
arrives escaped.

Decoding undoes the escaping, rows that were sent are the rows that are read, and whatever else
arrives, a row that is read has its columns (`rows_survive`).
-/

namespace Netcfgd.Supplicant

open Json (ascii asciis decimal decimalDigits hexDigit)
open CNumber (isDigit)

abbrev Bytes := List UInt8

/-! ## The escaping -/

/-- `hex_value`. -/
def hexValue (c : UInt8) : Option ℕ :=
  if isDigit c then some (c.toNat - 48)
  else if 97 ≤ c ∧ c ≤ 102 then some (c.toNat - 97 + 10)
  else if 65 ≤ c ∧ c ≤ 70 then some (c.toNat - 65 + 10)
  else none

/-- What stands for a byte after a backslash. Anything without a meaning is itself. -/
def unescaped (c : UInt8) : UInt8 :=
  if c = ascii 'n' then 10
  else if c = ascii 'r' then 13
  else if c = ascii 't' then 9
  else if c = ascii 'e' then 0x1b
  else c

/-- `ncfg_supplicant_printf_decode`, with what does not fit the buffer, which it counts. -/
def printfDecode : Bytes → Bytes
  | [] => []
  | c :: rest =>
    if c ≠ ascii '\\' then c :: printfDecode rest
    else match rest with
      | [] => [ascii '\\']
      | e :: rest =>
        if e ≠ ascii 'x' then unescaped e :: printfDecode rest
        else match rest with
          | [] => [ascii '\\', ascii 'x']
          | [c] => ascii '\\' :: ascii 'x' :: printfDecode [c]
          | high :: low :: tail =>
            match hexValue high, hexValue low with
            | some h, some l => UInt8.ofNat (h * 16 + l) :: printfDecode tail
            | _, _ => ascii '\\' :: ascii 'x' :: printfDecode (high :: low :: tail)

/-- `NCFG_SSID_MAX_LEN`. -/
def ssidMaxLen : ℕ := 32

/-- `field_as_ssid`. -/
def fieldAsSsid (field : Bytes) : Option Bytes :=
  if ssidMaxLen < (printfDecode field).length then none else some (printfDecode field)

/-! ## Lines and columns -/

def cString (body : Bytes) : Bytes := body.takeWhile (· ≠ 0)

def withoutCr (line : Bytes) : Bytes := if line.getLast? = some 13 then line.dropLast else line

/-- The lines `next_line` gives, after what has been read of the first. -/
def linesFrom : Bytes → Bytes → List Bytes
  | line, [] => if line = [] then [] else [withoutCr line]
  | line, c :: rest =>
    if c = 10 then withoutCr line :: linesFrom [] rest else linesFrom (line ++ [c]) rest

def column (line : Bytes) : Bytes × Option Bytes :=
  (line.takeWhile (· ≠ 9), (line.dropWhile (· ≠ 9)).tail?)

def exactDigits : ℕ → Bytes → Option ℕ
  | value, [] => some value
  | value, c :: rest =>
    if ¬isDigit c then none
    else if (2 ^ 63 - 1 - (c.toNat - 48)) / 10 < value then none
    else exactDigits (value * 10 + (c.toNat - 48)) rest

/-- `exact_number`. -/
def exactNumber (text : Bytes) : Option ℤ :=
  let negative := text.head? = some (ascii '-')
  let digits := if negative ∨ text.head? = some (ascii '+') then text.tail else text
  if digits = [] then none
  else (exactDigits 0 digits).map fun value : ℕ => if negative then -(value : ℤ) else (value : ℤ)

/-! ## Rows -/

/-- `ncfg_supplicant_scan_t`. -/
structure Scan where
  bssid : Bytes
  frequency : ℤ
  signal : ℤ
  flags : Bytes
  ssid : Bytes
  deriving DecidableEq, Repr

/-- `scan_row` : four columns, and whatever is left is the name. -/
def scanRow (line : Bytes) : Option Scan := do
  let (bssid, rest) := column line
  let (frequency, rest) := column (← rest)
  let (signal, rest) := column (← rest)
  let (flags, rest) := column (← rest)
  let frequency ← exactNumber frequency
  let signal ← exactNumber signal
  let ssid ← fieldAsSsid (rest.getD [])
  some { bssid, frequency, signal, flags, ssid }

/-- `ncfg_supplicant_parse_scan_results`. -/
def parseScanResults (body : Bytes) : List Scan :=
  (linesFrom [] (cString body)).tail.filterMap scanRow

/-- `ncfg_supplicant_entry_t`. -/
structure Entry where
  id : ℤ
  ssid : Bytes
  flags : Bytes
  deriving DecidableEq, Repr

/-- `network_row` : the flags may be missing. -/
def networkRow (line : Bytes) : Option Entry := do
  let (id, rest) := column line
  let (ssid, rest) := column (← rest)
  let (_, rest) := column (← rest)
  let id ← exactNumber id
  if id < 0 ∨ 2 ^ 32 - 1 < id then none
  else do
    let ssid ← fieldAsSsid ssid
    some { id, ssid, flags := (rest.map fun rest => (column rest).1).getD [] }

/-- `ncfg_supplicant_parse_network_list`. -/
def parseNetworkList (body : Bytes) : List Entry :=
  (linesFrom [] (cString body)).tail.filterMap networkRow

/-! ## What the supplicant sends -/

/-- A byte, as `printf_encode` of the supplicant writes it. -/
def encodeByte (c : UInt8) : Bytes :=
  if c = ascii '"' then asciis "\\\""
  else if c = ascii '\\' then asciis "\\\\"
  else if c = 0x1b then asciis "\\e"
  else if c = 10 then asciis "\\n"
  else if c = 13 then asciis "\\r"
  else if c = 9 then asciis "\\t"
  else if 32 ≤ c ∧ c ≤ 126 then [c]
  else asciis "\\x" ++ [hexDigit (c.toNat / 16), hexDigit (c.toNat % 16)]

/-- `printf_encode`. -/
def printfEncode (ssid : Bytes) : Bytes := ssid.flatMap encodeByte

/-- A column is a text with nothing that separates columns or lines. -/
def Column (text : Bytes) : Prop := ∀ c ∈ text, c ≠ 0 ∧ c ≠ 9 ∧ c ≠ 10 ∧ c ≠ 13

/-- A row as the supplicant sends it. -/
def Scan.line (s : Scan) : Bytes :=
  s.bssid ++ 9 :: (decimal s.frequency ++ 9 :: (decimal s.signal ++ 9 :: (s.flags ++
    9 :: printfEncode s.ssid)))

/-- A row a supplicant can send. -/
structure Scan.Sent (s : Scan) : Prop where
  bssid : Column s.bssid
  frequency : s.frequency.natAbs < 2 ^ 63
  signal : s.signal.natAbs < 2 ^ 63
  flags : Column s.flags
  ssid : s.ssid.length ≤ ssidMaxLen

/-- An entry as the supplicant sends it. -/
def Entry.line (e : Entry) (bssid : Bytes) : Bytes :=
  decimal e.id ++ 9 :: (printfEncode e.ssid ++ 9 :: (bssid ++ 9 :: e.flags))

/-- An entry a supplicant can send. -/
structure Entry.Sent (e : Entry) : Prop where
  id_nonneg : 0 ≤ e.id
  id_lt : e.id < 2 ^ 32
  ssid : e.ssid.length ≤ ssidMaxLen
  flags : Column e.flags

/-- A reply : its header and its rows. -/
def bodyOf (header : Bytes) (rows : List Bytes) : Bytes :=
  header ++ (rows.map (10 :: ·)).flatten

/-! ## Decoding undoes the escaping -/

theorem hexValue_hexDigit {n : ℕ} (h : n < 16) : hexValue (hexDigit n) = some n := by
  interval_cases n <;> decide

theorem printfDecode_plain {c : UInt8} (h : c ≠ ascii '\\') (rest : Bytes) :
    printfDecode (c :: rest) = c :: printfDecode rest := by
  rw [printfDecode.eq_def]
  dsimp only
  rw [if_pos h]

theorem printfDecode_short {e : UInt8} (h : e ≠ ascii 'x') (rest : Bytes) :
    printfDecode (ascii '\\' :: e :: rest) = unescaped e :: printfDecode rest := by
  rw [printfDecode.eq_def]
  dsimp only
  rw [if_neg (not_not_intro rfl), if_pos h]

theorem printfDecode_hex (c : UInt8) (rest : Bytes) :
    printfDecode (asciis "\\x" ++ [hexDigit (c.toNat / 16), hexDigit (c.toNat % 16)] ++ rest) =
      c :: printfDecode rest := by
  have hc := c.toNat_lt
  have hvalue : c.toNat / 16 * 16 + c.toNat % 16 = c.toNat := Nat.div_add_mod' _ _
  change printfDecode (ascii '\\' :: ascii 'x' :: hexDigit (c.toNat / 16) ::
    hexDigit (c.toNat % 16) :: rest) = _
  rw [printfDecode.eq_def]
  dsimp only
  rw [if_neg (not_not_intro rfl), if_neg (not_not_intro rfl), hexValue_hexDigit (by omega),
    hexValue_hexDigit (by omega)]
  dsimp only
  rw [hvalue, UInt8.ofNat_toNat]

theorem printfDecode_encodeByte (c : UInt8) (rest : Bytes) :
    printfDecode (encodeByte c ++ rest) = c :: printfDecode rest := by
  unfold encodeByte
  split_ifs with h1 h2 h3 h4 h5 h6 h7
  · exact h1 ▸ printfDecode_short (by decide) rest
  · exact h2 ▸ printfDecode_short (by decide) rest
  · exact h3 ▸ printfDecode_short (by decide) rest
  · exact h4 ▸ printfDecode_short (by decide) rest
  · exact h5 ▸ printfDecode_short (by decide) rest
  · exact h6 ▸ printfDecode_short (by decide) rest
  · exact printfDecode_plain h2 rest
  · exact printfDecode_hex c rest

/-- Any bytes come back from their encoding. -/
theorem printfDecode_printfEncode : ∀ ssid : Bytes, printfDecode (printfEncode ssid) = ssid
  | [] => rfl
  | c :: ssid => by
    rw [printfEncode, List.flatMap_cons, printfDecode_encodeByte]
    exact congrArg (c :: ·) (printfDecode_printfEncode ssid)

theorem fieldAsSsid_printfEncode {ssid : Bytes} (h : ssid.length ≤ ssidMaxLen) :
    fieldAsSsid (printfEncode ssid) = some ssid := by
  rw [fieldAsSsid, printfDecode_printfEncode, if_neg (by omega)]

/-! ## Columns -/

theorem column_of_all {text : Bytes}
    (h : (text.all fun c => c != 0 && c != 9 && c != 10 && c != 13) = true) : Column text := by
  simpa [Column, and_assoc] using h

theorem column_hexDigit {n : ℕ} (h : n < 16) : Column [hexDigit n] := by
  interval_cases n <;> exact column_of_all rfl

theorem column_encodeByte (c : UInt8) : Column (encodeByte c) := by
  have hc := c.toNat_lt
  unfold encodeByte
  split_ifs with h1 h2 h3 h4 h5 h6 h7
  · exact column_of_all rfl
  · exact column_of_all rfl
  · exact column_of_all rfl
  · exact column_of_all rfl
  · exact column_of_all rfl
  · exact column_of_all rfl
  · intro d hd
    obtain rfl := List.mem_singleton.1 hd
    exact ⟨by rintro rfl; exact absurd h7.1 (by decide), h6, h4, h5⟩
  · intro d hd
    rw [List.mem_append] at hd
    obtain hd | hd := hd
    · have : Column (asciis "\\x") := column_of_all rfl
      exact this d hd
    · rw [List.mem_cons, List.mem_singleton] at hd
      obtain rfl | rfl := hd
      · exact column_hexDigit (by omega) _ (List.mem_singleton_self _)
      · exact column_hexDigit (by omega) _ (List.mem_singleton_self _)

theorem column_printfEncode (ssid : Bytes) : Column (printfEncode ssid) := by
  intro c hc
  obtain ⟨b, -, hb⟩ := List.mem_flatMap.1 hc
  exact column_encodeByte b c hb

theorem column_decimal (n : ℤ) : Column (decimal n) := by
  intro c hc
  obtain hc | hc := List.mem_append.1 hc
  · split_ifs at hc
    · obtain rfl := List.mem_singleton.1 hc
      decide
    · cases hc
  · obtain ⟨d, hd, rfl⟩ := List.mem_map.1 hc
    have := Json.digits_lt _ d hd
    interval_cases d <;> decide

theorem column_tab {text : Bytes} (h : Column text) (rest : Bytes) :
    column (text ++ 9 :: rest) = (text, some rest) := by
  have hno : ∀ c ∈ text, decide (c ≠ 9) = true := fun c hc => by simpa using (h c hc).2.1
  rw [column, List.takeWhile_append_of_pos hno, List.dropWhile_append_of_pos hno]
  simp

theorem column_end {text : Bytes} (h : Column text) : column text = (text, none) := by
  have hno : ∀ c ∈ text, decide (c ≠ 9) = true := fun c hc => by simpa using (h c hc).2.1
  rw [column, List.takeWhile_eq_self_iff.2 hno, List.dropWhile_eq_nil_iff.2 hno]
  rfl

theorem column_spec (line : Bytes) :
    line = (column line).1 ++ ((column line).2.elim [] fun rest => 9 :: rest) := by
  have hsplit := List.takeWhile_append_dropWhile (p := fun c : UInt8 => decide (c ≠ 9)) (l := line)
  unfold column
  cases hrest : line.dropWhile fun c => decide (c ≠ 9) with
  | nil => rw [hrest] at hsplit; simpa using hsplit.symm
  | cons c rest =>
    have hc : c = 9 := by
      have := List.head?_dropWhile_not (fun c : UInt8 => decide (c ≠ 9)) line
      rw [hrest] at this
      simpa using this
    rw [hrest, hc] at hsplit
    simpa using hsplit.symm

/-! ## Numbers -/

theorem exactDigits_map : ∀ (ds : List ℕ) (value : ℕ), (∀ d ∈ ds, d < 10) →
    ds.foldl (fun v d => v * 10 + d) value < 2 ^ 63 →
    exactDigits value (ds.map fun d => UInt8.ofNat (48 + d)) =
      some (ds.foldl (fun v d => v * 10 + d) value) := by
  intro ds
  induction ds with
  | nil => intro value _ _; rfl
  | cons d ds ih =>
    intro value hds hfits
    have hd : d < 10 := hds d List.mem_cons_self
    have hdigit : isDigit (UInt8.ofNat (48 + d)) = true := CNumber.isDigit_digit hd
    have hnat : (UInt8.ofNat (48 + d)).toNat - 48 = d := CNumber.toNat_digit hd
    have hle : ∀ (l : List ℕ) (v : ℕ), v ≤ l.foldl (fun v d => v * 10 + d) v := by
      intro l
      induction l with
      | nil => exact fun v => le_rfl
      | cons x l ih => exact fun v => le_trans (by omega) (ih (v * 10 + x))
    have hnext := (hle ds (value * 10 + d)).trans_lt hfits
    rw [List.map_cons, exactDigits, hnat, if_neg (not_not_intro hdigit), if_neg (by omega)]
    exact ih _ (fun d' hd' => hds d' (List.mem_cons_of_mem _ hd')) hfits

theorem exactNumber_decimal {n : ℤ} (h : n.natAbs < 2 ^ 63) : exactNumber (decimal n) = some n := by
  have hread := exactDigits_map (decimalDigits n.natAbs) 0 (Json.digits_lt _)
    (by rwa [Json.fold_decimalDigits])
  rw [Json.fold_decimalDigits] at hread
  have hne : (decimalDigits n.natAbs).map (fun d => UInt8.ofNat (48 + d)) ≠ [] := by
    obtain ⟨-, heq⟩ | ⟨d, ds, heq, -⟩ := Json.decimalDigits_cases n.natAbs <;> simp [heq]
  by_cases hneg : n < 0
  · have htext : decimal n = ascii '-' ::
        (decimalDigits n.natAbs).map fun d => UInt8.ofNat (48 + d) := by
      rw [decimal, if_pos hneg]
      rfl
    unfold exactNumber
    rw [htext]
    simp only [List.head?_cons, List.tail_cons, true_or, if_true, hread, if_neg hne,
      Option.map_some, Option.some.injEq]
    omega
  · have htext : decimal n =
        (decimalDigits n.natAbs).map fun d => UInt8.ofNat (48 + d) := by
      rw [decimal, if_neg hneg]
      rfl
    have hsign : ∀ c ∈ (decimal n).head?, c ≠ ascii '-' ∧ c ≠ ascii '+' := by
      intro c hc
      rw [htext] at hc
      obtain ⟨d, hd, rfl⟩ := List.mem_map.1 (List.mem_of_mem_head? hc)
      have hsign := CNumber.not_sign_of_isDigit (CNumber.isDigit_digit (Json.digits_lt _ d hd))
      exact ⟨hsign.2, hsign.1⟩
    have hminus : (decimal n).head? ≠ some (ascii '-') := fun h => (hsign _ h).1 rfl
    have hplus : (decimal n).head? ≠ some (ascii '+') := fun h => (hsign _ h).2 rfl
    unfold exactNumber
    simp only [hminus, hplus, or_self, if_false]
    rw [htext, if_neg hne, hread]
    simp only [Option.map_some, Option.some.injEq]
    omega

/-! ## Lines -/

def Line (text : Bytes) : Prop := ∀ c ∈ text, c ≠ 0 ∧ c ≠ 10 ∧ c ≠ 13

theorem Column.line {text : Bytes} (h : Column text) : Line text :=
  fun c hc => ⟨(h c hc).1, (h c hc).2.2⟩

theorem Line.tab {a b : Bytes} (ha : Line a) (hb : Line b) : Line (a ++ 9 :: b) := by
  intro c hc
  obtain hc | hc := List.mem_append.1 hc
  · exact ha c hc
  · obtain rfl | hc := List.mem_cons.1 hc
    · decide
    · exact hb c hc

theorem withoutCr_line {text : Bytes} (h : Line text) : withoutCr text = text := by
  unfold withoutCr
  rw [if_neg]
  intro hlast
  exact (h 13 (List.mem_of_getLast? hlast)).2.2 rfl

theorem linesFrom_append : ∀ (text line rest : Bytes), (∀ c ∈ text, c ≠ 10) →
    linesFrom line (text ++ rest) = linesFrom (line ++ text) rest := by
  intro text
  induction text with
  | nil => intro line rest _; simp
  | cons c text ih =>
    intro line rest h
    rw [List.cons_append, linesFrom, if_neg (h c List.mem_cons_self),
      ih _ _ fun c' hc' => h c' (List.mem_cons_of_mem _ hc')]
    simp

/-- The rows of a body are its lines after the first. -/
theorem linesFrom_rows {tail : Bytes} (htail : tail = [] ∨ tail = [10]) : ∀ (rows : List Bytes)
    (first : Bytes), (∀ row ∈ rows, Line row ∧ row ≠ []) → (∀ c ∈ first, c ≠ 10) →
    (linesFrom [] (bodyOf first rows ++ tail)).tail = rows := by
  have hrows : ∀ (rows : List Bytes) (first : Bytes), (∀ row ∈ rows, Line row ∧ row ≠ []) →
      Line first → first ≠ [] → linesFrom [] (bodyOf first rows ++ tail) = first :: rows := by
    intro rows
    induction rows with
    | nil =>
      intro first _ hfirst hne
      have hno : ∀ c ∈ first, c ≠ 10 := fun c hc => (hfirst c hc).2.1
      unfold bodyOf
      rw [List.map_nil, List.flatten_nil, List.append_nil, linesFrom_append _ _ _ hno]
      obtain rfl | rfl := htail
      · simp [linesFrom, hne, withoutCr_line hfirst]
      · simp [linesFrom, withoutCr_line hfirst]
    | cons row rows ih =>
      intro first hrows hfirst _
      have hno : ∀ c ∈ first, c ≠ 10 := fun c hc => (hfirst c hc).2.1
      have hrow := hrows row List.mem_cons_self
      have hrest := ih row (fun r hr => hrows r (List.mem_cons_of_mem _ hr)) hrow.1 hrow.2
      unfold bodyOf at hrest ⊢
      rw [List.map_cons, List.flatten_cons, List.append_assoc, linesFrom_append _ _ _ hno,
        List.cons_append, List.cons_append, linesFrom, if_pos rfl, List.nil_append,
        withoutCr_line hfirst, ← hrest]
  intro rows first hall hno
  cases rows with
  | nil =>
    unfold bodyOf
    rw [List.map_nil, List.flatten_nil, List.append_nil, linesFrom_append _ _ _ hno]
    obtain rfl | rfl := htail
    · by_cases hne : first = [] <;> simp [linesFrom, hne]
    · simp [linesFrom]
  | cons row rows =>
    have hrow := hall row List.mem_cons_self
    have hrest := hrows rows row (fun r hr => hall r (List.mem_cons_of_mem _ hr)) hrow.1 hrow.2
    unfold bodyOf at hrest ⊢
    rw [List.map_cons, List.flatten_cons, List.append_assoc, linesFrom_append _ _ _ hno,
      List.cons_append, List.cons_append, linesFrom, if_pos rfl, List.tail_cons, ← hrest]

/-- No row ends the body early. -/
theorem cString_bodyOf {header tail : Bytes} {rows : List Bytes} (htail : tail = [] ∨ tail = [10])
    (hheader : ∀ c ∈ header, c ≠ 0) (hrows : ∀ row ∈ rows, Line row) :
    cString (bodyOf header rows ++ tail) = bodyOf header rows ++ tail := by
  refine List.takeWhile_eq_self_iff.2 fun c hc => ?_
  rw [decide_eq_true_eq]
  obtain hc | hc := List.mem_append.1 hc
  · obtain hc | hc := List.mem_append.1 hc
    · exact hheader c hc
    · obtain ⟨line, hline, hc⟩ := List.mem_flatten.1 hc
      obtain ⟨row, hrow, rfl⟩ := List.mem_map.1 hline
      obtain rfl | hc := List.mem_cons.1 hc
      · decide
      · exact (hrows row hrow c hc).1
  · obtain rfl | rfl := htail
    · cases hc
    · obtain rfl := List.mem_singleton.1 hc
      decide

/-! ## Rows -/

theorem Scan.Sent.line {s : Scan} (h : s.Sent) : Line s.line :=
  h.bssid.line.tab ((column_decimal _).line.tab ((column_decimal _).line.tab
    (h.flags.line.tab (column_printfEncode _).line)))

theorem Entry.Sent.line {e : Entry} (h : e.Sent) {bssid : Bytes} (hbssid : Column bssid) :
    Line (e.line bssid) :=
  (column_decimal _).line.tab ((column_printfEncode _).line.tab (hbssid.line.tab h.flags.line))

/-- A row is read back. -/
theorem scanRow_line {s : Scan} (h : s.Sent) : scanRow s.line = some s := by
  simp [scanRow, Scan.line, column_tab h.bssid, column_tab (column_decimal _),
    column_tab h.flags, exactNumber_decimal h.frequency, exactNumber_decimal h.signal,
    fieldAsSsid_printfEncode h.ssid]

/-- An entry is read back. -/
theorem networkRow_line {e : Entry} (h : e.Sent) {bssid : Bytes} (hbssid : Column bssid) :
    networkRow (e.line bssid) = some e := by
  have hnonneg := h.id_nonneg
  have hlt := h.id_lt
  have hid : exactNumber (decimal e.id) = some e.id := exactNumber_decimal (by omega)
  have hrange : ¬(e.id < 0 ∨ 2 ^ 32 - 1 < e.id) := by omega
  simp [networkRow, Entry.line, column_tab (column_decimal _), column_tab (column_printfEncode _),
    column_tab hbssid, column_end h.flags, hid, fieldAsSsid_printfEncode h.ssid]
  omega

/-- A line with the columns of a row of a scan : four, the middle two of them numbers, and what is
left is the name. -/
def Scan.Columns (s : Scan) (line : Bytes) : Prop :=
  ∃ frequency signal name : Bytes, exactNumber frequency = some s.frequency ∧
    exactNumber signal = some s.signal ∧ fieldAsSsid name = some s.ssid ∧
    (line = s.bssid ++ 9 :: (frequency ++ 9 :: (signal ++ 9 :: (s.flags ++ 9 :: name))) ∨
      name = [] ∧ line = s.bssid ++ 9 :: (frequency ++ 9 :: (signal ++ 9 :: s.flags)))

/-- A line with the columns of a network : its number, its name, an address, and the flags unless
there are none. -/
def Entry.Columns (e : Entry) (line : Bytes) : Prop :=
  ∃ id name bssid : Bytes, exactNumber id = some e.id ∧ 0 ≤ e.id ∧ e.id < 2 ^ 32 ∧
    fieldAsSsid name = some e.ssid ∧
    ((∃ rest, line = id ++ 9 :: (name ++ 9 :: (bssid ++ 9 :: rest)) ∧ e.flags = (column rest).1) ∨
      e.flags = [] ∧ line = id ++ 9 :: (name ++ 9 :: bssid))

theorem column_some {line text rest : Bytes} (h : column line = (text, some rest)) :
    line = text ++ 9 :: rest := by
  have := column_spec line
  rw [h] at this
  exact this

theorem column_none {line text : Bytes} (h : column line = (text, none)) : line = text := by
  have := column_spec line
  rw [h] at this
  simpa using this

/-- What is read of a row stands in its columns. -/
theorem columns_of_scanRow {s : Scan} {line : Bytes} (h : scanRow line = some s) :
    s.Columns line := by
  unfold scanRow at h
  rcases h1 : column line with ⟨bssid, _ | rest1⟩
  · simp [h1] at h
  rcases h2 : column rest1 with ⟨frequency, _ | rest2⟩
  · simp [h1, h2] at h
  rcases h3 : column rest2 with ⟨signal, _ | rest3⟩
  · simp [h1, h2, h3] at h
  rcases h4 : column rest3 with ⟨flags, last⟩
  simp only [h1, h2, h3, h4, Option.bind_eq_bind, Option.bind_some, Option.bind_eq_some_iff,
    Option.some.injEq] at h
  obtain ⟨f, hf, g, hg, name, hname, rfl⟩ := h
  refine ⟨frequency, signal, last.getD [], hf, hg, hname, ?_⟩
  rw [column_some h1, column_some h2, column_some h3]
  cases last with
  | some rest => exact .inl (by rw [column_some h4]; rfl)
  | none => exact .inr ⟨rfl, by rw [column_none h4]⟩

/-- What is read of an entry stands in its columns. -/
theorem columns_of_networkRow {e : Entry} {line : Bytes} (h : networkRow line = some e) :
    e.Columns line := by
  unfold networkRow at h
  rcases h1 : column line with ⟨id, _ | rest1⟩
  · simp [h1] at h
  rcases h2 : column rest1 with ⟨name, _ | rest2⟩
  · simp [h1, h2] at h
  rcases h3 : column rest2 with ⟨bssid, last⟩
  simp only [h1, h2, h3, Option.bind_eq_bind, Option.bind_some, Option.bind_eq_some_iff] at h
  obtain ⟨n, hn, h⟩ := h
  split_ifs at h with hrange
  simp only [Option.bind_eq_some_iff, Option.some.injEq] at h
  obtain ⟨ssid, hssid, rfl⟩ := h
  push Not at hrange
  refine ⟨id, name, bssid, hn, hrange.1, by dsimp only; omega, hssid, ?_⟩
  rw [column_some h1, column_some h2]
  cases last with
  | some rest => exact .inl ⟨rest, by rw [column_some h3], rfl⟩
  | none => exact .inr ⟨rfl, by rw [column_none h3]⟩

theorem forall₂_filterMap {α β : Type*} {f : α → Option β} {R : β → α → Prop}
    (h : ∀ x y, f x = some y → R y x) : ∀ l : List α,
    List.Forall₂ R (l.filterMap f) (l.filter fun x => (f x).isSome) := by
  intro l
  induction l with
  | nil => exact .nil
  | cons x l ih =>
    cases hx : f x with
    | none => simpa [hx] using ih
    | some y => simpa [hx] using ⟨h x y hx, ih⟩

/-- **Rows survive.** Decoding undoes the escaping; the rows and the networks that were sent are
those that are read, in order, whatever their names; and of any other bytes, what is read has its
columns on a line of its own. -/
theorem rows_survive :
    (∀ ssid : Bytes, printfDecode (printfEncode ssid) = ssid) ∧
    (∀ (header tail : Bytes) (rows : List Scan), (∀ c ∈ header, c ≠ 0 ∧ c ≠ 10) →
      tail = [] ∨ tail = [10] → (∀ s ∈ rows, s.Sent) →
      parseScanResults (bodyOf header (rows.map Scan.line) ++ tail) = rows) ∧
    (∀ (header tail : Bytes) (rows : List (Entry × Bytes)), (∀ c ∈ header, c ≠ 0 ∧ c ≠ 10) →
      tail = [] ∨ tail = [10] → (∀ r ∈ rows, r.1.Sent ∧ Column r.2) →
      parseNetworkList (bodyOf header (rows.map fun r => r.1.line r.2) ++ tail) =
        rows.map Prod.fst) ∧
    (∀ body : Bytes, List.Forall₂ Scan.Columns (parseScanResults body)
      ((linesFrom [] (cString body)).tail.filter fun line => (scanRow line).isSome)) ∧
    (∀ body : Bytes, List.Forall₂ Entry.Columns (parseNetworkList body)
      ((linesFrom [] (cString body)).tail.filter fun line => (networkRow line).isSome)) := by
  have hne : ∀ text rest : Bytes, text ++ 9 :: rest ≠ [] := by simp
  refine ⟨printfDecode_printfEncode, ?_, ?_,
    fun body => forall₂_filterMap (fun _ _ => columns_of_scanRow) _,
    fun body => forall₂_filterMap (fun _ _ => columns_of_networkRow) _⟩
  · intro header tail rows hheader htail hrows
    have hlines : ∀ row ∈ rows.map Scan.line, Line row ∧ row ≠ [] := by
      intro row hrow
      obtain ⟨s, hs, rfl⟩ := List.mem_map.1 hrow
      exact ⟨(hrows s hs).line, hne _ _⟩
    unfold parseScanResults
    rw [cString_bodyOf htail (fun c hc => (hheader c hc).1) fun row hrow => (hlines row hrow).1,
      linesFrom_rows htail _ _ hlines fun c hc => (hheader c hc).2, List.filterMap_map]
    refine (List.filterMap_congr fun s hs => ?_).trans List.filterMap_some
    exact scanRow_line (hrows s hs)
  · intro header tail rows hheader htail hrows
    have hlines : ∀ row ∈ rows.map fun r => r.1.line r.2, Line row ∧ row ≠ [] := by
      intro row hrow
      obtain ⟨r, hr, rfl⟩ := List.mem_map.1 hrow
      exact ⟨(hrows r hr).1.line (hrows r hr).2, hne _ _⟩
    unfold parseNetworkList
    rw [cString_bodyOf htail (fun c hc => (hheader c hc).1) fun row hrow => (hlines row hrow).1,
      linesFrom_rows htail _ _ hlines fun c hc => (hheader c hc).2, List.filterMap_map,
      ← List.filterMap_eq_map]
    exact List.filterMap_congr fun r hr => networkRow_line (hrows r hr).1 (hrows r hr).2

end Netcfgd.Supplicant
