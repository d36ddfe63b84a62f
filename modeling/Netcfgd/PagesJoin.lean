import Netcfgd.Pages

/-!
# Pages join to one answer

What `page_of` cuts is read back by `ncfg_status_page_read` as it was meant (`pageRead_header`,
`pageOf_spec`), and the pages of an answer that stands still join to it (`pagesJoin_still`).

Of a peer nothing is known, the join is bounded all the same (`pagesJoin_bounded`) : every page
it goes on with adds to what it has, what it has never outgrows the total of the first page, and
it ends with bytes only where they have that page's total and digest.
-/

namespace Netcfgd.Pages

open Netcfgd.Json (ascii asciis decimalDigits hexDigit isDigit)

/-- What an attempt comes to, of any peer : it has asked so many pages, one that ends early ends
with neither bytes nor a write outside of them, and of what it gathers `P` holds. -/
structure Within (P : Page → Bytes → Prop) (upTo : ℕ) (r : Gathered × ℕ) : Prop where
  used : r.2 ≤ upTo
  early : ∀ why, r.1 = .ended why → why ≠ .overrun ∧ ∀ w, why ≠ .joined w
  whole : ∀ first w, r.1 = .whole first w → P first w

variable {n start : ℕ}

/-! ## The numbers of a header -/

theorem le_fold : ∀ (ds : List ℕ) (value : ℕ), value ≤ ds.foldl (fun v d => v * 10 + d) value
  | [], value => le_refl value
  | d :: ds, value => by
    have := le_fold ds (value * 10 + d)
    rw [List.foldl_cons]
    omega

theorem digitsAt_digits : ∀ (ds : List ℕ) (value seen : ℕ) {c : UInt8} (rest : Bytes),
    (∀ d ∈ ds, d < 10) → isDigit c = false →
    ds.foldl (fun v d => v * 10 + d) value ≤ totalMax →
    digitsAt (ds.map (fun d => UInt8.ofNat (48 + d)) ++ c :: rest) value seen =
      some (ds.foldl (fun v d => v * 10 + d) value, seen + ds.length, c :: rest)
  | [], value, seen, c, rest, _, hc, _ => by simp [digitsAt, hc]
  | d :: ds, value, seen, c, rest, hds, hc, hmax => by
    have hd : d < 10 := hds d List.mem_cons_self
    have hdigit : isDigit (UInt8.ofNat (48 + d)) = true := Json.isDigit_digit hd
    have hvalue : (UInt8.ofNat (48 + d)).toNat - 48 = d := by interval_cases d <;> rfl
    have hroom : ¬(totalMax - d) / 10 < value := by
      have hle := le_fold ds (value * 10 + d)
      rw [List.foldl_cons] at hmax
      omega
    rw [List.map_cons, List.cons_append, digitsAt, if_pos hdigit]
    dsimp only
    rw [hvalue, if_neg hroom,
      digitsAt_digits ds _ _ rest (fun d' hd' => hds d' (List.mem_cons_of_mem _ hd')) hc hmax]
    simp only [List.foldl_cons, List.length_cons, Option.some.injEq, Prod.mk.injEq, and_true,
      true_and]
    omega

theorem decimalDigits_length_pos (n : ℕ) : 0 < (decimalDigits n).length := by
  rcases Json.decimalDigits_cases n with ⟨-, h⟩ | ⟨d, ds, h, -⟩ <;> simp [h]

theorem decimalDigits_length_mono {m : ℕ} (h : n ≤ m) :
    (decimalDigits n).length ≤ (decimalDigits m).length := by
  by_cases hn : n = 0
  · rw [hn]
    exact decimalDigits_length_pos m
  · have hm : m ≠ 0 := by omega
    simpa [decimalDigits, hn, hm] using Nat.le_length_digits_le 10 n m h

theorem decimalDigits_length_le (h : n ≤ totalMax) : (decimalDigits n).length ≤ 10 := by
  have hmax : (decimalDigits totalMax).length = 8 := by norm_num [decimalDigits, totalMax]
  have := decimalDigits_length_mono h
  omega

theorem number_decimal (h : n ≤ totalMax) (rest : Bytes) :
    number (decimal n ++ ascii ' ' :: rest) = some (n, rest) := by
  have hvalue := Json.fold_decimalDigits n
  have hread := digitsAt_digits (decimalDigits n) 0 0 rest (Json.digits_lt n)
    (show isDigit (ascii ' ') = false by decide) (by rw [hvalue]; exact h)
  have hpos := decimalDigits_length_pos n
  have hlen := decimalDigits_length_le h
  rw [hvalue] at hread
  unfold number decimal
  rw [hread]
  dsimp only
  rw [if_neg (by omega), if_pos rfl]

theorem lowerHex_hexDigit (h : n < 16) : lowerHex (hexDigit n) = some n := by
  interval_cases n <;> decide

theorem hexAt_hex : ∀ (places more n value : ℕ) (rest : Bytes),
    hexAt (places + more) value (hex places n ++ rest) =
      hexAt more (value * 16 ^ places + n % 16 ^ places) rest
  | 0, more, n, value, rest => by simp [hex, Nat.mod_one]
  | places + 1, more, n, value, rest => by
    have hnext := hexAt_hex places (more + 1) (n / 16) value (hexDigit (n % 16) :: rest)
    have hvalue : (value * 16 ^ places + n / 16 % 16 ^ places) * 16 + n % 16 =
        value * 16 ^ (places + 1) + n % 16 ^ (places + 1) := by
      rw [pow_succ, Nat.mul_comm (16 ^ places) 16, Nat.mod_mul]
      ring
    rw [show places + 1 + more = places + (more + 1) by omega, hex, List.append_assoc,
      List.singleton_append, hnext, hexAt, lowerHex_hexDigit (Nat.mod_lt _ (by norm_num))]
    dsimp only
    rw [hvalue]

theorem hexAt_digest (d : UInt64) (rest : Bytes) :
    hexAt 16 0 (hex 16 d.toNat ++ rest) = some (d.toNat, rest) := by
  have h := hexAt_hex 16 0 d.toNat 0 rest
  have hlt : d.toNat < 16 ^ 16 := d.toNat_lt
  rw [Nat.mod_eq_of_lt hlt, Nat.zero_mul, Nat.zero_add] at h
  exact h

theorem pageRead_header {total : ℕ} {bytes : Bytes} (d : UInt64) (htotal : total ≤ totalMax)
    (hinside : start + bytes.length ≤ total) :
    pageRead (header total start bytes.length d ++ bytes) =
      some ⟨total, start, d, bytes, hinside⟩ := by
  have htake : (header total start bytes.length d ++ bytes).take 3 = asciis "ok " := by
    simp [header, asciis]
  have hdrop : (header total start bytes.length d ++ bytes).drop 3 =
      decimal total ++ ascii ' ' :: (decimal start ++ ascii ' ' :: (decimal bytes.length ++
        ascii ' ' :: (hex 16 d.toNat ++ ascii '\n' :: bytes))) := by
    simp [header, asciis]
  unfold pageRead
  rw [if_neg (not_not.2 htake), hdrop]
  simp only [number_decimal htotal, number_decimal (n := start) (by omega),
    number_decimal (n := bytes.length) (by omega), hexAt_digest, Option.bind_eq_bind,
    Option.bind_some, ne_eq, not_true_eq_false, if_false, hinside, and_self, dif_pos,
    UInt64.ofNat_toNat]

/-! ## What is cut -/

theorem escapedLength_append (a b : Bytes) :
    escapedLength (a ++ b) = escapedLength a + escapedLength b := by
  simp [escapedLength]

theorem escapes_digit {d : ℕ} (h : d < 10) : escapes (UInt8.ofNat (48 + d)) = false := by
  interval_cases d <;> decide

theorem escapedLength_decimal (n : ℕ) : escapedLength (decimal n) = (decimalDigits n).length := by
  have hone : (decimal n).map (fun c => if escapes c then 3 else 1) =
      List.replicate (decimalDigits n).length 1 := by
    rw [decimal, List.map_map, List.eq_replicate_iff]
    refine ⟨by simp, fun x hx => ?_⟩
    obtain ⟨d, hd, rfl⟩ := List.mem_map.1 hx
    simp only [Function.comp_apply, escapes_digit (Json.digits_lt n d hd), Bool.false_eq_true,
      if_false]
  rw [escapedLength, hone]
  simp

theorem header_mono (total start : ℕ) (d : UInt64) {count most : ℕ} (h : count ≤ most) :
    (header total start count d).length ≤ (header total start most d).length ∧
      escapedLength (header total start count d) ≤ escapedLength (header total start most d) := by
  have hlen := decimalDigits_length_mono h
  constructor
  · simp only [header, decimal, List.length_append, List.length_map]
    omega
  · simp only [header, escapedLength_append, escapedLength_decimal]
    omega

theorem fitting_spec : ∀ (bytes : Bytes) (room : ℕ), fitting room bytes ≤ bytes.length ∧
    escapedLength (bytes.take (fitting room bytes)) ≤ room ∧
    (bytes ≠ [] → 3 ≤ room → 0 < fitting room bytes)
  | [], room => by simp [fitting, escapedLength]
  | c :: rest, room => by
    have hc : escapedLength [c] = if escapes c then 3 else 1 := by simp [escapedLength]
    have hone : (if escapes c then 3 else 1) ≤ 3 := by split <;> omega
    rw [fitting]
    generalize (if escapes c then 3 else 1) = one at hc hone ⊢
    split_ifs with hroom
    · refine ⟨by omega, by simp [escapedLength], fun _ h => ?_⟩
      omega
    · obtain ⟨hle, hfits, -⟩ := fitting_spec rest (room - one)
      refine ⟨by rw [List.length_cons]; omega, ?_, fun _ _ => by omega⟩
      rw [List.take_succ_cons, ← List.singleton_append, escapedLength_append]
      omega

/-- The page size leaves room for the header and one escaped byte, wherever the page starts. -/
def Room (whole : Bytes) (cap escapedCap : ℕ) : Prop :=
  ∀ start ≤ whole.length,
    (header whole.length start whole.length (digest whole)).length < cap ∧
      (escapedCap ≠ 0 →
        escapedLength (header whole.length start whole.length (digest whole)) + 3 ≤ escapedCap)

theorem countAt_le (whole longest : Bytes) (start cap escapedCap : ℕ) :
    countAt whole longest start cap escapedCap ≤ whole.length - start ∧
      countAt whole longest start cap escapedCap ≤ cap - longest.length := by
  unfold countAt
  dsimp only
  split_ifs
  · omega
  · have hfit := (fitting_spec ((whole.drop start).take
      (min (whole.length - start) (cap - longest.length))) (escapedCap - escapedLength longest)).1
    rw [List.length_take, List.length_drop] at hfit
    omega

theorem length_take_countAt (whole longest : Bytes) (start cap escapedCap : ℕ) :
    ((whole.drop start).take (countAt whole longest start cap escapedCap)).length =
      countAt whole longest start cap escapedCap := by
  have := countAt_le whole longest start cap escapedCap
  rw [List.length_take, List.length_drop]
  omega

theorem countAt_pos {whole longest : Bytes} {cap escapedCap : ℕ}
    (hstart : start < whole.length) (hcap : longest.length < cap)
    (hescaped : escapedCap ≠ 0 → escapedLength longest + 3 ≤ escapedCap) :
    0 < countAt whole longest start cap escapedCap := by
  unfold countAt
  dsimp only
  split_ifs with hesc
  · omega
  · refine (fitting_spec _ _).2.2 (fun hnil => ?_) (by have := hescaped hesc; omega)
    have hlen := congrArg List.length hnil
    rw [List.length_take, List.length_drop, List.length_nil] at hlen
    omega

theorem escapedLength_countAt (whole longest : Bytes) (start cap : ℕ) {escapedCap : ℕ}
    (hesc : escapedCap ≠ 0) :
    escapedLength ((whole.drop start).take (countAt whole longest start cap escapedCap)) ≤
      escapedCap - escapedLength longest := by
  have hfit := fitting_spec ((whole.drop start).take
    (min (whole.length - start) (cap - longest.length))) (escapedCap - escapedLength longest)
  have hle := hfit.1
  rw [List.length_take] at hle
  unfold countAt
  rw [if_neg hesc]
  rw [List.take_take, Nat.min_eq_left (le_trans hle (Nat.min_le_left _ _))] at hfit
  exact hfit.2.1

theorem pageOf_shape {whole page : Bytes} {d : UInt64} {cap escapedCap : ℕ}
    (h : pageOf whole d start cap escapedCap = some page) :
    ∃ bytes, page = header whole.length (min start whole.length) bytes.length d ++ bytes ∧
      min start whole.length + bytes.length ≤ whole.length := by
  unfold pageOf at h
  dsimp only at h
  split_ifs at h
  cases h
  have hle := (countAt_le whole (header whole.length (min start whole.length) whole.length d)
    (min start whole.length) cap escapedCap).1
  refine ⟨_, by rw [length_take_countAt], ?_⟩
  rw [length_take_countAt]
  omega

/-- What is cut at an offset of the answer : a page that says so, within both bounds, with at
least one byte of what is left. -/
theorem askPage_spec {whole : Bytes} {cap escapedCap : ℕ} (hroom : Room whole cap escapedCap)
    (hstart : start ≤ whole.length) :
    ∃ bytes, askPage whole start cap escapedCap =
        some (header whole.length start bytes.length (digest whole) ++ bytes) ∧
      bytes = (whole.drop start).take bytes.length ∧ start + bytes.length ≤ whole.length ∧
      (start < whole.length → 0 < bytes.length) ∧
      (header whole.length start bytes.length (digest whole) ++ bytes).length ≤ cap ∧
      (escapedCap ≠ 0 →
        escapedLength (header whole.length start bytes.length (digest whole) ++ bytes) ≤
          escapedCap) := by
  obtain ⟨hcap, hescaped⟩ := hroom start hstart
  set longest := header whole.length start whole.length (digest whole) with hlongest
  obtain ⟨hleft, hlong⟩ := countAt_le whole longest start cap escapedCap
  have hlen := length_take_countAt whole longest start cap escapedCap
  have hmono := header_mono whole.length start (digest whole)
    (show countAt whole longest start cap escapedCap ≤ whole.length by omega)
  rw [← hlongest] at hmono
  refine ⟨(whole.drop start).take (countAt whole longest start cap escapedCap), ?_, by rw [hlen],
    by omega, fun hless => ?_, ?_, fun hesc => ?_⟩
  · unfold askPage pageOf
    rw [Nat.min_eq_left hstart]
    dsimp only
    rw [← hlongest, if_neg, hlen]
    push Not
    exact ⟨hcap, fun h => by have := hescaped h; omega⟩
  · rw [hlen]
    exact countAt_pos hless hcap hescaped
  · rw [List.length_append, hlen]
    omega
  · have hfits := escapedLength_countAt whole longest start cap hesc
    have hthree := hescaped hesc
    rw [escapedLength_append, hlen]
    omega

/-! ## A peer that answers by the clock -/

/-- A peer as the replies it gives : to the `k`-th question, at an offset. -/
def clocked (reply : ℕ → ℕ → Option Bytes) (k start : ℕ) : Option Bytes × ℕ :=
  (reply k start, k + 1)

theorem askPageAt_ok {reply : ℕ → ℕ → Option Bytes} {k k' : ℕ} {one : Page}
    (h : askPageAt (clocked reply) k start = (.ok one, k')) :
    k' = k + 1 ∧ ∃ page, reply k start = some page ∧ pageRead page = some one := by
  unfold askPageAt clocked at h
  cases hreply : reply k start with
  | none =>
    rw [hreply] at h
    cases h
  | some page =>
    rw [hreply] at h
    dsimp only at h
    cases hread : pageRead page with
    | none =>
      rw [hread] at h
      cases h
    | some one =>
      rw [hread] at h
      cases h
      exact ⟨rfl, page, rfl, hread⟩

theorem askPageAt_why {σ : Type*} {ask : σ → ℕ → Option Bytes × σ} {s s' : σ}
    {why : Outcome} (h : askPageAt ask s start = (.error why, s')) :
    why = .unanswered ∨ why = .notAPage := by
  unfold askPageAt at h
  cases hreply : ask s start with
  | mk reply s'' =>
    rw [hreply] at h
    cases reply with
    | none =>
      cases h
      exact .inl rfl
    | some page =>
      dsimp only at h
      cases hread : pageRead page with
      | none =>
        rw [hread] at h
        cases h
        exact .inr rfl
      | some one =>
        rw [hread] at h
        cases h

theorem askPageAt_error {reply : ℕ → ℕ → Option Bytes} {k k' : ℕ} {why : Outcome}
    (h : askPageAt (clocked reply) k start = (.error why, k')) :
    k' = k + 1 ∧ (why = .unanswered ∨ why = .notAPage) := by
  have hcount : (askPageAt (clocked reply) k start).2 = k + 1 := askPageAt_snd k start
  rw [h] at hcount
  exact ⟨hcount, askPageAt_why h⟩

/-! ## An answer that stands still -/

theorem takePage_next {first one : Page} {got : Bytes} (hdigest : one.digest = first.digest)
    (htotal : one.total = first.total) (hstart : one.start = got.length)
    (hmore : got.length < first.total → 0 < one.bytes.length) :
    takePage first one got = .more (got ++ one.bytes) := by
  have hinside := one.inside
  unfold takePage
  rw [if_neg (by simp [hdigest, htotal]), if_neg (by omega), if_neg (by omega)]

section Still

variable {whole : Bytes} {cap escapedCap : ℕ}

theorem askPageAt_still (hmax : whole.length ≤ totalMax) (hcap : cap ≤ pageCap)
    (hroom : Room whole cap escapedCap) {start : ℕ} (hstart : start ≤ whole.length) (k : ℕ) :
    ∃ one : Page, askPageAt (clocked fun _ start => handed (askPage whole start cap escapedCap))
        k start = (.ok one, k + 1) ∧
      one.total = whole.length ∧ one.start = start ∧ one.digest = digest whole ∧
      one.bytes = (whole.drop start).take one.bytes.length ∧
      (start < whole.length → 0 < one.bytes.length) := by
  obtain ⟨bytes, hpage, hbytes, hinside, hmore, hlength, -⟩ := askPage_spec hroom hstart
  refine ⟨⟨whole.length, start, digest whole, bytes, hinside⟩, ?_, rfl, rfl, rfl, hbytes, hmore⟩
  have hhanded : handed (askPage whole start cap escapedCap) =
      some (header whole.length start bytes.length (digest whole) ++ bytes) := by
    rw [handed, hpage, Option.filter_some, if_pos (by simpa using le_trans hlength hcap)]
  unfold askPageAt clocked
  dsimp only
  rw [hhanded]
  dsimp only
  rw [pageRead_header _ hmax hinside]

theorem gather_still (hmax : whole.length ≤ totalMax) (hcap : cap ≤ pageCap)
    (hroom : Room whole cap escapedCap) {first : Page} (htotal : first.total = whole.length)
    (hdigest : first.digest = digest whole) : ∀ (left : ℕ) {got : Bytes} (k : ℕ),
    whole.length - got.length ≤ left → got = whole.take got.length →
    ∃ k', gather (clocked fun _ start => handed (askPage whole start cap escapedCap))
      first left got k = (.whole first whole, k')
  | 0, got, k, hleft, hgot => by
    refine ⟨k, ?_⟩
    rw [gather, hgot, List.take_of_length_le (by omega)]
  | left + 1, got, k, hleft, hgot => by
    have hle : got.length ≤ whole.length := by
      rw [hgot, List.length_take]
      omega
    rw [gather]
    split_ifs with hdone
    · refine ⟨k, ?_⟩
      rw [hgot, List.take_of_length_le (by omega)]
    · obtain ⟨one, hask, hone, hstart, hone', hbytes, hmore⟩ :=
        askPageAt_still hmax hcap hroom hle k
      have htook : takePage first one got = .more (got ++ one.bytes) :=
        takePage_next (by rw [hone', hdigest]) (by rw [hone, htotal]) hstart
          (fun h => hmore (by omega))
      have hnext : got ++ one.bytes = whole.take (got ++ one.bytes).length := by
        rw [List.length_append, List.take_add, ← hgot, ← hbytes]
      have hpos := hmore (by omega)
      rw [hask]
      dsimp only
      rw [htook]
      exact gather_still hmax hcap hroom htotal hdigest left (k + 1)
        (by rw [List.length_append]; omega) hnext

/-- An answer that stays as it is joins whole. -/
theorem pagesJoin_still (hmax : whole.length ≤ totalMax) (hcap : cap ≤ pageCap)
    (hroom : Room whole cap escapedCap) (k : ℕ) :
    (pagesJoin (clocked fun _ start => handed (askPage whole start cap escapedCap)) k).1 =
      .joined whole := by
  obtain ⟨first, hask, htotal, hstart, hdigest, hbytes, hmore⟩ :=
    askPageAt_still hmax hcap hroom (Nat.zero_le _) k
  have htook : takePage first first [] = .more ([] ++ first.bytes) :=
    takePage_next rfl rfl hstart (fun h => hmore (by omega))
  obtain ⟨k', hgather⟩ := gather_still hmax hcap hroom htotal hdigest first.total (k + 1)
    (by omega)
    (show first.bytes = whole.take first.bytes.length by simpa using hbytes)
  unfold pagesJoin attempts attempt
  rw [hask]
  dsimp only
  rw [htook, List.nil_append]
  dsimp only
  rw [hgather]
  dsimp only
  rw [if_pos hdigest.symm]

end Still

/-! ## A peer of which nothing is known -/

theorem digitsAt_le : ∀ {page : Bytes} {value seen v n : ℕ} {rest : Bytes},
    value ≤ totalMax → digitsAt page value seen = some (v, n, rest) → v ≤ totalMax
  | [], value, seen, v, n, rest, hvalue, h => by
    cases h
    exact hvalue
  | c :: page, value, seen, v, n, rest, hvalue, h => by
    rw [digitsAt] at h
    dsimp only at h
    split_ifs at h with hdigit hroom
    · refine digitsAt_le ?_ h
      have hle : c ≤ 57 := by simp [isDigit] at hdigit; exact hdigit.2
      have hnat : c.toNat ≤ 57 := hle
      simp only [totalMax] at hroom ⊢
      omega
    · cases h
      exact hvalue

theorem number_le {page rest : Bytes} {v : ℕ} (h : number page = some (v, rest)) :
    v ≤ totalMax := by
  unfold number at h
  cases hdigits : digitsAt page 0 0 with
  | none =>
    rw [hdigits] at h
    cases h
  | some found =>
    obtain ⟨value, seen, rest'⟩ := found
    rw [hdigits] at h
    dsimp only at h
    split_ifs at h
    cases rest' with
    | nil => cases h
    | cons c rest' =>
      dsimp only at h
      split_ifs at h
      cases h
      exact digitsAt_le (Nat.zero_le _) hdigits

theorem pageRead_le {page : Bytes} {one : Page} (h : pageRead page = some one) :
    one.total ≤ totalMax := by
  unfold pageRead at h
  split_ifs at h
  obtain ⟨⟨total, rest⟩, htotal, h⟩ := Option.bind_eq_some_iff.1 h
  obtain ⟨⟨start, rest⟩, -, h⟩ := Option.bind_eq_some_iff.1 h
  obtain ⟨⟨count, rest⟩, -, h⟩ := Option.bind_eq_some_iff.1 h
  obtain ⟨⟨d, rest⟩, -, h⟩ := Option.bind_eq_some_iff.1 h
  cases rest with
  | nil => cases h
  | cons c bytes =>
    dsimp only at h
    split_ifs at h
    cases h
    exact number_le htotal

theorem takePage_refused {first one : Page} {got : Bytes} {why : Outcome}
    (h : takePage first one got = .refused why) : why = .noProgress one.start got.length := by
  have hinside := one.inside
  unfold takePage at h
  split_ifs at h with hmoved hnext hover
  · cases h
    rfl
  · push Not at hmoved hnext
    omega

section Bounded

variable {P : Page → Bytes → Prop} {upTo k : ℕ}

theorem within_moved (hk : k ≤ upTo) : Within P upTo (.moved, k) :=
  ⟨hk, fun _ h => (nomatch h), fun _ _ h => (nomatch h)⟩

theorem within_error {reply : ℕ → ℕ → Option Bytes} {k' start : ℕ} {why : Outcome}
    (h : askPageAt (clocked reply) k start = (.error why, k')) (hk : k + 1 ≤ upTo) :
    Within P upTo (.ended why, k') := by
  obtain ⟨rfl, hwhy⟩ := askPageAt_error h
  refine ⟨hk, fun why' h => ?_, fun _ _ h => nomatch h⟩
  cases h
  rcases hwhy with rfl | rfl <;> simp

theorem within_refused {first one : Page} {got : Bytes} {why : Outcome}
    (h : takePage first one got = .refused why) (hk : k ≤ upTo) :
    Within P upTo (.ended why, k) := by
  refine ⟨hk, fun why' h' => ?_, fun _ _ h' => nomatch h'⟩
  cases h'
  rw [takePage_refused h]
  simp

theorem within_whole {first : Page} {got : Bytes} (h : P first got) (hk : k ≤ upTo) :
    Within P upTo (.whole first got, k) := by
  refine ⟨hk, fun _ h' => (nomatch h'), fun first' got' h' => ?_⟩
  cases h'
  exact h

variable (reply : ℕ → ℕ → Option Bytes)

theorem gather_within {first : Page} : ∀ (left : ℕ) {got : Bytes} (k : ℕ),
    first.total - got.length ≤ left → got.length ≤ first.total →
    Within (fun f w => f = first ∧ w.length = first.total) (k + (first.total - got.length))
      (gather (clocked reply) first left got k)
  | 0, got, k, hleft, hle => within_whole ⟨rfl, by omega⟩ (by omega)
  | left + 1, got, k, hleft, hle => by
    rw [gather]
    split_ifs with hdone
    · exact within_whole ⟨rfl, by omega⟩ (by omega)
    · cases hask : askPageAt (clocked reply) k got.length with
      | mk answer k' =>
        cases answer with
        | error why => exact within_error hask (by omega)
        | ok one =>
          obtain ⟨rfl, -⟩ := askPageAt_ok hask
          dsimp only
          cases htook : takePage first one got with
          | moved => exact within_moved (by omega)
          | refused why => exact within_refused htook (by omega)
          | more more =>
            obtain ⟨-, hfits, hgrows⟩ := takePage_more htook
            have hgrown := hgrows (by omega)
            have hnext := gather_within left (k + 1) (by omega) hfits
            have hused := hnext.used
            exact ⟨by dsimp only; omega, hnext.early, hnext.whole⟩

/-- One attempt asks for at most as many pages as an answer has bytes, and what it gathers has
the total of its first page. -/
theorem attempt_within (k : ℕ) :
    Within (fun first w => (∃ page, reply k 0 = some page ∧ pageRead page = some first) ∧
      w.length = first.total) (k + totalMax) (attempt (clocked reply) k) := by
  have hone : 1 ≤ totalMax := by decide
  unfold attempt
  cases hask : askPageAt (clocked reply) k 0 with
  | mk answer k' =>
    cases answer with
    | error why => exact within_error hask (by omega)
    | ok first =>
      obtain ⟨rfl, page, hpage, hread⟩ := askPageAt_ok hask
      have hmax := pageRead_le hread
      dsimp only
      cases htook : takePage first first [] with
      | moved => exact within_moved (by omega)
      | refused why => exact within_refused htook (by omega)
      | more got =>
        obtain ⟨-, hfits, hgrows⟩ := takePage_more htook
        have hrest := gather_within reply first.total (k + 1) (by omega) hfits
        refine ⟨?_, hrest.early, fun f w h => ?_⟩
        · have hused := hrest.used
          rw [List.length_nil] at hgrows
          dsimp only
          omega
        · obtain ⟨rfl, hlen⟩ := hrest.whole f w h
          exact ⟨⟨page, hpage, hread⟩, hlen⟩

/-- However the pages come, the attempts are bounded and what is joined has the digest. -/
theorem attempts_bounded : ∀ (n k : ℕ),
    (attempts (clocked reply) n k).2 ≤ k + n * totalMax ∧
      (attempts (clocked reply) n k).1 ≠ .overrun ∧
      (∀ w, (attempts (clocked reply) n k).1 = .joined w → ∃ k' page first,
        reply k' 0 = some page ∧ pageRead page = some first ∧ w.length = first.total ∧
          digest w = first.digest)
  | 0, k => by simp [attempts]
  | n + 1, k => by
    have hwithin := attempt_within reply k
    rw [attempts, Nat.succ_mul]
    cases hattempt : attempt (clocked reply) k with
    | mk gathered k' =>
      rw [hattempt] at hwithin
      have hused : k' ≤ k + totalMax := hwithin.used
      cases gathered with
      | moved =>
        obtain ⟨hused', hover, hjoined⟩ := attempts_bounded n k'
        exact ⟨by dsimp only; omega, hover, hjoined⟩
      | ended why =>
        obtain ⟨hover, hnot⟩ := hwithin.early why rfl
        exact ⟨by dsimp only; omega, hover, fun w h => absurd h (hnot w)⟩
      | whole first got =>
        obtain ⟨⟨page, hpage, hread⟩, hlen⟩ := hwithin.whole first got rfl
        dsimp only
        by_cases hdigest : digest got = first.digest
        · rw [if_pos hdigest]
          refine ⟨by dsimp only; omega, by simp, fun w h => ?_⟩
          cases h
          exact ⟨k, page, first, hpage, hread, hlen, hdigest⟩
        · rw [if_neg hdigest]
          exact ⟨by dsimp only; omega, by simp, fun w h => by cases h⟩

end Bounded

/-! ## An answer that moves -/

/-- A page carries the digest of the whole. -/
theorem digest_of_pageOf {whole page : Bytes} {start cap escapedCap : ℕ} {one : Page}
    (hmax : whole.length ≤ totalMax)
    (h : pageOf whole (digest whole) start cap escapedCap = some page)
    (hread : pageRead page = some one) : one.digest = digest whole := by
  obtain ⟨bytes, rfl, hinside⟩ := pageOf_shape h
  rw [pageRead_header _ hmax hinside] at hread
  cases hread
  rfl

/-- **Pages join to exactly one answer.** The pages either side cuts of an answer stay within
both bounds and join to it; where the answer moves between the pages, a join that ends with bytes
ends with one of the answers; and of any peer at all, the join ends, writes only inside the total
it was told and ends with bytes only where they are of the total and the digest of a first page. -/
theorem pages_join :
    (∀ cut, cut = askPage ∨ cut = nodePage → ∀ (whole : Bytes) (cap escapedCap : ℕ),
      whole.length ≤ totalMax → cap ≤ pageCap → Room whole cap escapedCap →
      (∀ start ≤ whole.length, ∃ page, cut whole start cap escapedCap = some page ∧
        page.length ≤ cap ∧ (escapedCap ≠ 0 → escapedLength page ≤ escapedCap)) ∧
      (pagesJoin (clocked fun _ start => handed (cut whole start cap escapedCap)) 0).1 =
        .joined whole) ∧
    (∀ (cut : ℕ → Bytes → ℕ → ℕ → ℕ → Option Bytes) (answers : ℕ → Bytes) (cap escapedCap : ℕ → ℕ)
      (w : Bytes), (∀ k, cut k = askPage ∨ cut k = nodePage) →
      (∀ k, (answers k).length ≤ totalMax) →
      (pagesJoin (clocked fun k start =>
        handed (cut k (answers k) start (cap k) (escapedCap k))) 0).1 = .joined w →
      (∀ k, digest w = digest (answers k) → w = answers k) → ∃ k, w = answers k) ∧
    (∀ reply : ℕ → ℕ → Option Bytes,
      (pagesJoin (clocked reply) 0).2 ≤ 4 * totalMax ∧
      (pagesJoin (clocked reply) 0).1 ≠ .overrun ∧
      (∀ w, (pagesJoin (clocked reply) 0).1 = .joined w → ∃ k page first,
        reply k 0 = some page ∧ pageRead page = some first ∧ w.length = first.total ∧
          digest w = first.digest)) := by
  refine ⟨?_, ?_, ?_⟩
  · intro cut hcut whole cap escapedCap hmax hcap hroom
    have hask : cut = askPage := by
      rcases hcut with rfl | rfl
      · rfl
      · funext whole start cap escapedCap
        rfl
    rw [hask]
    refine ⟨fun start hstart => ?_, pagesJoin_still hmax hcap hroom 0⟩
    obtain ⟨bytes, hpage, -, -, -, hlength, hescaped⟩ := askPage_spec hroom hstart
    exact ⟨_, hpage, hlength, hescaped⟩
  · intro cut answers cap escapedCap w hcut hmax hjoined hapart
    obtain ⟨k, page, first, hreply, hread, -, hdigest⟩ := (attempts_bounded _ 4 0).2.2 w hjoined
    obtain ⟨hpage, -⟩ := Option.filter_eq_some_iff.1 hreply
    have hcutk : pageOf (answers k) (digest (answers k)) 0 (cap k) (escapedCap k) = some page := by
      rcases hcut k with h | h <;> rw [h] at hpage <;> exact hpage
    exact ⟨k, hapart k (by rw [hdigest, digest_of_pageOf (hmax k) hcutk hread])⟩
  · intro reply
    obtain ⟨hused, hover, hjoined⟩ := attempts_bounded reply 4 0
    rw [Nat.zero_add] at hused
    exact ⟨hused, hover, hjoined⟩

def oneDevice : Bytes := asciis "one device, and it is the wired one\n"

def twoDevices : Bytes := asciis "two devices, one of them a tunnel\n"

/-- An answer that changes after its first page was asked for. -/
def moving (k : ℕ) : Bytes := if k = 0 then oneDevice else twoDevices

/-- Two pages of an answer join to it, and where it changes between them the pages of the next one
do. -/
theorem moving_is_joined :
    (pagesJoin (clocked fun _ start => handed (askPage twoDevices start 48 90)) 0).1 =
        .joined twoDevices ∧
      (pagesJoin (clocked fun k start => handed (askPage (moving k) start 48 90)) 0) =
        (.joined twoDevices, 4) ∧ ∃ k, twoDevices = moving k := by
  have hstill := pages_join.1 askPage (.inl rfl) twoDevices 48 90 (by decide) (by decide)
    (by unfold Room; decide +kernel)
  have hmoved : (pagesJoin (clocked fun k start => handed (askPage (moving k) start 48 90)) 0) =
      (.joined twoDevices, 4) := by
    decide +kernel
  refine ⟨hstill.2, hmoved, pages_join.2.1 (fun _ => askPage) moving (fun _ => 48) (fun _ => 90)
    twoDevices (fun _ => .inl rfl) (fun k => ?_) (congrArg Prod.fst hmoved) fun k hdigest => ?_⟩
  · unfold moving
    split_ifs <;> decide
  · cases k with
    | zero => exact absurd hdigest (by decide +kernel)
    | succ k => rfl

end Netcfgd.Pages
