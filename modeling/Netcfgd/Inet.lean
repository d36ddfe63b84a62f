import Mathlib.Data.List.Basic
import Mathlib.Tactic

/-!
# The text of an internet address

`inet_ntop` and `inet_pton` of the C library. An IPv4 address is four octets, an IPv6 address
eight words of sixteen bits (`Groups`).

`ntop4` writes the octets in decimal with dots. `ntop6` writes the words in hexadecimal with
colons, the first of the longest runs of two zero words or more as `::`, and the last two
words as an IPv4 address where everything before them is zero, or zero but for a `ffff`. The
readers `pton4` and `pton6` scan the text character by character and take more spellings than
are written.

What is written is read back : `pton4_ntop4` and `pton6_ntop6`.
-/

namespace Inet

/-- `count` numbers below `bound`. -/
structure Groups (count bound : ℕ) where
  list : List ℕ
  length_eq : list.length = count
  lt : ∀ g ∈ list, g < bound
  deriving DecidableEq

/-- The groups a list holds, where it holds that many and they are in range. -/
def Groups.of (count bound : ℕ) (list : List ℕ) : Option (Groups count bound) :=
  if h : list.length = count ∧ ∀ g ∈ list, g < bound then some ⟨list, h.1, h.2⟩ else none

theorem Groups.of_list {count bound : ℕ} (g : Groups count bound) :
    Groups.of count bound g.list = some g := by
  have h : g.list.length = count ∧ ∀ x ∈ g.list, x < bound := ⟨g.length_eq, g.lt⟩
  rw [Groups.of, dif_pos h]

/-! ## Digits -/

def digitChar (d : ℕ) : Char :=
  if d < 10 then Char.ofNat ('0'.toNat + d) else Char.ofNat ('a'.toNat + (d - 10))

def decimalOf (c : Char) : Option ℕ :=
  if '0' ≤ c ∧ c ≤ '9' then some (c.toNat - '0'.toNat) else none

def digitOf (c : Char) : Option ℕ :=
  if '0' ≤ c ∧ c ≤ '9' then some (c.toNat - '0'.toNat)
  else if 'a' ≤ c ∧ c ≤ 'f' then some (c.toNat - 'a'.toNat + 10)
  else if 'A' ≤ c ∧ c ≤ 'F' then some (c.toNat - 'A'.toNat + 10)
  else none

/-- `n` in a base of at most 16, with no leading zero, in at most `places` digits. -/
def digits (base : ℕ) : ℕ → ℕ → List Char
  | 0, _ => []
  | places + 1, n =>
    if n < base then [digitChar n] else digits base places (n / base) ++ [digitChar (n % base)]

theorem digitOf_digitChar {d : ℕ} (h : d < 16) : digitOf (digitChar d) = some d := by
  interval_cases d <;> decide

theorem decimalOf_digitChar {d : ℕ} (h : d < 10) : decimalOf (digitChar d) = some d := by
  interval_cases d <;> decide

theorem digitChar_ne {d : ℕ} (h : d < 16) :
    digitChar d ≠ ':' ∧ digitChar d ≠ '.' ∧ digitChar d ≠ '/' := by
  interval_cases d <;> decide

theorem exists_of_mem_digits {base : ℕ} (hb : 0 < base) :
    ∀ {places n : ℕ} {c : Char}, c ∈ digits base places n → ∃ d < base, c = digitChar d
  | 0, _, _, h => by cases h
  | places + 1, n, c, h => by
    rw [digits] at h
    split_ifs at h with hn
    · exact ⟨n, hn, List.mem_singleton.1 h⟩
    · rcases List.mem_append.1 h with h | h
      · exact exists_of_mem_digits hb h
      · exact ⟨n % base, Nat.mod_lt n hb, List.mem_singleton.1 h⟩

theorem digits_ne_nil {base places n : ℕ} (hp : 0 < places) : digits base places n ≠ [] := by
  obtain ⟨places, rfl⟩ : ∃ k, places = k + 1 := ⟨places - 1, by omega⟩
  rw [digits]
  split_ifs <;> simp

/-! ## IPv4 -/

/-- The loop of `inet_pton` on IPv4 : the octets read, and the one being read. A digit after a
leading zero is refused. -/
def scan4 : List Char → List ℕ → Option ℕ → Option (List ℕ)
  | [], done, some v => if done.length = 3 then some (done ++ [v]) else none
  | [], _, none => none
  | c :: cs, done, current =>
    match decimalOf c, current with
    | some d, none => if done.length < 4 then scan4 cs done (some d) else none
    | some d, some v =>
      if v = 0 then none
      else if 255 < v * 10 + d then none
      else scan4 cs done (some (v * 10 + d))
    | none, some v =>
      if c = '.' then if done.length = 3 then none else scan4 cs (done ++ [v]) none else none
    | none, none => none

/-- `inet_pton` on IPv4. -/
def pton4 (text : List Char) : Option (Groups 4 256) :=
  (scan4 text [] none).bind (Groups.of 4 256)

def dotted : List ℕ → List Char
  | [] => []
  | [o] => digits 10 3 o
  | o :: o' :: os => digits 10 3 o ++ '.' :: dotted (o' :: os)

/-- `inet_ntop` on IPv4. -/
def ntop4 (octets : Groups 4 256) : List Char :=
  dotted octets.list

theorem scan4_digits {o : ℕ} (ho : o < 256) {done : List ℕ} (hdone : done.length < 4)
    (rest : List Char) :
    scan4 (digits 10 3 o ++ rest) done none = scan4 rest done (some o) := by
  have h3 : o / 10 / 10 < 10 := by omega
  have h2 : o / 10 % 10 < 10 := Nat.mod_lt _ (by omega)
  have h1 : o % 10 < 10 := Nat.mod_lt _ (by omega)
  by_cases ha : o < 10
  · simp [digits, ha, scan4, decimalOf_digitChar ha, hdone]
  · by_cases hb : o / 10 < 10
    · have hne : o / 10 ≠ 0 := by omega
      have hsum : o / 10 * 10 + o % 10 = o := by omega
      simp [digits, ha, hb, scan4, decimalOf_digitChar hb, decimalOf_digitChar h1, hdone, hne, hsum,
        show ¬255 < o by omega]
    · have hne : o / 10 / 10 ≠ 0 := by omega
      have hsum' : o / 10 / 10 * 10 + o / 10 % 10 = o / 10 := by omega
      have hne' : o / 10 ≠ 0 := by omega
      have hsum : o / 10 * 10 + o % 10 = o := by omega
      simp [digits, ha, hb, h3, scan4, decimalOf_digitChar h3, decimalOf_digitChar h2,
        decimalOf_digitChar h1, hdone, hne, hsum', hsum, hne', show ¬255 < o / 10 by omega,
        show ¬255 < o by omega]

theorem scan4_dotted : ∀ (os done : List ℕ), os ≠ [] → (∀ o ∈ os, o < 256) →
    done.length + os.length = 4 → scan4 (dotted os) done none = some (done ++ os)
  | [o], done, _, ho, hlen => by
    have hdone : done.length = 3 := by simpa using hlen
    rw [dotted, ← List.append_nil (digits 10 3 o),
      scan4_digits (ho o List.mem_cons_self) (by omega)]
    simp [scan4, hdone]
  | o :: o' :: os, done, _, ho, hlen => by
    have hlen' : done.length + (os.length + 2) = 4 := by simpa using hlen
    have hdone : done.length ≠ 3 := by omega
    rw [dotted, scan4_digits (ho o List.mem_cons_self) (by omega)]
    have hdot : scan4 ('.' :: dotted (o' :: os)) done (some o) =
        scan4 (dotted (o' :: os)) (done ++ [o]) none := by
      simp [scan4, hdone, decimalOf]
    rw [hdot, scan4_dotted (o' :: os) (done ++ [o]) (by simp)
      (fun x hx => ho x (List.mem_cons_of_mem _ hx)) (by simp; omega)]
    simp

theorem pton4_ntop4 (octets : Groups 4 256) : pton4 (ntop4 octets) = some octets := by
  have hne : octets.list ≠ [] := by
    intro h
    have := octets.length_eq
    simp [h] at this
  rw [pton4, ntop4, scan4_dotted octets.list [] hne octets.lt (by simp [octets.length_eq])]
  simpa using octets.of_list

/-! ## IPv6 -/

structure Scan6 where
  done : List ℕ := []
  /-- How many of them were read before `::`. -/
  gap : Option ℕ := none
  /-- The digits of the word being read, and its value so far. -/
  seen : ℕ := 0
  val : ℕ := 0
  deriving DecidableEq

/-- The end of the text : the last word, and zero words for `::`. -/
def Scan6.finish (s : Scan6) : Option (List ℕ) :=
  if 0 < s.seen ∧ 8 ≤ s.done.length then none
  else
    let words := if 0 < s.seen then s.done ++ [s.val] else s.done
    match s.gap with
    | some k =>
      if words.length = 8 then none
      else some (words.take k ++ List.replicate (8 - words.length) 0 ++ words.drop k)
    | none => if words.length = 8 then some words else none

/-- The loop of `inet_pton` on IPv6. `token` is the text from the last colon on, which an IPv4
address at the end is read from. -/
def scan6 : List Char → List Char → Scan6 → Option (List ℕ)
  | [], _, s => s.finish
  | c :: cs, token, s =>
    match digitOf c with
    | some d =>
      if s.seen = 4 then none
      else scan6 cs token { s with seen := s.seen + 1, val := s.val * 16 + d }
    | none =>
      if c = ':' then
        if s.seen = 0 then
          if s.gap.isSome then none else scan6 cs cs { s with gap := some s.done.length }
        else if cs = [] then none
        else if 8 ≤ s.done.length then none
        else scan6 cs cs { s with done := s.done ++ [s.val], seen := 0, val := 0 }
      else if c = '.' ∧ s.done.length + 2 ≤ 8 then
        match (pton4 token).map Groups.list with
        | some [a, b, c, d] =>
          Scan6.finish { s with done := s.done ++ [a * 256 + b, c * 256 + d], seen := 0 }
        | _ => none
      else none

/-- `inet_pton` on IPv6. A colon that starts the text must be one of two. -/
def pton6 (text : List Char) : Option (Groups 8 65536) :=
  let words :=
    match text with
    | [] => none
    | ':' :: ':' :: cs => scan6 (':' :: cs) (':' :: cs) {}
    | ':' :: _ => none
    | cs => scan6 cs cs {}
  words.bind (Groups.of 8 65536)

def zeros (words : List ℕ) : ℕ :=
  (words.takeWhile (· = 0)).length

/-- The first of the longest runs of zero words : where it starts, and how long it is. -/
def longestRun (words : List ℕ) : ℕ × ℕ :=
  (List.range words.length).foldl
    (fun best i => if best.2 < zeros (words.drop i) then (i, zeros (words.drop i)) else best) (0, 0)

def coloned : List ℕ → List Char
  | [] => []
  | [w] => digits 16 4 w
  | w :: w' :: ws => digits 16 4 w ++ ':' :: coloned (w' :: ws)

def octetsOf (words : List ℕ) : List ℕ :=
  words.flatMap fun w => [w / 256, w % 256]

/-- `inet_ntop` on IPv6. -/
def ntop6 (words : Groups 8 65536) : List Char :=
  let ws := words.list
  let (start, length) := longestRun ws
  if length < 2 then coloned ws
  else if start = 0 ∧ length = 6 then ':' :: ':' :: dotted (octetsOf (ws.drop 6))
  else if start = 0 ∧ length = 5 ∧ ws[5]? = some 0xffff then
    ':' :: ':' :: (digits 16 4 0xffff ++ ':' :: dotted (octetsOf (ws.drop 6)))
  else coloned (ws.take start) ++ ':' :: ':' :: coloned (ws.drop (start + length))

/-! ## Reading what was written -/

section Reading

variable {done : List ℕ} {gap : Option ℕ}

theorem length_digits_le (base : ℕ) : ∀ places n, (digits base places n).length ≤ places
  | 0, _ => Nat.zero_le _
  | places + 1, n => by
    have ih := length_digits_le base places (n / base)
    rw [digits]
    split_ifs
    · simp
    · simp only [List.length_append, List.length_singleton]
      omega

theorem scan6_digitChar {d seen : ℕ} (hd : d < 16) (hseen : seen < 4) (val : ℕ)
    (rest token : List Char) :
    scan6 (digitChar d :: rest) token ⟨done, gap, seen, val⟩ =
      scan6 rest token ⟨done, gap, seen + 1, val * 16 + d⟩ := by
  have hne : seen ≠ 4 := by omega
  simp [scan6, digitOf_digitChar hd, hne]

theorem scan6_digits (token : List Char) : ∀ (places n : ℕ) (rest : List Char), places ≤ 4 →
    n < 16 ^ places → scan6 (digits 16 places n ++ rest) token ⟨done, gap, 0, 0⟩ =
      scan6 rest token ⟨done, gap, (digits 16 places n).length, n⟩
  | 0, n, rest, _, hn => by
    obtain rfl : n = 0 := by simpa using hn
    rfl
  | places + 1, n, rest, hp, hn => by
    by_cases h : n < 16
    · rw [digits, if_pos h, List.singleton_append, scan6_digitChar h (by omega : 0 < 4)]
      simp
    · have hdiv : n / 16 < 16 ^ places := by
        rw [pow_succ] at hn
        omega
      have hlen := length_digits_le 16 places (n / 16)
      rw [digits, if_neg h, List.append_assoc, scan6_digits token places (n / 16) _ (by omega) hdiv,
        List.singleton_append,
        scan6_digitChar (Nat.mod_lt n (by omega))
          (by omega : (digits 16 places (n / 16)).length < 4)]
      congr 2
      · simp
      · omega

theorem finish_word {seen w : ℕ} (hseen : 0 < seen) (hdone : done.length < 8) :
    Scan6.finish ⟨done, gap, seen, w⟩ = Scan6.finish ⟨done ++ [w], gap, 0, 0⟩ := by
  have h : ¬8 ≤ done.length := by omega
  simp [Scan6.finish, h, hseen]

theorem scan6_colon {seen w : ℕ} (hseen : 0 < seen) (hdone : done.length < 8) {rest : List Char}
    (hrest : rest ≠ []) (token : List Char) :
    scan6 (':' :: rest) token ⟨done, gap, seen, w⟩ = scan6 rest rest ⟨done ++ [w], gap, 0, 0⟩ := by
  have hd : digitOf ':' = none := by decide
  have h1 : seen ≠ 0 := by omega
  have h2 : ¬8 ≤ done.length := by omega
  simp [scan6, hd, h1, hrest, h2]

theorem length_digits_pos {base places n : ℕ} (hp : 0 < places) :
    0 < (digits base places n).length :=
  List.length_pos_of_ne_nil (digits_ne_nil hp)

theorem coloned_ne_nil : ∀ {ws : List ℕ}, ws ≠ [] → coloned ws ≠ []
  | [w], _ => digits_ne_nil (by omega)
  | w :: w' :: ws, _ => by simp [coloned]

theorem scan6_coloned : ∀ (ws done : List ℕ) (token : List Char), (∀ w ∈ ws, w < 65536) →
    done.length + ws.length ≤ 8 →
      scan6 (coloned ws) token ⟨done, gap, 0, 0⟩ = Scan6.finish ⟨done ++ ws, gap, 0, 0⟩
  | [], done, token, _, _ => by simp [coloned, scan6]
  | [w], done, token, hw, hlen => by
    have hdone : done.length < 8 := by simp at hlen; omega
    rw [coloned, ← List.append_nil (digits 16 4 w), scan6_digits token 4 w [] (by omega)
      (by simpa using hw w List.mem_cons_self), scan6,
      finish_word (length_digits_pos (by omega)) hdone]
  | w :: w' :: ws, done, token, hw, hlen => by
    have hdone : done.length < 8 := by simp at hlen; omega
    rw [coloned, scan6_digits token 4 w _ (by omega) (by simpa using hw w List.mem_cons_self),
      scan6_colon (length_digits_pos (by omega)) hdone (coloned_ne_nil (by simp)),
      scan6_coloned (w' :: ws) (done ++ [w]) _ (fun x hx => hw x (List.mem_cons_of_mem _ hx))
        (by simp at hlen ⊢; omega)]
    simp

theorem scan6_coloned_gap (rest : List Char) : ∀ (ws done : List ℕ) (token : List Char), ws ≠ [] →
    (∀ w ∈ ws, w < 65536) → done.length + ws.length ≤ 8 →
      scan6 (coloned ws ++ ':' :: ':' :: rest) token ⟨done, none, 0, 0⟩ =
        scan6 rest rest ⟨done ++ ws, some (done ++ ws).length, 0, 0⟩
  | [w], done, token, _, hw, hlen => by
    have hdone : done.length < 8 := by simp at hlen; omega
    have hd : digitOf ':' = none := by decide
    rw [coloned, scan6_digits token 4 w _ (by omega) (by simpa using hw w List.mem_cons_self),
      scan6_colon (length_digits_pos (by omega)) hdone (by simp)]
    simp [scan6, hd]
  | w :: w' :: ws, done, token, _, hw, hlen => by
    have hdone : done.length < 8 := by simp at hlen; omega
    rw [coloned, List.append_assoc, List.cons_append,
      scan6_digits token 4 w _ (by omega) (by simpa using hw w List.mem_cons_self),
      scan6_colon (length_digits_pos (by omega)) hdone (by simp),
      scan6_coloned_gap rest (w' :: ws) (done ++ [w]) _ (by simp)
        (fun x hx => hw x (List.mem_cons_of_mem _ hx)) (by simp at hlen ⊢; omega)]
    simp

theorem scan6_hex (rest token : List Char) : ∀ (cs : List Char) (seen val : ℕ),
    (∀ c ∈ cs, (digitOf c).isSome) → seen + cs.length ≤ 4 →
      ∃ val', scan6 (cs ++ rest) token ⟨done, gap, seen, val⟩ =
        scan6 rest token ⟨done, gap, seen + cs.length, val'⟩
  | [], seen, val, _, _ => ⟨val, rfl⟩
  | c :: cs, seen, val, hcs, hlen => by
    obtain ⟨d, hd⟩ := Option.isSome_iff_exists.1 (hcs c List.mem_cons_self)
    have hseen : seen ≠ 4 := by simp at hlen; omega
    obtain ⟨val', h⟩ := scan6_hex rest token cs (seen + 1) (val * 16 + d)
      (fun c hc => hcs c (List.mem_cons_of_mem _ hc)) (by simp at hlen ⊢; omega)
    refine ⟨val', ?_⟩
    have hstep : scan6 (c :: (cs ++ rest)) token ⟨done, gap, seen, val⟩ =
        scan6 (cs ++ rest) token ⟨done, gap, seen + 1, val * 16 + d⟩ := by
      simp [scan6, hd, hseen]
    rw [List.cons_append, hstep, h, List.length_cons, Nat.add_assoc, Nat.add_comm 1]

theorem scan6_dotted {w w' : ℕ} (hw : w < 65536) (hw' : w' < 65536) (hdone : done.length + 2 ≤ 8) :
    scan6 (dotted (octetsOf [w, w'])) (dotted (octetsOf [w, w'])) ⟨done, gap, 0, 0⟩ =
      Scan6.finish ⟨done ++ [w, w'], gap, 0, 0⟩ := by
  have hlt : ∀ o ∈ octetsOf [w, w'], o < 256 := by
    simp only [octetsOf, List.flatMap_cons, List.flatMap_nil, List.append_nil, List.cons_append,
      List.nil_append, List.mem_cons, List.not_mem_nil, or_false, forall_eq_or_imp, forall_eq]
    omega
  have hread : (pton4 (dotted (octetsOf [w, w']))).map Groups.list =
      some [w / 256, w % 256, w' / 256, w' % 256] :=
    congrArg (Option.map Groups.list) (pton4_ntop4 ⟨octetsOf [w, w'], rfl, hlt⟩)
  have hhex : ∀ c ∈ digits 10 3 (w / 256), (digitOf c).isSome := by
    intro c hc
    obtain ⟨d, hd, rfl⟩ := exists_of_mem_digits (by omega) hc
    rw [digitOf_digitChar (by omega)]
    rfl
  have hlen := length_digits_le 10 3 (w / 256)
  obtain ⟨val, hscan⟩ : ∃ val, scan6 (dotted (octetsOf [w, w'])) (dotted (octetsOf [w, w']))
      ⟨done, gap, 0, 0⟩ = scan6 ('.' :: dotted [w % 256, w' / 256, w' % 256])
        (dotted (octetsOf [w, w'])) ⟨done, gap, 0 + (digits 10 3 (w / 256)).length, val⟩ :=
    scan6_hex _ _ _ 0 0 hhex (by omega)
  have hdot : digitOf '.' = none := by decide
  rw [hscan, scan6, hdot, hread]
  simp [hdone, Scan6.finish, show w / 256 * 256 + w % 256 = w by omega,
    show w' / 256 * 256 + w' % 256 = w' by omega]

/-! ### The longest run -/

theorem zeros_le (words : List ℕ) : zeros words ≤ words.length :=
  (List.takeWhile_sublist _).length_le

theorem take_zeros (words : List ℕ) :
    words.take (zeros words) = List.replicate (zeros words) 0 := by
  have htake : words.takeWhile (· = 0) = words.take (zeros words) :=
    List.prefix_iff_eq_take.1 (List.takeWhile_prefix _)
  refine List.eq_replicate_iff.2 ⟨by simp [zeros_le], fun w hw => ?_⟩
  rw [← htake] at hw
  simpa using List.all_eq_true.1 List.all_takeWhile w hw

theorem longestRun_spec (words : List ℕ) (h : 0 < (longestRun words).2) :
    (longestRun words).2 = zeros (words.drop (longestRun words).1) := by
  have hfold : ∀ (is : List ℕ) (best : ℕ × ℕ),
      (0 < best.2 → best.2 = zeros (words.drop best.1)) →
      let found := is.foldl (fun best i =>
        if best.2 < zeros (words.drop i) then (i, zeros (words.drop i)) else best) best
      0 < found.2 → found.2 = zeros (words.drop found.1) := by
    intro is
    induction is with
    | nil => exact fun best hbest => hbest
    | cons i is ih =>
      intro best hbest
      rw [List.foldl_cons]
      refine ih _ ?_
      split_ifs
      · exact fun _ => rfl
      · exact hbest
  exact hfold _ (0, 0) (by simp) h

theorem eq_around_run {words : List ℕ} {start length : ℕ}
    (h : length = zeros (words.drop start)) :
    words.take start ++ List.replicate length 0 ++ words.drop (start + length) = words := by
  have hrun := take_zeros (words.drop start)
  rw [← h] at hrun
  rw [← hrun, List.append_assoc, ← List.drop_drop, List.take_append_drop, List.take_append_drop]

/-! ### The whole text -/

theorem finish_full {ws : List ℕ} (h : ws.length = 8) :
    Scan6.finish ⟨ws, none, 0, 0⟩ = some ws := by
  simp [Scan6.finish, h]

theorem finish_gap (pre post : List ℕ) {length : ℕ} (hlen : pre.length + length + post.length = 8)
    (hpos : 0 < length) : Scan6.finish ⟨pre ++ post, some pre.length, 0, 0⟩ =
      some (pre ++ List.replicate length 0 ++ post) := by
  have hne : (pre ++ post).length ≠ 8 := by simp; omega
  have hrep : 8 - (pre ++ post).length = length := by simp; omega
  simp only [Scan6.finish, lt_self_iff_false, false_and, if_false, hne, hrep]
  simp

theorem scan6_colons (rest token : List Char) :
    scan6 (':' :: rest) token ⟨[], none, 0, 0⟩ = scan6 rest rest ⟨[], some 0, 0, 0⟩ := by
  have hd : digitOf ':' = none := by decide
  simp [scan6, hd]

theorem head_coloned {ws : List ℕ} (hws : ws ≠ []) (rest : List Char) :
    ∃ c cs, coloned ws ++ rest = c :: cs ∧ c ≠ ':' := by
  obtain ⟨w, ws, rfl⟩ := List.exists_cons_of_ne_nil hws
  obtain ⟨c, cs, hc⟩ := List.exists_cons_of_ne_nil (digits_ne_nil (by omega) : digits 16 4 w ≠ [])
  obtain ⟨d, hd, rfl⟩ := exists_of_mem_digits (by omega) (hc ▸ List.mem_cons_self)
  refine ⟨digitChar d, ?_⟩
  cases ws with
  | nil => exact ⟨cs ++ rest, by simp [coloned, hc], (digitChar_ne hd).1⟩
  | cons w' ws =>
    exact ⟨cs ++ ':' :: coloned (w' :: ws) ++ rest, by simp [coloned, hc], (digitChar_ne hd).1⟩

theorem pton6_of_head {c : Char} (hc : c ≠ ':') (cs : List Char) :
    pton6 (c :: cs) = (scan6 (c :: cs) (c :: cs) {}).bind (Groups.of 8 65536) := by
  unfold pton6
  split <;> simp_all

theorem pton6_coloned (pre post : List ℕ) {length : ℕ} (hpre : ∀ w ∈ pre, w < 65536)
    (hpost : ∀ w ∈ post, w < 65536) (hlen : pre.length + length + post.length = 8)
    (hpos : 0 < length) : pton6 (coloned pre ++ ':' :: ':' :: coloned post) =
      Groups.of 8 65536 (pre ++ List.replicate length 0 ++ post) := by
  have hfinish := finish_gap pre post hlen hpos
  cases pre with
  | nil =>
    rw [coloned, List.nil_append, pton6, scan6_colons, scan6_coloned post [] _ hpost
      (by simp at hlen ⊢; omega)]
    exact congrArg (Option.bind · _) hfinish
  | cons w pre =>
    obtain ⟨c, cs, htext, hc⟩ := head_coloned (List.cons_ne_nil w pre) (':' :: ':' :: coloned post)
    rw [htext, pton6_of_head hc, ← htext, scan6_coloned_gap _ (w :: pre) [] _ (by simp) hpre
      (by simp at hlen ⊢; omega), List.nil_append, scan6_coloned post (w :: pre) _ hpost
      (by simp at hlen ⊢; omega), hfinish, Option.bind_some]

theorem pton6_dotted (pre : List ℕ) {w w' : ℕ} (length : ℕ) (hpre : ∀ x ∈ pre, x < 65536)
    (hw : w < 65536) (hw' : w' < 65536) (hlen : pre.length ≤ 1)
    (hlength : length + pre.length = 6) :
    pton6 (':' :: ':' :: (pre.flatMap (fun x => digits 16 4 x ++ [':']) ++
      dotted (octetsOf [w, w']))) =
        Groups.of 8 65536 (List.replicate length 0 ++ pre ++ [w, w']) := by
  have hscan : scan6 (pre.flatMap (fun x => digits 16 4 x ++ [':']) ++ dotted (octetsOf [w, w']))
      (pre.flatMap (fun x => digits 16 4 x ++ [':']) ++ dotted (octetsOf [w, w']))
      ⟨[], some 0, 0, 0⟩ = Scan6.finish ⟨pre ++ [w, w'], some 0, 0, 0⟩ := by
    obtain rfl | ⟨x, rfl⟩ : pre = [] ∨ ∃ x, pre = [x] := by
      match pre, hlen with
      | [], _ => exact Or.inl rfl
      | [x], _ => exact Or.inr ⟨x, rfl⟩
    · exact scan6_dotted hw hw' (by simp)
    · have hne : dotted (octetsOf [w, w']) ≠ [] := by simp [octetsOf, dotted]
      simp only [List.flatMap_cons, List.flatMap_nil, List.append_nil, List.append_assoc,
        List.singleton_append]
      rw [scan6_digits _ 4 x _ (by omega) (by simpa using hpre x (by simp)),
        scan6_colon (length_digits_pos (by omega)) (by simp) hne, scan6_dotted hw hw' (by simp)]
      rfl
  have hfinish : Scan6.finish ⟨pre ++ [w, w'], some 0, 0, 0⟩ =
      some (List.replicate length 0 ++ (pre ++ [w, w'])) :=
    finish_gap [] (pre ++ [w, w']) (by simp; omega) (by omega)
  rw [pton6, scan6_colons, hscan, hfinish, Option.bind_some, List.append_assoc]

theorem pton6_ntop6 (words : Groups 8 65536) : pton6 (ntop6 words) = some words := by
  obtain ⟨ws, hlen, hlt⟩ := words
  have hof : Groups.of 8 65536 ws = some ⟨ws, hlen, hlt⟩ := Groups.of_list ⟨ws, hlen, hlt⟩
  have hne : ws ≠ [] := by
    rintro rfl
    simp at hlen
  rw [← hof]
  unfold ntop6
  obtain ⟨start, length, hrun⟩ : ∃ start length, longestRun ws = (start, length) := ⟨_, _, rfl⟩
  simp only [hrun]
  by_cases hshort : length < 2
  · obtain ⟨c, cs, htext, hc⟩ := head_coloned hne []
    rw [List.append_nil] at htext
    rw [if_pos hshort, htext, pton6_of_head hc, ← htext,
      scan6_coloned ws [] _ hlt (by simp [hlen]), List.nil_append, finish_full hlen,
      Option.bind_some]
  have hzeros : length = zeros (ws.drop start) := by
    have := longestRun_spec ws (by rw [hrun]; omega)
    rwa [hrun] at this
  have haround := eq_around_run hzeros
  have hfit : start + length ≤ 8 := by
    have := zeros_le (ws.drop start)
    rw [List.length_drop, hlen, ← hzeros] at this
    omega
  obtain ⟨w, w', hdrop⟩ : ∃ w w', ws.drop 6 = [w, w'] := List.length_eq_two.1 (by simp [hlen])
  have hw : ∀ x ∈ [w, w'], x < 65536 := fun x hx => hlt x (List.mem_of_mem_drop (hdrop ▸ hx))
  rw [if_neg hshort, hdrop]
  split_ifs with hsix hfive
  · obtain ⟨rfl, rfl⟩ := hsix
    have hread := pton6_dotted [] 6 (by simp) (hw w (by simp))
      (hw w' (by simp)) (by simp) rfl
    simp only [Nat.zero_add, List.take_zero, List.nil_append, hdrop] at haround
    simpa [← haround] using hread
  · obtain ⟨rfl, rfl, hword⟩ := hfive
    have hread := pton6_dotted [0xffff] 5 (by simp) (hw w (by simp))
      (hw w' (by simp)) (by simp) rfl
    have hdrop5 : ws.drop 5 = [0xffff, w, w'] := by
      obtain ⟨h, hx⟩ := List.getElem?_eq_some_iff.1 hword
      rw [List.drop_eq_getElem_cons h, hx, hdrop]
    simp only [Nat.zero_add, List.take_zero, List.nil_append, hdrop5] at haround
    simpa [← haround] using hread
  · have hparts : (ws.take start).length + length + (ws.drop (start + length)).length = 8 := by
      rw [List.length_take, List.length_drop, hlen]
      omega
    have hread := pton6_coloned (ws.take start) (ws.drop (start + length))
      (fun x hx => hlt x (List.mem_of_mem_take hx)) (fun x hx => hlt x (List.mem_of_mem_drop hx))
      hparts (by omega)
    rwa [haround] at hread

end Reading

/-! ## The shape of the text -/

theorem mem_dotted : ∀ {os : List ℕ} {c : Char}, c ∈ dotted os → c = '.' ∨ ∃ d < 10, c = digitChar d
  | [o], _, h => Or.inr (exists_of_mem_digits (by omega) h)
  | o :: o' :: os, c, h => by
    rcases List.mem_append.1 h with h | h
    · exact Or.inr (exists_of_mem_digits (by omega) h)
    · rcases List.mem_cons.1 h with rfl | h
      · exact Or.inl rfl
      · exact mem_dotted h

theorem mem_coloned :
    ∀ {ws : List ℕ} {c : Char}, c ∈ coloned ws → c = ':' ∨ ∃ d < 16, c = digitChar d
  | [w], _, h => Or.inr (exists_of_mem_digits (by omega) h)
  | w :: w' :: ws, c, h => by
    rcases List.mem_append.1 h with h | h
    · exact Or.inr (exists_of_mem_digits (by omega) h)
    · rcases List.mem_cons.1 h with rfl | h
      · exact Or.inl rfl
      · exact mem_coloned h

theorem length_dotted_le : ∀ os : List ℕ, (dotted os).length ≤ 4 * os.length
  | [] => by simp [dotted]
  | [o] => by
    have := length_digits_le 10 3 o
    simp [dotted]
    omega
  | o :: o' :: os => by
    have := length_digits_le 10 3 o
    have := length_dotted_le (o' :: os)
    simp [dotted] at this ⊢
    omega

theorem length_coloned_le : ∀ ws : List ℕ, (coloned ws).length ≤ 5 * ws.length
  | [] => by simp [coloned]
  | [w] => by
    have := length_digits_le 16 4 w
    simp [coloned]
    omega
  | w :: w' :: ws => by
    have := length_digits_le 16 4 w
    have := length_coloned_le (w' :: ws)
    simp [coloned] at this ⊢
    omega

theorem ntop4_shape (octets : Groups 4 256) :
    ':' ∉ ntop4 octets ∧ '/' ∉ ntop4 octets ∧ (ntop4 octets).length ≤ 16 ∧ ntop4 octets ≠ [] := by
  have hlen := length_dotted_le octets.list
  rw [octets.length_eq] at hlen
  refine ⟨fun h => ?_, fun h => ?_, hlen, fun h => ?_⟩
  · rcases mem_dotted h with h | ⟨d, hd, h⟩
    · simp at h
    · exact (digitChar_ne (by omega : d < 16)).1 h.symm
  · rcases mem_dotted h with h | ⟨d, hd, h⟩
    · simp at h
    · exact (digitChar_ne (by omega : d < 16)).2.2 h.symm
  · have hread := pton4_ntop4 octets
    rw [h] at hread
    cases hread

theorem mem_ntop6 {words : Groups 8 65536} {c : Char} (h : c ∈ ntop6 words) :
    c = ':' ∨ c = '.' ∨ ∃ d < 16, c = digitChar d := by
  have hcoloned :
      ∀ {ws : List ℕ}, c ∈ coloned ws → c = ':' ∨ c = '.' ∨ ∃ d < 16, c = digitChar d := by
    intro ws h
    rcases mem_coloned h with h | h
    · exact Or.inl h
    · exact Or.inr (Or.inr h)
  have hdotted :
      ∀ {os : List ℕ}, c ∈ dotted os → c = ':' ∨ c = '.' ∨ ∃ d < 16, c = digitChar d := by
    intro os h
    rcases mem_dotted h with h | ⟨d, hd, h⟩
    · exact Or.inr (Or.inl h)
    · exact Or.inr (Or.inr ⟨d, by omega, h⟩)
  unfold ntop6 at h
  simp only at h
  split_ifs at h
  · exact hcoloned h
  · simp only [List.mem_cons] at h
    rcases h with h | h | h
    · exact Or.inl h
    · exact Or.inl h
    · exact hdotted h
  · simp only [List.mem_cons, List.mem_append] at h
    rcases h with h | h | h | h | h
    · exact Or.inl h
    · exact Or.inl h
    · exact Or.inr (Or.inr (exists_of_mem_digits (by omega) h))
    · exact Or.inl h
    · exact hdotted h
  · simp only [List.mem_cons, List.mem_append] at h
    rcases h with h | h | h | h
    · exact hcoloned h
    · exact Or.inl h
    · exact Or.inl h
    · exact hcoloned h

theorem colon_mem_ntop6 (words : Groups 8 65536) : ':' ∈ ntop6 words := by
  unfold ntop6
  simp only
  split_ifs
  · obtain ⟨w, w', ws, hws⟩ : ∃ w w' ws, words.list = w :: w' :: ws := by
      have hlen := words.length_eq
      match words.list, hlen with
      | w :: w' :: ws, _ => exact ⟨w, w', ws, rfl⟩
    simp [hws, coloned]
  all_goals simp

theorem length_ntop6_le (words : Groups 8 65536) : (ntop6 words).length ≤ 42 := by
  have hlen := words.length_eq
  have hdotted := length_dotted_le (octetsOf (words.list.drop 6))
  have hoctets : (octetsOf (words.list.drop 6)).length = 4 := by simp [octetsOf, hlen]
  rw [hoctets] at hdotted
  unfold ntop6
  simp only
  split_ifs with hshort
  · have := length_coloned_le words.list
    omega
  · simp only [List.length_cons]
    omega
  · have := length_digits_le 16 4 0xffff
    simp only [List.length_cons, List.length_append]
    omega
  · have h1 := length_coloned_le (words.list.take (longestRun words.list).1)
    have h2 := length_coloned_le
      (words.list.drop ((longestRun words.list).1 + (longestRun words.list).2))
    rw [List.length_take, hlen] at h1
    rw [List.length_drop, hlen] at h2
    simp only [List.length_cons, List.length_append]
    omega

theorem ntop6_shape (words : Groups 8 65536) :
    ':' ∈ ntop6 words ∧ '/' ∉ ntop6 words ∧ (ntop6 words).length < 46 := by
  refine ⟨colon_mem_ntop6 words, fun h => ?_, by have := length_ntop6_le words; omega⟩
  rcases mem_ntop6 h with h | h | ⟨d, hd, h⟩
  · simp at h
  · simp at h
  · exact (digitChar_ne hd).2.2 h.symm

/-! ## The characters of an address -/

theorem lt_of_decimalOf {c : Char} {d : ℕ} (h : decimalOf c = some d) : '-' < c := by
  unfold decimalOf at h
  split_ifs at h with hc
  exact UInt32.lt_of_lt_of_le (by decide : '-'.val < '0'.val) hc.1

theorem lt_of_digitOf {c : Char} {d : ℕ} (h : digitOf c = some d) : '-' < c := by
  unfold digitOf at h
  split_ifs at h with hdigit hlower hupper
  · exact UInt32.lt_of_lt_of_le (by decide : '-'.val < '0'.val) hdigit.1
  · exact UInt32.lt_of_lt_of_le (by decide : '-'.val < 'a'.val) hlower.1
  · exact UInt32.lt_of_lt_of_le (by decide : '-'.val < 'A'.val) hupper.1

theorem lt_of_scan4 : ∀ {text : List Char} {done : List ℕ} {current : Option ℕ} {octets : List ℕ},
    scan4 text done current = some octets → ∀ c ∈ text, '-' < c
  | [], _, _, _, _ => by simp
  | c :: cs, done, current, octets, h => by
    have hboth : '-' < c ∧ ∀ x ∈ cs, '-' < x := by
      rw [scan4.eq_def] at h
      dsimp only at h
      cases hc : decimalOf c with
      | some d =>
        refine ⟨lt_of_decimalOf hc, ?_⟩
        rw [hc] at h
        cases current with
        | none =>
          dsimp only at h
          split_ifs at h
          exact lt_of_scan4 h
        | some v =>
          dsimp only at h
          split_ifs at h
          exact lt_of_scan4 h
      | none =>
        rw [hc] at h
        cases current with
        | none => cases h
        | some v =>
          dsimp only at h
          split_ifs at h with hdot
          exact ⟨hdot ▸ (by decide : '-' < '.'), lt_of_scan4 h⟩
    exact List.forall_mem_cons.2 hboth

theorem lt_of_pton4 {text : List Char} {octets : Groups 4 256} (h : pton4 text = some octets) :
    ∀ c ∈ text, '-' < c := by
  obtain ⟨list, hlist, -⟩ := Option.bind_eq_some_iff.1 h
  exact lt_of_scan4 hlist

theorem lt_of_scan6 : ∀ {text token : List Char} {s : Scan6} {words : List ℕ},
    (∀ c ∈ text, c ∈ token) → scan6 text token s = some words → ∀ c ∈ text, '-' < c
  | [], _, _, _, _, _ => by simp
  | c :: cs, token, s, words, htoken, h => by
    have htail : ∀ x ∈ cs, x ∈ token := fun x hx => htoken x (List.mem_cons_of_mem c hx)
    have hboth : '-' < c ∧ ∀ x ∈ cs, '-' < x := by
      rw [scan6] at h
      cases hc : digitOf c with
      | some d =>
        rw [hc] at h
        dsimp only at h
        split_ifs at h
        exact ⟨lt_of_digitOf hc, lt_of_scan6 htail h⟩
      | none =>
        rw [hc] at h
        dsimp only at h
        by_cases hcolon : c = ':'
        · refine ⟨hcolon ▸ (by decide : '-' < ':'), ?_⟩
          rw [if_pos hcolon] at h
          split_ifs at h
          · exact lt_of_scan6 (fun x hx => hx) h
          · exact lt_of_scan6 (fun x hx => hx) h
        · rw [if_neg hcolon] at h
          split_ifs at h with hdot
          refine ⟨hdot.1 ▸ (by decide : '-' < '.'), fun x hx => ?_⟩
          cases htail4 : pton4 token with
          | none => simp [htail4] at h
          | some octets => exact lt_of_pton4 htail4 x (htail x hx)
    exact List.forall_mem_cons.2 hboth

theorem lt_of_pton6 {text : List Char} {words : Groups 8 65536} (h : pton6 text = some words) :
    ∀ c ∈ text, '-' < c := by
  obtain ⟨list, hlist, -⟩ := Option.bind_eq_some_iff.1 h
  split at hlist
  · cases hlist
  · have hrest := lt_of_scan6 (fun x hx => hx) hlist
    exact List.forall_mem_cons.2 ⟨by decide, hrest⟩
  · cases hlist
  · exact lt_of_scan6 (fun x hx => hx) hlist

end Inet
