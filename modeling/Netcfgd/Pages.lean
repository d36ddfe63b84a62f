import Netcfgd.JsonRoundTrip

/-!
# An answer in pages

`page_of` of `src/main/daemon_ask.c` and of `src/main/daemon_node.c`, and the client's side of it,
`ncfg_status_page_read` and `ncfg_status_pages_join` of `client/ncfg_fuzznet.c`. A page says how
long the whole answer is, where in it the page starts, how much of it follows and the digest of
the whole; the client asks for one page after the other and puts them together.

The peer a page comes from is not trusted, so the join is stated for every peer : a peer has a
state of its own and answers an offset with bytes, or with nothing. A page that was read carries
that it lies inside the answer it is of (`Page`), and what one page adds is said once
(`takePage_more`).
-/

namespace Netcfgd.Pages

open Netcfgd.Json (ascii asciis decimalDigits hexDigit isDigit)

abbrev Bytes := List UInt8

/-- `NCFG_STATUS_PAGE_TOTAL_MAX`. -/
def totalMax : ℕ := 64 * 1024 * 1024

/-- `PAGE_CAP` : what a page is read into. -/
def pageCap : ℕ := 8192

/-- `ncfg_status_page_digest`. -/
def digest (bytes : Bytes) : UInt64 :=
  bytes.foldl (fun hash b => (hash ^^^ b.toUInt64) * 0x100000001b3) 0xcbf29ce484222325

/-! ## Cutting a page -/

def escapes (c : UInt8) : Bool := c ≤ 0x20 || c = ascii '%' || c = ascii ',' || c = 0x7f

/-- `escaped_length`. -/
def escapedLength (bytes : Bytes) : ℕ := (bytes.map fun c => if escapes c then 3 else 1).sum

/-- A number as `%zu` writes it. -/
def decimal (n : ℕ) : Bytes := (decimalDigits n).map fun d => UInt8.ofNat (48 + d)

/-- The last `places` hexadecimal digits of a number, as `%016llx` writes sixteen of them. -/
def hex : ℕ → ℕ → Bytes
  | 0, _ => []
  | places + 1, n => hex places (n / 16) ++ [hexDigit (n % 16)]

/-- `ok TOTAL FROM COUNT DIGEST`. -/
def header (total start count : ℕ) (d : UInt64) : Bytes :=
  asciis "ok " ++ decimal total ++ [ascii ' '] ++ decimal start ++ [ascii ' '] ++ decimal count ++
    [ascii ' '] ++ hex 16 d.toNat ++ [ascii '\n']

def fitting : ℕ → Bytes → ℕ
  | _, [] => 0
  | room, c :: rest =>
    let one := if escapes c then 3 else 1
    if room < one then 0 else fitting (room - one) rest + 1

/-- How much of the answer goes on a page with a header no longer than this. -/
def countAt (whole longest : Bytes) (start cap escapedCap : ℕ) : ℕ :=
  let most := min (whole.length - start) (cap - longest.length)
  if escapedCap = 0 then most
  else fitting (escapedCap - escapedLength longest) ((whole.drop start).take most)

/-- `page_of` : a page from `start`, at most `cap` bytes long and, where `escapedCap` is not 0, at
most that long once escaped. Nothing where the header at its longest does not fit. -/
def pageOf (whole : Bytes) (d : UInt64) (start cap escapedCap : ℕ) : Option Bytes :=
  let start := min start whole.length
  let longest := header whole.length start whole.length d
  if cap ≤ longest.length ∨ (escapedCap ≠ 0 ∧ escapedCap ≤ escapedLength longest) then none
  else
    let count := countAt whole longest start cap escapedCap
    some (header whole.length start count d ++ (whole.drop start).take count)

/-- `page_of` of `daemon_ask.c`, over an answer kept with its digest. -/
def askPage (whole : Bytes) (start cap escapedCap : ℕ) : Option Bytes :=
  pageOf whole (digest whole) start cap escapedCap

/-- `page_of` of `daemon_node.c`, which takes the digest of the status it is given. -/
def nodePage (status : Bytes) (start cap escapedCap : ℕ) : Option Bytes :=
  pageOf status (digest status) start cap escapedCap

/-! ## Reading a page -/

/-- What reaches the client of a page : nothing of one its buffer does not hold. -/
def handed (page : Option Bytes) : Option Bytes := page.filter fun p => p.length ≤ pageCap

/-- `ncfg_status_page_t` : a page that was read lies inside the answer it is of. -/
structure Page where
  total : ℕ
  start : ℕ
  digest : UInt64
  bytes : Bytes
  inside : start + bytes.length ≤ total

/-- The digits a number starts with : its value, how many there are and what is left. Nothing for
a number past any answer that would be gathered. -/
def digitsAt : Bytes → ℕ → ℕ → Option (ℕ × ℕ × Bytes)
  | [], value, seen => some (value, seen, [])
  | c :: rest, value, seen =>
    if isDigit c then
      let digit := c.toNat - 48
      if (totalMax - digit) / 10 < value then none
      else digitsAt rest (value * 10 + digit) (seen + 1)
    else some (value, seen, c :: rest)

/-- `number` : digits, then a space. -/
def number (page : Bytes) : Option (ℕ × Bytes) :=
  match digitsAt page 0 0 with
  | none => none
  | some (value, seen, rest) =>
    if seen = 0 ∨ 10 < seen then none
    else match rest with
      | [] => none
      | c :: rest => if c = ascii ' ' then some (value, rest) else none

def lowerHex (c : UInt8) : Option ℕ :=
  if isDigit c then some (c.toNat - 48)
  else if 97 ≤ c ∧ c ≤ 102 then some (c.toNat - 97 + 10)
  else none

def hexAt : ℕ → ℕ → Bytes → Option (ℕ × Bytes)
  | 0, value, rest => some (value, rest)
  | _ + 1, _, [] => none
  | places + 1, value, c :: rest =>
    match lowerHex c with
    | none => none
    | some digit => hexAt places (value * 16 + digit) rest

/-- `ncfg_status_page_read`. -/
def pageRead (page : Bytes) : Option Page := do
  if page.take 3 ≠ asciis "ok " then none
  else
    let (total, rest) ← number (page.drop 3)
    let (start, rest) ← number rest
    let (count, rest) ← number rest
    let (d, rest) ← hexAt 16 0 rest
    match rest with
    | [] => none
    | c :: bytes =>
      if c ≠ ascii '\n' then none
      else if h : start + bytes.length ≤ total ∧ bytes.length = count then
        some ⟨total, start, UInt64.ofNat d, bytes, h.1⟩
      else none

/-! ## Joining the pages -/

/-- How a reading of all the pages ends. -/
inductive Outcome
  | joined (bytes : Bytes)
  | unanswered
  | notAPage
  /-- Another offset than the one asked came back, or nothing new. -/
  | noProgress (came asked : ℕ)
  /-- The bytes joined are not what their digest names. -/
  | otherDigest
  /-- The answer moved faster than it could be read whole. -/
  | moved
  /-- A page was written outside of what was allocated for the answer. -/
  | overrun
  deriving DecidableEq

/-- What a page does to what was gathered before it. -/
inductive Took
  | moved
  | refused (why : Outcome)
  | more (got : Bytes)

def takePage (first one : Page) (got : Bytes) : Took :=
  if one.digest ≠ first.digest ∨ one.total ≠ first.total then .moved
  else if one.start ≠ got.length ∨ (one.bytes.length = 0 ∧ got.length < one.total) then
    .refused (.noProgress one.start got.length)
  else if first.total < got.length + one.bytes.length then .refused .overrun
  else .more (got ++ one.bytes)

theorem takePage_more {first one : Page} {got more : Bytes}
    (h : takePage first one got = .more more) :
    more = got ++ one.bytes ∧ more.length ≤ first.total ∧
      (got.length < first.total → got.length < more.length) := by
  unfold takePage at h
  split_ifs at h with hmoved hnext hover
  cases h
  push Not at hmoved hnext hover
  rw [List.length_append]
  refine ⟨rfl, hover, fun hless => ?_⟩
  have hsome : ¬one.bytes.length = 0 := fun hnone => by
    have := hnext.2 hnone
    omega
  omega

inductive Gathered
  | whole (first : Page) (got : Bytes)
  | moved
  | ended (why : Outcome)

section Join

variable {σ : Type*} (ask : σ → ℕ → Option Bytes × σ)

def askPageAt (s : σ) (start : ℕ) : Except Outcome Page × σ :=
  match ask s start with
  | (none, s) => (.error .unanswered, s)
  | (some page, s) =>
    match pageRead page with
    | none => (.error .notAPage, s)
    | some one => (.ok one, s)

/-- The pages after the first. Each adds a byte, so as many rounds as bytes are left will do. -/
def gather (first : Page) : ℕ → Bytes → σ → Gathered × σ
  | 0, got, s => (.whole first got, s)
  | left + 1, got, s =>
    if first.total ≤ got.length then (.whole first got, s)
    else match askPageAt ask s got.length with
      | (.error why, s) => (.ended why, s)
      | (.ok one, s) =>
        match takePage first one got with
        | .moved => (.moved, s)
        | .refused why => (.ended why, s)
        | .more more => gather first left more s

def attempt (s : σ) : Gathered × σ :=
  match askPageAt ask s 0 with
  | (.error why, s) => (.ended why, s)
  | (.ok first, s) =>
    match takePage first first [] with
    | .moved => (.moved, s)
    | .refused why => (.ended why, s)
    | .more got => gather ask first first.total got s

/-- Whole readings, as often as the answer changes under them. -/
def attempts : ℕ → σ → Outcome × σ
  | 0, s => (.moved, s)
  | n + 1, s =>
    match attempt ask s with
    | (.moved, s) => attempts n s
    | (.ended why, s) => (why, s)
    | (.whole first got, s) =>
      if digest got = first.digest then (.joined got, s) else (.otherDigest, s)

/-- `ncfg_status_pages_join`. -/
def pagesJoin (s : σ) : Outcome × σ := attempts ask 4 s

/-! A relation every question keeps, the whole join keeps. -/

variable {ask} {R : σ → σ → Prop}

theorem askPageAt_snd (s : σ) (start : ℕ) : (askPageAt ask s start).2 = (ask s start).2 := by
  unfold askPageAt
  cases ask s start with
  | mk reply s' =>
    cases reply with
    | none => rfl
    | some page =>
      dsimp only
      cases pageRead page <;> rfl

theorem gather_rel (hrefl : ∀ s, R s s) (htrans : ∀ {s t u}, R s t → R t u → R s u)
    {first : Page} : ∀ (left : ℕ) {got : Bytes} (s : σ),
    (∀ s start, got.length ≤ start → start < first.total → R s (ask s start).2) →
    R s (gather ask first left got s).2
  | 0, got, s, _ => hrefl s
  | left + 1, got, s, hstep => by
    rw [gather]
    split_ifs with hdone
    · exact hrefl s
    · have hone := hstep s got.length le_rfl (by omega)
      rw [← askPageAt_snd] at hone
      cases hask : askPageAt ask s got.length with
      | mk answer s' =>
        rw [hask] at hone
        cases answer with
        | error why => exact hone
        | ok one =>
          dsimp only
          cases htook : takePage first one got with
          | moved => exact hone
          | refused why => exact hone
          | more more =>
            obtain ⟨-, -, hgrows⟩ := takePage_more htook
            have hgrown := hgrows (by omega)
            exact htrans hone (gather_rel hrefl htrans left s'
              fun s start hle hlt => hstep s start (by omega) hlt)

theorem attempt_rel (hrefl : ∀ s, R s s) (htrans : ∀ {s t u}, R s t → R t u → R s u)
    (hstep : ∀ s start, R s (ask s start).2) (s : σ) : R s (attempt ask s).2 := by
  have hone := hstep s 0
  rw [← askPageAt_snd] at hone
  unfold attempt
  cases hask : askPageAt ask s 0 with
  | mk answer s' =>
    rw [hask] at hone
    cases answer with
    | error why => exact hone
    | ok first =>
      dsimp only
      cases takePage first first [] with
      | moved => exact hone
      | refused why => exact hone
      | more got =>
        exact htrans hone (gather_rel hrefl htrans _ s' fun s start _ _ => hstep s start)

theorem attempts_rel (hrefl : ∀ s, R s s) (htrans : ∀ {s t u}, R s t → R t u → R s u)
    (hstep : ∀ s start, R s (ask s start).2) : ∀ (n : ℕ) (s : σ), R s (attempts ask n s).2
  | 0, s => hrefl s
  | n + 1, s => by
    have hone := attempt_rel hrefl htrans hstep s
    rw [attempts]
    cases hattempt : attempt ask s with
    | mk gathered s' =>
      rw [hattempt] at hone
      cases gathered with
      | moved => exact htrans hone (attempts_rel hrefl htrans hstep n s')
      | ended why => exact hone
      | whole first got =>
        dsimp only
        split_ifs <;> exact hone

theorem pagesJoin_rel (hrefl : ∀ s, R s s) (htrans : ∀ {s t u}, R s t → R t u → R s u)
    (hstep : ∀ s start, R s (ask s start).2) (s : σ) : R s (pagesJoin ask s).2 :=
  attempts_rel hrefl htrans hstep 4 s

end Join

end Netcfgd.Pages
