import Netcfgd.Seen
import Netcfgd.SortedSet

/-!
# The stations read back

`ncfg_seen_parse_listing` and `ncfg_seen_read` of `src/host/seen.c`. The store is listed a page at
a time, each page `ok FROM SHOWN MORE` and its records. The stations of a page go into a sorted
array with room for `stationsMax` of them (`parseListing`) ; a cursor says where the next page
starts, and the array replaces the set of stations once the listing is over (`turn`, `read`).

A store is a list of records in pages (`Paging`). `parseListing_pageText` is what one page adds,
`turn_under` what one turn does while a store is listed, and `loop_under` what a call does. The
main result is `stations_of_store`.
-/

namespace Netcfgd.Seen

open Netcfgd.Json (ascii asciis asciis_eq_stored stored)
open Netcfgd.Pages (decimal)
open SortedSet (Sorted insertAll)

/-! ## One page -/

def isHex (c : UInt8) : Bool := CNumber.isDigit c || (ascii 'a' ≤ c && c ≤ ascii 'f')

/-- A byte at its place in the last part of a key, six pairs of lowercase hexadecimal digits with
dashes between them. -/
def keyPartHas (pos : ℕ) (c : UInt8) : Bool := if pos % 3 = 2 then c = ascii '-' else isHex c

/-- `mac_of_key_part`. -/
def macOfKeyPart (part : Bytes) : Option Bytes :=
  if part.length ≠ 17 then none
  else if part.zipIdx.all fun (c, pos) => keyPartHas pos c then
    some (part.mapIdx fun pos c => if pos % 3 = 2 then ascii ':' else c)
  else none

def stationOfKey (key : Bytes) : Option Bytes :=
  if key.length < 5 ∨ key.take 5 ≠ asciis "seen/" then none
  else
    let named := key.drop 5
    let part := named.rtakeWhile (· ≠ ascii '/')
    -- no slash but the first
    if part.length = named.length then none else macOfKeyPart part

/-- The key of `HOST,KEY,MS,VALUE`. -/
def keyOfItem (item : Bytes) : Option Bytes :=
  match item.dropWhile (· ≠ ascii ',') with
  | [] => none
  | _ :: rest =>
    if ascii ',' ∈ rest then some (rest.takeWhile (· ≠ ascii ',')) else none

def stationOfItem (item : Bytes) : Option Bytes := (keyOfItem item).bind stationOfKey

def items : Bytes → List Bytes
  | [] => []
  | c :: rest =>
    if c = ascii ' ' then
      rest.takeWhile (· ≠ ascii ' ') :: items (rest.dropWhile (· ≠ ascii ' '))
    else []
termination_by text => text.length
decreasing_by
  exact Nat.lt_succ_of_le (List.dropWhile_suffix _).length_le

/-- `%d`, as whether the number is other than zero. The C library reads a `long` and keeps 32 bits
of it. -/
def scanFlag (text : Bytes) : Option (Bool × Bytes) :=
  let signed := text.dropWhile CNumber.isSpace
  let sign := CNumber.signOf signed
  let rest := signed.drop sign.length
  let digits := rest.takeWhile CNumber.isDigit
  if digits = [] then none
  else
    let largest := if sign = [ascii '-'] then 2 ^ 63 else 2 ^ 63 - 1
    some (decide (min (CNumber.valueOf digits) largest % 2 ^ 32 ≠ 0),
      rest.dropWhile CNumber.isDigit)

/-- `sscanf("%lu %lu %d%n")` after `ok `, with neither a minus sign nor a count past a `long` : how
many records the page shows, whether there are more, and what is left. -/
def scanHeader (reply : Bytes) : Option (ℕ × Bool × Bytes) :=
  if reply.take 3 ≠ asciis "ok " then none
  else do
    let numbers := reply.drop 3
    let (_, rest) ← CNumber.strtoull numbers
    let (shown, rest) ← CNumber.strtoull rest
    let (more, rest) ← scanFlag rest
    if ascii '-' ∈ numbers.take (numbers.length - rest.length) ∨ 2 ^ 63 - 1 < shown then none
    else some (shown, more, rest)

/-- What was read of one page. -/
structure Listed where
  shown : ℕ
  more : Bool
  stations : List Bytes

/-- `ncfg_seen_parse_listing`, nothing where it gives -1. -/
def parseListing (reply : Bytes) (stations : List Bytes) (room : ℕ) : Option Listed :=
  (scanHeader reply).map fun (shown, more, rest) =>
    ⟨shown, more, insertAll compare room stations ((items rest).filterMap stationOfItem)⟩

/-! ## A listing -/

/-- What a reading notes. -/
inductive Note where
  | stopped (why : Bytes) (standing : ℕ)
  | again (standing : ℕ)

/-- What `ncfg_seen_t` holds of the stations read back. -/
structure Reader where
  known : List Bytes := []
  reading : List Bytes := []
  cursor : ℕ := 0
  listing : Bool := false
  nextListing : ℕ := 0
  saidUnread : Bool := false

/-- `listing_stopped` : the last whole set stands. -/
def Reader.stopped (r : Reader) (now : ℕ) (why : Bytes) : Reader × List Note :=
  ({ r with
      reading := [], listing := false, nextListing := now + retrySeconds, saidUnread := true },
    if r.saidUnread then [] else [.stopped why r.known.length])

def Reader.ended (r : Reader) (now : ℕ) : Reader × List Note :=
  ({ r with
      known := r.reading, reading := [], listing := false, nextListing := now + readSeconds,
      saidUnread := false },
    if r.saidUnread then [.again r.reading.length] else [])

/-- `list record FROM`. -/
def listLine (cursor : ℕ) : Bytes := asciis "list record " ++ decimal cursor ++ [ascii '\n']

/-- The room of `reply`. -/
def replyRoom : ℕ := 2048

/-- How a page, or a call, comes out. `idle` is a call with no listing due. -/
inductive Turn where
  | idle
  | stopped
  | ended
  | again
deriving DecidableEq

/-- One page of `ncfg_seen_read`. -/
def turn (face : Face) (now : ℕ) (r : Reader) : Turn × Reader × List Note :=
  if face.unserved then (.stopped, r.stopped now (asciis "no process serves the fuzznet store"))
  else
    match ask face (listLine r.cursor) replyRoom with
    | .failed _ why => (.stopped, r.stopped now why)
    | .reply text =>
      match parseListing text r.reading stationsMax with
      | none =>
        (.stopped, r.stopped now (asciis "fuzznetd answered \x60" ++ text.take 80 ++ asciis "\x60"))
      | some page =>
        let r := { r with reading := page.stations, cursor := (r.cursor + page.shown) % 2 ^ 64 }
        -- a page that lists nothing would be asked for ever
        if page.more = false ∨ page.shown = 0 then (.ended, r.ended now)
        else (.again, r, [])

/-- The pages of one call, `left` of them at most. -/
def loop (faces : ℕ → Face) (now : ℕ) : ℕ → ℕ → Reader → Turn × Reader × List Note
  | 0, _, r => (.again, r, [])
  | left + 1, page, r =>
    match turn (faces page) now r with
    | (.again, r, _) => loop faces now left (page + 1) r
    | last => last

def Reader.begun (r : Reader) : Reader := { r with reading := [], cursor := 0, listing := true }

/-- `ncfg_seen_read`, with the face each page of the call is asked of. -/
def read (faces : ℕ → Face) (now : ℕ) (r : Reader) : Turn × Reader × List Note :=
  if r.listing then loop faces now readPages 0 r
  else if now < r.nextListing then (.idle, r, [])
  else loop faces now readPages 0 r.begun

/-- One call of `ncfg_seen_read`. -/
structure Call where
  now : ℕ
  faces : ℕ → Face

/-- The reader after some calls. -/
def reads (r : Reader) (calls : List Call) : Reader :=
  calls.foldl (fun r call => (read call.faces call.now r).2.1) r

/-! ## The keys of stations -/

def MacHas (pos : ℕ) (c : UInt8) : Prop := if pos % 3 = 2 then c = ascii ':' else isHex c = true

/-- A hardware address, six pairs of lowercase hexadecimal digits with colons between them. -/
def IsMac (station : Bytes) : Prop :=
  station.length = 17 ∧ ∀ (pos : ℕ) (c : UInt8), station[pos]? = some c → MacHas pos c

def dashFor (c : UInt8) : UInt8 := if c = ascii ':' then ascii '-' else c

def dashed (station : Bytes) : Bytes := station.map dashFor

/-- A key is `seen/<interface>/<mac>`, of this hardware address. -/
def Names (key station : Bytes) : Prop :=
  IsMac station ∧ ∃ interface, key = asciis "seen/" ++ interface ++ [ascii '/'] ++ dashed station

theorem ne_of_isHex {c : UInt8} (h : isHex c = true) :
    c ≠ ascii ':' ∧ c ≠ ascii '-' ∧ c ≠ ascii '/' := by
  refine ⟨?_, ?_, ?_⟩ <;> rintro rfl <;> exact absurd h (by decide)

theorem keyPartHas_iff {pos : ℕ} {c d : UInt8} :
    (keyPartHas pos c = true ∧ (if pos % 3 = 2 then ascii ':' else c) = d) ↔
      MacHas pos d ∧ c = dashFor d := by
  unfold keyPartHas MacHas dashFor
  by_cases hpos : pos % 3 = 2
  · rw [if_pos hpos, if_pos hpos, if_pos hpos, decide_eq_true_iff]
    constructor
    · rintro ⟨rfl, rfl⟩
      exact ⟨rfl, (if_pos rfl).symm⟩
    · rintro ⟨rfl, rfl⟩
      exact ⟨if_pos rfl, rfl⟩
  · rw [if_neg hpos, if_neg hpos, if_neg hpos]
    constructor
    · rintro ⟨hhex, rfl⟩
      exact ⟨hhex, (if_neg (ne_of_isHex hhex).1).symm⟩
    · rintro ⟨hhex, rfl⟩
      rw [if_neg (ne_of_isHex hhex).1]
      exact ⟨hhex, rfl⟩

theorem macOfKeyPart_eq_some {part station : Bytes} :
    macOfKeyPart part = some station ↔ IsMac station ∧ part = dashed station := by
  constructor
  · intro h
    unfold macOfKeyPart at h
    split_ifs at h with hlength hall
    obtain rfl := Option.some.inj h
    have hmac : ∀ (pos : ℕ) (c : UInt8), part[pos]? = some c → ∀ d,
        (if pos % 3 = 2 then ascii ':' else c) = d → MacHas pos d ∧ c = dashFor d :=
      fun pos c hc d hd => keyPartHas_iff.1
        ⟨List.all_eq_true.1 hall (c, pos) (List.mk_mem_zipIdx_iff_getElem?.2 hc), hd⟩
    refine ⟨⟨by simpa using hlength, fun pos d hd => ?_⟩, List.ext_getElem? fun pos => ?_⟩
    · rw [List.getElem?_mapIdx, Option.map_eq_some_iff] at hd
      obtain ⟨c, hc, hd⟩ := hd
      exact (hmac pos c hc d hd).1
    · rw [dashed, List.getElem?_map, List.getElem?_mapIdx]
      cases hc : part[pos]? with
      | none => rfl
      | some c => exact congrArg some (hmac pos c hc _ rfl).2
  · rintro ⟨⟨hlength, hmac⟩, rfl⟩
    have hhas : ∀ (pos : ℕ) (d : UInt8), station[pos]? = some d →
        keyPartHas pos (dashFor d) = true ∧
          (if pos % 3 = 2 then ascii ':' else dashFor d) = d :=
      fun pos d hd => keyPartHas_iff.2 ⟨hmac pos d hd, rfl⟩
    have hall : (dashed station).zipIdx.all (fun (c, pos) => keyPartHas pos c) = true := by
      refine List.all_eq_true.2 fun ⟨c, pos⟩ hc => ?_
      have hc := List.mk_mem_zipIdx_iff_getElem?.1 hc
      rw [dashed, List.getElem?_map, Option.map_eq_some_iff] at hc
      obtain ⟨d, hd, rfl⟩ := hc
      exact (hhas pos d hd).1
    rw [macOfKeyPart, if_neg (by simp [dashed, hlength]), if_pos hall, Option.some.injEq]
    refine List.ext_getElem? fun pos => ?_
    rw [List.getElem?_mapIdx, dashed, List.getElem?_map]
    cases hd : station[pos]? with
    | none => rfl
    | some d => exact congrArg some (hhas pos d hd).2

theorem slash_not_mem_dashed {station : Bytes} (h : IsMac station) :
    ascii '/' ∉ dashed station := by
  intro hmem
  obtain ⟨d, hd, heq⟩ := List.mem_map.1 hmem
  obtain ⟨pos, hpos⟩ := List.mem_iff_getElem?.1 hd
  have hhas := (keyPartHas_iff.2 ⟨h.2 pos d hpos, rfl⟩).1
  rw [heq, keyPartHas] at hhas
  split_ifs at hhas with hplace
  · exact absurd (of_decide_eq_true hhas) (by decide)
  · exact absurd hhas (by decide)

theorem rtakeWhile_slash {named part : Bytes} (hpart : ascii '/' ∉ part) :
    (named.rtakeWhile (· ≠ ascii '/') = part ∧ part.length ≠ named.length) ↔
      ∃ interface, named = interface ++ [ascii '/'] ++ part := by
  constructor
  · rintro ⟨rfl, hlength⟩
    have hsplit := @List.rdropWhile_append_rtakeWhile _ (· ≠ ascii '/') named
    have hne : named.rdropWhile (· ≠ ascii '/') ≠ [] := by
      intro hnil
      rw [hnil, List.nil_append] at hsplit
      exact hlength (congrArg List.length hsplit)
    have hlast := List.rdropWhile_last_not (· ≠ ascii '/') named hne
    refine ⟨(named.rdropWhile (· ≠ ascii '/')).dropLast, ?_⟩
    have hslash : (named.rdropWhile (· ≠ ascii '/')).getLast hne = ascii '/' := by
      simpa using hlast
    have hends := List.dropLast_append_getLast hne
    rw [hslash] at hends
    rw [hends, hsplit]
  · rintro ⟨interface, rfl⟩
    refine ⟨?_, by rw [List.length_append, List.length_append, List.length_singleton]; omega⟩
    rw [List.rtakeWhile, List.reverse_append, List.takeWhile_append_of_pos, List.reverse_append]
    · simp
    · intro c hc
      simpa using fun heq : c = ascii '/' => hpart (heq ▸ List.mem_reverse.1 hc)

theorem stationOfKey_eq_some {key station : Bytes} :
    stationOfKey key = some station ↔ Names key station := by
  unfold stationOfKey
  constructor
  · intro h
    dsimp only at h
    split_ifs at h with hseen hslash
    obtain ⟨hmac, hpart⟩ := macOfKeyPart_eq_some.1 h
    rw [not_or, not_not] at hseen
    have hnot := slash_not_mem_dashed hmac
    obtain ⟨interface, hnamed⟩ := (rtakeWhile_slash hnot).1 ⟨hpart, hpart ▸ hslash⟩
    refine ⟨hmac, interface, ?_⟩
    rw [List.append_assoc, List.append_assoc, ← List.append_assoc interface, ← hnamed, ← hseen.2,
      List.take_append_drop]
  · rintro ⟨hmac, interface, rfl⟩
    have htake : (asciis "seen/" ++ interface ++ [ascii '/'] ++ dashed station).take 5 =
        asciis "seen/" := rfl
    have hdrop : (asciis "seen/" ++ interface ++ [ascii '/'] ++ dashed station).drop 5 =
        interface ++ [ascii '/'] ++ dashed station := rfl
    have hlength : ¬ (asciis "seen/" ++ interface ++ [ascii '/'] ++ dashed station).length < 5 := by
      rw [List.append_assoc, List.append_assoc, List.length_append]
      exact not_lt.2 (Nat.le_add_right 5 _)
    obtain ⟨hpart, hne⟩ := (rtakeWhile_slash (slash_not_mem_dashed hmac)).2 ⟨interface, rfl⟩
    rw [if_neg (not_or.2 ⟨hlength, not_not.2 htake⟩), hdrop]
    dsimp only
    rw [hpart, if_neg hne]
    exact macOfKeyPart_eq_some.2 ⟨hmac, rfl⟩

/-! ## Pages -/

/-- A text without commas and without the bytes up to a space, which the store escapes. -/
def Plain (text : Bytes) : Prop := ∀ c ∈ text, 32 < c.toNat ∧ c ≠ ascii ','

/-- A record of the store's listing. -/
structure Record where
  host : Bytes
  key : Bytes
  time : Bytes
  value : Bytes
  plain : Plain host ∧ Plain key ∧ Plain time ∧ Plain value

/-- `HOST,KEY,MS,VALUE`. -/
def Record.text (r : Record) : Bytes :=
  r.host ++ ascii ',' :: (r.key ++ ascii ',' :: (r.time ++ ascii ',' :: r.value))

/-- `ok FROM SHOWN MORE` and the records shown. -/
def pageText (start : ℕ) (page : List Record) (more : Bool) : Bytes :=
  asciis "ok " ++ (decimal start ++ (ascii ' ' :: (decimal page.length ++
    (ascii ' ' :: (asciis (if more then "1" else "0") ++
      page.flatMap fun r => ascii ' ' :: r.text)))))

/-- The stations of some records, in their order. -/
def stationsOf (records : List Record) : List Bytes :=
  records.filterMap fun r => stationOfKey r.key

theorem stationOfItem_text (r : Record) : stationOfItem r.text = stationOfKey r.key := by
  have hcomma : ∀ {text : Bytes}, Plain text → ∀ c ∈ text, decide (c ≠ ascii ',') = true :=
    fun h c hc => decide_eq_true (h c hc).2
  have hstop : ∀ {text : Bytes} (rest : Bytes), Plain text →
      (text ++ ascii ',' :: rest).takeWhile (· ≠ ascii ',') = text ∧
        (text ++ ascii ',' :: rest).dropWhile (· ≠ ascii ',') = ascii ',' :: rest := by
    intro text rest h
    rw [List.takeWhile_append_of_pos (hcomma h), List.dropWhile_append_of_pos (hcomma h)]
    exact ⟨by simp, by simp⟩
  rw [stationOfItem, keyOfItem, Record.text, (hstop _ r.plain.1).2]
  dsimp only
  rw [if_pos (by simp), (hstop _ r.plain.2.1).1, Option.bind_some]

theorem space_lt_text (r : Record) : ∀ c ∈ r.text, 32 < c.toNat := by
  obtain ⟨hhost, hkey, htime, hvalue⟩ := r.plain
  intro c hc
  simp only [Record.text, List.mem_append, List.mem_cons] at hc
  rcases hc with hc | rfl | hc | rfl | hc | rfl | hc
  · exact (hhost c hc).1
  · decide
  · exact (hkey c hc).1
  · decide
  · exact (htime c hc).1
  · decide
  · exact (hvalue c hc).1

theorem items_records (page : List Record) :
    items (page.flatMap fun r => ascii ' ' :: r.text) = page.map Record.text := by
  induction page with
  | nil => rw [List.flatMap_nil, items]; rfl
  | cons r page ih =>
    have hnot : ∀ c ∈ r.text, decide (c ≠ ascii ' ') = true :=
      fun c hc => decide_eq_true fun hspace =>
        absurd (space_lt_text r c hc) (hspace ▸ by decide)
    rw [List.flatMap_cons, List.cons_append, items, if_pos rfl,
      List.takeWhile_append_of_pos hnot, List.dropWhile_append_of_pos hnot, List.map_cons]
    cases page with
    | nil => simp [items]
    | cons next page =>
      rw [List.flatMap_cons, List.cons_append] at ih ⊢
      rw [List.takeWhile_cons_of_neg (by simp), List.dropWhile_cons_of_neg (by simp),
        List.append_nil, ih]

theorem stationsOf_items (page : List Record) :
    (items (page.flatMap fun r => ascii ' ' :: r.text)).filterMap stationOfItem =
      stationsOf page := by
  rw [items_records, List.filterMap_map]
  exact congrArg (List.filterMap · page) (funext stationOfItem_text)

theorem strtoull_decimal {n : ℕ} (hn : n < 2 ^ 64) (space : Bytes)
    (hspace : ∀ c ∈ space, CNumber.isSpace c = true) (c : UInt8) (rest : Bytes)
    (hc : CNumber.isDigit c = false) :
    CNumber.strtoull (space ++ (decimal n ++ c :: rest)) = some (n, c :: rest) := by
  have hdigits := EventLog.isDigit_decimal n
  obtain ⟨d, ds, hds⟩ : ∃ d ds, decimal n = d :: ds := by
    refine List.exists_cons_of_ne_nil ?_
    rw [← List.length_pos_iff, decimal, List.length_map]
    exact Pages.decimalDigits_length_pos n
  have hd : CNumber.isDigit d = true := hdigits d (by simp [hds])
  have hsigned : (space ++ (decimal n ++ c :: rest)).dropWhile CNumber.isSpace =
      decimal n ++ c :: rest := by
    rw [List.dropWhile_append_of_pos hspace, hds, List.cons_append,
      List.dropWhile_cons_of_neg (by simp [CNumber.not_isSpace_of_isDigit hd])]
  have hsign : CNumber.signOf (decimal n ++ c :: rest) = [] := by
    have hne := CNumber.not_sign_of_isDigit hd
    simp [CNumber.signOf, hds, hne.1, hne.2]
  have htake : (decimal n ++ c :: rest).takeWhile CNumber.isDigit = decimal n := by
    rw [List.takeWhile_append_of_pos hdigits, List.takeWhile_cons_of_neg (by simp [hc]),
      List.append_nil]
  have hdrop : (decimal n ++ c :: rest).dropWhile CNumber.isDigit = c :: rest := by
    rw [List.dropWhile_append_of_pos hdigits, List.dropWhile_cons_of_neg (by simp [hc])]
  simp only [CNumber.strtoull, hsigned, hsign, List.length_nil, List.drop_zero, htake, hdrop]
  rw [if_neg (by simp [hds]), CNumber.converted, EventLog.valueOf_decimal,
    if_neg (by omega), if_neg (by simp)]

theorem takeWhile_records (page : List Record) :
    (page.flatMap fun r => ascii ' ' :: r.text).takeWhile CNumber.isDigit = [] ∧
      (page.flatMap fun r => ascii ' ' :: r.text).dropWhile CNumber.isDigit =
        page.flatMap fun r => ascii ' ' :: r.text := by
  cases page with
  | nil => exact ⟨rfl, rfl⟩
  | cons r page =>
    rw [List.flatMap_cons, List.cons_append]
    exact ⟨List.takeWhile_cons_of_neg (by decide), List.dropWhile_cons_of_neg (by decide)⟩

theorem scanFlag_digit {c : UInt8} (hc : CNumber.isDigit c = true) {rest : Bytes}
    (htake : rest.takeWhile CNumber.isDigit = []) (hdrop : rest.dropWhile CNumber.isDigit = rest) :
    scanFlag (ascii ' ' :: c :: rest) =
      some (decide (min (CNumber.valueOf [c]) (2 ^ 63 - 1) % 2 ^ 32 ≠ 0), rest) := by
  have hspace : CNumber.isSpace c = false := CNumber.not_isSpace_of_isDigit hc
  have hsigned : (ascii ' ' :: c :: rest).dropWhile CNumber.isSpace = c :: rest := by
    rw [List.dropWhile_cons_of_pos (by decide), List.dropWhile_cons_of_neg (by simp [hspace])]
  have hsign : CNumber.signOf (c :: rest) = [] := by
    have hne := CNumber.not_sign_of_isDigit hc
    simp [CNumber.signOf, hne.1, hne.2]
  simp only [scanFlag, hsigned, hsign, List.length_nil, List.drop_zero,
    List.takeWhile_cons_of_pos hc, List.dropWhile_cons_of_pos hc, htake, hdrop]
  rfl

theorem scanFlag_records (page : List Record) (more : Bool) :
    scanFlag (ascii ' ' :: (asciis (if more then "1" else "0") ++
      page.flatMap fun r => ascii ' ' :: r.text)) =
      some (more, page.flatMap fun r => ascii ' ' :: r.text) := by
  obtain ⟨htake, hdrop⟩ := takeWhile_records page
  cases more with
  | false => exact @scanFlag_digit (ascii '0') rfl _ htake hdrop
  | true => exact @scanFlag_digit (ascii '1') rfl _ htake hdrop

theorem scanHeader_pageText {start : ℕ} (hstart : start < 2 ^ 64) {page : List Record}
    (hpage : page.length < 2 ^ 63) (more : Bool) :
    scanHeader (pageText start page more) =
      some (page.length, more, page.flatMap fun r => ascii ' ' :: r.text) := by
  have htake : (pageText start page more).take 3 = asciis "ok " := rfl
  have hdrop : (pageText start page more).drop 3 = decimal start ++ (ascii ' ' ::
      (decimal page.length ++ (ascii ' ' :: (asciis (if more then "1" else "0") ++
        page.flatMap fun r => ascii ' ' :: r.text)))) := rfl
  have hfirst := strtoull_decimal hstart [] nofun (ascii ' ') (decimal page.length ++ (ascii ' ' ::
    (asciis (if more then "1" else "0") ++ page.flatMap fun r => ascii ' ' :: r.text))) rfl
  have hsecond := strtoull_decimal (hpage.trans (by norm_num)) [ascii ' ']
    (fun c hc => List.mem_singleton.1 hc ▸ rfl) (ascii ' ')
    (asciis (if more then "1" else "0") ++ page.flatMap fun r => ascii ' ' :: r.text) rfl
  rw [List.nil_append] at hfirst
  rw [List.singleton_append] at hsecond
  rw [scanHeader, if_neg (not_not.2 htake), hdrop]
  simp only [Option.bind_eq_bind, hfirst, hsecond, Option.bind_some, scanFlag_records]
  generalize (page.flatMap fun r => ascii ' ' :: r.text) = rest
  refine if_neg (not_or.2 ⟨?_, not_lt.2 (Nat.le_sub_one_of_lt hpage)⟩)
  have hused : decimal start ++ (ascii ' ' :: (decimal page.length ++ (ascii ' ' ::
      (asciis (if more then "1" else "0") ++ rest)))) =
      (decimal start ++ (ascii ' ' :: (decimal page.length ++ (ascii ' ' ::
        asciis (if more then "1" else "0"))))) ++ rest := by simp
  rw [hused, List.length_append, Nat.add_sub_cancel, List.take_left]
  have hdecimal : ∀ n, ascii '-' ∉ decimal n := fun n hmem =>
    absurd (EventLog.isDigit_decimal n _ hmem) (by decide)
  have hflag : ascii '-' ∉ asciis (if more then "1" else "0") := by cases more <;> decide
  simp only [List.mem_append, List.mem_cons, hdecimal, hflag, or_false, false_or, not_or]
  exact ⟨by decide, by decide⟩

theorem parseListing_pageText {start : ℕ} (hstart : start < 2 ^ 64) {page : List Record}
    (hpage : page.length < 2 ^ 63) (more : Bool) (stations : List Bytes) (room : ℕ) :
    parseListing (pageText start page more) stations room =
      some ⟨page.length, more, insertAll compare room stations (stationsOf page)⟩ := by
  rw [parseListing, scanHeader_pageText hstart hpage more, ← stationsOf_items]
  rfl

/-! ## A store in pages -/

/-- Records in pages, each but the last with a record. A store's records are counted in a
`size_t`. -/
structure Paging where
  pages : List (List Record)
  ne : pages ≠ []
  held : ∀ page ∈ pages.dropLast, page ≠ []
  counted : pages.flatten.length < 2 ^ 64

/-- The whole store, page after page. -/
def Paging.store (p : Paging) : List Record := p.pages.flatten

/-- The page that starts at a record, and whether there are more after it. -/
def pageAt : List (List Record) → ℕ → Option (List Record × Bool)
  | [], _ => none
  | page :: rest, start =>
    if start = 0 then some (page, !rest.isEmpty)
    else if start < page.length then none
    else pageAt rest (start - page.length)

/-- A face lists a store in these pages, each within the room for a reply. -/
def Face.Serves (p : Paging) : Face → Prop
  | .inProcess serve => ∀ start page more, pageAt p.pages start = some (page, more) →
      serve (asciis "list record " ++ decimal start) = pageText start page more ++ [ascii '\n'] ∧
        (pageText start page more).length + 1 < replyRoom
  | .socket served fuzznetAsk => served = true ∧
      ∀ start page more, pageAt p.pages start = some (page, more) →
        fuzznetAsk (listLine start) replyRoom = .reply (pageText start page more) ∧
          (pageText start page more).length < replyRoom

theorem trimEnds_line {ends : UInt8 → Bool} {text : Bytes} {c : UInt8}
    (h : ∀ c ∈ text, ends c = false) (hc : ends c = true) : trimEnds ends (text ++ [c]) = text := by
  rw [trimEnds, List.rdropWhile_concat_pos _ _ _ hc, List.rdropWhile_eq_self_iff]
  intro hne
  simp [h _ (List.getLast_mem hne)]

theorem space_le_decimal (n : ℕ) : ∀ c ∈ decimal n, 32 ≤ c.toNat := by
  intro c hc
  have hdigit := EventLog.isDigit_decimal n c hc
  simp only [CNumber.isDigit, Bool.and_eq_true, decide_eq_true_eq, UInt8.le_iff_toNat_le] at hdigit
  exact le_trans (by decide) hdigit.1

theorem space_le_pageText (start : ℕ) (page : List Record) (more : Bool) :
    ∀ c ∈ pageText start page more, 32 ≤ c.toNat := by
  have hflag : ∀ c ∈ asciis (if more then "1" else "0"), 32 ≤ c.toNat := by
    cases more <;> exact fun c hc => List.mem_singleton.1 hc ▸ by decide
  have hspace : 32 ≤ (ascii ' ').toNat := by decide
  have hok : (asciis "ok ").all (32 ≤ ·.toNat) = true := by decide
  intro c hc
  simp only [pageText, List.mem_append, List.mem_cons, List.mem_flatMap] at hc
  rcases hc with hc | hc | rfl | hc | rfl | hc | ⟨r, -, rfl | hc⟩
  · exact of_decide_eq_true (List.all_eq_true.1 hok c hc)
  · exact space_le_decimal _ c hc
  · exact hspace
  · exact space_le_decimal _ c hc
  · exact hspace
  · exact hflag c hc
  · exact hspace
  · exact le_of_lt (space_lt_text r c hc)

theorem cString_eq {text : Bytes} (h : ∀ c ∈ text, 32 ≤ c.toNat) : cString text = text := by
  refine List.takeWhile_eq_self_iff.2 fun c hc => decide_eq_true ?_
  rintro rfl
  exact absurd (h 0 hc) (by decide)

theorem pageAt_append {before : List (List Record)} (hbefore : ∀ page ∈ before, page ≠ [])
    (page : List Record) (after : List (List Record)) :
    pageAt (before ++ page :: after) before.flatten.length = some (page, !after.isEmpty) := by
  induction before with
  | nil => rfl
  | cons first before ih =>
    have hfirst : 0 < first.length := List.length_pos_iff.2 (hbefore first (by simp))
    rw [List.cons_append, pageAt, List.flatten_cons, List.length_append, if_neg (by omega),
      if_neg (by omega), Nat.add_sub_cancel_left, ih fun page hpage =>
      hbefore page (by simp [hpage])]

theorem decimal_length_le {n : ℕ} (h : n < 2 ^ 64) : (decimal n).length ≤ 20 := by
  have hlargest : (Nat.digits 10 (2 ^ 64)).length = 20 := by norm_num
  rw [decimal, List.length_map]
  refine (Pages.decimalDigits_length_mono h.le).trans (le_of_eq ?_)
  rw [Json.decimalDigits, if_neg (by norm_num), List.length_reverse, hlargest]

theorem length_le_pageText (start : ℕ) (page : List Record) (more : Bool) :
    page.length ≤ (pageText start page more).length := by
  have hrecords : page.length ≤ (page.flatMap fun r => ascii ' ' :: r.text).length := by
    induction page with
    | nil => exact le_rfl
    | cons r page ih =>
      rw [List.flatMap_cons, List.length_append, List.length_cons, List.length_cons]
      omega
  simp only [pageText, List.length_append, List.length_cons]
  omega

theorem ask_serves {p : Paging} {face : Face} (h : face.Serves p) {start : ℕ}
    (hstart : start < 2 ^ 64) {page : List Record} {more : Bool}
    (hpage : pageAt p.pages start = some (page, more)) :
    face.unserved = false ∧ ask face (listLine start) replyRoom =
      .reply (pageText start page more) ∧ page.length < 2 ^ 63 := by
  have hspace := space_le_pageText start page more
  have hshown := length_le_pageText start page more
  have hroom : replyRoom < 2 ^ 63 := by norm_num [replyRoom]
  cases face with
  | socket served fuzznetAsk =>
    obtain ⟨rfl, hserves⟩ := h
    obtain ⟨hasked, hlength⟩ := hserves start page more hpage
    refine ⟨rfl, ?_, by omega⟩
    simp only [ask, hasked, cString_eq hspace]
  | inProcess serve =>
    obtain ⟨hserve, hlength⟩ := h start page more hpage
    have hends : ∀ c ∈ asciis "list record " ++ decimal start, decide (c = ascii '\n') = false := by
      have hwords : (asciis "list record ").all (32 ≤ ·.toNat) = true := by decide
      intro c hc
      refine decide_eq_false fun hnewline => ?_
      have hle : 32 ≤ c.toNat := (List.mem_append.1 hc).elim
        (fun hc => of_decide_eq_true (List.all_eq_true.1 hwords c hc))
        (space_le_decimal start c)
      exact absurd hle (hnewline ▸ by decide)
    have hline : trimEnds (· = ascii '\n') (listLine start) =
        asciis "list record " ++ decimal start := trimEnds_line hends rfl
    have hshort : ¬ bareRoom ≤ (listLine start).length := by
      have hdecimal := decimal_length_le hstart
      rw [listLine, List.length_append, List.length_append, not_le, bareRoom]
      have hwords : (asciis "list record ").length = 12 := rfl
      simp only [hwords, List.length_singleton]
      omega
    have htrim : trimEnds (fun c => c = ascii '\n' || c = ascii '\r')
        (pageText start page more ++ [ascii '\n']) = pageText start page more := by
      refine trimEnds_line (fun c hc => ?_) rfl
      have hle := hspace c hc
      simp only [Bool.or_eq_false_iff, decide_eq_false_iff_not]
      exact ⟨fun h => absurd hle (h ▸ by decide), fun h => absurd hle (h ▸ by decide)⟩
    refine ⟨rfl, ?_, by omega⟩
    rw [ask, if_neg hshort]
    dsimp only
    rw [hline, hserve, htrim, cString_eq hspace, List.length_append, List.length_singleton,
      if_neg (by omega)]

/-! ## A store is listed -/

/-- The stations of a store, in order and each once. -/
def Paging.stations (p : Paging) : List Bytes :=
  insertAll compare stationsMax [] (stationsOf p.store)

theorem stationsOf_append (a b : List Record) :
    stationsOf (a ++ b) = stationsOf a ++ stationsOf b := List.filterMap_append

/-- The listing is under way, with these pages read and those left. -/
structure Under (p : Paging) (before after : List (List Record)) (r : Reader) : Prop where
  pages : p.pages = before ++ after
  rest : after ≠ []
  listing : r.listing = true
  cursor : r.cursor = before.flatten.length
  reading : r.reading = insertAll compare stationsMax [] (stationsOf before.flatten)

/-- The listing is over, and what is known is what the store has. -/
structure Over (p : Paging) (r : Reader) : Prop where
  listing : r.listing = false
  known : r.known = p.stations

variable {p : Paging} {face : Face} {now : ℕ} {before after : List (List Record)} {r : Reader}

theorem Under.counted (h : Under p before after r) : before.flatten.length < 2 ^ 64 := by
  refine lt_of_le_of_lt ?_ p.counted
  rw [h.pages, List.flatten_append, List.length_append]
  exact Nat.le_add_right _ _

theorem Under.held (h : Under p before after r) : ∀ page ∈ before, page ≠ [] := fun page hpage =>
  p.held page (by
    rw [h.pages, List.dropLast_append_of_ne_nil h.rest]
    exact List.mem_append_left _ hpage)

theorem turn_under {page : List Record} (hface : face.Serves p)
    (h : Under p before (page :: after) r) :
    (after ≠ [] → (turn face now r).1 = .again ∧
      Under p (before ++ [page]) after (turn face now r).2.1 ∧
      (turn face now r).2.1.known = r.known) ∧
    (after = [] → (turn face now r).1 = .ended ∧ Over p (turn face now r).2.1) := by
  have hat : pageAt p.pages r.cursor = some (page, !after.isEmpty) := by
    rw [h.cursor, h.pages]
    exact pageAt_append h.held page after
  have hcounted : r.cursor < 2 ^ 64 := h.cursor ▸ h.counted
  obtain ⟨hserved, hask, hshown⟩ := ask_serves hface hcounted hat
  have hpages : p.pages = (before ++ [page]) ++ after := by rw [h.pages, List.append_assoc]; rfl
  have hreading : insertAll compare stationsMax r.reading (stationsOf page) =
      insertAll compare stationsMax [] (stationsOf (before ++ [page]).flatten) := by
    rw [h.reading, ← SortedSet.insertAll_append, ← stationsOf_append, List.flatten_append,
      List.flatten_singleton]
  have hcursor : (r.cursor + page.length) = (before ++ [page]).flatten.length := by
    rw [h.cursor, List.flatten_append, List.flatten_singleton, List.length_append]
  have hturn : turn face now r =
      if (!after.isEmpty) = false ∨ page.length = 0 then
        (.ended, Reader.ended { r with
          reading := insertAll compare stationsMax r.reading (stationsOf page)
          cursor := (r.cursor + page.length) % 2 ^ 64 } now)
      else (.again, { r with
          reading := insertAll compare stationsMax r.reading (stationsOf page)
          cursor := (r.cursor + page.length) % 2 ^ 64 }, []) := by
    simp only [turn, hserved, Bool.false_eq_true, if_false, hask,
      parseListing_pageText hcounted hshown]
  constructor
  · intro hafter
    have hpage : page ≠ [] := p.held page (by
      rw [hpages, List.dropLast_append_of_ne_nil hafter]
      simp)
    have hmod : (r.cursor + page.length) % 2 ^ 64 = r.cursor + page.length := by
      refine Nat.mod_eq_of_lt (hcursor ▸ lt_of_le_of_lt ?_ p.counted)
      rw [hpages, @List.flatten_append _ (before ++ [page]), List.length_append]
      exact Nat.le_add_right _ _
    rw [hturn, if_neg (by simp [hafter, hpage])]
    exact ⟨rfl, ⟨hpages, hafter, h.listing, hmod.trans hcursor, hreading⟩, rfl⟩
  · rintro rfl
    rw [hturn, if_pos (Or.inl (by simp))]
    refine ⟨rfl, rfl, ?_⟩
    rw [Paging.stations, Paging.store, hpages, List.append_nil]
    exact hreading

theorem loop_under {faces : ℕ → Face} (hfaces : ∀ n, (faces n).Serves p) :
    ∀ (left n : ℕ) (before after : List (List Record)) (r : Reader), Under p before after r →
      (left < after.length → (loop faces now left n r).1 = .again ∧
        Under p (before ++ after.take left) (after.drop left) (loop faces now left n r).2.1 ∧
        (loop faces now left n r).2.1.known = r.known) ∧
      (after.length ≤ left → (loop faces now left n r).1 = .ended ∧
        Over p (loop faces now left n r).2.1) := by
  intro left
  induction left with
  | zero =>
    intro n before after r h
    refine ⟨fun _ => ⟨rfl, by rwa [List.take_zero, List.append_nil, loop], rfl⟩, fun hlength => ?_⟩
    exact absurd (List.length_eq_zero_iff.1 (Nat.le_zero.1 hlength)) h.rest
  | succ left ih =>
    intro n before after r h
    obtain ⟨page, after, rfl⟩ := List.exists_cons_of_ne_nil h.rest
    obtain ⟨hgoes, hends⟩ := @turn_under p (faces n) now _ _ r _ (hfaces n) h
    rcases hturn : turn (faces n) now r with ⟨t, r', notes⟩
    rw [hturn] at hgoes hends
    by_cases hafter : after = []
    · subst hafter
      obtain ⟨rfl, hover⟩ := hends rfl
      have hloop : loop faces now (left + 1) n r = (.ended, r', notes) := by
        rw [loop, hturn]
      rw [hloop]
      exact ⟨fun hlt => absurd hlt (by simp), fun _ => ⟨rfl, hover⟩⟩
    · obtain ⟨rfl, hunder, hknown⟩ := hgoes hafter
      have hloop : loop faces now (left + 1) n r = loop faces now left (n + 1) r' := by
        rw [loop, hturn]
      obtain ⟨hmore, hover⟩ := ih (n + 1) (before ++ [page]) after r' hunder
      rw [hloop, List.take_succ_cons, List.drop_succ_cons, List.length_cons]
      refine ⟨fun hlt => ?_, fun hle => hover (Nat.le_of_succ_le_succ hle)⟩
      obtain ⟨hagain, hafter', hsame⟩ := hmore (Nat.lt_of_succ_lt_succ hlt)
      refine ⟨hagain, ?_, hsame.trans hknown⟩
      rwa [List.append_assoc, List.singleton_append] at hafter'

/-- Where the reader is : at work on a listing, or done with one. -/
inductive Phase (p : Paging) (r : Reader) : Prop where
  | under (before after : List (List Record)) (h : Under p before after r)
      (known : r.known = p.stations)
  | idle (h : Over p r)

/-- A reader that begins is at the first page. -/
theorem Reader.under_begun (p : Paging) (r : Reader) : Under p [] p.pages r.begun :=
  ⟨rfl, p.ne, rfl, rfl, rfl⟩

theorem Phase.read {faces : ℕ → Face} (hfaces : ∀ n, (faces n).Serves p) (h : Phase p r) :
    Phase p (Seen.read faces now r).2.1 := by
  have hloop : ∀ (before after : List (List Record)) (r : Reader), Under p before after r →
      r.known = p.stations → Phase p (loop faces now readPages 0 r).2.1 := by
    intro before after r hunder hknown
    obtain ⟨hgoes, hends⟩ := @loop_under p now faces hfaces readPages 0 before after r hunder
    rcases Nat.lt_or_ge readPages after.length with hlt | hle
    · obtain ⟨-, hunder', hsame⟩ := hgoes hlt
      exact .under _ _ hunder' (hsame.trans hknown)
    · exact .idle (hends hle).2
  cases h with
  | under before after hunder hknown =>
    rw [Seen.read, if_pos hunder.listing]
    exact hloop before after r hunder hknown
  | idle hover =>
    rw [Seen.read, if_neg (by rw [hover.listing]; simp)]
    split_ifs
    · exact .idle hover
    · exact hloop [] p.pages _ (r.under_begun p) hover.known

/-- After a phase the known stations are those of the store. -/
theorem Phase.known (h : Phase p r) : r.known = p.stations := by
  cases h with
  | under _ _ _ hknown => exact hknown
  | idle hover => exact hover.known

/-- Every call of a run is served of one store. -/
def Lists (p : Paging) (calls : List Call) : Prop := ∀ call ∈ calls, ∀ n, (call.faces n).Serves p

theorem Phase.reads {calls : List Call} (hcalls : Lists p calls) (h : Phase p r) :
    Phase p (Seen.reads r calls) := by
  induction calls generalizing r with
  | nil => exact h
  | cons call calls ih =>
    exact ih (fun c hc => hcalls c (by simp [hc])) (h.read (hcalls call (by simp)))

/-- The run lemma : calls read on, and from enough pages on they know the store. -/
theorem reads_under : ∀ (calls : List Call) (before after : List (List Record)) (r : Reader),
    Lists p calls → Under p before after r →
      (calls.length * readPages < after.length →
        (∃ before' after', Under p before' after' (reads r calls)) ∧
          (reads r calls).known = r.known) ∧
      (after.length ≤ calls.length * readPages → Phase p (reads r calls)) := by
  intro calls
  induction calls with
  | nil =>
    intro before after r _ h
    refine ⟨fun _ => ⟨⟨before, after, h⟩, rfl⟩, fun hle => ?_⟩
    rw [List.length_nil, Nat.zero_mul] at hle
    exact absurd (List.length_eq_zero_iff.1 (Nat.le_zero.1 hle)) h.rest
  | cons call calls ih =>
    intro before after r hcalls h
    have hrest : Lists p calls := fun c hc => hcalls c (by simp [hc])
    have hread : read call.faces call.now r = loop call.faces call.now readPages 0 r := by
      rw [read, if_pos h.listing]
    have hreads : reads r (call :: calls) =
        reads (loop call.faces call.now readPages 0 r).2.1 calls := by
      rw [← hread]
      rfl
    obtain ⟨hgoes, hends⟩ := @loop_under p call.now _ (hcalls call (by simp)) readPages 0
      before after r h
    rw [hreads, List.length_cons, Nat.succ_mul]
    rcases Nat.lt_or_ge readPages after.length with hlt | hle
    · obtain ⟨-, hunder, hsame⟩ := hgoes hlt
      obtain ⟨hmore, hover⟩ := ih _ _ _ hrest hunder
      rw [List.length_drop] at hmore hover
      refine ⟨fun h => ?_, fun h => hover (by omega)⟩
      obtain ⟨hexists, hknown⟩ := hmore (by omega)
      exact ⟨hexists, hknown.trans hsame⟩
    · refine ⟨fun h => absurd h (by omega), fun _ => ?_⟩
      exact Phase.reads hrest (.idle (hends hle).2)

/-! ## Whatever is answered -/

/-- The stations are in order, without repeats and within their bound, those known and those that
are being read. -/
structure Reader.Sound (r : Reader) : Prop where
  known : Sorted compare r.known ∧ r.known.length ≤ stationsMax
  reading : Sorted compare r.reading ∧ r.reading.length ≤ stationsMax

/-- A page keeps the stations in order. -/
theorem sorted_parseListing {reply : Bytes} {stations : List Bytes} {room : ℕ} {page : Listed}
    (h : parseListing reply stations room = some page) (hsorted : Sorted compare stations)
    (hroom : stations.length ≤ room) :
    Sorted compare page.stations ∧ page.stations.length ≤ room := by
  obtain ⟨⟨shown, more, rest⟩, -, rfl⟩ := Option.map_eq_some_iff.1 h
  exact ⟨SortedSet.sorted_insertAll _ hsorted, SortedSet.length_insertAll_le _ hroom⟩

theorem sound_nothing : Sorted compare ([] : List Bytes) ∧ ([] : List Bytes).length ≤ stationsMax :=
  ⟨List.Pairwise.nil, Nat.zero_le _⟩

/-- The face does not answer as a listing. -/
def Refuses (face : Face) (r : Reader) : Prop :=
  face.unserved = true ∨
    (∃ silent why, ask face (listLine r.cursor) replyRoom = .failed silent why) ∨
      ∃ text, ask face (listLine r.cursor) replyRoom = .reply text ∧ scanHeader text = none

/-- What a turn or a call keeps. The known stations change where a listing ends, and one that stops
is over. -/
structure Keeps (r : Reader) (out : Turn × Reader × List Note) : Prop where
  sound : r.Sound → out.2.1.Sound
  known : out.1 ≠ .ended → out.2.1.known = r.known
  stopped : out.1 = .stopped → out.2.1.listing = false

theorem turn_keeps (face : Face) (now : ℕ) (r : Reader) : Keeps r (turn face now r) := by
  have hstopped : ∀ why, Keeps r (.stopped, r.stopped now why) := fun why =>
    ⟨fun h => ⟨h.known, sound_nothing⟩, fun _ => rfl, fun _ => rfl⟩
  unfold turn
  split_ifs
  · exact hstopped _
  · split
    · exact hstopped _
    · split
      · exact hstopped _
      · rename_i page hpage
        have hsound : r.Sound → _ := fun h => sorted_parseListing hpage h.reading.1 h.reading.2
        dsimp only
        split_ifs
        · exact ⟨fun h => ⟨hsound h, sound_nothing⟩, fun hne => absurd rfl hne, nofun⟩
        · exact ⟨fun h => ⟨h.known, hsound h⟩, fun _ => rfl, nofun⟩

/-- A turn stops exactly where the face refuses. -/
theorem turn_stopped (face : Face) (now : ℕ) (r : Reader) :
    (turn face now r).1 = .stopped ↔ Refuses face r := by
  unfold turn Refuses
  split_ifs with hserved
  · exact ⟨fun _ => Or.inl hserved, fun _ => rfl⟩
  · cases hask : ask face (listLine r.cursor) replyRoom with
    | failed silent why => exact ⟨fun _ => Or.inr (Or.inl ⟨silent, why, rfl⟩), fun _ => rfl⟩
    | reply text =>
      cases hheader : scanHeader text with
      | none =>
        simp only [parseListing, hheader, Option.map_none, true_iff]
        exact Or.inr (Or.inr ⟨text, rfl, hheader⟩)
      | some header =>
        simp only [parseListing, hheader, Option.map_some]
        split_ifs <;> simp [hserved, hheader]

theorem loop_keeps (faces : ℕ → Face) (now : ℕ) :
    ∀ (left n : ℕ) (r : Reader), Keeps r (loop faces now left n r) := by
  intro left
  induction left with
  | zero => exact fun n r => ⟨id, fun _ => rfl, nofun⟩
  | succ left ih =>
    intro n r
    have hturn := turn_keeps (faces n) now r
    rcases hout : turn (faces n) now r with ⟨t, r', notes⟩
    rw [hout] at hturn
    rw [loop, hout]
    cases t with
    | idle => exact hturn
    | stopped => exact hturn
    | ended => exact hturn
    | again =>
      have hrest := ih (n + 1) r'
      exact ⟨fun h => hrest.sound (hturn.sound h),
        fun hne => (hrest.known hne).trans (hturn.known nofun), hrest.stopped⟩

/-- A call keeps what is known until a phase ends. -/
theorem read_keeps (faces : ℕ → Face) (now : ℕ) (r : Reader) : Keeps r (read faces now r) := by
  unfold read
  split_ifs
  · exact loop_keeps faces now _ _ r
  · exact ⟨id, fun _ => rfl, nofun⟩
  · have h := loop_keeps faces now readPages 0 r.begun
    exact ⟨fun hr => h.sound ⟨hr.known, sound_nothing⟩, h.known, h.stopped⟩

/-- Every call keeps the reader sound. -/
theorem reads_sound {r : Reader} (h : r.Sound) (calls : List Call) : (reads r calls).Sound := by
  induction calls generalizing r with
  | nil => exact h
  | cons call calls ih => exact ih ((read_keeps call.faces call.now r).sound h)

/-! ## The stations are the store's -/

/-- The stations are those some record names, where there is room. -/
theorem mem_stations (hroom : (stationsOf p.store).toFinset.card ≤ stationsMax) (station : Bytes) :
    station ∈ p.stations ↔ ∃ record ∈ p.store, Names record.key station := by
  rw [Paging.stations, SortedSet.mem_insertAll _ List.Pairwise.nil (by simpa using hroom)]
  simp only [stationsOf, List.mem_filterMap, stationOfKey_eq_some, List.not_mem_nil, false_or]

/-- A listing from an idle reader, once one is due. It goes on for as many calls as its pages need,
with the known stations left as they were ; from then on they are those the keys of the store name.
A listing that stops leaves them as they were, and whatever is answered they are in order and
within their bound. -/
theorem stations_of_store :
    (∀ (p : Paging), (stationsOf p.store).toFinset.card ≤ stationsMax →
      ∀ (r : Reader) (call : Call) (calls : List Call), r.listing = false →
        r.nextListing ≤ call.now → Lists p (call :: calls) →
        ((calls.length + 1) * readPages < p.pages.length →
          (reads r (call :: calls)).listing = true ∧
            (reads r (call :: calls)).known = r.known) ∧
        (p.pages.length ≤ (calls.length + 1) * readPages →
          Sorted compare (reads r (call :: calls)).known ∧
            ∀ station, station ∈ (reads r (call :: calls)).known ↔
              ∃ record ∈ p.store, Names record.key station)) ∧
    (∀ (faces : ℕ → Face) (now : ℕ) (r : Reader),
      ((read faces now r).1 ≠ .ended → (read faces now r).2.1.known = r.known) ∧
        ((read faces now r).1 = .stopped → (read faces now r).2.1.listing = false)) ∧
    (∀ (face : Face) (now : ℕ) (r : Reader),
      (turn face now r).1 = .stopped ↔ Refuses face r) ∧
    (∀ (reply : Bytes) (stations : List Bytes) (room : ℕ) (page : Listed),
      Sorted compare stations → stations.length ≤ room →
        parseListing reply stations room = some page →
          Sorted compare page.stations ∧ page.stations.length ≤ room) ∧
    ∀ calls : List Call, (reads {} calls).Sound := by
  refine ⟨fun p hroom r call calls hidle hdue hcalls => ?_, fun faces now r => ?_,
    turn_stopped, fun reply stations room page hsorted hlength hpage =>
      sorted_parseListing hpage hsorted hlength, reads_sound ⟨sound_nothing, sound_nothing⟩⟩
  · -- a call that begins a listing is one of a listing begun
    have hbegun : reads r (call :: calls) = reads r.begun (call :: calls) := by
      have hread : read call.faces call.now r = read call.faces call.now r.begun := by
        have hlisting : r.begun.listing = true := rfl
        rw [read, read, if_neg (by simp [hidle]), if_neg (not_lt.2 hdue), if_pos hlisting]
      rw [reads, reads, List.foldl_cons, List.foldl_cons, hread]
    obtain ⟨hgoes, hends⟩ := reads_under (call :: calls) [] p.pages r.begun hcalls
      (r.under_begun p)
    rw [hbegun]
    refine ⟨fun hlt => ?_, fun hle => ?_⟩
    · obtain ⟨⟨before, after, hunder⟩, hknown⟩ := hgoes hlt
      exact ⟨hunder.listing, hknown⟩
    · rw [(hends hle).known]
      exact ⟨SortedSet.sorted_insertAll _ List.Pairwise.nil, mem_stations hroom⟩
  · exact ⟨(read_keeps faces now r).known, (read_keeps faces now r).stopped⟩

/-! ### A store of two pages -/

theorem plain_asciis {text : String}
    (h : (stored text).all (fun c => 32 < c && c != 44 && c < 0x80) = true) :
    Plain (asciis text) := by
  have hall := List.all_eq_true.1 h
  rw [asciis_eq_stored (List.all_eq_true.2 fun c hc => (Bool.and_eq_true_iff.1 (hall c hc)).2)]
  intro c hc
  have hc' := hall c hc
  simp only [Bool.and_eq_true, decide_eq_true_eq, bne_iff_ne] at hc'
  exact hc'.1

def kept (key value : String) (h : Plain (asciis key) ∧ Plain (asciis value)) : Record :=
  ⟨asciis "hub", asciis key, asciis "12", asciis value,
    ⟨plain_asciis rfl, h.1, plain_asciis rfl, h.2⟩⟩

/-- Two stations of an access point, and a record of something else between them. -/
def twoPages : Paging where
  pages :=
    [[kept "seen/wlan0/aa-bb-cc-dd-ee-02" "station" ⟨plain_asciis rfl, plain_asciis rfl⟩,
      kept "net/status" "up" ⟨plain_asciis rfl, plain_asciis rfl⟩],
     [kept "seen/wlan0/aa-bb-cc-dd-ee-01" "station" ⟨plain_asciis rfl, plain_asciis rfl⟩]]
  ne := by simp
  held := by simp
  counted := by decide

def lister : Face := .inProcess fun line =>
  if line = asciis "list record 0" then
    pageText 0 (twoPages.pages.headD []) true ++ [ascii '\n']
  else pageText 2 (twoPages.pages.getLastD []) false ++ [ascii '\n']

theorem lister_serves : lister.Serves twoPages := by
  intro start page more hpage
  rcases start with _ | _ | _ | start
  · obtain ⟨rfl, rfl⟩ := Prod.mk.inj (Option.some.inj hpage)
    exact ⟨by decide +kernel, by decide +kernel⟩
  · cases hpage
  · obtain ⟨rfl, rfl⟩ := Prod.mk.inj (Option.some.inj hpage)
    exact ⟨by decide +kernel, by decide +kernel⟩
  · cases hpage

theorem two_pages_listed :
    (reads {} [⟨7, fun _ => lister⟩]).known =
        [asciis "aa:bb:cc:dd:ee:01", asciis "aa:bb:cc:dd:ee:02"] ∧
      ∀ station, station ∈ (reads {} [⟨7, fun _ => lister⟩]).known ↔
        ∃ record ∈ twoPages.store, Names record.key station := by
  refine ⟨by decide +kernel, ((stations_of_store.1 twoPages (by decide +kernel) {}
    ⟨7, fun _ => lister⟩ [] rfl (by decide) fun call hcall n => ?_).2 (by decide)).2⟩
  obtain rfl := List.mem_singleton.1 hcall
  exact lister_serves

end Netcfgd.Seen
