import Netcfgd.CNumber
import Netcfgd.Framing
import Netcfgd.PagesJoin
import Netcfgd.Request

/-!
# The event log and a reader of it

`ncfg_main_subscribers_tell` and `ncfg_main_subscribers_since` of `src/main/daemon_world.c`, and the
client's side of them, `events_read`, `ncfg_fuzznet_events_heard` and `ncfg_fuzznet_events_take` of
`client/ncfg_fuzznet.c`. The daemon keeps the last events in a ring and counts them; a client that
hears of one asks for those since its cursor, in pages, and gives them out a line at a time.

A notification that is heard while lines are waiting is dropped, and an answer longer than a
protocol line is refused, however short its events. In every run in which no notification is dropped
with events behind it and every answer fits, the client gives out each event once (`events_once`).
-/

namespace Netcfgd.EventLog

open Json Proto
open Framing (newline maxLine)
open Pages (pagesJoin clocked handed nodePage Room pageCap totalMax)

/-! ## The ring -/

/-- `NCFG_MAIN_EVENTS_KEPT`. -/
def eventsKept : ℕ := 64

/-- `ncfg_main_subscribers_t`, for what is kept of the events. -/
structure Log where
  kept : ℕ → Option Bytes := fun _ => none
  told : ℕ := 0

/-- What an event says on its line : `none` is one that cannot be written, or not as one line. -/
def message (e : Proto.Event) : Option Bytes :=
  match eventEncode maxLine true e with
  | .error _ => none
  | .ok text => if newline ∈ text ∨ maxLine < text.length + 1 then none else some text

/-- `ncfg_main_subscribers_tell`, for the log. A line is copied up to its NUL. -/
def Log.tell (log : Log) (e : Proto.Event) : Log where
  kept := match message e with
    | none => log.kept
    | some text => Function.update log.kept (log.told % eventsKept)
        (some ((text ++ [newline]).takeWhile (· ≠ 0)))
  told := log.told + (message e).elim 0 fun _ => 1

def Log.first (log : Log) (cursor : ℤ) : ℕ :=
  let pos := if cursor < 0 ∨ log.told < cursor then log.told else cursor.toNat
  if eventsKept < log.told - pos then log.told - eventsKept else pos

/-- `ncfg_main_subscribers_since`, into the line `ncfg_main_node_events` gives it : `none` where the
events would not fit. -/
def Log.since (log : Log) (cursor : ℤ) : Option Bytes :=
  let first := log.first cursor
  let out := ({ bytes := [], limit := maxLine } : Buf).add (Pages.decimal log.told ++ [newline])
  let out := (List.range' first (log.told - first)).foldl
    (fun out n => match log.kept (n % eventsKept) with
      | some line => out.add line
      | none => out) out
  if out.failed then none else some out.bytes

/-! ## The reader -/

/-- How long the pages of an answer are, on the way through fuzznet. -/
structure Wire where
  cap : ℕ
  escapedCap : ℕ
  cap_le : cap ≤ pageCap
  room : ∀ text : Bytes, text.length ≤ maxLine → Room text cap escapedCap

/-- `ncfg_fuzznet_events_t`. -/
structure Client where
  cursor : ℤ := -1
  pending : Bytes := []
  pos : ℕ := 0

/-- `strtol(text, &end, 10)`, where there are digits. -/
def strtol (text : Bytes) : Option (ℤ × Bytes) :=
  let signed := text.dropWhile CNumber.isSpace
  let sign := CNumber.signOf signed
  let rest := signed.drop sign.length
  let digits := rest.takeWhile CNumber.isDigit
  if digits = [] then none
  else some (if sign = [45] then max (-2 ^ 63) (-CNumber.valueOf digits)
    else min (2 ^ 63 - 1) (CNumber.valueOf digits), rest.dropWhile CNumber.isDigit)

/-- What `events_read` makes of an answer. -/
def Client.took (text : Bytes) : Option Client :=
  match strtol text with
  | some (next, c :: rest) =>
    if c ≠ newline ∨ next < 0 then none
    else some { cursor := next, pending := text, pos := text.length - rest.length }
  | _ => none

/-- `events_read`, with a cursor to read from. -/
def Client.read (wire : Wire) (log : Log) (c : Client) : Option Client :=
  (log.since c.cursor).bind fun text =>
    match (pagesJoin (clocked fun _ start =>
      handed (nodePage text start wire.cap wire.escapedCap)) 0).1 with
    | .joined text => Client.took text
    | _ => none

/-- `ncfg_fuzznet_events_begin`, whose one page is the line that says where the log is. -/
def Client.begin (log : Log) : Client :=
  ((log.since (-1)).bind Client.took).getD {}

def kinds : List (String × String × String) :=
  [("net-observed", "observed", "the machine changed: its status has what"),
    ("net-reloaded", "reloaded", "the configuration was read again: its status has how"),
    ("net-drift", "drift", "the machine drifted from its configuration"),
    ("net-armed", "confirm_armed", "a confirm window opened"),
    ("net-resolved", "confirm_resolved", "a confirm window closed")]

/-- `event_json`. -/
def eventJson (line : Bytes) : Option Bytes :=
  if ¬(asciis "event ").isPrefixOf line then none
  else
    let named := line.drop 6
    (kinds.find? fun (subject, _, _) => (asciis subject).isPrefixOf named &&
      (((named.drop (asciis subject).length).headD 0 = ascii ' ') ||
        ((named.drop (asciis subject).length).headD 0 = 0))).map
      fun (_, event, summary) => asciis "\x7b\"event\":\"" ++ asciis event ++
        asciis "\",\"summary\":\"" ++ asciis summary ++ asciis "\"\x7d"

/-- `ncfg_fuzznet_events_heard`. -/
def Client.heard (wire : Wire) (log : Log) (c : Client) (line : Bytes) : Client :=
  if c.pos < c.pending.length then c
  else match if 0 ≤ c.cursor then c.read wire log else none with
    | some c => c
    | none =>
      match eventJson line with
      | some json => { c with pending := json ++ [newline], pos := 0 }
      | none => c

/-- `ncfg_fuzznet_events_take`. -/
def Client.take (c : Client) : Option (Bytes × Client) :=
  if c.pending.length ≤ c.pos then none
  else
    let line := (c.pending.drop c.pos).takeWhile (· ≠ newline)
    some (line, { c with pos := c.pos + (line.length + 1) })

/-! ## A run -/

/-- One step of the daemon, of fuzznet or of the client. -/
inductive Action
  | tell (e : Proto.Event)
  | heard (line : Bytes)
  | take
  deriving DecidableEq

/-- The log and one client of it, with what has happened so far : every message told in the daemon's
life, how many of them before the client began and before it heard last, the lines the client took,
whether a read failed, and whether no read was `eventsKept` or more behind. -/
structure World where
  log : Log
  client : Client
  all : List Bytes
  start : ℕ
  announced : ℕ
  taken : List Bytes := []
  failed : Bool := false
  near : Bool := true

/-- A world whose client has just begun. -/
def World.begin (before : List Proto.Event) : World where
  log := before.foldl Log.tell {}
  client := Client.begin (before.foldl Log.tell {})
  all := before.filterMap message
  start := (before.filterMap message).length
  announced := (before.filterMap message).length

def World.reads (w : World) : Bool := w.client.pending.length ≤ w.client.pos

def World.step (wire : Wire) (w : World) : Action → World
  | .tell e => { w with log := w.log.tell e, all := w.all ++ (message e).toList }
  | .heard line =>
    { w with
      client := w.client.heard wire w.log line
      announced := w.log.told
      failed := w.failed || (w.reads && (w.client.read wire w.log).isNone)
      near := w.near && (!w.reads || decide (w.log.told < w.client.cursor + eventsKept)) }
  | .take =>
    match w.client.take with
    | none => w
    | some (line, client) => { w with client, taken := w.taken ++ [line] }

/-- A run of the world. -/
def World.run (wire : Wire) (w : World) (actions : List Action) : World :=
  actions.foldl (World.step wire) w

def Client.Waits (c : Client) (lines : List Bytes) : Prop :=
  c.pending.drop c.pos = (lines.map (· ++ [newline])).flatten ∧ ∀ line ∈ lines, newline ∉ line

/-- Each event once : what was taken and what waits are the events told since the client began, as
far as it has read; none of them is missing once all have been announced and nothing waits; a reader
further behind than the ring goes back reads what the ring holds; and no read has failed. -/
structure Once (wire : Wire) (w : World) : Prop where
  each : ∃ waiting, w.client.Waits waiting ∧
    (w.near = true → w.taken ++ waiting =
      (w.all.drop w.start).take (w.client.cursor.toNat - w.start) ∧ w.start ≤ w.client.cursor)
  complete : w.near = true → w.announced = w.all.length → w.client.Waits [] →
    w.taken = w.all.drop w.start
  recent : ∀ c, w.client.read wire w.log = some c → w.client.cursor + eventsKept ≤ w.all.length →
    c.Waits (w.all.drop (w.all.length - eventsKept))
  answered : w.failed = false

def World.answerLength (w : World) : ℕ :=
  (Pages.decimal w.all.length).length + 1 +
    ((w.all.drop (max w.client.cursor.toNat (w.all.length - eventsKept))).map
      fun text => text.length + 1).sum

/-- A notification is only dropped when nothing was told since the client read, and an answer that
is asked for is no longer than a line. -/
def World.Careful (w : World) : Action → Prop
  | .heard _ => w.all.length < 2 ^ 63 ∧
      if w.reads then w.answerLength ≤ maxLine else w.client.cursor = w.all.length
  | _ => True

instance (w : World) (a : Action) : Decidable (w.Careful a) := by
  unfold World.Careful
  split <;> infer_instance

/-- Every action of a run is a careful one. -/
def World.AllCareful (wire : Wire) : World → List Action → Prop
  | _, [] => True
  | w, a :: rest => w.Careful a ∧ (w.step wire a).AllCareful wire rest

instance decAllCareful (wire : Wire) : ∀ (w : World) (actions : List Action),
    Decidable (w.AllCareful wire actions)
  | _, [] => isTrue trivial
  | w, a :: rest =>
    have := decAllCareful wire (w.step wire a) rest
    inferInstanceAs (Decidable (w.Careful a ∧ (w.step wire a).AllCareful wire rest))

/-- The ring holds the last of the messages told. -/
structure Log.Holds (log : Log) (all : List Bytes) : Prop where
  told : log.told = all.length
  kept : ∀ n text, all[n]? = some text → all.length ≤ n + eventsKept →
    log.kept (n % eventsKept) = some (text ++ [newline])

/-! ## Messages -/

theorem message_spec {e : Proto.Event} {text : Bytes} (h : message e = some text) :
    newline ∉ text ∧ (∀ c ∈ text, c ≠ 0) ∧ text.length + 1 ≤ maxLine := by
  unfold message at h
  split at h
  · cases h
  · next text' hencode =>
    split_ifs at h with hlong
    cases h
    push Not at hlong
    refine ⟨hlong.1, ?_, hlong.2⟩
    unfold eventEncode at hencode
    dsimp only at hencode
    split_ifs at hencode with hdone
    cases hencode
    obtain ⟨hfits, hbytes⟩ := Writer.text_of_script hdone
    rw [hbytes]
    exact render_ne_zero blank_compact _ hfits 0

theorem ended_ne_zero {text : Bytes} (h : ∀ c ∈ text, c ≠ 0) :
    (text ++ [newline]).takeWhile (· ≠ 0) = text ++ [newline] := by
  rw [List.takeWhile_eq_self_iff]
  intro c hc
  rw [List.mem_append, List.mem_singleton] at hc
  obtain hc | rfl := hc
  · simpa using h c hc
  · decide

/-! ## What the ring holds -/

theorem mod_ne {K m n : ℕ} (hlt : m < n) (hnear : n < m + K) : m % K ≠ n % K := by
  intro h
  have hdvd : K ∣ n - m := (Nat.modEq_iff_dvd' hlt.le).mp h
  have := Nat.le_of_dvd (by omega) hdvd
  omega

theorem Log.Holds.tell {log : Log} {all : List Bytes} (h : log.Holds all) (e : Proto.Event) :
    (log.tell e).Holds (all ++ (message e).toList) := by
  cases hmessage : message e with
  | none =>
    have hsame : log.tell e = log := by simp [Log.tell, hmessage]
    simpa [hsame] using h
  | some text =>
    have hzero := ended_ne_zero (message_spec hmessage).2.1
    refine ⟨by simp [Log.tell, hmessage, h.told], ?_⟩
    intro n other hn hnear
    rw [Option.toList_some, List.length_append, List.length_singleton] at hnear
    simp only [Log.tell, hmessage, hzero]
    obtain hlt | hge := Nat.lt_or_ge n all.length
    · rw [Option.toList_some, List.getElem?_append_left hlt] at hn
      rw [Function.update_of_ne (by rw [h.told]; exact mod_ne hlt (by omega))]
      exact h.kept n other hn (by omega)
    · rw [Option.toList_some, List.getElem?_append_right hge, List.getElem?_singleton] at hn
      split_ifs at hn with heq
      cases hn
      rw [show n = log.told by rw [h.told]; omega, Function.update_self]

theorem Log.holds_empty : ({} : Log).Holds [] := ⟨rfl, by simp⟩

theorem Log.holds_foldl : ∀ (events : List Proto.Event) {log : Log} {all : List Bytes},
    log.Holds all → (events.foldl Log.tell log).Holds (all ++ events.filterMap message) := by
  intro events
  induction events with
  | nil => intro log all h; simpa using h
  | cons e events ih =>
    intro log all h
    have := ih (h.tell e)
    rw [List.append_assoc] at this
    rw [List.foldl_cons, List.filterMap_cons]
    cases hmessage : message e <;> simpa [hmessage] using this

/-! ## An answer -/

def ended (texts : List Bytes) : Bytes := (texts.map (· ++ [newline])).flatten

theorem ended_length (texts : List Bytes) :
    (ended texts).length = (texts.map fun text => text.length + 1).sum := by
  simp [ended, List.length_flatten, Function.comp_def]

theorem foldl_add_ok : ∀ (lines : List Bytes) {b : Buf}, (lines.foldl Buf.add b).failed = false →
    (lines.foldl Buf.add b).bytes = b.bytes ++ lines.flatten := by
  intro lines
  induction lines with
  | nil => intro b _; simp
  | cons line lines ih =>
    intro b h
    have hfirst : (b.add line).failed = false := by
      by_contra hfailed
      have hstays : ∀ (l : List Bytes) (b : Buf), b.failed = true →
          (l.foldl Buf.add b).failed = true := by
        intro l
        induction l with
        | nil => exact fun _ h => h
        | cons x l ih => exact fun b h => ih _ (by simp [Buf.add, h])
      rw [List.foldl_cons, hstays lines _ (by simpa using hfailed)] at h
      cases h
    rw [List.foldl_cons, ih h, (Buf.add_ok hfirst).2]
    simp

theorem foldl_add_fits : ∀ (lines : List Bytes) {b : Buf}, b.failed = false →
    b.bytes.length + lines.flatten.length ≤ b.limit →
    lines.foldl Buf.add b = { b with bytes := b.bytes ++ lines.flatten } := by
  intro lines
  induction lines with
  | nil => intro b _ _; simp
  | cons line lines ih =>
    intro b hok hroom
    rw [List.flatten_cons, List.length_append] at hroom
    have hadd : b.add line = { b with bytes := b.bytes ++ line } := by
      unfold Buf.add
      split_ifs with hnothing hlimit
      · obtain rfl | hfailed := hnothing
        · simp
        · rw [hok] at hfailed
          cases hfailed
      · omega
      · rfl
    have hrest := @ih { b with bytes := b.bytes ++ line } hok (by
      dsimp only
      rw [List.length_append]
      omega)
    rw [List.foldl_cons, hadd, hrest]
    simp

theorem foldl_add_le : ∀ (lines : List Bytes) {b : Buf}, b.bytes.length ≤ b.limit →
    (lines.foldl Buf.add b).bytes.length ≤ b.limit := by
  intro lines
  induction lines with
  | nil => exact fun h => h
  | cons line lines ih =>
    intro b hb
    have hadd : (b.add line).limit = b.limit ∧ (b.add line).bytes.length ≤ b.limit := by
      unfold Buf.add
      split_ifs
      · exact ⟨rfl, hb⟩
      · exact ⟨rfl, hb⟩
      · refine ⟨rfl, ?_⟩
        rw [List.length_append]
        omega
    rw [List.foldl_cons, ← hadd.1]
    exact ih (hadd.1.symm ▸ hadd.2)

section

variable {log : Log} {all : List Bytes}

theorem foldl_kept (h : log.Holds all) : ∀ (k first : ℕ) (out : Buf), first + k = all.length →
    all.length ≤ first + eventsKept →
    (List.range' first k).foldl (fun out n => match log.kept (n % eventsKept) with
      | some line => out.add line
      | none => out) out = ((all.drop first).map (· ++ [newline])).foldl Buf.add out := by
  intro k
  induction k with
  | zero =>
    intro first out hk _
    rw [List.drop_eq_nil_of_le (by omega)]
    rfl
  | succ k ih =>
    intro first out hk hnear
    have hlt : first < all.length := by omega
    have hkept := h.kept first all[first] (List.getElem?_eq_getElem hlt) hnear
    rw [List.range'_succ, List.foldl_cons, hkept, List.drop_eq_getElem_cons hlt, List.map_cons,
      List.foldl_cons]
    exact ih (first + 1) _ (by omega) (by omega)

def messagesSince (all : List Bytes) (cursor : ℕ) : List Bytes :=
  all.drop (max cursor (all.length - eventsKept))

theorem Log.Holds.first (h : log.Holds all) {cursor : ℕ} (hcursor : cursor ≤ all.length) :
    log.first cursor = max cursor (all.length - eventsKept) := by
  unfold Log.first
  have hinside : ¬((cursor : ℤ) < 0 ∨ (all.length : ℤ) < cursor) := by omega
  rw [h.told, if_neg hinside, Int.toNat_natCast]
  dsimp only
  split_ifs <;> omega

theorem Log.Holds.since_eq (h : log.Holds all) {cursor : ℕ} (hcursor : cursor ≤ all.length) :
    log.since cursor =
      let out := ((messagesSince all cursor).map (· ++ [newline])).foldl Buf.add
        (({ bytes := [], limit := maxLine } : Buf).add (Pages.decimal all.length ++ [newline]))
      if out.failed then none else some out.bytes := by
  unfold Log.since
  rw [h.first hcursor, h.told]
  dsimp only
  rw [foldl_kept h _ _ _ (by omega) (by omega)]
  rfl

theorem Log.Holds.since_cons (h : log.Holds all) {cursor : ℕ} (hcursor : cursor ≤ all.length) :
    log.since cursor =
      let out := ((Pages.decimal all.length ++ [newline]) ::
        (messagesSince all cursor).map (· ++ [newline])).foldl Buf.add
          { bytes := [], limit := maxLine }
      if out.failed then none else some out.bytes :=
  h.since_eq hcursor

theorem Log.Holds.since_some (h : log.Holds all) {cursor : ℕ} (hcursor : cursor ≤ all.length)
    {text : Bytes} (htext : log.since cursor = some text) :
    text = Pages.decimal all.length ++ newline :: ended (messagesSince all cursor) ∧
      text.length ≤ maxLine := by
  rw [h.since_cons hcursor] at htext
  dsimp only at htext
  split_ifs at htext with hfailed
  cases htext
  refine ⟨?_, foldl_add_le _ (Nat.zero_le _)⟩
  rw [foldl_add_ok _ (by simpa using hfailed)]
  simp [ended]

theorem Log.Holds.since_fits (h : log.Holds all) {cursor : ℕ} (hcursor : cursor ≤ all.length)
    (hroom :
      (Pages.decimal all.length).length + 1 + (ended (messagesSince all cursor)).length ≤ maxLine) :
    log.since cursor =
      some (Pages.decimal all.length ++ newline :: ended (messagesSince all cursor)) := by
  rw [h.since_cons hcursor]
  dsimp only
  rw [foldl_add_fits _ rfl]
  · simp [ended]
  · simp only [ended, List.flatten_cons, List.length_append, List.length_nil,
      List.length_singleton] at hroom ⊢
    exact (Nat.zero_add _).trans_le hroom

/-! ## Reading an answer -/

theorem isDigit_decimal (n : ℕ) : ∀ c ∈ Pages.decimal n, CNumber.isDigit c = true := by
  intro c hc
  obtain ⟨d, hd, rfl⟩ := List.mem_map.1 hc
  exact CNumber.isDigit_digit (digits_lt n d hd)

theorem valueOf_decimal (n : ℕ) : CNumber.valueOf (Pages.decimal n) = n := by
  refine (CNumber.valueOf_map (decimalDigits n) (digits_lt n)).trans ?_
  unfold decimalDigits
  split_ifs with hn
  · simp [hn]
  · rw [List.reverse_reverse, Nat.ofDigits_digits]

theorem took_answer (n : ℕ) (rest : Bytes) :
    Client.took (Pages.decimal n ++ newline :: rest) =
      some { cursor := min (2 ^ 63 - 1) n, pending := Pages.decimal n ++ newline :: rest
             pos := (Pages.decimal n).length + 1 } := by
  have hdigits := isDigit_decimal n
  obtain ⟨d, ds, hds⟩ : ∃ d ds, Pages.decimal n = d :: ds := by
    refine List.exists_cons_of_ne_nil ?_
    rw [← List.length_pos_iff, Pages.decimal, List.length_map]
    exact Pages.decimalDigits_length_pos n
  have hd : CNumber.isDigit d = true := hdigits d (by simp [hds])
  have hspace : (Pages.decimal n ++ newline :: rest).dropWhile CNumber.isSpace =
      Pages.decimal n ++ newline :: rest := by
    rw [hds, List.cons_append, List.dropWhile_cons_of_neg]
    simp [CNumber.not_isSpace_of_isDigit hd]
  have hsign : CNumber.signOf (Pages.decimal n ++ newline :: rest) = [] := by
    obtain ⟨hplus, hminus⟩ := CNumber.not_sign_of_isDigit hd
    simp [hds, CNumber.signOf, hplus, hminus]
  have htake : (Pages.decimal n ++ newline :: rest).takeWhile CNumber.isDigit =
      Pages.decimal n := by
    rw [List.takeWhile_append_of_pos hdigits]
    simp [newline, CNumber.isDigit]
  have hdrop : (Pages.decimal n ++ newline :: rest).dropWhile CNumber.isDigit =
      newline :: rest := by
    rw [List.dropWhile_append_of_pos hdigits]
    simp [newline, CNumber.isDigit]
  have hstrtol : strtol (Pages.decimal n ++ newline :: rest) =
      some (min (2 ^ 63 - 1) (n : ℤ), newline :: rest) := by
    unfold strtol
    dsimp only
    rw [hspace, hsign, List.length_nil, List.drop_zero, htake, hdrop, valueOf_decimal,
      if_neg (by simp [hds]), if_neg (by simp)]
  unfold Client.took
  rw [hstrtol]
  dsimp only
  rw [if_neg (by simp)]
  simp only [List.length_append, List.length_cons]
  congr 2
  omega

theorem waits_answer {head : Bytes} {cursor : ℤ} {texts : List Bytes}
    (h : ∀ text ∈ texts, newline ∉ text) :
    ({ cursor, pending := head ++ newline :: ended texts, pos := head.length + 1 } : Client).Waits
      texts := by
  refine ⟨?_, h⟩
  change (head ++ newline :: ended texts).drop (head.length + 1) = ended texts
  rw [List.append_cons, List.drop_left' (by simp)]

def readTo (all : List Bytes) (cursor : ℕ) : Client where
  cursor := min (2 ^ 63 - 1) all.length
  pending := Pages.decimal all.length ++ newline :: ended (messagesSince all cursor)
  pos := (Pages.decimal all.length).length + 1

theorem Log.Holds.read_eq (h : log.Holds all) (wire : Wire) {c : Client} {cursor : ℕ}
    (hcursor : cursor ≤ all.length) (hc : c.cursor = cursor) :
    c.read wire log = (log.since cursor).map fun _ => readTo all cursor := by
  unfold Client.read
  rw [hc]
  cases htext : log.since cursor with
  | none => rfl
  | some text =>
    obtain ⟨rfl, hlong⟩ := h.since_some hcursor htext
    have hmax : maxLine ≤ totalMax := by decide
    have hjoin := Pages.pagesJoin_still (hlong.trans hmax) wire.cap_le (wire.room _ hlong) 0
    rw [Option.bind_some]
    change (match (pagesJoin (clocked fun _ start => handed (Pages.askPage _ start wire.cap
      wire.escapedCap)) 0).1 with
      | .joined text => Client.took text
      | _ => none) = _
    rw [hjoin]
    exact took_answer _ _

theorem waits_readTo (hlines : ∀ text ∈ all, newline ∉ text) (cursor : ℕ) :
    (readTo all cursor).Waits (messagesSince all cursor) :=
  waits_answer fun text htext => hlines text (List.mem_of_mem_drop htext)

/-! ## Taking a line -/

theorem take_waits_cons {c : Client} {line : Bytes} {lines : List Bytes}
    (h : c.Waits (line :: lines)) :
    ∃ c', c.take = some (line, c') ∧ c'.Waits lines ∧ c'.cursor = c.cursor := by
  obtain ⟨hdrop, hlines⟩ := h
  rw [List.map_cons, List.flatten_cons, List.append_assoc, List.singleton_append] at hdrop
  have htake : (c.pending.drop c.pos).takeWhile (· ≠ newline) = line := by
    rw [hdrop]
    exact Framing.takeWhile_line (hlines line List.mem_cons_self)
  have hleft : ¬c.pending.length ≤ c.pos := by
    intro hle
    rw [List.drop_eq_nil_of_le hle] at hdrop
    simp at hdrop
  refine ⟨{ c with pos := c.pos + (line.length + 1) }, ?_, ?_, rfl⟩
  · unfold Client.take
    rw [if_neg hleft, htake]
  · refine ⟨?_, fun l hl => hlines l (List.mem_cons_of_mem _ hl)⟩
    change c.pending.drop (c.pos + (line.length + 1)) = _
    rw [← List.drop_drop, hdrop, List.append_cons, List.drop_left' (by simp)]

theorem waits_nil_iff {c : Client} : c.Waits [] ↔ c.pending.length ≤ c.pos := by
  simp [Client.Waits]

theorem Client.Waits.nil_of_nil {c : Client} {lines : List Bytes} (h : c.Waits lines)
    (hnil : c.Waits []) : lines = [] := by
  have hempty := h.1.symm.trans hnil.1
  cases lines with
  | nil => rfl
  | cons line lines => simp at hempty

end

/-! ## Runs -/

structure Kept (w : World) : Prop where
  holds : w.log.Holds w.all
  lines : ∀ text ∈ w.all, newline ∉ text
  start_le : w.start ≤ w.client.cursor
  cursor_le : w.client.cursor ≤ w.all.length
  announced_le : w.announced ≤ w.client.cursor
  waiting : ∃ waiting, w.client.Waits waiting ∧ (w.near = true →
    w.taken ++ waiting = (w.all.drop w.start).take (w.client.cursor.toNat - w.start))
  answered : w.failed = false

theorem lines_told {all : List Bytes} (h : ∀ text ∈ all, newline ∉ text) (e : Proto.Event) :
    ∀ text ∈ all ++ (message e).toList, newline ∉ text := by
  intro text htext
  obtain htext | htext := List.mem_append.1 htext
  · exact h text htext
  · exact (message_spec (Option.mem_toList.1 htext)).1

section

variable {wire : Wire} {w : World}

theorem Kept.tell (h : Kept w) (e : Proto.Event) : Kept (w.step wire (.tell e)) := by
  obtain ⟨waiting, hwaits, htaken⟩ := h.waiting
  have hstart := h.start_le
  have hcursor := h.cursor_le
  refine ⟨h.holds.tell e, lines_told h.lines e, hstart, ?_, h.announced_le,
    ⟨waiting, hwaits, fun hnear => ?_⟩, h.answered⟩
  · change w.client.cursor ≤ ((w.all ++ (message e).toList).length : ℕ)
    rw [List.length_append]
    omega
  · refine (htaken hnear).trans ?_
    change _ = ((w.all ++ (message e).toList).drop w.start).take
      (w.client.cursor.toNat - w.start)
    rw [List.drop_append_of_le_length (by omega),
      List.take_append_of_le_length (by rw [List.length_drop]; omega)]

theorem Kept.take (h : Kept w) : Kept (w.step wire .take) := by
  obtain ⟨waiting, hwaits, htaken⟩ := h.waiting
  cases waiting with
  | nil =>
    have hnone : w.client.take = none := by
      unfold Client.take
      rw [if_pos (waits_nil_iff.1 hwaits)]
    have hsame : w.step wire .take = w := by simp [World.step, hnone]
    exact hsame.symm ▸ h
  | cons line lines =>
    obtain ⟨c, hsome, hc, hcursor⟩ := take_waits_cons hwaits
    have hstep : w.step wire .take = { w with client := c, taken := w.taken ++ [line] } := by
      simp [World.step, hsome]
    rw [hstep]
    refine ⟨h.holds, h.lines, hcursor.symm ▸ h.start_le, hcursor.symm ▸ h.cursor_le,
      hcursor.symm ▸ h.announced_le, ⟨lines, hc, fun hnear => ?_⟩, h.answered⟩
    rw [← List.append_cons]
    exact hcursor.symm ▸ htaken hnear

theorem Kept.heard_reads (h : Kept w) (hmany : w.all.length < 2 ^ 63) (hreads : w.reads = true)
    (hfits : w.answerLength ≤ maxLine) (line : Bytes) : Kept (w.step wire (.heard line)) := by
  obtain ⟨waiting, hwaits, htaken⟩ := h.waiting
  obtain ⟨cursor, hcursor⟩ := Int.eq_ofNat_of_zero_le ((Int.natCast_nonneg _).trans h.start_le)
  have hle : cursor ≤ w.all.length := by
    have := h.cursor_le
    omega
  have hstart : w.start ≤ cursor := by
    have := h.start_le
    omega
  have hnil : w.client.Waits [] := waits_nil_iff.2 (by simpa [World.reads] using hreads)
  obtain rfl := hwaits.nil_of_nil hnil
  have hsince := h.holds.since_fits hle (by
    unfold World.answerLength at hfits
    rw [hcursor, Int.toNat_natCast] at hfits
    rw [ended_length]
    exact hfits)
  have hread : w.client.read wire w.log = some (readTo w.all cursor) := by
    rw [h.holds.read_eq wire hle hcursor, hsince]
    rfl
  have hclient : w.client.heard wire w.log line = readTo w.all cursor := by
    unfold Client.heard
    rw [if_neg (by simpa [World.reads] using hreads), if_pos (by omega), hread]
  have hend : (readTo w.all cursor).cursor = w.all.length :=
    min_eq_right (by norm_num; omega)
  have hstep : w.step wire (.heard line) =
      { w with
        client := readTo w.all cursor
        announced := w.all.length
        near := w.near && decide (w.all.length < cursor + eventsKept) } := by
    simp only [World.step, hclient, hread, hreads, h.holds.told, hcursor, h.answered]
    simp
    norm_cast
  rw [hstep]
  refine ⟨h.holds, h.lines, ?_, hend.le, hend.ge, ⟨_, waits_readTo h.lines cursor, fun hnear => ?_⟩,
    h.answered⟩
  · change (w.start : ℤ) ≤ (readTo w.all cursor).cursor
    rw [hend]
    omega
  · rw [Bool.and_eq_true, decide_eq_true_eq] at hnear
    have htaken := htaken hnear.1
    rw [List.append_nil, hcursor, Int.toNat_natCast] at htaken
    change w.taken ++ messagesSince w.all cursor =
      (w.all.drop w.start).take ((readTo w.all cursor).cursor.toNat - w.start)
    have hlast : messagesSince w.all cursor = (w.all.drop w.start).drop (cursor - w.start) := by
      unfold messagesSince
      rw [max_eq_left (by omega), List.drop_drop]
      congr 1
      omega
    rw [htaken, hlast, List.take_append_drop, hend, Int.toNat_natCast, List.take_of_length_le]
    rw [List.length_drop]

theorem Kept.heard_dropped (h : Kept w) (hreads : w.reads = false)
    (hcursor : w.client.cursor = w.all.length) (line : Bytes) :
    Kept (w.step wire (.heard line)) := by
  have hclient : w.client.heard wire w.log line = w.client := by
    unfold Client.heard
    rw [if_pos (by simpa [World.reads] using hreads)]
  have hstep : w.step wire (.heard line) = { w with announced := w.all.length } := by
    simp [World.step, hclient, hreads, h.holds.told]
  rw [hstep]
  exact ⟨h.holds, h.lines, h.start_le, h.cursor_le, hcursor.ge, h.waiting, h.answered⟩

theorem Kept.step (h : Kept w) {a : Action} (hcareful : w.Careful a) : Kept (w.step wire a) := by
  cases a with
  | tell e => exact h.tell e
  | take => exact h.take
  | heard line =>
    obtain ⟨hmany, hcareful⟩ := hcareful
    split_ifs at hcareful with hreads
    · exact h.heard_reads hmany hreads hcareful line
    · exact h.heard_dropped (by simpa using hreads) hcareful line

/-- The run lemma of the invariant. -/
theorem Kept.run : ∀ (actions : List Action) {w : World}, Kept w → w.AllCareful wire actions →
    Kept (w.run wire actions) := by
  intro actions
  induction actions with
  | nil => exact fun h _ => h
  | cons a actions ih => exact fun h hcareful => ih (h.step hcareful.1) hcareful.2

theorem decimal_length_le {n : ℕ} (h : n < 2 ^ 63) : (Pages.decimal n).length ≤ 19 := by
  have hmax : (decimalDigits (2 ^ 63)).length = 19 := by norm_num [decimalDigits]
  rw [Pages.decimal, List.length_map, ← hmax]
  exact Pages.decimalDigits_length_mono h.le

/-- The invariant holds where a client begins. -/
theorem Kept.begin {before : List Proto.Event} (hmany : before.length < 2 ^ 63) :
    Kept (World.begin before) := by
  have hholds := Log.holds_foldl before Log.holds_empty
  rw [List.nil_append] at hholds
  set all := before.filterMap message with hall
  have hshort : all.length < 2 ^ 63 :=
    (List.length_filterMap_le message before).trans_lt hmany
  have hnone : messagesSince all all.length = [] := by
    unfold messagesSince
    exact List.drop_eq_nil_of_le (le_max_left _ _)
  have hsame : (before.foldl Log.tell {}).since (-1) =
      (before.foldl Log.tell {}).since (all.length : ℕ) := by
    have hfirst : (before.foldl Log.tell {}).first (-1) =
        (before.foldl Log.tell {}).first (all.length : ℕ) := by
      rw [hholds.first le_rfl, max_eq_left (by omega)]
      have hbefore : (-1 : ℤ) < 0 ∨ (all.length : ℤ) < -1 := .inl (by norm_num)
      unfold Log.first
      rw [hholds.told, if_pos hbefore]
      dsimp only
      rw [Nat.sub_self, if_neg (Nat.not_lt_zero _)]
    unfold Log.since
    rw [hfirst]
  have hsince := hholds.since_fits le_rfl (by
    have := decimal_length_le hshort
    rw [hnone, show (ended []).length = 0 from rfl]
    unfold maxLine
    omega)
  have hclient : Client.begin (before.foldl Log.tell {}) = readTo all all.length := by
    unfold Client.begin
    rw [hsame, hsince, Option.bind_some, took_answer]
    rfl
  have hend : (readTo all all.length).cursor = all.length := min_eq_right (by norm_num; omega)
  have hlines : ∀ text ∈ all, newline ∉ text := by
    intro text htext
    obtain ⟨e, -, he⟩ := List.mem_filterMap.1 htext
    exact (message_spec he).1
  have hbegin : World.begin before =
      { log := before.foldl Log.tell {}, client := readTo all all.length, all := all
        start := all.length, announced := all.length } := by
    unfold World.begin
    rw [hclient, hall]
  rw [hbegin]
  refine ⟨hholds, hlines, hend.ge, hend.le, hend.ge, ⟨[], ?_, fun _ => ?_⟩, rfl⟩
  · exact hnone ▸ waits_readTo hlines all.length
  · change [] = (all.drop all.length).take _
    rw [List.drop_length, List.take_nil]

/-- What the invariant gives : every event once. -/
theorem Kept.once (h : Kept w) : Once wire w := by
  obtain ⟨waiting, hwaits, htaken⟩ := h.waiting
  obtain ⟨cursor, hcursor⟩ := Int.eq_ofNat_of_zero_le ((Int.natCast_nonneg _).trans h.start_le)
  have hle : cursor ≤ w.all.length := by
    have := h.cursor_le
    omega
  refine ⟨⟨waiting, hwaits, fun hnear => ⟨htaken hnear, h.start_le⟩⟩, ?_, ?_, h.answered⟩
  · intro hnear hannounced hnil
    obtain rfl := hwaits.nil_of_nil hnil
    have hend : cursor = w.all.length := by
      have := h.announced_le
      omega
    have htaken := htaken hnear
    rw [List.append_nil, hcursor, Int.toNat_natCast, hend, List.take_of_length_le] at htaken
    · exact htaken
    · rw [List.length_drop]
  · intro c hread hbehind
    rw [h.holds.read_eq wire hle hcursor, Option.map_eq_some_iff] at hread
    obtain ⟨-, -, rfl⟩ := hread
    have hlast : messagesSince w.all cursor = w.all.drop (w.all.length - eventsKept) := by
      unfold messagesSince
      rw [max_eq_right (by omega)]
    exact hlast ▸ waits_readTo h.lines cursor

/-- **Each event once.** In a run in which no notification is dropped with something told since the
client read, and every answer asked for fits a line. -/
theorem events_once (wire : Wire) (before : List Proto.Event) (hmany : before.length < 2 ^ 63)
    (actions : List Action) (hcareful : (World.begin before).AllCareful wire actions) :
    Once wire ((World.begin before).run wire actions) :=
  ((Kept.begin hmany).run actions hcareful).once

end

/-! ## A burst -/

theorem hex_length : ∀ places n : ℕ, (Pages.hex places n).length = places := by
  intro places
  induction places with
  | zero => exact fun _ => rfl
  | succ places ih => intro n; simp [Pages.hex, ih]

theorem room_plain (text : Bytes) (htext : text.length ≤ maxLine) : Room text 8000 0 := by
  intro start hstart
  have hmax : maxLine ≤ totalMax := by decide
  have hdigits := Pages.decimalDigits_length_le (htext.trans hmax)
  have hstarts := Pages.decimalDigits_length_le ((hstart.trans htext).trans hmax)
  refine ⟨?_, fun h => absurd rfl h⟩
  simp only [Pages.header, List.length_append, Pages.decimal, List.length_map, hex_length,
    List.length_singleton]
  have hword : (asciis "ok ").length = 3 := rfl
  omega

def plainWire : Wire where
  cap := 8000
  escapedCap := 0
  cap_le := by decide
  room := room_plain

def closed : Proto.Event := .confirmResolved true

def ofClosed : Bytes := asciis "event net-resolved -"

/-- Three events, the first two of them read at one announcement. -/
def toldActions : List Action :=
  [.tell closed, .tell (.reloaded true none), .heard ofClosed, .take, .take, .heard ofClosed,
    .tell (.observed none), .heard ofClosed, .take]

theorem told_once : Once plainWire ((World.begin [.observed none]).run plainWire toldActions) ∧
    ((World.begin [.observed none]).run plainWire toldActions).taken.length = 3 :=
  ⟨events_once plainWire [.observed none] (by decide) toldActions (by decide +kernel),
    by decide +kernel⟩

/-- The second of two events that are announced one after the other is not given out, though all
were announced and nothing waits. -/
theorem burst_loses_event : ¬Once plainWire ((World.begin []).run plainWire
    [.tell closed, .heard ofClosed, .tell closed, .heard ofClosed, .take]) := by
  intro h
  have htaken := h.complete (by decide +kernel) (by decide +kernel)
    (waits_nil_iff.2 (by decide +kernel))
  have hlength := congrArg List.length htaken
  revert hlength
  decide +kernel

end Netcfgd.EventLog
