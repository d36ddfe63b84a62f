import Netcfgd.Ask
import Netcfgd.PagesJoin

/-!
# A request runs once for a call

A client asks from offset 0 again when a page is of another answer than its first page was, and
when the answer it joined says to ask again. Either runs the request a second time, unless the
daemon still holds what the first asking left : the answer, for a page, or the job beside its loop.

So a request that changes the machine is handed to the answer function at most once in a call all
of whose lines find that (`Sound`), and not at all where the call says that nothing ran
(`runs_at_most_once`). Without it two clients of one user are enough for a second run
(`two_clients_of_one_user`).
-/

namespace Netcfgd.Ask

open Netcfgd.Json (ascii asciis isDigit decimalDigits)
open Netcfgd.Pages

def keptFor (d : Daemon) (c : Caller) (word : Bytes) (now : ℕ) : Option Slot :=
  match stagedName word with
  | none => (kept d c (digest word) now).1
  | some none => none
  | some (some named) => (kept d c named now).1

/-- The request a line asks for : the line itself, or the one staged under its name. -/
def asking (d : Daemon) (c : Caller) (word : Bytes) (now : ℕ) : Option Bytes :=
  match stagedName word with
  | none => some word
  | some none => none
  | some (some named) =>
    ((partOf d c named now).1.filter fun p => p.have_.length = p.total).map Part.have_

def lastText : List Entry → Option Bytes
  | [] => none
  | e :: earlier => if e.start = 0 then e.served.text else lastText earlier

def Ran (request : Bytes) (log : List Entry) : Prop :=
  ∃ e ∈ log, e.served.handed = some request

/-- The page size leaves room for the header of a page of the text. -/
def Roomy (text : Bytes) (start cap escapedCap : ℕ) : Prop :=
  (header text.length (min start text.length) text.length (digest text)).length < cap ∧
    (escapedCap ≠ 0 →
      escapedLength (header text.length (min start text.length) text.length (digest text)) <
        escapedCap)

/-- What a line finds, the lines before it being these : once the request was handed over, a page
is asked for while the daemon keeps the answer the first page is of, and a request it is working
on while its job is there; from then on nothing that is answered says to ask again but the daemon
while it is working; and where the request is handed over, the page has room. -/
structure Sound (caller : Caller) (word request : Bytes) (e : Entry) (earlier : List Entry) :
    Prop where
  kept : Ran request earlier → 0 < e.start → ∃ slot,
    keptFor e.daemon caller word e.turn.now = some slot ∧ lastText earlier = some slot.answer
  job : Ran request earlier → e.start = 0 → lastText earlier = errorLine workingText →
    ∀ line ∈ asking e.daemon caller word e.turn.now,
      ∃ job, e.daemon.job = some job ∧ job.isFor caller (digest line)
  quiet : Ran request (e :: earlier) → ∀ text, e.served.text = some text → saysWorking text →
    errorLine workingText = some text
  room : e.served.handed = some request → ∃ text, e.served.text = some text ∧
    Roomy text e.served.start e.turn.cap e.turn.escapedCap

/-- The entry is of a line of the call, as the daemon served it. -/
def Entry.Of (read : Bytes → Except Bytes ρ) (observes : ρ → Bool) (caller : Caller) (word : Bytes)
    (e : Entry) : Prop :=
  e.served = ask read observes e.daemon caller (decimal e.start ++ ascii ' ' :: word) e.turn.made
    e.turn.cap e.turn.escapedCap e.turn.now

/-- What one page of a call comes to : no line was served and no page came, or one line was, and
either its page came or none did. -/
structure Asked (read : Bytes → Except Bytes ρ) (observes : ρ → Bool) (caller : Caller)
    (word : Bytes) (start : ℕ) (w w' : Call) (reply : Option Bytes) : Prop where
  maybe : w.ranMaybe → w'.ranMaybe
  line : (w'.log = w.log ∧ reply = none) ∨
    ∃ e : Entry, w'.log = e :: w.log ∧ e.start = start ∧ e.Of read observes caller word ∧
      (reply = none ∨ reply = handed e.page) ∧ (e.page.isSome → w'.ranMaybe)

/-! ## What a line of a call comes to -/

theorem offsetAt_digits : ∀ (ds : List ℕ) (seen value : ℕ) (rest : Bytes), (∀ d ∈ ds, d < 10) →
    seen + ds.length ≤ 10 → 0 < seen + ds.length →
    offsetAt seen value (ds.map (fun d => UInt8.ofNat (48 + d)) ++ ascii ' ' :: rest) =
      some (ds.foldl (fun v d => v * 10 + d) value, rest)
  | [], seen, value, rest, _, _, hpos => by
    have hspace : isDigit (ascii ' ') = false := by decide
    rw [List.map_nil, List.nil_append, offsetAt, if_neg (by simp [hspace]), if_neg]
    · rfl
    · simp only [List.length_nil] at hpos
      simp
      omega
  | d :: ds, seen, value, rest, hds, hten, _ => by
    have hd : d < 10 := hds d List.mem_cons_self
    have hdigit : isDigit (UInt8.ofNat (48 + d)) = true := Json.isDigit_digit hd
    have hvalue : (UInt8.ofNat (48 + d)).toNat - 48 = d := by interval_cases d <;> rfl
    rw [List.length_cons] at hten
    rw [List.map_cons, List.cons_append, offsetAt, if_pos ⟨hdigit, by omega⟩, hvalue,
      offsetAt_digits ds (seen + 1) _ rest (fun d' hd' => hds d' (List.mem_cons_of_mem _ hd'))
        (by omega) (by omega), List.foldl_cons]

theorem offsetAt_decimal {start : ℕ} (h : start ≤ totalMax) (word : Bytes) :
    offsetAt 0 0 (decimal start ++ ascii ' ' :: word) = some (start, word) := by
  have hlen := decimalDigits_length_le h
  have hpos := decimalDigits_length_pos start
  rw [decimal, offsetAt_digits (decimalDigits start) 0 0 word (Json.digits_lt start) (by omega)
    (by omega), Json.fold_decimalDigits]

section Lines

variable {ρ : Type*} {read : Bytes → Except Bytes ρ} {observes : ρ → Bool}
variable {d : Daemon} {c : Caller} {word : Bytes} {made : Made} {start cap escapedCap now : ℕ}

theorem finish_start (c' : Caller) (asked : UInt64) (handed : Option Bytes)
    (result : Except Bytes Bytes) :
    (finish d c' asked handed result 0 cap escapedCap now).start = 0 := by
  cases result <;> rfl

theorem finish_handed (c' : Caller) (asked : UInt64) (handed : Option Bytes)
    (result : Except Bytes Bytes) :
    (finish d c' asked handed result start cap escapedCap now).handed = handed := by
  cases result <;> rfl

theorem askLine_first (line : Bytes) (staged : Option UInt64) :
    (askLine read observes d c 0 line staged made cap escapedCap now).start = 0 ∧
      ((∃ job, d.job = some job ∧ job.isFor c (digest line)) →
        (askLine read observes d c 0 line staged made cap escapedCap now).handed = none) := by
  unfold askLine
  dsimp only
  rw [if_neg (lt_irrefl 0)]
  dsimp only
  cases read line with
  | error why => exact ⟨rfl, fun _ => rfl⟩
  | ok request =>
    dsimp only
    rw [if_neg (by simp)]
    have hdrop : (∃ job, d.job = some job ∧ job.isFor c (digest line)) →
        ∃ job, (dropJob (kept d c (digest line) now).2 c (digest line) now).job.filter
          (fun job => job.isFor c (digest line)) = some job := by
      rintro ⟨job, hjob, hfor⟩
      have hkept : (kept d c (digest line) now).2.job = some job := hjob
      refine ⟨job, ?_⟩
      rw [dropJob, hkept]
      simp [hfor, hkept]
    generalize dropJob (kept d c (digest line) now).2 c (digest line) now = d' at hdrop ⊢
    cases hjob : d'.job.filter fun job => job.isFor c (digest line) with
    | none =>
      refine ⟨?_, fun h => ?_⟩
      · dsimp only
        unfold makeAnswer
        cases made with
        | before result => exact finish_start c _ _ result
        | answered result => exact finish_start c _ _ result
        | later inPlace =>
          dsimp only
          split
          · rfl
          · exact finish_start c _ _ inPlace
      · obtain ⟨job, hsome⟩ := hdrop h
        rw [hjob] at hsome
        cases hsome
    | some job =>
      dsimp only
      cases job.result with
      | none => exact ⟨rfl, fun _ => rfl⟩
      | some result => exact ⟨finish_start c _ _ result, fun _ => finish_handed c _ _ result⟩

theorem askLine_later {line request : Bytes} {r : ρ} (hread : read request = .ok r)
    (hchanges : observes r = false) (hstart : 0 < start) (staged : Option UInt64) :
    (askLine read observes d c start line staged made cap escapedCap now).handed ≠
      some request := by
  unfold askLine
  dsimp only
  rw [if_pos hstart]
  cases (kept d c (digest line) now).1 with
  | some slot => simp [fromSlot]
  | none =>
    dsimp only
    cases hline : read line with
    | error why => simp [refused]
    | ok r' =>
      dsimp only
      split_ifs with hrefused
      · simp [refused]
      · have hother : line ≠ request := by
          rintro rfl
          rw [hline] at hread
          cases hread
          exact hrefused ⟨hstart, by simp [hchanges]⟩
        split
        · unfold makeAnswer
          split
          · simp [finish_handed]
          · simp [finish_handed, hother]
          · split
            · simp [hother]
            · simp [finish_handed, hother]
        · split
          · simp [refused]
          · simp [finish_handed]

theorem ask_first :
    (ask read observes d c (decimal 0 ++ ascii ' ' :: word) made cap escapedCap now).start = 0 ∧
      ((∀ line ∈ asking d c word now, ∃ job, d.job = some job ∧ job.isFor c (digest line)) →
        (ask read observes d c (decimal 0 ++ ascii ' ' :: word) made cap escapedCap now).handed =
          none) := by
  unfold ask asking
  rw [offsetAt_decimal (Nat.zero_le _)]
  dsimp only
  cases stagedName word with
  | none =>
    exact ⟨(askLine_first word none).1, fun h => (askLine_first word none).2 (h word rfl)⟩
  | some named =>
    cases named with
    | none => exact ⟨rfl, fun _ => rfl⟩
    | some named =>
      dsimp only
      rw [if_neg (lt_irrefl 0)]
      dsimp only
      cases (partOf d c named now).1.filter fun p => p.have_.length = p.total with
      | none => exact ⟨rfl, fun _ => rfl⟩
      | some part =>
        exact ⟨(askLine_first part.have_ (some named)).1,
          fun h => (askLine_first part.have_ (some named)).2 (h part.have_ rfl)⟩

theorem ask_later {request : Bytes} {r : ρ} (hread : read request = .ok r)
    (hchanges : observes r = false) (hstart : 0 < start) (hmax : start ≤ totalMax) :
    (ask read observes d c (decimal start ++ ascii ' ' :: word) made cap escapedCap now).handed ≠
      some request := by
  unfold ask
  rw [offsetAt_decimal hmax]
  dsimp only
  cases stagedName word with
  | none => exact askLine_later hread hchanges hstart none
  | some named =>
    cases named with
    | none => simp [refused]
    | some named =>
      dsimp only
      rw [if_pos hstart]
      cases hkept : kept d c named now with
      | mk slot d' =>
        cases slot with
        | some slot => simp [fromSlot]
        | none =>
          dsimp only
          cases (partOf d' c named now).1.filter fun p => p.have_.length = p.total with
          | none => simp [refused]
          | some part => exact askLine_later hread hchanges hstart (some named)

theorem ask_kept {slot : Slot} (hstart : 0 < start) (hmax : start ≤ totalMax)
    (hkept : keptFor d c word now = some slot) :
    (ask read observes d c (decimal start ++ ascii ' ' :: word) made cap escapedCap now).text =
        some slot.answer ∧
      (ask read observes d c (decimal start ++ ascii ' ' :: word) made cap escapedCap now).start =
        start := by
  unfold keptFor at hkept
  unfold ask
  rw [offsetAt_decimal hmax]
  dsimp only
  cases hname : stagedName word with
  | none =>
    rw [hname] at hkept
    dsimp only at hkept ⊢
    unfold askLine
    dsimp only
    rw [if_pos hstart, hkept]
    exact ⟨rfl, rfl⟩
  | some named =>
    rw [hname] at hkept
    cases named with
    | none => cases hkept
    | some named =>
      dsimp only at hkept ⊢
      rw [if_pos hstart]
      cases hslot : kept d c named now with
      | mk found d' =>
        rw [hslot] at hkept
        dsimp only at hkept ⊢
        rw [hkept]
        exact ⟨rfl, rfl⟩

end Lines

/-! ## What every line of a call has to find -/

/-- Every call of a log is sound after those before it. -/
def Clean (caller : Caller) (word request : Bytes) : List Entry → Prop
  | [] => True
  | e :: earlier => Clean caller word request earlier ∧ Sound caller word request e earlier

theorem Clean.of_suffix {caller : Caller} {word request : Bytes} : ∀ {log earlier : List Entry},
    Clean caller word request log → earlier <:+ log → Clean caller word request earlier
  | [], earlier, h, hsuffix => by
    rw [List.suffix_nil.1 hsuffix]
    exact h
  | e :: log, earlier, h, hsuffix => by
    rcases List.suffix_cons_iff.1 hsuffix with rfl | hsuffix
    · exact h
    · exact h.1.of_suffix hsuffix

theorem isSome_of_roomy {text : Bytes} {start cap escapedCap : ℕ}
    (h : Roomy text start cap escapedCap) : (askPage text start cap escapedCap).isSome := by
  obtain ⟨hcap, hescaped⟩ := h
  unfold askPage pageOf
  dsimp only
  rw [if_neg]
  · rfl
  · push Not
    exact ⟨hcap, hescaped⟩

/-! ## One line of a call -/

section Calls

variable {ρ : Type*} {read : Bytes → Except Bytes ρ} {observes : ρ → Bool}
variable {turns : ℕ → Turn} {caller : Caller} {word request : Bytes}

variable (read observes turns caller word) in
theorem askAgain_cases (start : ℕ) : ∀ (looks : ℕ) (sent : Bool) (w : Call),
    let r := askAgain read observes turns caller word start looks sent w
    r.2.2.ranMaybe = w.ranMaybe ∧
      ((r.2.2.log = w.log ∧ ∀ page, r.1 ≠ .answered page) ∨
        ∃ e : Entry, r.2.2.log = e :: w.log ∧ e.start = start ∧ e.Of read observes caller word ∧
          (r.1 = .answered e.page ∨ r.1 = .lost ∧ r.2.1 = true))
  | 0, sent, w => ⟨rfl, .inl ⟨rfl, by simp [askAgain]⟩⟩
  | looks + 1, sent, w => by
    dsimp only
    rw [askAgain]
    unfold sendLine
    dsimp only
    cases hcarried : (turns w.clock).carried with
    | unsent => exact ⟨rfl, .inl ⟨rfl, by simp⟩⟩
    | busy => exact askAgain_cases start looks true _
    | refused => exact ⟨rfl, .inl ⟨rfl, by simp⟩⟩
    | lost served =>
      cases served with
      | false => exact ⟨rfl, .inl ⟨rfl, by simp⟩⟩
      | true => exact ⟨rfl, .inr ⟨_, rfl, rfl, rfl, .inr ⟨rfl, rfl⟩⟩⟩
    | answered => exact ⟨rfl, .inr ⟨_, rfl, rfl, rfl, .inl rfl⟩⟩

variable (read observes turns caller word) in
theorem fuzznetPage_asked (w : Call) (start : ℕ) :
    Asked read observes caller word start w (fuzznetPage read observes turns caller word w start).2
      (fuzznetPage read observes turns caller word w start).1 := by
  obtain ⟨hmaybe, hline⟩ := askAgain_cases read observes turns caller word start 81 false w
  unfold fuzznetPage
  generalize askAgain read observes turns caller word start 81 false w = r at hmaybe hline ⊢
  obtain ⟨told, sent, w'⟩ := r
  dsimp only at hmaybe hline ⊢
  rcases hline with ⟨hlog, hnone⟩ | ⟨e, hlog, hstart, hof, htold | ⟨htold, hsent⟩⟩
  · cases told with
    | answered page => exact absurd rfl (hnone page)
    | unsent => exact ⟨fun h => by simp [hmaybe, h], .inl ⟨hlog, rfl⟩⟩
    | busy => exact ⟨by simp [hmaybe], .inl ⟨hlog, rfl⟩⟩
    | refused => exact ⟨by simp [hmaybe], .inl ⟨hlog, rfl⟩⟩
    | lost => exact ⟨fun h => by simp [hmaybe, h], .inl ⟨hlog, rfl⟩⟩
  · subst htold
    cases hpage : e.page with
    | none => exact ⟨by simp [hmaybe], .inr ⟨e, hlog, hstart, hof, .inl rfl, by simp [hpage]⟩⟩
    | some page =>
      exact ⟨fun _ => rfl, .inr ⟨e, hlog, hstart, hof, .inr (by rw [hpage]), fun _ => rfl⟩⟩
  · subst htold hsent
    exact ⟨by simp [hmaybe], .inr ⟨e, hlog, hstart, hof, .inl rfl, by simp⟩⟩

variable {w w' : Call}

theorem Asked.suffix {start : ℕ} {reply : Option Bytes}
    (h : Asked read observes caller word start w w' reply) : w.log <:+ w'.log := by
  rcases h.line with ⟨hlog, -⟩ | ⟨e, hlog, -⟩
  · rw [hlog]
  · rw [hlog]
    exact List.suffix_cons e w.log

/-- Where the request was handed over, `ran_maybe` says that it may have been. -/
def Noted (request : Bytes) (w : Call) : Prop := Ran request w.log → w.ranMaybe

theorem Asked.noted {start : ℕ} {reply : Option Bytes}
    (h : Asked read observes caller word start w w' reply)
    (hclean : Clean caller word request w'.log) (hw : Noted request w) : Noted request w' := by
  rintro ⟨e', he', hran⟩
  rcases h.line with ⟨hlog, -⟩ | ⟨e, hlog, -, -, -, hpage⟩
  · rw [hlog] at he'
    exact h.maybe (hw ⟨e', he', hran⟩)
  · rw [hlog] at he' hclean
    rcases List.mem_cons.1 he' with rfl | he'
    · obtain ⟨text, htext, hroom⟩ := hclean.2.room hran
      refine hpage ?_
      rw [Entry.page, htext]
      exact isSome_of_roomy hroom
    · exact h.maybe (hw ⟨e', he', hran⟩)

theorem runs_cons {e : Entry} (hlog : w'.log = e :: w.log) :
    w'.runs request = w.runs request + if e.served.handed = some request then 1 else 0 := by
  unfold Call.runs
  rw [hlog, List.countP_cons]
  simp

theorem runs_pos : 0 < w.runs request ↔ Ran request w.log := by
  unfold Call.runs Ran
  rw [List.countP_pos_iff]
  simp

theorem Asked.later {start : ℕ} {reply : Option Bytes} {r : ρ}
    (hread : read request = .ok r) (hchanges : observes r = false) (hstart : 0 < start)
    (hmax : start ≤ totalMax) (h : Asked read observes caller word start w w' reply) :
    w'.runs request = w.runs request ∧ lastText w'.log = lastText w.log := by
  rcases h.line with ⟨hlog, -⟩ | ⟨e, hlog, rfl, hof, -⟩
  · unfold Call.runs
    rw [hlog]
    exact ⟨rfl, rfl⟩
  · have hnot : e.served.handed ≠ some request := by
      rw [hof]
      exact ask_later hread hchanges hstart hmax
    rw [runs_cons hlog, if_neg hnot, hlog, lastText, if_neg (by omega)]
    exact ⟨rfl, rfl⟩

/-! ## The pages of one answer -/

theorem digitsAt_past : ∀ (ds : List ℕ) (value seen : ℕ) (rest : Bytes), (∀ d ∈ ds, d < 10) →
    value ≤ totalMax → totalMax < ds.foldl (fun v d => v * 10 + d) value →
    digitsAt (ds.map (fun d => UInt8.ofNat (48 + d)) ++ rest) value seen = none
  | [], value, seen, rest, _, hvalue, hpast => by
    rw [List.foldl_nil] at hpast
    omega
  | d :: ds, value, seen, rest, hds, hvalue, hpast => by
    have hd : d < 10 := hds d List.mem_cons_self
    have hdigit : isDigit (UInt8.ofNat (48 + d)) = true := Json.isDigit_digit hd
    have hdval : (UInt8.ofNat (48 + d)).toNat - 48 = d := by interval_cases d <;> rfl
    rw [List.map_cons, List.cons_append, digitsAt, if_pos hdigit]
    dsimp only
    rw [hdval]
    split_ifs with hroom
    · rfl
    · refine digitsAt_past ds _ _ rest (fun d' hd' => hds d' (List.mem_cons_of_mem _ hd')) ?_ hpast
      simp only [totalMax] at hroom ⊢
      omega

theorem pageRead_past {total start count : ℕ} {d : UInt64} (bytes : Bytes)
    (h : totalMax < total) : pageRead (header total start count d ++ bytes) = none := by
  have htake : (header total start count d ++ bytes).take 3 = asciis "ok " := by
    simp [header, asciis]
  have hdrop : (header total start count d ++ bytes).drop 3 =
      decimal total ++ (ascii ' ' :: (decimal start ++ ascii ' ' :: (decimal count ++
        ascii ' ' :: (hex 16 d.toNat ++ ascii '\n' :: bytes)))) := by
    simp [header, asciis]
  have hnumber : ∀ rest, number (decimal total ++ rest) = none := fun rest => by
    rw [number, decimal, digitsAt_past (decimalDigits total) 0 0 rest (Json.digits_lt total)
      (Nat.zero_le _) (by rw [Json.fold_decimalDigits]; exact h)]
  unfold pageRead
  rw [if_neg (not_not.2 htake), hdrop, hnumber]
  rfl

theorem pageRead_askPage {text page : Bytes} {start cap escapedCap : ℕ} {one : Page}
    (hpage : askPage text start cap escapedCap = some page) (hread : pageRead page = some one)
    (hstart : start ≤ text.length) :
    one.total = text.length ∧ one.start = start ∧ one.digest = digest text ∧
      one.bytes <+: text.drop start := by
  unfold askPage pageOf at hpage
  dsimp only at hpage
  split_ifs at hpage
  rw [Nat.min_eq_left hstart] at hpage
  cases hpage
  set longest := header text.length start text.length (digest text)
  have hlen := length_take_countAt text longest start cap escapedCap
  have hle := (countAt_le text longest start cap escapedCap).1
  rcases lt_or_ge totalMax text.length with hpast | hmax
  · rw [pageRead_past _ hpast] at hread
    cases hread
  · have hpre := List.take_prefix (countAt text longest start cap escapedCap) (text.drop start)
    generalize (text.drop start).take (countAt text longest start cap escapedCap) = bytes
      at hlen hread hpre
    rw [← hlen, pageRead_header (digest text) hmax (by omega)] at hread
    cases hread
    exact ⟨rfl, rfl, rfl, hpre⟩

variable {r : ρ}

variable (turns caller word) in
theorem gather_later (hread : read request = .ok r) (hchanges : observes r = false) {first : Page}
    (hmax : first.total ≤ totalMax) (left : ℕ) {got : Bytes} (w : Call)
    (hgot : 0 < got.length ∨ first.total = 0) :
    w.log <:+ (gather (fuzznetPage read observes turns caller word) first left got w).2.log ∧
      (gather (fuzznetPage read observes turns caller word) first left got w).2.runs request =
        w.runs request ∧
      lastText (gather (fuzznetPage read observes turns caller word) first left got w).2.log =
        lastText w.log := by
  refine gather_rel (R := fun w w' : Call => w.log <:+ w'.log ∧
    w'.runs request = w.runs request ∧ lastText w'.log = lastText w.log)
    (fun w => ⟨List.suffix_rfl, rfl, rfl⟩) ?_ left w ?_
  · rintro s t u ⟨hst, hruns, hlast⟩ ⟨htu, hruns', hlast'⟩
    exact ⟨hst.trans htu, hruns'.trans hruns, hlast'.trans hlast⟩
  · intro s start hle hlt
    have hasked := fuzznetPage_asked read observes turns caller word s start
    exact ⟨hasked.suffix, hasked.later hread hchanges (by omega) (by omega)⟩

theorem of_askPageAt {start : ℕ} {one : Page}
    (h : askPageAt (fuzznetPage read observes turns caller word) w start = (.ok one, w')) :
    ∃ e page, w'.log = e :: w.log ∧ e.start = start ∧ e.Of read observes caller word ∧
      e.page = some page ∧ pageRead page = some one := by
  have hasked := fuzznetPage_asked read observes turns caller word w start
  unfold askPageAt at h
  cases hreply : fuzznetPage read observes turns caller word w start with
  | mk reply w'' =>
    rw [hreply] at h hasked
    cases reply with
    | none => cases h
    | some page =>
      dsimp only at h hasked
      cases hpage : pageRead page with
      | none =>
        rw [hpage] at h
        cases h
      | some one' =>
        rw [hpage] at h
        cases h
        rcases hasked.line with ⟨-, hnone⟩ | ⟨e, hlog, hstart, hof, hnone | hhanded, -⟩
        · cases hnone
        · cases hnone
        · obtain ⟨hsome, -⟩ := Option.filter_eq_some_iff.1 hhanded.symm
          exact ⟨e, page, hlog, hstart, hof, hsome, hpage⟩

theorem page_of_kept {e : Entry} {earlier : List Entry} {text page : Bytes} {one : Page}
    (hof : e.Of read observes caller word) (hclean : Clean caller word request (e :: earlier))
    (hran : Ran request earlier) (hlast : lastText earlier = some text) (hpos : 0 < e.start)
    (hmax : e.start ≤ totalMax) (hle : e.start ≤ text.length) (hpage : e.page = some page)
    (hone : pageRead page = some one) :
    one.total = text.length ∧ one.start = e.start ∧ one.digest = digest text ∧
      one.bytes <+: text.drop e.start := by
  obtain ⟨slot, hslot, hanswer⟩ := hclean.2.kept hran hpos
  obtain ⟨htext, hat⟩ : e.served.text = some slot.answer ∧ e.served.start = e.start := by
    rw [show e.served = _ from hof]
    exact ask_kept hpos hmax hslot
  rw [hlast, Option.some.injEq] at hanswer
  rw [Entry.page, htext, ← hanswer, hat] at hpage
  exact pageRead_askPage hpage hone hle

/-- Once the request ran, the pages after the first are of the text the first page is of : the
answer does not move, and what is gathered is that text. -/
theorem gather_ran (hread : read request = .ok r) (hchanges : observes r = false) {text : Bytes}
    {first : Page} (htotal : first.total = text.length) (hdigest : first.digest = digest text)
    (hmax : first.total ≤ totalMax) : ∀ (left : ℕ) {got : Bytes} (w : Call),
    (0 < got.length ∨ first.total = 0) → got <+: text → text.length - got.length ≤ left →
    Ran request w.log → lastText w.log = some text →
    Clean caller word request
      (gather (fuzznetPage read observes turns caller word) first left got w).2.log →
    (gather (fuzznetPage read observes turns caller word) first left got w).1 ≠ .moved ∧
      ∀ f g, (gather (fuzznetPage read observes turns caller word) first left got w).1 =
        .whole f g → g = text
  | 0, got, w, _, hgot, hleft, _, _, _ => by
    refine ⟨by simp [gather], fun f g h => ?_⟩
    cases h
    exact hgot.eq_of_length_le (by omega)
  | left + 1, got, w, hpos, hgot, hleft, hran, hlast, hclean => by
    rw [gather] at hclean ⊢
    split_ifs at hclean ⊢ with hdone
    · refine ⟨by simp, fun f g h => ?_⟩
      cases h
      exact hgot.eq_of_length_le (by omega)
    · cases hask : askPageAt (fuzznetPage read observes turns caller word) w got.length with
      | mk answer w' =>
        rw [hask] at hclean
        cases answer with
        | error why => exact ⟨by simp, by simp⟩
        | ok one =>
          obtain ⟨e, page, hlog, hstart, hof, hpage, hone⟩ := of_askPageAt hask
          have hgotlt : 0 < got.length := by omega
          have hafter := fuzznetPage_asked read observes turns caller word w got.length
          rw [← askPageAt_snd, hask] at hafter
          obtain ⟨hruns, hlast'⟩ := hafter.later hread hchanges hgotlt (by omega)
          dsimp only at hclean ⊢ hruns hlast'
          have hsound : Clean caller word request w'.log → one.total = text.length ∧
              one.start = got.length ∧ one.digest = digest text ∧
              one.bytes <+: text.drop got.length := by
            intro hclean'
            rw [hlog] at hclean'
            rw [← hstart]
            exact page_of_kept hof hclean' hran hlast (by omega) (by omega) (by omega) hpage hone
          cases htook : takePage first one got with
          | moved =>
            rw [htook] at hclean
            obtain ⟨hone1, -, hone2, -⟩ := hsound hclean
            unfold takePage at htook
            rw [if_neg (by rw [hone2, hdigest, hone1, htotal]; simp)] at htook
            split_ifs at htook
          | refused why => exact ⟨by simp, by simp⟩
          | more more =>
            rw [htook] at hclean
            obtain ⟨rfl, hfits, hgrows⟩ := takePage_more htook
            have hgrown := hgrows (by omega)
            have hrest := gather_later turns caller word hread hchanges hmax left w'
              (show 0 < (got ++ one.bytes).length ∨ first.total = 0 by omega)
            obtain ⟨-, -, -, hbytes⟩ := hsound (hclean.of_suffix hrest.1)
            refine gather_ran hread hchanges htotal hdigest hmax left w' (by omega) ?_ (by omega)
              ?_ (hlast'.trans hlast) hclean
            · obtain ⟨more', hmore⟩ := hbytes
              obtain ⟨tail, rfl⟩ := hgot
              rw [List.drop_left] at hmore
              exact ⟨more', by rw [List.append_assoc, hmore]⟩
            · rw [← runs_pos, hruns, runs_pos]
              exact hran

/-! ## A whole call -/

/-- Before a first page is asked for : the request did not run, or its job is being waited for. -/
def Ready (request : Bytes) (w : Call) : Prop :=
  w.runs request = 0 ∨ w.runs request = 1 ∧ lastText w.log = errorLine workingText

theorem Asked.first {reply : Option Bytes}
    (h : Asked read observes caller word 0 w w' reply) (hready : Ready request w)
    (hclean : Clean caller word request w'.log) : w'.runs request ≤ 1 := by
  rcases h.line with ⟨hlog, -⟩ | ⟨e, hlog, hstart, hof, -⟩
  · have hsame : w'.runs request = w.runs request := by
      unfold Call.runs
      rw [hlog]
    rcases hready with hready | ⟨hready, -⟩ <;> omega
  · rw [runs_cons hlog]
    rcases hready with hready | ⟨hready, hlast⟩
    · rw [hready]
      split_ifs <;> omega
    · rw [hlog] at hclean
      have hran : Ran request w.log := runs_pos.1 (by omega)
      have hjob := hclean.2.job hran hstart hlast
      have hnone : e.served.handed = none := by
        rw [show e.served = _ from hof, hstart]
        exact ask_first.2 hjob
      rw [hready, hnone, if_neg (by simp)]

variable (turns caller word) in
theorem attempt_once (hread : read request = .ok r) (hchanges : observes r = false)
    (hready : Ready request w) (hclean : Clean caller word request
      (attempt (fuzznetPage read observes turns caller word) w).2.log) :
    (attempt (fuzznetPage read observes turns caller word) w).2.runs request ≤ 1 ∧
      (0 < (attempt (fuzznetPage read observes turns caller word) w).2.runs request →
        (attempt (fuzznetPage read observes turns caller word) w).1 ≠ .moved ∧
        ∀ f g, (attempt (fuzznetPage read observes turns caller word) w).1 = .whole f g →
          lastText (attempt (fuzznetPage read observes turns caller word) w).2.log = some g ∧
            (saysWorking g → errorLine workingText = some g)) := by
  have hafter := fuzznetPage_asked read observes turns caller word w 0
  rw [← askPageAt_snd] at hafter
  unfold attempt at hclean ⊢
  cases hask : askPageAt (fuzznetPage read observes turns caller word) w 0 with
  | mk answer w' =>
    rw [hask] at hclean hafter
    cases answer with
    | error why => exact ⟨hafter.first hready hclean, fun _ => ⟨by simp, by simp⟩⟩
    | ok first =>
      obtain ⟨e, page, hlog, hstart, hof, hpage, hone⟩ := of_askPageAt hask
      dsimp only at hclean hafter ⊢
      -- The first page is of the text its line was answered with.
      obtain ⟨text, htext, hcut⟩ := Option.bind_eq_some_iff.1 hpage
      have hat : e.served.start = 0 := by
        rw [show e.served = _ from hof, hstart]
        exact ask_first.1
      rw [hat] at hcut
      obtain ⟨htotal, -, hdigest, hbytes⟩ := pageRead_askPage hcut hone (Nat.zero_le _)
      have hlast : lastText w'.log = some text := by
        rw [hlog, lastText, if_pos hstart, htext]
      cases htook : takePage first first [] with
      | moved =>
        unfold takePage at htook
        rw [if_neg (by simp)] at htook
        split_ifs at htook
      | refused why =>
        rw [htook] at hclean
        exact ⟨hafter.first hready hclean, fun _ => ⟨by simp, by simp⟩⟩
      | more got =>
        rw [htook] at hclean
        obtain ⟨rfl, -, hgrows⟩ := takePage_more htook
        rw [List.nil_append] at hclean hgrows ⊢
        rw [List.length_nil] at hgrows
        have hmax := pageRead_le hone
        have hpos : 0 < first.bytes.length ∨ first.total = 0 := by
          by_contra hnot
          push Not at hnot
          have := hgrows (by omega)
          omega
        obtain ⟨hsuffix, hruns, hlast'⟩ :=
          gather_later turns caller word hread hchanges hmax first.total w' hpos
        have honce := hafter.first hready (hclean.of_suffix hsuffix)
        refine ⟨by rw [hruns]; exact honce, fun hran => ?_⟩
        rw [hruns, runs_pos] at hran
        obtain ⟨hmoved, hwhole⟩ := gather_ran hread hchanges htotal hdigest hmax first.total w' hpos
          hbytes (by omega) hran hlast hclean
        refine ⟨hmoved, fun f g h => ?_⟩
        have hfirst := hclean.of_suffix hsuffix
        rw [hlog] at hfirst hran
        rw [hlast', hlast, hwhole f g h]
        exact ⟨rfl, hfirst.2.quiet hran text htext⟩

variable (read observes turns caller word) in
theorem attempts_suffix (n : ℕ) (w : Call) :
    w.log <:+ (attempts (fuzznetPage read observes turns caller word) n w).2.log :=
  attempts_rel (R := fun w w' : Call => w.log <:+ w'.log) (fun _ => List.suffix_rfl)
    (fun h h' => h.trans h')
    (fun w start => (fuzznetPage_asked read observes turns caller word w start).suffix) n w

theorem gather_ended {first : Page} {why : Outcome} : ∀ {left : ℕ} {got : Bytes} {w : Call},
    (gather (fuzznetPage read observes turns caller word) first left got w).1 = .ended why →
    ∀ g, why ≠ .joined g
  | 0, got, w, h, g => by simp [gather] at h
  | left + 1, got, w, h, g => by
    rw [gather] at h
    split_ifs at h
    cases hask : askPageAt (fuzznetPage read observes turns caller word) w got.length with
    | mk answer w' =>
      rw [hask] at h
      cases answer with
      | error why' =>
        cases h
        rcases askPageAt_why hask with rfl | rfl <;> simp
      | ok one =>
        dsimp only at h
        cases htook : takePage first one got with
        | moved => simp [htook] at h
        | refused why' =>
          rw [htook] at h
          cases h
          rw [takePage_refused htook]
          simp
        | more more =>
          rw [htook] at h
          exact gather_ended h g

theorem attempt_ended {why : Outcome}
    (h : (attempt (fuzznetPage read observes turns caller word) w).1 = .ended why) (g : Bytes) :
    why ≠ .joined g := by
  unfold attempt at h
  cases hask : askPageAt (fuzznetPage read observes turns caller word) w 0 with
  | mk answer w' =>
    rw [hask] at h
    cases answer with
    | error why' =>
      cases h
      rcases askPageAt_why hask with rfl | rfl <;> simp
    | ok first =>
      dsimp only at h
      cases htook : takePage first first [] with
      | moved => simp [htook] at h
      | refused why' =>
        rw [htook] at h
        cases h
        rw [takePage_refused htook]
        simp
      | more got =>
        rw [htook] at h
        exact gather_ended h g

variable (turns caller word) in
theorem attempts_once (hread : read request = .ok r) (hchanges : observes r = false) :
    ∀ (n : ℕ) {w : Call}, Ready request w →
    Clean caller word request
      (attempts (fuzznetPage read observes turns caller word) n w).2.log →
    (attempts (fuzznetPage read observes turns caller word) n w).2.runs request ≤ 1 ∧
      (0 < (attempts (fuzznetPage read observes turns caller word) n w).2.runs request →
        ∀ g, (attempts (fuzznetPage read observes turns caller word) n w).1 = .joined g →
          lastText (attempts (fuzznetPage read observes turns caller word) n w).2.log = some g ∧
            (saysWorking g → errorLine workingText = some g))
  | 0, w, hready, _ => by
    refine ⟨?_, fun _ g h => by cases h⟩
    rcases hready with hready | ⟨hready, -⟩ <;> simp [attempts, hready]
  | n + 1, w, hready, hclean => by
    have hone := attempt_once turns caller word hread hchanges hready
    rw [attempts] at hclean ⊢
    cases hattempt : attempt (fuzznetPage read observes turns caller word) w with
    | mk gathered w' =>
      rw [hattempt] at hclean hone
      cases gathered with
      | moved =>
        dsimp only at hclean hone ⊢
        have hsuffix := attempts_suffix read observes turns caller word n w'
        obtain ⟨hle, hran⟩ := hone (hclean.of_suffix hsuffix)
        have hnot : w'.runs request = 0 := by
          by_contra hnot
          exact (hran (by omega)).1 rfl
        exact attempts_once hread hchanges n (.inl hnot) hclean
      | ended why =>
        obtain ⟨hle, hran⟩ := hone hclean
        have hnone := attempt_ended (congrArg Prod.fst hattempt)
        exact ⟨hle, fun _ g h => absurd h (hnone g)⟩
      | whole first got =>
        have hlog : Clean caller word request w'.log := by
          dsimp only at hclean
          split_ifs at hclean <;> exact hclean
        obtain ⟨hle, hran⟩ := hone hlog
        dsimp only
        split_ifs
        · refine ⟨hle, fun hpos g h => ?_⟩
          cases h
          exact (hran hpos).2 first got rfl
        · exact ⟨hle, fun _ g h => by cases h⟩

/-! The lines of a whole call. -/

variable {R : Call → Call → Prop}

theorem pagesOfWork_rel (hrefl : ∀ w, R w w) (htrans : ∀ {s t u}, R s t → R t u → R s u)
    (hstep : ∀ w start, R w (fuzznetPage read observes turns caller word w start).2) :
    ∀ (looks : ℕ) (w : Call), R w (pagesOfWork read observes turns caller word looks w).2
  | 0, w => pagesJoin_rel hrefl htrans hstep w
  | looks + 1, w => by
    have hone := pagesJoin_rel hrefl htrans hstep w
    rw [pagesOfWork]
    cases hjoin : pagesJoin (fuzznetPage read observes turns caller word) w with
    | mk outcome w' =>
      rw [hjoin] at hone
      cases outcome with
      | joined out =>
        dsimp only
        split_ifs
        · exact htrans hone (pagesOfWork_rel hrefl htrans hstep looks w')
        · exact hone
      | _ => exact hone

variable (read observes turns caller word request) in
theorem pagesOfWork_noted (looks : ℕ) (w : Call) :
    w.log <:+ (pagesOfWork read observes turns caller word looks w).2.log ∧
      (Clean caller word request (pagesOfWork read observes turns caller word looks w).2.log →
        Noted request w →
        Noted request (pagesOfWork read observes turns caller word looks w).2) := by
  refine pagesOfWork_rel (R := fun w w' : Call => w.log <:+ w'.log ∧
    (Clean caller word request w'.log → Noted request w → Noted request w')) ?_ ?_ ?_ looks w
  · exact fun w => ⟨List.suffix_rfl, fun _ h => h⟩
  · rintro s t u ⟨hst, hnoted⟩ ⟨htu, hnoted'⟩
    exact ⟨hst.trans htu, fun hclean h => hnoted' hclean (hnoted (hclean.of_suffix htu) h)⟩
  · intro w start
    have hasked := fuzznetPage_asked read observes turns caller word w start
    exact ⟨hasked.suffix, hasked.noted⟩

theorem pagesOfWork_once (hread : read request = .ok r) (hchanges : observes r = false) :
    ∀ (looks : ℕ) {w : Call}, Ready request w →
    Clean caller word request (pagesOfWork read observes turns caller word looks w).2.log →
    (pagesOfWork read observes turns caller word looks w).2.runs request ≤ 1
  | 0, w, hready, hclean => (attempts_once turns caller word hread hchanges 4 hready hclean).1
  | looks + 1, w, hready, hclean => by
    have hone := attempts_once turns caller word hread hchanges 4 hready
    rw [pagesOfWork] at hclean ⊢
    unfold pagesJoin at hclean ⊢
    cases hjoin : attempts (fuzznetPage read observes turns caller word) 4 w with
    | mk outcome w' =>
      rw [hjoin] at hclean hone
      cases outcome with
      | joined out =>
        dsimp only at hclean hone ⊢
        split_ifs at hclean ⊢ with hsays
        · have hsuffix := (pagesOfWork_noted read observes turns caller word request looks w').1
          obtain ⟨hle, hlast⟩ := hone (hclean.of_suffix hsuffix)
          refine pagesOfWork_once hread hchanges looks ?_ hclean
          rcases Nat.eq_zero_or_pos (w'.runs request) with hnone | hpos
          · exact .inl hnone
          · obtain ⟨hsaid, hword⟩ := hlast hpos out rfl
            exact .inr ⟨by omega, by rw [hsaid, hword hsays]⟩
        · exact (hone hclean).1
      | _ => exact (hone hclean).1

/-! Sending a long request in pieces asks nothing. -/

variable (read observes turns caller) in
theorem sendPieceAgain_log (line : Bytes) : ∀ (looks : ℕ) (w : Call),
    (sendPieceAgain read observes turns caller line looks w).2.log = w.log ∧
      (sendPieceAgain read observes turns caller line looks w).2.ranMaybe = w.ranMaybe
  | 0, w => ⟨rfl, rfl⟩
  | looks + 1, w => by
    have hone : (sendPiece read observes turns caller line w).2.log = w.log ∧
        (sendPiece read observes turns caller line w).2.ranMaybe = w.ranMaybe := by
      unfold sendPiece
      dsimp only
      split <;> exact ⟨rfl, rfl⟩
    rw [sendPieceAgain]
    split
    · obtain ⟨hlog, hmaybe⟩ :=
        sendPieceAgain_log line looks (sendPiece read observes turns caller line w).2
      exact ⟨hlog.trans hone.1, hmaybe.trans hone.2⟩
    · exact hone

variable (read observes turns caller request) in
/-- Sending in pieces leaves the log as it was. -/
theorem sendInPieces_log : ∀ (left offset : ℕ) (w : Call),
    (sendInPieces read observes turns caller request left offset w).2.log = w.log ∧
      (sendInPieces read observes turns caller request left offset w).2.ranMaybe = w.ranMaybe
  | 0, offset, w => ⟨rfl, rfl⟩
  | left + 1, offset, w => by
    rw [sendInPieces]
    split_ifs
    · exact ⟨rfl, rfl⟩
    · dsimp only
      generalize decimal request.length ++ ascii ' ' :: decimal offset ++ ascii ' ' ::
        hex 16 (digest request).toNat ++ ascii ' ' :: (request.drop offset).take askPiece = line
      obtain ⟨hlog, hmaybe⟩ := sendPieceAgain_log read observes turns caller line 81 w
      cases hsent : sendPieceAgain read observes turns caller line 81 w with
      | mk sent w' =>
        rw [hsent] at hlog hmaybe
        cases sent with
        | false => exact ⟨hlog, hmaybe⟩
        | true =>
          obtain ⟨hlog', hmaybe'⟩ := sendInPieces_log left _ w'
          exact ⟨hlog'.trans hlog, hmaybe'.trans hmaybe⟩

/-- How a line names the request of a call : itself, or what is staged under its digest. -/
def wordOf (request : Bytes) : Bytes :=
  if request.length ≤ askPiece then request else ascii '@' :: hex 16 (digest request).toNat

/-- A request that changes nothing runs at most once over a fresh log. -/
theorem pagesOfWork_fresh (hread : read request = .ok r) (hchanges : observes r = false)
    (looks : ℕ) (hlog : w.log = []) (hclean : Clean caller word request
      (pagesOfWork read observes turns caller word looks w).2.log) :
    (pagesOfWork read observes turns caller word looks w).2.runs request ≤ 1 ∧
      ((pagesOfWork read observes turns caller word looks w).2.ranMaybe = false →
        (pagesOfWork read observes turns caller word looks w).2.runs request = 0) := by
  have hnone : w.runs request = 0 := by
    unfold Call.runs
    rw [hlog, List.countP_nil]
  have hnoted := (pagesOfWork_noted read observes turns caller word request looks w).2 hclean
    fun ⟨e, he, _⟩ => by simp [hlog] at he
  refine ⟨pagesOfWork_once hread hchanges looks (.inl hnone) hclean, fun hmaybe => ?_⟩
  by_contra hpos
  have := hnoted (runs_pos.1 (Nat.pos_of_ne_zero hpos))
  rw [hmaybe] at this
  cases this

/-- **A request that changes the machine runs at most once per call.** Whatever is served between
its lines and whatever becomes of them, a call all of whose lines find the answer or the job they
come back for hands its request over at most once, and not at all where it says that nothing
ran. -/
theorem runs_at_most_once (read : Bytes → Except Bytes ρ) (observes : ρ → Bool)
    (turns : ℕ → Turn) (caller : Caller) (request : Bytes) (d : Daemon)
    (hread : read request = .ok r) (hchanges : observes r = false)
    (hclean : Clean caller (wordOf request) request
      (askCall read observes turns caller request d).call.log) :
    (askCall read observes turns caller request d).call.runs request ≤ 1 ∧
      ((askCall read observes turns caller request d).nothingRan = true →
        (askCall read observes turns caller request d).call.runs request = 0) := by
  unfold askCall wordOf at *
  by_cases hline : ascii '\n' ∈ request
  · rw [if_pos hline]
    exact ⟨Nat.zero_le _, fun _ => rfl⟩
  rw [if_neg hline] at hclean ⊢
  by_cases hshort : request.length ≤ askPiece
  · rw [if_pos hshort, if_pos hshort] at hclean
    rw [if_pos hshort]
    dsimp only at hclean ⊢
    obtain ⟨honce, hnot⟩ := pagesOfWork_fresh hread hchanges 150 rfl hclean
    exact ⟨honce, fun h => hnot (by simp at h; exact h.2)⟩
  · rw [if_neg hshort, if_neg hshort] at hclean
    rw [if_neg hshort]
    have hlog := (sendInPieces_log read observes turns caller request request.length 0
      { daemon := d }).1
    cases hsent : sendInPieces read observes turns caller request request.length 0
        { daemon := d } with
    | mk sent w =>
      rw [hsent] at hclean hlog
      cases sent with
      | false =>
        have hnone : w.runs request = 0 := by
          unfold Call.runs
          rw [show w.log = [] from hlog, List.countP_nil]
        exact ⟨by dsimp only; omega, fun _ => hnone⟩
      | true =>
        dsimp only at hclean ⊢
        obtain ⟨honce, hnot⟩ := pagesOfWork_fresh hread hchanges 150 hlog hclean
        exact ⟨honce, fun h => hnot (by simp at h; exact h.2)⟩

end Calls

/-! ## A call and two -/

def longAnswer : Bytes := List.replicate 60 (ascii 'a')

def answering (before : List Event) : Turn :=
  ⟨before, .answered, .answered (.ok longAnswer), 80, 0, 0⟩

/-- The call of a client alone with the daemon : its answer is of two pages, and `apply` runs
once. -/
theorem apply_runs_once :
    (askCall (fun _ => Except.ok ()) (fun _ => false) (fun _ => answering []) (.here 0)
        (asciis "apply") {}).call.runs (asciis "apply") ≤ 1 ∧
      (askCall (fun _ => Except.ok ()) (fun _ => false) (fun _ => answering []) (.here 0)
        (asciis "apply") {}).outcome = .joined longAnswer := by
  refine ⟨(runs_at_most_once (fun _ => Except.ok ()) (fun _ => false) (fun _ => answering [])
    (.here 0) (asciis "apply") {} (r := ()) rfl rfl ?_).1, by decide +kernel⟩
  set log := (askCall (fun _ => Except.ok ()) (fun _ => false) (fun _ => answering []) (.here 0)
    (asciis "apply") {}).call.log with hlog
  have hstarts : log.map Entry.start = [52, 0] := by decide +kernel
  have htext : ∀ e ∈ log, e.served.text = some longAnswer ∧ (0 < e.start →
      (keptFor e.daemon (.here 0) (asciis "apply") e.turn.now).map Slot.answer =
        some longAnswer) := by decide +kernel
  have hroom : ∀ e ∈ log, Roomy longAnswer e.served.start e.turn.cap e.turn.escapedCap := by
    unfold Roomy
    decide +kernel
  have hquiet : saysWorking longAnswer = false := by decide +kernel
  clear_value log
  obtain ⟨page, rest, rfl, hpage, hrest⟩ := List.map_eq_cons_iff.1 hstarts
  obtain ⟨first, rest, rfl, hfirst, hrest⟩ := List.map_eq_cons_iff.1 hrest
  rw [List.map_eq_nil_iff] at hrest
  subst hrest
  obtain ⟨hpagetext, hkept⟩ := htext page List.mem_cons_self
  obtain ⟨hfirsttext, -⟩ := htext first (by simp)
  obtain ⟨slot, hslot, hanswer⟩ := Option.map_eq_some_iff.1 (hkept (by omega))
  refine ⟨⟨trivial, ?_, ?_, ?_, ?_⟩, ?_, ?_, ?_, ?_⟩
  · rintro ⟨e, he, -⟩
    cases he
  · rintro ⟨e, he, -⟩
    cases he
  · intro _ text htext' hsays
    rw [hfirsttext, Option.some.injEq] at htext'
    rw [← htext', hquiet] at hsays
    cases hsays
  · exact fun _ => ⟨longAnswer, hfirsttext, hroom first (by simp)⟩
  · intro _ _
    refine ⟨slot, hslot, ?_⟩
    rw [lastText, if_pos hfirst, hfirsttext, hanswer]
  · intro _ hstart
    omega
  · intro _ text htext' hsays
    rw [hpagetext, Option.some.injEq] at htext'
    rw [← htext', hquiet] at hsays
    cases hsays
  · exact fun _ => ⟨longAnswer, hpagetext, hroom page List.mem_cons_self⟩

/-- Two clients of one user : the second asks for its status between the two pages of the first
one's answer, whose place its own answer takes, and the first one's `apply` runs twice. -/
theorem two_clients_of_one_user :
    (askCall (fun _ => Except.ok ()) (fun _ => false)
      (fun k => answering (if k = 1 then
        [Event.ask (.here 0) (asciis "0 status") (.answered (.ok longAnswer)) 80 0 0] else []))
      (.here 0) (asciis "apply") {}).call.runs (asciis "apply") = 2 := by
  decide +kernel

end Netcfgd.Ask
