import Netcfgd.Pages

/-!
# Asking the daemon over fuzznet

`src/main/daemon_ask.c` and the client of it, `client/ncfg_fuzznet.c`. The daemon answers a line
`FROM REQUEST` with a page. It makes an answer at offset 0 and keeps it for the caller, a minute at
most, so that the later pages are cut from the copy; only a read is answered afresh for a later
page. A request that takes long runs beside the loop, its caller being told to ask again, and one
too long for a line is staged in pieces first.

What the dispatcher behind `ask` does is not modelled : with every line comes what it would make of
the request (`Made`). A client's call is its lines, each with what the daemon serves before it
(`Turn`), so a call is among any other calls; the lines that were served are kept in a log, with
the daemon as it was before each.
-/

namespace Netcfgd.Ask

open Netcfgd.Json (ascii asciis isDigit)
open Netcfgd.Pages

/-! ## What the daemon holds -/

/-- Who asks : another host by its key, or a user of this machine. -/
inductive Caller
  | remote (key : Bytes)
  | here (uid : ℕ)
  deriving DecidableEq, Repr

/-- `ncfg_main_ask_slot_t` : an answer that is kept. -/
structure Slot where
  caller : Caller
  asked : UInt64
  answer : Bytes
  ends : ℕ
  deriving DecidableEq, Repr

/-- `ncfg_main_ask_part_t` : a request arriving in pieces. -/
structure Part where
  caller : Caller
  digest : UInt64
  total : ℕ
  have_ : Bytes
  ends : ℕ
  deriving DecidableEq, Repr

/-- `ncfg_main_ask_job_t`, while there is one : with what it came to once it is done. -/
structure Job where
  caller : Caller
  asked : UInt64
  ends : ℕ
  result : Option (Except Bytes Bytes)
  deriving Repr

/-- `ncfg_main_ask_t`. -/
structure Daemon where
  slots : List (Option Slot) := List.replicate 8 none
  parts : List (Option Part) := List.replicate 8 none
  job : Option Job := none
  deriving Repr

section Places

variable {α : Type*}

/-- Look for a place, letting go of those whose time is over on the way. -/
def seek (late wanted : α → Bool) : List (Option α) → Option α × List (Option α)
  | [] => (none, [])
  | place :: rest =>
    match (place.filter fun a => !late a) with
    | none => ((seek late wanted rest).1, none :: (seek late wanted rest).2)
    | some a =>
      if wanted a then (some a, some a :: rest)
      else ((seek late wanted rest).1, some a :: (seek late wanted rest).2)

def letGo (wanted : α → Bool) : List (Option α) → List (Option α)
  | [] => []
  | none :: rest => none :: letGo wanted rest
  | some a :: rest => if wanted a then none :: rest else some a :: letGo wanted rest

end Places

def oldest (slots : List (Option Slot)) : ℕ :=
  let endsAt := fun i => ((slots[i]?.join).map Slot.ends).getD 0
  (List.range slots.length).foldl (fun best i => if endsAt i < endsAt best then i else best) 0

/-- `slot_for` : the place a new answer goes, the caller's own, else an empty one, else the one
nearest its end. -/
def slotFor (caller : Caller) (slots : List (Option Slot)) : ℕ :=
  match slots.findIdx? fun place => place.any fun s => s.caller = caller with
  | some i => i
  | none =>
    match slots.findIdx? Option.isNone with
    | some i => i
    | none => oldest slots

/-! ## Serving a line -/

/-- What the dispatcher makes of a request : whether it got as far as the answer function, and
what came of it, a refusal or an answer. -/
inductive Made
  /-- Refused by the gate, or `hello`. -/
  | before (result : Except Bytes Bytes)
  | answered (result : Except Bytes Bytes)
  /-- Handed back to be done on a thread; here what it comes to where there is none. -/
  | later (inPlace : Except Bytes Bytes)

/-- A line as it was served : the text its page is cut from, where the page starts, the request if
it was handed to the answer function, and the daemon afterwards. -/
structure Served where
  text : Option Bytes
  start : ℕ := 0
  handed : Option Bytes := none
  daemon : Daemon

/-- `NCFG_MAIN_ASK_WORKING`. -/
def workingText : Bytes := asciis "netcfgd is working on that; ask again"

/-- `ncfg_daemon_error_encode`. -/
def errorLine (why : Bytes) : Option Bytes :=
  (Json.escaped why).map fun text =>
    asciis "\x7b\"response\":\"error\",\"message\":\"" ++ text ++ asciis "\"\x7d"

/-- `refused`. -/
def refused (d : Daemon) (why : Bytes) : Served where
  text := errorLine why
  daemon := d

/-- Whether the page at an offset is the last : `read to its end`. -/
def readToEnd (text : Bytes) (start cap escapedCap : ℕ) : Bool :=
  match askPage text start cap escapedCap with
  | none => false
  | some page => text.length ≤ start + ((page.dropWhile (· ≠ ascii '\n')).length - 1)

def offsetAt : ℕ → ℕ → Bytes → Option (ℕ × Bytes)
  | _, _, [] => none
  | seen, value, c :: rest =>
    if isDigit c ∧ seen < 10 then offsetAt (seen + 1) (value * 10 + (c.toNat - 48)) rest
    else if seen = 0 ∨ c ≠ ascii ' ' then none
    else some (value, rest)

/-- `@DIGEST` : nothing for another line, and no digest where what follows is not one. -/
def stagedName : Bytes → Option (Option UInt64)
  | [] => none
  | c :: rest =>
    if rest.length = 16 ∧ c = ascii '@' then
      some ((hexAt 16 0 rest).map fun found => UInt64.ofNat found.1)
    else none

section Serve

variable {ρ : Type*} (read : Bytes → Except Bytes ρ) (observes : ρ → Bool)

/-- `part_of`. -/
def partOf (d : Daemon) (c : Caller) (named : UInt64) (now : ℕ) : Option Part × Daemon :=
  let found := seek (fun p => p.ends ≤ now) (fun p => p.digest = named ∧ p.caller = c) d.parts
  (found.1, { d with parts := found.2 })

/-- `kept`. -/
def kept (d : Daemon) (c : Caller) (asked : UInt64) (now : ℕ) : Option Slot × Daemon :=
  let found := seek (fun s => s.ends ≤ now) (fun s => s.asked = asked ∧ s.caller = c) d.slots
  (found.1, { d with slots := found.2 })

/-- `part_clear` of the staged request that was asked for, if one was. -/
def partDone (d : Daemon) (c : Caller) : Option UInt64 → Daemon
  | none => d
  | some named => { d with parts := letGo (fun p => p.digest = named ∧ p.caller = c) d.parts }

def fromSlot (d : Daemon) (slot : Slot) (start cap escapedCap : ℕ) : Served where
  text := some slot.answer
  start := start
  daemon :=
    if readToEnd slot.answer start cap escapedCap then
      { d with slots := letGo (fun s => s.asked = slot.asked ∧ s.caller = slot.caller) d.slots }
    else d

def finish (d : Daemon) (c : Caller) (asked : UInt64) (handed : Option Bytes)
    (result : Except Bytes Bytes) (start cap escapedCap now : ℕ) : Served :=
  match result with
  | .error why =>
    { refused d (if why = [] then asciis "the request was not answered" else why) with
      handed := handed }
  | .ok out =>
    -- The socket writes a line; the page carries the line without its newline.
    let answer := (out.reverse.dropWhile (· = ascii '\n')).reverse
    let slot : Slot := ⟨c, asked, answer, now + 60000⟩
    let place := if readToEnd answer start cap escapedCap then none else some slot
    { text := some answer, start := start, handed := handed,
      daemon := { d with slots := d.slots.set (slotFor c d.slots) place } }

/-- The request itself, once the job beside the loop is not for it. -/
def makeAnswer (d : Daemon) (c : Caller) (line : Bytes) (staged : Option UInt64) (made : Made)
    (start cap escapedCap now : ℕ) : Served :=
  match made with
  | .before result =>
    finish (partDone d c staged) c (digest line) none result start cap escapedCap now
  | .answered result =>
    finish (partDone d c staged) c (digest line) (some line) result start cap escapedCap now
  | .later inPlace =>
    if d.job.isNone then
      { refused { d with job := some ⟨c, digest line, now + 60000, none⟩ } workingText with
        handed := some line }
    else finish (partDone d c staged) c (digest line) (some line) inPlace start cap escapedCap now

/-- `job_is_for`. -/
def Job.isFor (job : Job) (c : Caller) (asked : UInt64) : Bool :=
  job.asked = asked && job.caller = c

def dropJob (d : Daemon) (c : Caller) (asked : UInt64) (now : ℕ) : Daemon :=
  match d.job with
  | some job =>
    if job.result.isSome && !job.isFor c asked && decide (job.ends < now) then
      { d with job := none }
    else d
  | none => d

/-- A line once its request is known : the later part of `ncfg_main_ask`. -/
def askLine (d : Daemon) (c : Caller) (start : ℕ) (line : Bytes) (staged : Option UInt64)
    (made : Made) (cap escapedCap now : ℕ) : Served :=
  let (slot, d) := kept d c (digest line) now
  match (if 0 < start then slot else none) with
  | some slot => fromSlot d slot start cap escapedCap
  | none =>
    match read line with
    | .error why => refused (partDone d c staged) why
    | .ok request =>
      if 0 < start ∧ !observes request then
        refused (partDone d c staged) (asciis ("that answer is no longer kept, and the request " ++
          "changes the machine, so it is not run again to make another; ask from 0 for a new one"))
      else
        let d := dropJob d c (digest line) now
        match d.job.filter fun job => job.isFor c (digest line) with
        | none => makeAnswer d c line staged made start cap escapedCap now
        | some job =>
          match job.result with
          | none => refused d workingText
          | some result =>
            finish (partDone { d with job := none } c staged) c (digest line) none result start cap
              escapedCap now

/-- `ncfg_main_ask`. -/
def ask (d : Daemon) (c : Caller) (args : Bytes) (made : Made) (cap escapedCap now : ℕ) : Served :=
  match offsetAt 0 0 args with
  | none =>
    refused d (asciis "`ask` takes an offset and a request: ask FROM \x7b\"request\":...\x7d")
  | some (start, line) =>
    match stagedName line with
    | none => askLine read observes d c start line none made cap escapedCap now
    | some none =>
      refused d (asciis ("no whole request is staged under that digest; send it with " ++
        "askpart from 0"))
    | some (some named) =>
      let (slot, d) := if 0 < start then kept d c named now else (none, d)
      match slot with
      | some slot => fromSlot d slot start cap escapedCap
      | none =>
        let (part, d) := partOf d c named now
        match part.filter fun p => p.have_.length = p.total with
        | none =>
          refused d (asciis ("no whole request is staged under that digest; send it with " ++
            "askpart from 0"))
        | some part =>
          askLine read observes d c start part.have_ (some named) made cap escapedCap now

/-- A number of `askpart`, at most ten digits, and a space. -/
def partNumber (args : Bytes) : Option (ℕ × Bytes) := offsetAt 0 0 args

/-- `NCFG_MAIN_ASK_PART_MAX`. -/
def partMax : ℕ := 256 * 1024

def stagePart (d : Daemon) (c : Caller) (named : UInt64) (total now : ℕ) : Except String Daemon :=
  -- A caller stages one request at a time : its earlier one goes.
  let parts := d.parts.map fun place => place.filter fun p => decide (p.caller ≠ c)
  match parts.findIdx? Option.isNone with
  | none => .error "every staging place is in use; try again"
  | some i => .ok { d with parts := parts.set i (some ⟨c, named, total, [], now + 60000⟩) }

/-- `ncfg_main_ask_part` : what it answers, and the daemon afterwards. -/
def askPart (d : Daemon) (c : Caller) (args : Bytes) (now : ℕ) : Except String (ℕ × ℕ) × Daemon :=
  match (do
    let (total, rest) ← partNumber args
    let (offset, rest) ← partNumber rest
    return (total, offset, rest)) with
  | none => (.error "askpart takes TOTAL OFFSET DIGEST PIECE", d)
  | some (total, offset, rest) =>
    match hexAt 16 0 rest with
    | none => (.error "a digest is sixteen hex digits", d)
    | some (_, []) => (.error "askpart takes TOTAL OFFSET DIGEST PIECE", d)
    | some (named, c' :: piece) =>
      if c' ≠ ascii ' ' then (.error "askpart takes TOTAL OFFSET DIGEST PIECE", d)
      else if total = 0 ∨ partMax < total then
        (.error "a request staged in pieces is at most 256 KiB", d)
      else
        let named := UInt64.ofNat named
        let (_, d) := partOf d c named now
        match (if offset = 0 then stagePart d c named total now else .ok d) with
        | .error why => (.error why, d)
        | .ok d =>
          let wanted := fun p : Part => decide (p.digest = named ∧ p.caller = c)
          match (seek (fun _ => false) wanted d.parts).1 with
          | none => (.error ("the pieces of a request arrive in order from 0, and this is not " ++
              "the next one"), d)
          | some part =>
            if part.total ≠ total ∨ offset ≠ part.have_.length then
              (.error ("the pieces of a request arrive in order from 0, and this is not " ++
                "the next one"), d)
            else if piece = [] ∨ total - part.have_.length < piece.length then
              (.error "that piece does not fit the request", d)
            else
              let part := { part with have_ := part.have_ ++ piece }
              if part.have_.length = part.total ∧ digest part.have_ ≠ part.digest then
                (.error ("the pieces joined are not the request their digest names; send it " ++
                  "again from 0"), { d with parts := letGo wanted d.parts })
              else
                (.ok (part.have_.length, part.total),
                  { d with parts := d.parts.map fun place =>
                      place.map fun p => if wanted p then part else p })

/-- `ncfg_main_do`, of which nothing is kept but that a staged request is asked once. -/
def carryOut (d : Daemon) (c : Caller) (args : Bytes) (now : ℕ) : Daemon :=
  match stagedName args with
  | none => d
  | some none => d
  | some (some named) =>
    let (part, d) := partOf d c named now
    match part.filter fun p => p.have_.length = p.total with
    | none => d
    | some _ => partDone d c (some named)

/-- What the daemon does between two lines of a client's call. -/
inductive Event
  | ask (c : Caller) (args : Bytes) (made : Made) (cap escapedCap now : ℕ)
  | askPart (c : Caller) (args : Bytes) (now : ℕ)
  | carryOut (c : Caller) (args : Bytes) (now : ℕ)
  | finished (result : Except Bytes Bytes)

def serve (d : Daemon) : Event → Daemon
  | .ask c args made cap escapedCap now =>
    (ask read observes d c args made cap escapedCap now).daemon
  | .askPart c args now => (askPart d c args now).2
  | .carryOut c args now => carryOut d c args now
  | .finished result =>
    { d with job := d.job.map fun job => { job with result := job.result.or (some result) } }

end Serve

/-! ## A client's call -/

/-- What becomes of a line of the client : it may not reach fuzznet, fuzznet may be waiting on a
peer or refuse the line itself, the line may be carried and no answer come back, the daemon having
served it or not, or the answer comes back. -/
inductive Carried
  | unsent
  | busy
  | refused
  | lost (served : Bool)
  | answered
  deriving DecidableEq

/-- What the daemon sees and does on one turn. -/
structure Turn where
  before : List Event
  carried : Carried
  made : Made
  cap : ℕ
  escapedCap : ℕ
  now : ℕ

/-- One call of the client, with the daemon before it. -/
structure Entry where
  start : ℕ
  daemon : Daemon
  turn : Turn
  served : Served

/-- A call on its way : the daemon, the lines sent so far, those served, the last first, and
`ran_maybe`. -/
structure Call where
  daemon : Daemon
  clock : ℕ := 0
  log : List Entry := []
  ranMaybe : Bool := false

inductive Told
  | unsent
  | busy
  | refused
  | lost
  /-- What the daemon gave, nothing where it gave no page, which fuzznet reports as a failure. -/
  | answered (page : Option Bytes)

section Client

variable {ρ : Type*} (read : Bytes → Except Bytes ρ) (observes : ρ → Bool)
variable (turns : ℕ → Turn) (caller : Caller)

def Entry.page (e : Entry) : Option Bytes :=
  e.served.text.bind fun text => askPage text e.served.start e.turn.cap e.turn.escapedCap

def Call.meets (w : Call) : Daemon := (turns w.clock).before.foldl (serve read observes) w.daemon

def Call.entry (w : Call) (start : ℕ) (request : Bytes) : Entry :=
  let t := turns w.clock
  let d := w.meets read observes turns
  ⟨start, d, t, ask read observes d caller (decimal start ++ ascii ' ' :: request) t.made t.cap
    t.escapedCap t.now⟩

/-- `ask_noting_sent` : a line `ask FROM REQUEST`, on its way to the daemon. -/
def sendLine (request : Bytes) (start : ℕ) (w : Call) : Told × Call :=
  let e := w.entry read observes turns caller start request
  let unserved := { w with daemon := e.daemon, clock := w.clock + 1 }
  let served := { w with daemon := e.served.daemon, clock := w.clock + 1, log := e :: w.log }
  match (turns w.clock).carried with
  | .unsent => (.unsent, unserved)
  | .busy => (.busy, unserved)
  | .refused => (.refused, unserved)
  | .lost false => (.lost, unserved)
  | .lost true => (.lost, served)
  | .answered => (.answered e.page, served)

/-- `ask_again` : asked again while fuzznet is waiting on a peer. With what is told goes whether
any of the line may have gone. -/
def askAgain (request : Bytes) (start : ℕ) : ℕ → Bool → Call → Told × Bool × Call
  | 0, sent, w => (.busy, sent, w)
  | looks + 1, sent, w =>
    match sendLine read observes turns caller request start w with
    | (.busy, w) => askAgain request start looks true w
    | (.unsent, w) => (.unsent, sent, w)
    | (told, w) => (told, true, w)

/-- `fuzznet_page` : one page, as the client's buffer takes it. -/
def fuzznetPage (request : Bytes) (w : Call) (start : ℕ) : Option Bytes × Call :=
  match askAgain read observes turns caller request start 81 false w with
  | (.answered (some page), _, w) => (handed (some page), { w with ranMaybe := true })
  | (.answered none, _, w) => (none, w)
  | (.busy, _, w) => (none, w)
  | (.refused, _, w) => (none, w)
  | (.unsent, sent, w) => (none, { w with ranMaybe := w.ranMaybe || sent })
  | (.lost, sent, w) => (none, { w with ranMaybe := w.ranMaybe || sent })

/-- `working on that; ask again`. -/
def workingSaid : Bytes := asciis "working on that; ask again"

/-- `strstr` : whether an answer says so, up to a NUL. -/
def saysWorking (out : Bytes) : Bool := workingSaid <:+: out.takeWhile (· ≠ 0)

/-- `pages_of_work`. -/
def pagesOfWork (request : Bytes) : ℕ → Call → Outcome × Call
  | 0, w => pagesJoin (fuzznetPage read observes turns caller request) w
  | looks + 1, w =>
    match pagesJoin (fuzznetPage read observes turns caller request) w with
    | (.joined out, w) =>
      if saysWorking out then pagesOfWork request looks w else (.joined out, w)
    | (outcome, w) => (outcome, w)

def sendPiece (line : Bytes) (w : Call) : Bool × Call :=
  let d := w.meets read observes turns
  let unserved := { w with daemon := d, clock := w.clock + 1 }
  let (answer, d') := askPart d caller line (turns w.clock).now
  let served := { w with daemon := d', clock := w.clock + 1 }
  match (turns w.clock).carried with
  | .unsent => (false, unserved)
  | .busy => (false, unserved)
  | .refused => (false, unserved)
  | .lost false => (false, unserved)
  | .lost true => (false, served)
  | .answered => (answer.toBool, served)

/-- `ncfg_fuzznet_ask` of a piece, asked again while fuzznet is waiting on a peer. -/
def sendPieceAgain (line : Bytes) : ℕ → Call → Bool × Call
  | 0, w => (false, w)
  | looks + 1, w =>
    match (turns w.clock).carried with
    | .busy => sendPieceAgain line looks (sendPiece read observes turns caller line w).2
    | _ => sendPiece read observes turns caller line w

/-- `ASK_PIECE`. -/
def askPiece : ℕ := 360

/-- `send_in_pieces`, from an offset, with so many pieces left. -/
def sendInPieces (request : Bytes) : ℕ → ℕ → Call → Bool × Call
  | 0, _, w => (true, w)
  | left + 1, offset, w =>
    if request.length ≤ offset then (true, w)
    else
      let piece := (request.drop offset).take askPiece
      let line := decimal request.length ++ ascii ' ' :: decimal offset ++ ascii ' ' ::
        hex 16 (digest request).toNat ++ ascii ' ' :: piece
      match sendPieceAgain read observes turns caller line 81 w with
      | (true, w) => sendInPieces request left (offset + piece.length) w
      | (false, w) => (false, w)

/-- What a call comes to : the answer or why there is none, and `nothing_ran`. -/
structure Result where
  outcome : Outcome
  nothingRan : Bool
  call : Call

/-- `ncfg_fuzznet_ask_here`, over a daemon, and `ncfg_fuzznet_ask_at`, which is the same but for
`nothing_ran`. A request is one line. -/
def askCall (request : Bytes) (d : Daemon) : Result :=
  if ascii '\n' ∈ request then ⟨.unanswered, false, { daemon := d }⟩
  else if request.length ≤ askPiece then
    let (outcome, w) := pagesOfWork read observes turns caller request 150 { daemon := d }
    ⟨outcome, !(outcome matches .joined _) && !w.ranMaybe, w⟩
  else
    match sendInPieces read observes turns caller request request.length 0 { daemon := d } with
    | (false, w) => ⟨.unanswered, true, w⟩
    | (true, w) =>
      let (outcome, w) := pagesOfWork read observes turns caller
        (ascii '@' :: hex 16 (digest request).toNat) 150 w
      ⟨outcome, !(outcome matches .joined _) && !w.ranMaybe, w⟩

/-- How often the call handed its request to the daemon's answer function. -/
def Call.runs (w : Call) (request : Bytes) : ℕ :=
  w.log.countP fun e => e.served.handed = some request

end Client

end Netcfgd.Ask
