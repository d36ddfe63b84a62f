import Netcfgd.Apply

/-!
# The daemon : its state, its requests and its pass

`src/daemon/confirm.c`, `request.c`, `reconcile.c`, `reconcile_pass.c` and the reload of
`state.c`. A daemon holds the desired document, what it last observed, what an open window
covers and the hold of `--no-apply-on-start`, and keeps two files in its run directory : the
confirm window and the last-good document. Four operations touch them while it runs, the
requests `applyRequest`, `confirmRequest` and `revertRequest` and the reconcile `pass`, and
two at the start, `stateReload` and `converge`.

Documents are a parameter : the daemon reads only their hash, the empty one and
the confirm window they ask for. What a step gets from outside, the observation, the plan and
its restriction, the executor and the clock, is the step's own `Moment`, so that nothing is
assumed of the planner, the kernel or the time. The file operations succeed, and the
last-good file is read back as the document that was written.

`log` is no field of the daemon's : it records what it does to the machine and to the two
files, in order.
-/

namespace Netcfgd

/-! ## Windows -/

/-- A reading of the clocks : the epoch, and the time spent suspended since the boot. -/
structure Clock where
  now : ℕ
  asleep : ℕ
  deriving DecidableEq, Repr

/-- `ncfg_confirm_window_t`, as `ncfg_confirm_arm` fills it. -/
structure Window where
  deadlineEpoch : ℕ
  windowSeconds : ℕ
  asleepAtArming : ℕ
  lastGoodHash : String
  deriving DecidableEq, Repr

namespace Window

/-- `deadline_of` : the deadline with the sleep since arming given back. -/
def deadlineOf (w : Window) (c : Clock) : ℕ :=
  if w.asleepAtArming < c.asleep then w.deadlineEpoch + (c.asleep - w.asleepAtArming)
  else w.deadlineEpoch

/-- `ncfg_confirm_expired_at`. -/
def expiredAt (w : Window) (c : Clock) : Bool :=
  w.deadlineOf c ≤ c.now

/-- `ncfg_confirm_remaining_at`. -/
def remainingAt (w : Window) (c : Clock) : ℕ :=
  w.deadlineOf c - c.now

end Window

/-! ## What the daemon is given -/

/-- What the daemon knows of a document. -/
structure DocumentModel (Doc : Type*) where
  /-- `ncfg_daemon_document_hash`. -/
  hash : Doc → String
  /-- `ncfg_document_new`. -/
  empty : Doc
  /-- `globals.confirm_default`. -/
  confirmDefault : Doc → Option ℤ

/-- `ncfg_reconcile_document_is_empty`. -/
def DocumentModel.isEmpty {Doc : Type*} (docs : DocumentModel Doc) (d : Doc) : Bool :=
  docs.hash d = docs.hash docs.empty

/-- `ncfg_plan_confirm_window` : the caller's number, where zero is the caller's no, or the
document's own. -/
def planConfirmWindow {Doc : Type*} (docs : DocumentModel Doc) (desired : Doc)
    (options : PlanOptions) : Option ℤ :=
  match options.confirmWindow with
  | some v => if 0 < v then some v else none
  | none => (docs.confirmDefault desired).filter fun v => 0 < v

/-- The machine at one moment, as a step finds it. -/
structure Moment (Doc Obs σ : Type*) where
  /-- The observation of the machine for a desired document, where there is one. -/
  observe : σ → Option Doc → Option Obs
  /-- `ncfg_plan_build`. -/
  plan : PlanOptions → Doc → Obs → Except String Plan
  /-- `ncfg_reconcile_restrict` and `schedule_follows_clock`. -/
  restrict : Plan → Doc → Obs → Except String Plan
  /-- `ncfg_daemon_open_executor`. -/
  executor : Except String (Executor σ)
  clock : Clock
  cycle : List String

/-! ## What the daemon does -/

/-- Who applies. -/
inductive Actor
  | request
  | drift
  | startup
  | revert
  deriving DecidableEq, Repr

inductive Closing
  | confirm
  | revert
  | expiry
  deriving DecidableEq, Repr

/-- What a daemon does to the machine and to its two files. -/
inductive Event (Doc : Type*)
  /-- A plan for a document was run : the ops that reached the executor, and its journal. -/
  | applied (actor : Actor) (document : Doc) (ops : List (Op × Bool)) (journal : Journal)
  /-- The inverses of a window's actions that reached the executor. -/
  | undone (ops : List (Op × Bool))
  /-- The window file was written : what it reverts to, and the hash of what it covers. -/
  | opened (window : Window) (lastGood : Doc) (covers : Option String)
  | closed (how : Closing)
  | recorded (document : Doc)
  deriving DecidableEq, Repr

/-- `ncfg_daemon_state_t` and the window's files, with the log of what has happened. -/
structure Daemon (Doc Obs σ : Type*) where
  desired : Option Doc
  observed : Option Obs
  /-- Why the configuration directory last failed to compile. -/
  diagnostics : Option String
  /-- The hash of the document a revert turned away from. -/
  rejected : Option String
  armed : Option Armed
  holding : Bool
  /-- `confirm.json`. -/
  window : Option Window
  /-- `last-good.json`. -/
  lastGood : Option Doc
  kernel : σ
  log : List (Event Doc)

namespace Daemon

variable {Doc Obs σ : Type*} (docs : DocumentModel Doc) (m : Moment Doc Obs σ)

/-- `ncfg_confirm_write_last_good`. -/
def writeLastGood (document : Doc) (s : Daemon Doc Obs σ) : Daemon Doc Obs σ :=
  { s with lastGood := some document, log := s.log ++ [Event.recorded document] }

/-- `ncfg_confirm_clear_window`, of a window that is open. -/
def clearWindow (how : Closing) (s : Daemon Doc Obs σ) : Daemon Doc Obs σ :=
  { s with window := none, log := s.log ++ [Event.closed how] }

/-- `ncfg_daemon_state_reobserve` : an observation that fails leaves the one before it. -/
def reobserve (s : Daemon Doc Obs σ) : Daemon Doc Obs σ :=
  { s with observed := (m.observe s.kernel s.desired).or s.observed }

/-- `ncfg_apply`, with what reaches the executor in the log. -/
def applyPlan (actor : Actor) (e : Executor σ) (p : Plan) (document : Doc)
    (s : Daemon Doc Obs σ) : Journal × Daemon Doc Obs σ :=
  let (journal, kernel, ops) := apply e.logged p (s.kernel, [])
  (journal, { s with kernel, log := s.log ++ [Event.applied actor document ops journal] })

/-! ## Commit-confirm -/

/-- `ncfg_confirm_may_arm` : the document a window would revert to. -/
def mayArm (s : Daemon Doc Obs σ) : Except String Doc :=
  match s.window with
  | some w => .error (s!"a confirm window is already open with {w.remainingAt m.clock}s left; " ++
      "confirm or revert first")
  | none =>
    match s.lastGood with
    | none => .error
        "no last-good configuration to revert to; apply once without a window first"
    | some lastGood => .ok lastGood

/-- `ncfg_confirm_arm`. -/
def arm (seconds : ℕ) (lastGood : Doc) (s : Daemon Doc Obs σ) : Daemon Doc Obs σ :=
  let window : Window :=
    { deadlineEpoch := m.clock.now + seconds
      windowSeconds := seconds
      asleepAtArming := m.clock.asleep
      lastGoodHash := docs.hash lastGood }
  { s with
    window := some window
    log := s.log ++ [Event.opened window lastGood (s.armed.bind Armed.document)] }

/-- `ncfg_daemon_arm_window` : what to undo is recorded before the window opens. -/
def armWindow (applied : Plan) (journal : Journal) (seconds : ℕ) (lastGood : Doc)
    (s : Daemon Doc Obs σ) : Daemon Doc Obs σ :=
  let s := match s.desired with
    | some desired => { s with armed := some (armedFrom applied journal (docs.hash desired)) }
    | none => s
  arm docs m seconds lastGood s

/-- `ncfg_confirm_keep` : the window closes, and what it covered becomes last-good. -/
def keep (applied : Option Doc) (s : Daemon Doc Obs σ) :
    Except String Unit × Daemon Doc Obs σ :=
  match s.window with
  | none => (.error "no confirm window is open", s)
  | some _ =>
    let s := { clearWindow .confirm s with armed := none }
    match applied with
    | some document => (.ok (), writeLastGood document s)
    | none => (.ok (), s)

/-- `replan_onto_last_good` : a plan for the desired document from where the machine is. -/
def replanOntoLastGood (e : Executor σ) (s : Daemon Doc Obs σ) : Daemon Doc Obs σ :=
  match s.desired, s.observed with
  | some desired, some observed =>
    match m.plan {} desired observed with
    | .error _ => s
    | .ok p => (applyPlan .revert e p desired s).2
  | _, _ => s

/-- The inverses of what the window covers, run newest first, and the machine looked at
again. -/
def undo (e : Executor σ) (a : Armed) (s : Daemon Doc Obs σ) : Daemon Doc Obs σ :=
  if a.undo.actions = [] then s
  else
    let (_, _, kernel, ops) := applyRevert e.logged a.undo.actions a.journal (s.kernel, [])
    reobserve m { s with kernel, log := s.log ++ [Event.undone ops] }

/-- The document a revert turns away from : what the window covered, or what is desired
where the record of that is lost. -/
def rejects (s : Daemon Doc Obs σ) : Option String :=
  (s.armed.bind Armed.document).or (s.desired.map docs.hash)

/-- `ncfg_confirm_revert`. -/
def revert (how : Closing) (e : Executor σ) (s : Daemon Doc Obs σ) :
    Except String Unit × Daemon Doc Obs σ :=
  match s.window with
  | none => (.error "no confirm window is open", s)
  | some _ =>
    match s.lastGood with
    | none => (.error "the last-good configuration is unreadable; nothing reverted",
        { clearWindow how s with armed := none })
    | some lastGood =>
      let s₁ := { s with rejected := rejects docs s, desired := some lastGood }
      let s₂ := match s₁.armed with
        | some a => undo m e a s₁
        | none => s₁
      let s₃ := replanOntoLastGood m e { s₂ with armed := none }
      (.ok (), reobserve m (clearWindow how s₃))

/-! ## The three requests -/

/-- `ncfg_daemon_apply_ask_t`. -/
structure Ask where
  /-- `--confirm-within`, whatever 64-bit integer arrived. -/
  confirm : Option ℤ := none
  allowDisruption : List String := []
  strandCredentials : List String := []
  restartWedged : List String := []
  deriving DecidableEq, Repr

/-- The seconds of the window an apply asks for : `(uint32_t)` of a positive number. -/
def Ask.seconds (ask : Ask) : ℕ :=
  match ask.confirm with
  | some v => if 0 < v then (v % 2 ^ 32).toNat else 0
  | none => 0

/-- `window_target` : asked before anything is applied. -/
def windowTarget (seconds : ℕ) (s : Daemon Doc Obs σ) : Except String (Option Doc) :=
  if seconds = 0 then .ok none else (mayArm m s).map some

/-- `settle_without_a_window`. -/
def settleWithoutAWindow (s : Daemon Doc Obs σ) : Daemon Doc Obs σ :=
  match s.window with
  | some _ => s
  | none =>
    let s := { s with armed := none }
    match s.desired with
    | some desired => writeLastGood desired s
    | none => s

def Ask.options (ask : Ask) (target : Option Doc) : PlanOptions :=
  { confirmWindow := ask.confirm
    revertTo := target.map docs.hash
    allowDisruption := ask.allowDisruption
    strandCredentials := ask.strandCredentials
    restartWedged := ask.restartWedged
    cycle := m.cycle }

/-- The end of an apply that ran : the machine is looked at, and a window opened or the
document settled. -/
def finishApply (p : Plan) (journal : Journal) (seconds : ℕ) (target : Option Doc)
    (s : Daemon Doc Obs σ) : Daemon Doc Obs σ :=
  match target with
  | some lastGood => armWindow docs m p journal seconds lastGood (reobserve m s)
  | none => settleWithoutAWindow (reobserve m s)

/-- `ncfg_daemon_apply_request`. -/
def applyRequest (ask : Ask) (s : Daemon Doc Obs σ) :
    Except String Journal × Daemon Doc Obs σ :=
  match s.diagnostics with
  | some why => (.error why, s)
  | none =>
    match s.desired, s.observed with
    | none, _ => (.error "this daemon has nothing to apply: it has no configuration", s)
    | some _, none => (.error ("this daemon has nothing to apply: it has not managed to " ++
        "observe the machine"), s)
    | some desired, some observed =>
      match windowTarget m ask.seconds s with
      | .error why => (.error why, s)
      | .ok target =>
        let seen := (m.observe s.kernel s.desired).getD observed
        let s := { s with observed := some seen }
        match m.plan (ask.options docs m target) desired seen with
        | .error why => (.error ("this machine could not be planned for: " ++ why), s)
        | .ok p =>
          match m.executor with
          | .error why => (.error ("cannot start an apply: " ++ why), s)
          | .ok e =>
            let (journal, s) := applyPlan .request e p desired s
            (.ok journal, finishApply docs m p journal ask.seconds target s)

/-- `what_the_window_covered` : the desired document, where it is still the one the window
was opened for. -/
def whatTheWindowCovered (s : Daemon Doc Obs σ) : Option Doc :=
  match s.armed.bind Armed.document with
  | none => s.desired
  | some covered => s.desired.filter fun d => docs.hash d = covered

/-- `ncfg_daemon_confirm_request`. -/
def confirmRequest (s : Daemon Doc Obs σ) : Except String Unit × Daemon Doc Obs σ :=
  keep (whatTheWindowCovered docs s) s

/-- `ncfg_daemon_revert_request`. -/
def revertRequest (s : Daemon Doc Obs σ) : Except String Unit × Daemon Doc Obs σ :=
  match s.window with
  | none => (.error "no confirm window is open", s)
  | some _ =>
    match m.executor with
    | .error why => (.error ("cannot start a revert: " ++ why), s)
    | .ok e => revert docs m .revert e s

/-! ## The pass -/

/-- `ncfg_reconcile_wake_t`. -/
structure Wake where
  kernelChanged : Bool := false
  configChanged : Bool := false
  confirmExpired : Bool := false
  ticked : Bool := false
  deriving DecidableEq, Repr

/-- A request waiting for its answer while a pass runs : an apply with the window it asks
for, or another kind. -/
inductive Waiting
  | apply (confirm : Option ℤ)
  | other
  deriving DecidableEq, Repr

/-- `ncfg_reconcile_looks`. -/
def looks (wake : Wake) (probesChanged : Bool) : Bool :=
  wake.kernelChanged || wake.configChanged || wake.ticked || probesChanged

/-- `ncfg_reconcile_should_resolve_window`. -/
def shouldResolveWindow (wake : Wake) : Bool :=
  wake.confirmExpired || wake.ticked

/-- `ncfg_reconcile_window_requested`. -/
def windowRequested (requests : List Waiting) : Bool :=
  requests.any fun
    | .apply (some v) => 0 < v
    | _ => false

/-- `ncfg_reconcile_releases_hold`. -/
def releasesHold (requests : List Waiting) : Bool :=
  requests.any fun
    | .apply _ => true
    | .other => false

/-- `ncfg_reconcile_defers`. -/
def defers (s : Daemon Doc Obs σ) (requests : List Waiting) : Bool :=
  s.window.isSome || windowRequested requests

/-- `ncfg_daemon_state_reload` of what the configuration directory compiles to. -/
def stateReload (compiled : Except String Doc) (s : Daemon Doc Obs σ) :
    Except String Unit × Daemon Doc Obs σ :=
  match compiled with
  | .error why => (.error why, { s with diagnostics := some why })
  | .ok document =>
    if s.rejected = some (docs.hash document) then
      (.error ("this configuration was reverted away from and has not changed since; edit " ++
        "it to try again"), s)
    else
      (.ok (), { s with desired := some document, diagnostics := none, rejected := none })

/-- `reload` : whether the desired document moved. -/
def reload (compiled : Except String Doc) (s : Daemon Doc Obs σ) : Bool × Daemon Doc Obs σ :=
  let s' := (stateReload docs compiled s).2
  (decide (s.desired.map docs.hash ≠ s'.desired.map docs.hash), s')

/-- `resolve_window` : a window that has expired is reverted. -/
def resolveWindow (s : Daemon Doc Obs σ) : Daemon Doc Obs σ :=
  match s.window with
  | none => s
  | some w =>
    if w.expiredAt m.clock then
      match m.executor with
      | .error _ => s
      | .ok e => (revert docs m .expiry e s).2
    else s

/-- `ncfg_arm_t`. -/
inductive Arm
  | yes
  | notAChange
  | noWindow
  | refused
  | emptyLastGood
  deriving DecidableEq, Repr

/-- `ncfg_reconcile_arms`. -/
def arms (configIsNew : Bool) (window : Option ℤ) (lastGood : Option Doc) : Arm :=
  if configIsNew then
    match window with
    | none => .noWindow
    | some v =>
      if v ≤ 0 then .noWindow
      else
        match lastGood with
        | none => .refused
        | some lastGood => if docs.isEmpty lastGood then .emptyLastGood else .yes
  else .notAChange

/-- `decide_arming` : the seconds of the window and what it reverts to, where one is to be
opened. -/
def decideArming (configIsNew : Bool) (desired : Doc) (s : Daemon Doc Obs σ) :
    Option (ℕ × Doc) :=
  let window := planConfirmWindow docs desired {}
  let lastGood :=
    if configIsNew ∧ window.any (fun v => 0 < v) then (mayArm m s).toOption else none
  match arms docs configIsNew window lastGood, window, lastGood with
  | .yes, some v, some lastGood => some ((v % 2 ^ 32).toNat, lastGood)
  | _, _, _ => none

/-- `reconcile_drift` : run what the restriction leaves of the plan. -/
def reconcileDrift (configIsNew : Bool) (p : Plan) (desired : Doc) (observed : Obs)
    (s : Daemon Doc Obs σ) : Daemon Doc Obs σ :=
  match m.restrict p desired observed with
  | .error _ => s
  | .ok restricted =>
    if restricted.actions = [] then s
    else
      let arming := decideArming docs m configIsNew desired s
      match m.executor with
      | .error _ => s
      | .ok e =>
        let (journal, s) := applyPlan .drift e restricted desired s
        match arming with
        | some (seconds, lastGood) =>
          armWindow docs m restricted journal seconds lastGood (reobserve m s)
        | none => reobserve m s

/-- `look`, from the observation to the reconcile. -/
def look (configIsNew : Bool) (requests : List Waiting) (s : Daemon Doc Obs σ) :
    Daemon Doc Obs σ :=
  let s := reobserve m s
  match s.desired, s.observed with
  | some desired, some observed =>
    match m.plan { cycle := m.cycle } desired observed with
    | .error _ => s
    | .ok p =>
      if s.holding then s
      else if defers s requests then s
      else reconcileDrift docs m configIsNew p desired observed s
  | _, _ => s

/-- What a pass is given. -/
structure PassInput (Doc : Type*) where
  wake : Wake
  requests : List Waiting := []
  /-- What the configuration directory compiles to. -/
  compiled : Except String Doc
  probesChanged : Bool := false

/-- The first half of a pass, the window and the reload : whether the desired document
moved. -/
def resolveAndReload (input : PassInput Doc) (s : Daemon Doc Obs σ) :
    Bool × Daemon Doc Obs σ :=
  let s := if shouldResolveWindow input.wake then resolveWindow docs m s else s
  if input.wake.configChanged then reload docs input.compiled s else (false, s)

def release (requests : List Waiting) (s : Daemon Doc Obs σ) : Daemon Doc Obs σ :=
  if s.holding && releasesHold requests then { s with holding := false } else s

/-- `ncfg_reconcile_pass`. -/
def pass (input : PassInput Doc) (s : Daemon Doc Obs σ) : Daemon Doc Obs σ :=
  let (configIsNew, s) := resolveAndReload docs m input s
  release input.requests (if looks input.wake input.probesChanged then
    look docs m configIsNew input.requests s else s)

/-! ## The start -/

/-- `ncfg_reconcile_converge` : the startup apply, whose document is recorded where every
action was accepted. -/
def converge (s : Daemon Doc Obs σ) : Daemon Doc Obs σ :=
  match s.desired with
  | none => s
  | some desired =>
    let s := reobserve m s
    match s.observed with
    | none => s
    | some observed =>
      match m.executor with
      | .error _ => s
      | .ok e =>
        match m.plan {} desired observed with
        | .error _ => s
        | .ok p =>
          let (journal, s) := applyPlan .startup e p desired s
          let s := reobserve m s
          if journal.succeeded then writeLastGood desired s else s

/-! ## Steps -/

/-- What may happen to a daemon. -/
inductive Step (Doc Obs σ : Type*)
  | apply (ask : Ask) (m : Moment Doc Obs σ)
  | confirm
  | revert (m : Moment Doc Obs σ)
  | pass (input : PassInput Doc) (m : Moment Doc Obs σ)

/-- One step of the daemon. -/
def step (s : Daemon Doc Obs σ) : Step Doc Obs σ → Daemon Doc Obs σ
  | .apply ask m => (applyRequest docs m ask s).2
  | .confirm => (confirmRequest docs s).2
  | .revert m => (revertRequest docs m s).2
  | .pass input m => pass docs m input s

/-- What happens to a daemon from its start on. -/
inductive Operation (Doc Obs σ : Type*)
  | reload (compiled : Except String Doc)
  | converge (m : Moment Doc Obs σ)
  | step (l : Step Doc Obs σ)

/-- One operation on the daemon's state, from outside or within a pass. -/
def operate (s : Daemon Doc Obs σ) : Operation Doc Obs σ → Daemon Doc Obs σ
  | .reload compiled => (stateReload docs compiled s).2
  | .converge m => converge m s
  | .step l => step docs s l

/-- A daemon whose run directory holds no window, before it has done anything. -/
def unwatched (s : Daemon Doc Obs σ) : Daemon Doc Obs σ :=
  { s with window := none, armed := none, log := [] }

/-! ## A daemon to run by hand -/

/-- Documents that are their own text, each asking for a window of a minute. -/
def textDocuments : DocumentModel String where
  hash := id
  empty := ""
  confirmDefault _ := some 60

/-- A machine where every document is one op away, whose executor answers every op alike. -/
def oneOpMoment (answer : Except String Unit) : Moment String Unit Unit where
  observe _ _ := some ()
  plan _ d _ := .ok (Plan.empty.add (.linkUp d) ⟨some d, "link", "up", "down"⟩ [] none)
  restrict p _ _ := .ok p
  executor := .ok ⟨fun s _ => (answer, s)⟩
  clock := ⟨0, 0⟩
  cycle := []

/-- A daemon that holds a document and nothing else has happened to. -/
def holdingText (document : String) (lastGood : String) : Daemon String Unit Unit where
  desired := some document
  observed := some ()
  diagnostics := none
  rejected := none
  armed := none
  holding := false
  window := none
  lastGood := some lastGood
  kernel := ()
  log := []

end Daemon

end Netcfgd
