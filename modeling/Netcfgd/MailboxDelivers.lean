import Netcfgd.Mailbox

/-!
# The mailbox delivers once

What holds in every state of a run of the mailbox, by a predicate for each thread (`WaiterOk`), one
for where the loop is (`PhaseOk`) and one for the log (`LogOk`), each kept by every step.
-/

namespace Netcfgd.Mailbox

variable {ρ π β κ : Type*} {calls : ℕ → Call ρ π β} {capacity : ℕ}

/-! ## What the log says -/

/-- What came of a thread's request, where this is its delivery. -/
def Event.handedOf (i : ℕ) : Event ρ π β κ → Option (Answered κ)
  | .handed owner _ outcome => if owner = i then some outcome else none
  | _ => none

def Event.returnedOf (i : ℕ) : Event ρ π β κ → Option (Reply κ)
  | .returned owner reply => if owner = i then some reply else none
  | _ => none

def Event.givenOf : Event ρ π β κ → Option (List (ℕ × ρ))
  | .given requests => some requests
  | _ => none

/-- What was handed for a caller. -/
def State.handedTo (s : State ρ π β κ) (i : ℕ) : List (Answered κ) :=
  s.log.filterMap (Event.handedOf i)

/-- What a caller got back. -/
def State.returnedBy (s : State ρ π β κ) (i : ℕ) : List (Reply κ) :=
  s.log.filterMap (Event.returnedOf i)

def State.WasPlaced (s : State ρ π β κ) (i : ℕ) : Prop := .placed i ∈ s.log

def lastGiven (log : List (Event ρ π β κ)) : Option (List (ℕ × ρ)) :=
  (log.filterMap Event.givenOf).getLast?

/-- What the seam came to for a slot the loop has not answered yet. -/
def Phase.outcomeAt (k : Fin pendingMax) : Phase ρ π β κ → Option (Answered κ)
  | .delivered _ at_ outcome => if at_ = k then some outcome else none
  | _ => none

def Call.isRequest : Call ρ π β → Option ρ
  | .answer request .. => some request
  | .stream .. => none

/-! ## Invariants -/

/-- A slot holds a thread's call, and what came of it. -/
structure SlotOk (call : Call ρ π β) (deliveries : List (Answered κ))
    (outcome : Option (Answered κ))
    (w : Waiting ρ π β κ) : Prop where
  inUse : w.inUse = true
  request : w.request = call.isRequest
  handed : w.handed = call.handed
  /-- Not answered : handed over once where the seam was called, and else not yet. -/
  open_ : w.answered = false → w.afterReady = false ∧ deliveries = outcome.toList ∧
    w.after = outcome.bind Answered.after
  /-- Answered by `shut` and not handed over, or with what the seam came to. -/
  closed : w.answered = true → deliveries = [] ∧ w.result = some .shuttingDown ∧ w.ready = none ∨
    ∃ o, deliveries = [o] ∧ w.result = some (.came o.result) ∧ w.ready = o.after

def WaiterOk (calls : ℕ → Call ρ π β) (s : State ρ π β κ) (i : ℕ) : Prop :=
  match s.waiters i with
  | .outside => s.handedTo i = [] ∧ s.returnedBy i = [] ∧ ¬s.WasPlaced i
  | .placed k | .waiting k => (s.slots k).owner = i ∧ s.returnedBy i = [] ∧
      SlotOk (calls i) (s.handedTo i) (s.phase.outcomeAt k) (s.slots k)
  | .working comes => s.returnedBy i = [] ∧ ∃ o, s.handedTo i = [o] ∧ o.after = some comes
  | .returned reply => s.returnedBy i = [reply] ∧
      (s.handedTo i = [] ∧ (reply = .shuttingDown ∨ reply = .full ∧ ¬s.WasPlaced i) ∨
        ∃ o, s.handedTo i = [o] ∧ reply = .came o.final)

def Waiting.Pending (w : Waiting ρ π β κ) : Prop :=
  w.inUse = true ∧ w.taken = true ∧ w.answered = false

def GivenTo (given : List (ℕ × ρ)) (w : Waiting ρ π β κ) : Prop :=
  ∀ r, w.request = some r → (w.owner, r) ∈ given

/-- The slots from one on may be taken and not answered, their requests being with the pass. -/
def PendingFrom (s : State ρ π β κ) (given : List (ℕ × ρ)) (at_ : ℕ) : Prop :=
  ∀ k, (s.slots k).Pending → at_ ≤ k.val ∧ GivenTo given (s.slots k)

def PhaseOk (s : State ρ π β κ) : Prop :=
  match s.phase with
  | .waiting | .looking => ∀ k, ¬(s.slots k).Pending
  | .passing given => PendingFrom s given 0
  | .settling given at_ => PendingFrom s given at_ ∧ lastGiven s.log = some given
  | .delivering given k owner what => PendingFrom s given k ∧ lastGiven s.log = some given ∧
      (s.slots k).Pending ∧ (s.slots k).owner = owner ∧ (s.slots k).handed = what
  | .delivered given k _ => PendingFrom s given k ∧ lastGiven s.log = some given ∧
      (s.slots k).Pending

/-- What was given are requests of their callers. -/
def RequestsOf (calls : ℕ → Call ρ π β) (given : List (ℕ × ρ)) : Prop :=
  ∀ p ∈ given, (calls p.1).isRequest = some p.2

/-- A request is handed over as its thread made it, after a pass that was given it. -/
def LogOk (calls : ℕ → Call ρ π β) (log : List (Event ρ π β κ)) : Prop :=
  (∀ given, .given given ∈ log → RequestsOf calls given) ∧
    ∀ before i what outcome after, log = before ++ Event.handed i what outcome :: after →
      what = (calls i).handed ∧ ∀ r, (calls i).isRequest = some r →
        ∃ given, lastGiven before = some given ∧ (i, r) ∈ given

def Phase.requests : Phase ρ π β κ → List (ℕ × ρ)
  | .passing given | .settling given _ | .delivering given _ _ _ | .delivered given _ _ => given
  | .waiting | .looking => []

/-- A request that waits and whose thread has nudged has a byte in the pipe, but while the loop
looks. -/
def PipeOk (s : State ρ π β κ) : Prop :=
  (s.phase matches .looking) ∨ ∀ k, (s.slots k).waits = true →
    s.waiters (s.slots k).owner = .waiting k → 0 < s.pipe

/-- The invariant of the mailbox. -/
structure Inv (calls : ℕ → Call ρ π β) (s : State ρ π β κ) : Prop where
  waiters : ∀ i, WaiterOk calls s i
  owners : ∀ k, (s.slots k).inUse = true →
    s.waiters (s.slots k).owner = .placed k ∨ s.waiters (s.slots k).owner = .waiting k
  phase : PhaseOk s
  requests : RequestsOf calls s.phase.requests
  log : LogOk calls s.log
  pipe : PipeOk s

/-! ## What a step leaves alone -/

def Waiter.Has (w : Waiter κ) (k : Fin pendingMax) : Prop := w = .placed k ∨ w = .waiting k

/-- The slot of a caller is its own, and nothing has come back yet. -/
theorem WaiterOk.slot {s : State ρ π β κ} {i : ℕ} {k : Fin pendingMax} (h : WaiterOk calls s i)
    (hk : (s.waiters i).Has k) : (s.slots k).owner = i ∧ s.returnedBy i = [] ∧
      SlotOk (calls i) (s.handedTo i) (s.phase.outcomeAt k) (s.slots k) := by
  rw [WaiterOk] at h
  rcases hk with hk | hk
  · rwa [hk] at h
  · rwa [hk] at h

theorem WaiterOk.of_slot {s : State ρ π β κ} {i : ℕ} {k : Fin pendingMax}
    (hk : (s.waiters i).Has k) (howner : (s.slots k).owner = i) (hreturned : s.returnedBy i = [])
    (hslot : SlotOk (calls i) (s.handedTo i) (s.phase.outcomeAt k) (s.slots k)) :
    WaiterOk calls s i := by
  rw [WaiterOk]
  rcases hk with hk | hk
  · rw [hk]
    exact ⟨howner, hreturned, hslot⟩
  · rw [hk]
    exact ⟨howner, hreturned, hslot⟩

theorem WaiterOk.congr {s s' : State ρ π β κ} {i : ℕ} (h : WaiterOk calls s i)
    (hwaiter : s'.waiters i = s.waiters i) (hreturned : s'.returnedBy i = s.returnedBy i)
    (hplaced : s'.WasPlaced i ↔ s.WasPlaced i)
    (hhanded : (∀ k, ¬(s.waiters i).Has k) → s'.handedTo i = s.handedTo i)
    (hslot : ∀ k, (s.waiters i).Has k → (s.slots k).owner = i →
      SlotOk (calls i) (s.handedTo i) (s.phase.outcomeAt k) (s.slots k) →
      (s'.slots k).owner = i ∧
        SlotOk (calls i) (s'.handedTo i) (s'.phase.outcomeAt k) (s'.slots k)) :
    WaiterOk calls s' i := by
  by_cases hhas : ∃ k, (s.waiters i).Has k
  · obtain ⟨k, hk⟩ := hhas
    obtain ⟨howner, hret, hok⟩ := h.slot hk
    obtain ⟨howner', hok'⟩ := hslot k hk howner hok
    exact .of_slot (hwaiter ▸ hk) howner' (hreturned.trans hret) hok'
  · have hhanded := hhanded fun k hk => hhas ⟨k, hk⟩
    rw [WaiterOk] at h ⊢
    rw [hwaiter, hreturned, hhanded, hplaced]
    cases hw : s.waiters i with
    | outside => rwa [hw] at h
    | placed k => exact absurd ⟨k, .inl hw⟩ hhas
    | waiting k => exact absurd ⟨k, .inr hw⟩ hhas
    | working comes => rwa [hw] at h
    | returned reply => rwa [hw] at h

theorem PhaseOk.congr {s s' : State ρ π β κ} (h : PhaseOk s) (hphase : s'.phase = s.phase)
    (hlog : lastGiven s'.log = lastGiven s.log)
    (hslots : ∀ k, (s.slots k).Pending ∨ (s'.slots k).Pending → s'.slots k = s.slots k) :
    PhaseOk s' := by
  have hpending : ∀ k, (s'.slots k).Pending → (s.slots k).Pending := fun k hk =>
    (hslots k (.inr hk)) ▸ hk
  have hfrom : ∀ given at_, PendingFrom s given at_ → PendingFrom s' given at_ :=
    fun given at_ hfrom k hk => (hslots k (.inr hk)) ▸ hfrom k (hpending k hk)
  rw [PhaseOk] at h ⊢
  rw [hphase]
  cases hp : s.phase with
  | waiting =>
    rw [hp] at h
    exact fun k hk => h k (hpending k hk)
  | looking =>
    rw [hp] at h
    exact fun k hk => h k (hpending k hk)
  | passing given =>
    rw [hp] at h
    exact hfrom given 0 h
  | settling given at_ =>
    rw [hp] at h
    exact ⟨hfrom given at_ h.1, hlog.trans h.2⟩
  | delivering given k owner what =>
    rw [hp] at h
    obtain ⟨hall, hlast, hk, howner, hwhat⟩ := h
    dsimp only
    rw [hslots k (.inl hk)]
    exact ⟨hfrom given k hall, hlog.trans hlast, hk, howner, hwhat⟩
  | delivered given k outcome =>
    rw [hp] at h
    obtain ⟨hall, hlast, hk⟩ := h
    dsimp only
    rw [hslots k (.inl hk)]
    exact ⟨hfrom given k hall, hlog.trans hlast, hk⟩

@[simp] theorem handedTo_returns (s : State ρ π β κ) (i j : ℕ) (reply : Reply κ) :
    (s.returns i reply).handedTo j = s.handedTo j := by
  rw [State.handedTo, State.returns, List.filterMap_append]
  exact List.append_nil _

@[simp] theorem wasPlaced_returns (s : State ρ π β κ) (i j : ℕ) (reply : Reply κ) :
    (s.returns i reply).WasPlaced j ↔ s.WasPlaced j := by
  simp [State.WasPlaced, State.returns]

theorem returnedBy_returns (s : State ρ π β κ) (i j : ℕ) (reply : Reply κ) :
    (s.returns i reply).returnedBy j = s.returnedBy j ++ if i = j then [reply] else [] := by
  rw [State.returnedBy, State.returns, List.filterMap_append, State.returnedBy]
  by_cases h : i = j <;> simp [Event.returnedOf, h]

@[simp] theorem lastGiven_returned (log : List (Event ρ π β κ)) (i : ℕ) (reply : Reply κ) :
    lastGiven (log ++ [Event.returned i reply]) = lastGiven log := by
  rw [lastGiven, List.filterMap_append]
  exact congrArg List.getLast? (List.append_nil _)

theorem logOk_append {log : List (Event ρ π β κ)} {e : Event ρ π β κ} (h : LogOk calls log)
    (hgiven : ∀ given, e = .given given → RequestsOf calls given)
    (hhanded : ∀ i what outcome, e = .handed i what outcome →
      what = (calls i).handed ∧ ∀ r, (calls i).isRequest = some r →
        ∃ given, lastGiven log = some given ∧ (i, r) ∈ given) : LogOk calls (log ++ [e]) := by
  refine ⟨fun given hin => ?_, fun before i what outcome after heq => ?_⟩
  · rcases List.mem_append.1 hin with hin | hin
    · exact h.1 given hin
    · exact hgiven given (List.mem_singleton.1 hin).symm
  · rcases List.eq_nil_or_concat after with rfl | ⟨after', last, rfl⟩
    · obtain ⟨rfl, he⟩ := List.append_inj' heq rfl
      exact hhanded i what outcome (List.cons.inj he).1
    · rw [List.concat_eq_append, ← List.cons_append, ← List.append_assoc] at heq
      exact h.2 before i what outcome after' (List.append_inj' heq rfl).1

/-! ## Steps of the threads -/

/-- What a step of a thread leaves : the other threads, their slots and the loop. -/
structure ThreadStep (s s' : State ρ π β κ) (i : ℕ) : Prop where
  others : ∀ j, j ≠ i → s'.waiters j = s.waiters j
  slots : ∀ k, ¬(s.waiters i).Has k → ¬(s'.waiters i).Has k → s'.slots k = s.slots k
  phase : s'.phase = s.phase
  handed : ∀ j, s'.handedTo j = s.handedTo j
  returned : ∀ j, j ≠ i → s'.returnedBy j = s.returnedBy j
  placed : ∀ j, j ≠ i → (s'.WasPlaced j ↔ s.WasPlaced j)
  last : lastGiven s'.log = lastGiven s.log
  free : ∀ k, (s'.waiters i).Has k → (s.waiters i).Has k ∨ (s.slots k).inUse = false
  /-- A slot it had or has is in use only while it has it. -/
  own : ∀ k, (s.waiters i).Has k ∨ (s'.waiters i).Has k → (s'.slots k).inUse = true →
    (s'.slots k).owner = i ∧ (s'.waiters i).Has k
  pending : ∀ k, (s.waiters i).Has k ∨ (s'.waiters i).Has k →
    (s.slots k).Pending ∨ (s'.slots k).Pending → s'.slots k = s.slots k

/-- What each action is taken in, and what it makes. -/
inductive Stepped (calls : ℕ → Call ρ π β) (capacity : ℕ) (s : State ρ π β κ) :
    Action κ → State ρ π β κ → Prop
  | place {i} (hi : s.waiters i = .outside) : Stepped calls capacity s (.place i) (s.place calls i)
  | nudge {i k} (hi : s.waiters i = .placed k) :
      Stepped calls capacity s (.nudge i) (s.nudge capacity i k)
  | wake {i k reply} (hi : s.waiters i = .waiting k) (hanswered : (s.slots k).answered = true)
      (hresult : (s.slots k).result = some reply) :
      Stepped calls capacity s (.wake i) (s.wake i k reply)
  | finish {i comes} (hi : s.waiters i = .working comes) :
      Stepped calls capacity s (.finish i) (s.returns i (.came comes))
  | look (hphase : s.phase = .waiting) : Stepped calls capacity s .look { s with phase := .looking }
  | drain {bytes} (hphase : s.phase = .looking) :
      Stepped calls capacity s (.drain bytes) { s with pipe := s.pipe - bytes }
  | take (hphase : s.phase = .looking) : Stepped calls capacity s .take s.take
  | pass {given} (hphase : s.phase = .passing given) :
      Stepped calls capacity s .pass
        { s with phase := .settling given 0, log := s.log ++ [.given given] }
  | visit {given at_} (hphase : s.phase = .settling given at_) (hlt : at_ < pendingMax) :
      Stepped calls capacity s .visit (s.visit given ⟨at_, hlt⟩)
  | settled {given at_} (hphase : s.phase = .settling given at_) (hlt : ¬at_ < pendingMax) :
      Stepped calls capacity s .visit { s with phase := .waiting }
  | deliver {outcome given k owner what} (hphase : s.phase = .delivering given k owner what) :
      Stepped calls capacity s (.deliver outcome) (s.deliver given k owner what outcome)
  | settle {given k outcome} (hphase : s.phase = .delivered given k outcome) :
      Stepped calls capacity s .settle (s.settle given k outcome)
  | shut (hphase : s.phase = .waiting) :
      Stepped calls capacity s .shut { s with shut := true, slots := fun k => (s.slots k).shut }

variable {s s' : State ρ π β κ} {given : List (ℕ × ρ)} {i : ℕ} {k : Fin pendingMax}

theorem Inv.has (h : Inv calls s)
    (hk : (s.slots k).inUse = true) : (s.waiters (s.slots k).owner).Has k := h.owners k hk

theorem Inv.same (h : Inv calls s) {i j : ℕ}
    (hi : (s.waiters i).Has k) (hj : (s.waiters j).Has k) : i = j :=
  ((h.waiters i).slot hi).1.symm.trans ((h.waiters j).slot hj).1

theorem inv_thread (h : Inv calls s) (hstep : ThreadStep s s' i)
    (hi : WaiterOk calls s' i) (hlog : LogOk calls s'.log) (hpipe : PipeOk s') : Inv calls s' := by
  have hkept : ∀ j k, j ≠ i → (s.waiters j).Has k → s'.slots k = s.slots k := by
    intro j k hj hk
    refine hstep.slots k (fun hik => hj (h.same hk hik)) fun hik => ?_
    rcases hstep.free k hik with hold | hfree
    · exact hj (h.same hk hold)
    · have hin := ((h.waiters j).slot hk).2.2.inUse
      rw [hfree] at hin
      cases hin
  refine ⟨fun j => ?_, fun k hk => ?_, ?_, by rw [hstep.phase]; exact h.requests, hlog, hpipe⟩
  · by_cases hj : j = i
    · exact hj ▸ hi
    · refine (h.waiters j).congr (hstep.others j hj) (hstep.returned j hj)
        (hstep.placed j hj) (fun _ => hstep.handed j) fun k hk howner hok => ?_
      rw [hkept j k hj hk, hstep.handed, hstep.phase]
      exact ⟨howner, hok⟩
  · by_cases hik : (s.waiters i).Has k ∨ (s'.waiters i).Has k
    · obtain ⟨howner, hhas⟩ := hstep.own k hik hk
      rw [howner]
      exact hhas
    · rw [not_or] at hik
      rw [hstep.slots k hik.1 hik.2] at hk ⊢
      have hhas := h.has hk
      rw [hstep.others _ fun heq => hik.1 (heq ▸ hhas)]
      exact hhas
  · refine h.phase.congr hstep.phase hstep.last fun k hk => ?_
    by_cases hik : (s.waiters i).Has k ∨ (s'.waiters i).Has k
    · exact hstep.pending k hik hk
    · rw [not_or] at hik
      exact hstep.slots k hik.1 hik.2

theorem PipeOk.thread (h : PipeOk s) (hphase : s'.phase = s.phase)
    (hpipe : s'.pipe = s.pipe) (hothers : ∀ j, j ≠ i → s'.waiters j = s.waiters j)
    (hi : ∀ k, s'.waiters i ≠ .waiting k)
    (hslots : ∀ k, (s'.slots k).owner ≠ i → s'.slots k = s.slots k) : PipeOk s' := by
  rcases h with hlook | hall
  · exact .inl (hphase ▸ hlook)
  · refine .inr fun k hwaits hwaiting => ?_
    have howner : (s'.slots k).owner ≠ i := fun heq => hi k (heq ▸ hwaiting)
    rw [hothers _ howner, hslots k howner] at hwaiting
    rw [hslots k howner] at hwaits
    rw [hpipe]
    exact hall k hwaits hwaiting

theorem inv_returns {reply : Reply κ} (h : Inv calls s)
    (hfree : ∀ k, ¬(s.waiters i).Has k) (hreturned : s.returnedBy i = [])
    (hreply : s.handedTo i = [] ∧ (reply = .shuttingDown ∨ reply = .full ∧ ¬s.WasPlaced i) ∨
      ∃ o, s.handedTo i = [o] ∧ reply = .came o.final) : Inv calls (s.returns i reply) := by
  have hself : (s.returns i reply).waiters i = .returned reply := Function.update_self ..
  have hnone : ∀ k, ¬((s.returns i reply).waiters i).Has k := fun k hk => by
    rw [hself] at hk
    rcases hk with hk | hk <;> cases hk
  have hothers : ∀ j, j ≠ i → (s.returns i reply).waiters j = s.waiters j :=
    fun j hj => Function.update_of_ne hj ..
  refine inv_thread h ⟨hothers, fun _ _ _ => rfl, rfl, fun j => handedTo_returns .., fun j hj => ?_,
    fun j _ => wasPlaced_returns .., lastGiven_returned .., fun k hk => absurd hk (hnone k),
    fun k hk => ?_, fun _ _ _ => rfl⟩ ?_ ?_
    (h.pipe.thread rfl rfl hothers (fun k hk => hnone k (.inr hk)) fun _ _ => rfl)
  · rw [returnedBy_returns, if_neg hj.symm, List.append_nil]
  · exact absurd hk (not_or.2 ⟨hfree k, hnone k⟩)
  · rw [WaiterOk, hself]
    dsimp only
    rw [returnedBy_returns, if_pos rfl, hreturned, handedTo_returns, wasPlaced_returns]
    exact ⟨rfl, hreply⟩
  · exact logOk_append h.log (fun _ he => nomatch he) fun _ _ _ he => nomatch he

theorem fill_ok (i : ℕ) (call : Call ρ π β) :
    SlotOk call [] none (.fill i call : Waiting ρ π β κ) ∧
      (.fill i call : Waiting ρ π β κ).owner = i ∧ ¬(.fill i call : Waiting ρ π β κ).Pending := by
  cases call <;>
    exact ⟨⟨rfl, rfl, rfl, fun _ => ⟨rfl, rfl, rfl⟩, fun h => nomatch h⟩, rfl, fun h =>
      nomatch h.2.1⟩

theorem outcomeAt_of_not_pending (h : PhaseOk s)
    (hk : ¬(s.slots k).Pending) : s.phase.outcomeAt k = none := by
  rw [PhaseOk] at h
  cases hp : s.phase with
  | delivered given at_ outcome =>
    rw [hp] at h
    rw [Phase.outcomeAt, if_neg]
    rintro rfl
    exact hk h.2.2
  | waiting | looking | passing | settling | delivering => rfl

theorem inv_place (h : Inv calls s) (hi : s.waiters i = .outside) :
    Inv calls (s.place calls i) := by
  have hfree : ∀ k, ¬(s.waiters i).Has k := fun k hk => by
    rw [hi] at hk
    rcases hk with hk | hk <;> cases hk
  have hnew := h.waiters i
  rw [WaiterOk, hi] at hnew
  obtain ⟨hhanded, hreturned, hnever⟩ := hnew
  unfold State.place
  split_ifs
  · exact inv_returns h hfree hreturned (.inl ⟨hhanded, .inl rfl⟩)
  · cases hslot : s.slotToWaitIn with
    | none => exact inv_returns h hfree hreturned (.inl ⟨hhanded, .inr ⟨rfl, hnever⟩⟩)
    | some k =>
      have hk : (s.slots k).inUse = false := by
        have := List.find?_some hslot
        simpa using this
      have hnot : ¬(s.slots k).Pending := fun hp => by
        rw [hp.1] at hk
        cases hk
      obtain ⟨hok, howner, hfresh⟩ := fill_ok (κ := κ) i (calls i)
      set s' : State ρ π β κ := { s with
        slots := Function.update s.slots k (.fill i (calls i))
        waiters := Function.update s.waiters i (.placed k)
        log := s.log ++ [.placed i] }
      change Inv calls s'
      have hself : s'.waiters i = .placed k := Function.update_self ..
      have hat : s'.slots k = .fill i (calls i) := Function.update_self ..
      have hothers : ∀ j, j ≠ i → s'.waiters j = s.waiters j :=
        fun j hj => Function.update_of_ne hj ..
      have hhas : ∀ k', (s'.waiters i).Has k' → k' = k := fun k' hk' => by
        rw [hself] at hk'
        rcases hk' with hk' | hk'
        · exact (Waiter.placed.inj hk').symm
        · cases hk'
      have hslots : ∀ k', k' ≠ k → s'.slots k' = s.slots k' :=
        fun k' hk' => Function.update_of_ne hk' ..
      have hdeliveries : ∀ j, s'.handedTo j = s.handedTo j := fun j =>
        (List.filterMap_append ..).trans (List.append_nil _)
      have hreturns : ∀ j, s'.returnedBy j = s.returnedBy j := fun j =>
        (List.filterMap_append ..).trans (List.append_nil _)
      refine inv_thread h ⟨hothers, fun k' _ hk' => hslots k' fun heq => hk' (.inl (heq ▸ hself)),
        rfl, hdeliveries, fun j _ => hreturns j, fun j hj => ?_, ?_,
        fun k' hk' => .inr (hhas k' hk' ▸ hk), fun k' hk' _ => ?_, fun k' hk' hp => ?_⟩
        (.of_slot (k := k) (.inl hself) ?_ ((hreturns i).trans hreturned) ?_)
        (logOk_append h.log (fun _ he => nomatch he) fun _ _ _ he => nomatch he)
        (h.pipe.thread rfl rfl hothers ?_ fun k' hk' => hslots k' ?_)
      · have hne : ¬j = i := hj
        simp [State.WasPlaced, s', hne]
      · exact congrArg List.getLast? ((List.filterMap_append ..).trans (List.append_nil _))
      · rw [hhas k' (hk'.resolve_left (hfree k')), hat]
        exact ⟨howner, .inl hself⟩
      · obtain rfl := hhas k' (hk'.resolve_left (hfree k'))
        rw [hat] at hp
        exact absurd hp (not_or.2 ⟨hnot, hfresh⟩)
      · rw [hat]
        exact howner
      · rw [hat]
        have hout : s'.phase.outcomeAt k = none :=
          outcomeAt_of_not_pending (s := s) h.phase hnot
        have hnone : s'.handedTo i = [] := (hdeliveries i).trans hhanded
        rw [hout, hnone]
        exact hok
      · intro k' hk'
        rw [hself] at hk'
        cases hk'
      · rintro rfl
        rw [hat] at hk'
        exact hk' howner

theorem inv_nudge (h : Inv calls s)
    (hcap : 0 < capacity) (hi : s.waiters i = .placed k) :
    Inv calls (s.nudge capacity i k) := by
  have hself : (s.nudge capacity i k).waiters i = .waiting k := Function.update_self ..
  have hothers : ∀ j, j ≠ i → (s.nudge capacity i k).waiters j = s.waiters j :=
    fun j hj => Function.update_of_ne hj ..
  have hhas : ∀ k', ((s.nudge capacity i k).waiters i).Has k' ↔ (s.waiters i).Has k' := by
    intro k'
    rw [hself, hi]
    constructor
    · rintro (hk' | hk')
      · cases hk'
      · exact .inl (by rw [Waiter.waiting.inj hk'])
    · rintro (hk' | hk')
      · exact .inr (by rw [Waiter.placed.inj hk'])
      · cases hk'
  obtain ⟨howner, hreturned, hok⟩ := (h.waiters i).slot (.inl hi)
  refine inv_thread h ⟨hothers, fun _ _ _ => rfl, rfl, fun _ => rfl, fun _ _ => rfl,
    fun _ _ => Iff.rfl, rfl, fun k' hk' => .inl ((hhas k').1 hk'), fun k' hk' _ => ?_, fun _ _ _ =>
    rfl⟩
    (.of_slot (.inr hself) howner hreturned hok) h.log (.inr fun _ _ _ => ?_)
  · rw [hhas, or_self] at hk'
    exact ⟨((h.waiters i).slot hk').1, (hhas k').2 hk'⟩
  · rw [State.nudge]
    dsimp only
    split_ifs
    · exact Nat.succ_pos _
    · omega

theorem inv_wake {reply : Reply κ}
    (h : Inv calls s) (hi : s.waiters i = .waiting k) (hanswered : (s.slots k).answered = true)
    (hresult : (s.slots k).result = some reply) : Inv calls (s.wake i k reply) := by
  obtain ⟨howner, hreturned, hok⟩ := (h.waiters i).slot (.inr hi)
  have hclosed := hok.closed hanswered
  have hhas : ∀ k', (s.waiters i).Has k' → k' = k := fun k' hk' => by
    rw [hi] at hk'
    rcases hk' with hk' | hk'
    · cases hk'
    · exact (Waiter.waiting.inj hk').symm
  have hleave : ∀ s' : State ρ π β κ, s'.slots = Function.update s.slots k (s.slots k).left →
      (∃ w, s'.waiters = Function.update s.waiters i w) → (∀ k', ¬(s'.waiters i).Has k') →
      s'.phase = s.phase → s'.pipe = s.pipe → (∀ j, s'.handedTo j = s.handedTo j) →
      (∀ j, j ≠ i → s'.returnedBy j = s.returnedBy j) →
      (∀ j, s'.WasPlaced j ↔ s.WasPlaced j) → lastGiven s'.log = lastGiven s.log →
      LogOk calls s'.log → WaiterOk calls s' i → Inv calls s' := by
    intro s' hslots hwaiters hnone hphase hpipe hhanded hret hplaced hlast hlog hok'
    obtain ⟨w, hwaiters⟩ := hwaiters
    have hothers : ∀ j, j ≠ i → s'.waiters j = s.waiters j := fun j hj => by
      rw [hwaiters]
      exact Function.update_of_ne hj ..
    have hat : s'.slots k = (s.slots k).left := by
      rw [hslots]
      exact Function.update_self ..
    have helse : ∀ k', k' ≠ k → s'.slots k' = s.slots k' := fun k' hk' => by
      rw [hslots]
      exact Function.update_of_ne hk' ..
    refine inv_thread h ⟨hothers, fun k' hk' _ => helse k' fun heq => hk' (.inr (heq ▸ hi)), hphase,
      hhanded, hret, fun j _ => hplaced j, hlast, fun k' hk' => absurd hk' (hnone k'),
      fun k' hk' hin => ?_,
      fun k' hk' hp => ?_⟩ hok' hlog (h.pipe.thread hphase hpipe hothers
        (fun k' hk' => hnone k' (.inr hk')) fun k' hk' => helse k' ?_)
    · obtain rfl := hhas k' (hk'.resolve_right (hnone k'))
      rw [hat] at hin
      cases hin
    · obtain rfl := hhas k' (hk'.resolve_right (hnone k'))
      rw [hat] at hp
      rcases hp with hp | hp
      · rw [hp.2.2] at hanswered
        cases hanswered
      · cases hp.1
    · rintro rfl
      rw [hat] at hk'
      exact hk' howner
  unfold State.wake
  dsimp only
  cases hready : (s.slots k).ready with
  | some comes =>
    dsimp only
    refine hleave _ rfl ⟨_, rfl⟩ (fun k' hk' => ?_) rfl rfl (fun _ => rfl) (fun _ _ => rfl)
      (fun _ => Iff.rfl) rfl h.log ?_
    · dsimp only at hk'
      rw [Function.update_self] at hk'
      rcases hk' with hk' | hk' <;> cases hk'
    · rw [WaiterOk]
      dsimp only
      rw [Function.update_self]
      refine ⟨hreturned, ?_⟩
      rcases hclosed with ⟨-, -, hno⟩ | ⟨o, hone, -, hafter⟩
      · rw [hready] at hno
        cases hno
      · exact ⟨o, hone, hafter.symm.trans hready⟩
  | none =>
    dsimp only
    refine hleave _ rfl ⟨_, rfl⟩ (fun k' hk' => ?_) rfl rfl (fun j => handedTo_returns ..)
      (fun j hj => ?_) (fun j => wasPlaced_returns ..) (lastGiven_returned ..) ?_ ?_
    · rw [State.returns] at hk'
      dsimp only at hk'
      rw [Function.update_self] at hk'
      rcases hk' with hk' | hk' <;> cases hk'
    · rw [returnedBy_returns, if_neg hj.symm, List.append_nil]
      rfl
    · exact logOk_append h.log (fun _ he => nomatch he) fun _ _ _ he => nomatch he
    · rw [WaiterOk]
      have hself : ({ s with slots := Function.update s.slots k (s.slots k).left }.returns i
          reply).waiters i = .returned reply := Function.update_self ..
      rw [hself]
      dsimp only
      rw [returnedBy_returns, if_pos rfl, handedTo_returns]
      refine ⟨by rw [State.returnedBy] at hreturned ⊢; rw [hreturned]; rfl, ?_⟩
      rcases hclosed with ⟨hnone, hshut, -⟩ | ⟨o, hone, hcame, hafter⟩
      · rw [hshut] at hresult
        exact .inl ⟨hnone, .inl (Option.some.inj hresult).symm⟩
      · rw [hcame] at hresult
        refine .inr ⟨o, hone, ?_⟩
        rw [← Option.some.inj hresult, Answered.final, ← hafter, hready]
        rfl

/-! ## Steps of the loop -/

theorem inv_loop (h : Inv calls s) (hwaiters : s'.waiters = s.waiters)
    (hreturned : ∀ j, s'.returnedBy j = s.returnedBy j)
    (hplaced : ∀ j, s'.WasPlaced j ↔ s.WasPlaced j)
    (hhanded : ∀ j, (∀ k, ¬(s.waiters j).Has k) → s'.handedTo j = s.handedTo j)
    (hown : ∀ k, (s'.slots k).inUse = (s.slots k).inUse ∧ (s'.slots k).owner = (s.slots k).owner)
    (hslot : ∀ j k, (s.waiters j).Has k → (s.slots k).owner = j →
      SlotOk (calls j) (s.handedTo j) (s.phase.outcomeAt k) (s.slots k) →
      SlotOk (calls j) (s'.handedTo j) (s'.phase.outcomeAt k) (s'.slots k))
    (hphase : PhaseOk s') (hrequests : RequestsOf calls s'.phase.requests)
    (hlog : LogOk calls s'.log) (hpipe : PipeOk s') : Inv calls s' := by
  refine ⟨fun j => ?_, fun k hk => ?_, hphase, hrequests, hlog, hpipe⟩
  · refine (h.waiters j).congr (by rw [hwaiters]) (hreturned j) (hplaced j) (hhanded j)
      fun k hk howner hok => ⟨(hown k).2.trans howner, hslot j k hk howner hok⟩
  · rw [hwaiters, (hown k).2]
    exact h.owners k ((hown k).1 ▸ hk)

theorem Inv.slotOk (h : Inv calls s)
    (hk : (s.slots k).inUse = true) :
    SlotOk (calls (s.slots k).owner) (s.handedTo (s.slots k).owner) (s.phase.outcomeAt k)
      (s.slots k) :=
  ((h.waiters _).slot (h.has hk)).2.2

/-- No slot is pending while the loop waits or looks. -/
theorem not_pending_of_idle (h : PhaseOk s)
    (hphase : s.phase = .waiting ∨ s.phase = .looking) (k : Fin pendingMax) :
    ¬(s.slots k).Pending := by
  rw [PhaseOk] at h
  rcases hphase with hphase | hphase
  · rw [hphase] at h
    exact h k
  · rw [hphase] at h
    exact h k

theorem inv_look (h : Inv calls s) (hphase : s.phase = .waiting) :
    Inv calls { s with phase := .looking } := by
  have hidle := not_pending_of_idle h.phase (.inl hphase)
  refine inv_loop h rfl (fun _ => rfl) (fun _ => Iff.rfl) (fun _ _ => rfl) (fun _ => ⟨rfl, rfl⟩)
    (fun j k _ _ hok => ?_) (fun k => hidle k) ?_ h.log (.inl rfl)
  · rw [hphase] at hok
    exact hok
  · exact fun p hp => nomatch hp

theorem inv_drain (h : Inv calls s) (hphase : s.phase = .looking)
    (bytes : ℕ) : Inv calls { s with pipe := s.pipe - bytes } := by
  refine inv_loop h rfl (fun _ => rfl) (fun _ => Iff.rfl) (fun _ _ => rfl) (fun _ => ⟨rfl, rfl⟩)
    (fun j k _ _ hok => hok) (h.phase.congr rfl rfl fun _ _ => rfl) h.requests h.log (.inl ?_)
  rw [hphase]

theorem SlotOk.taken {call : Call ρ π β} {deliveries : List (Answered κ)}
    {outcome : Option (Answered κ)} {w : Waiting ρ π β κ} (h : SlotOk call deliveries outcome w) :
    SlotOk call deliveries outcome { w with taken := true } :=
  ⟨h.inUse, h.request, h.handed, h.open_, h.closed⟩

theorem take_slot (s : State ρ π β κ) (k : Fin pendingMax) :
    s.take.slots k = (if (s.slots k).waits then { s.slots k with taken := true } else s.slots k) :=
  rfl

theorem take_not_waits (s : State ρ π β κ) (k : Fin pendingMax) :
    (s.take.slots k).waits = false := by
  rw [take_slot]
  split_ifs with hwaits
  · simp [Waiting.waits]
  · exact Bool.eq_false_iff.2 hwaits

theorem inv_take (h : Inv calls s) (hphase : s.phase = .looking) :
    Inv calls s.take := by
  have hidle := not_pending_of_idle h.phase (.inr hphase)
  have hin : ∀ k, (s.slots k).waits = true → (s.slots k).inUse = true := fun k hk => by
    simp only [Waiting.waits, Bool.and_eq_true] at hk
    exact hk.1.1.1
  refine inv_loop h rfl (fun _ => rfl) (fun _ => Iff.rfl) (fun _ _ => rfl) (fun k => ?_)
    (fun j k _ _ hok => ?_)
    (fun k hk => ⟨Nat.zero_le _, fun r hr => ?_⟩) (fun p hp => ?_) h.log
    (.inr fun k hk => absurd hk (by rw [take_not_waits]; decide))
  · rw [take_slot]
    split_ifs <;> exact ⟨rfl, rfl⟩
  · have hout : s.phase.outcomeAt k = s.take.phase.outcomeAt k := by
      rw [hphase]
      rfl
    rw [hout] at hok
    rw [take_slot]
    split_ifs
    · exact hok.taken
    · exact hok
  · rw [take_slot] at hk hr ⊢
    by_cases hwaits : (s.slots k).waits = true
    · rw [if_pos hwaits] at hr ⊢
      refine List.mem_filterMap.2 ⟨k, List.mem_finRange k, ?_⟩
      rw [if_pos hwaits]
      have hr' : (s.slots k).request = some r := hr
      rw [hr']
      rfl
    · rw [if_neg hwaits] at hk
      exact absurd hk (hidle k)
  · obtain ⟨k, -, hk⟩ := List.mem_filterMap.1 hp
    by_cases hwaits : (s.slots k).waits = true
    · rw [if_pos hwaits] at hk
      obtain ⟨r, hr, rfl⟩ := Option.map_eq_some_iff.1 hk
      exact (h.slotOk (hin k hwaits)).request.symm.trans hr
    · rw [if_neg hwaits] at hk
      cases hk

theorem lastGiven_given (log : List (Event ρ π β κ)) (given : List (ℕ × ρ)) :
    lastGiven (log ++ [Event.given given]) = some given := by
  rw [lastGiven, List.filterMap_append]
  exact List.getLast?_concat

theorem inv_pass (h : Inv calls s)
    (hphase : s.phase = .passing given) :
    Inv calls { s with phase := .settling given 0, log := s.log ++ [.given given] } := by
  have hrequests : RequestsOf calls given := by
    have := h.requests
    rwa [hphase] at this
  have hpending : PendingFrom s given 0 := by
    have := h.phase
    rwa [PhaseOk, hphase] at this
  refine inv_loop h rfl (fun j => ?_) (fun j => ?_) (fun j _ => ?_) (fun _ => ⟨rfl, rfl⟩)
    (fun j k _ _ hok => ?_)
    ⟨hpending, lastGiven_given ..⟩ hrequests ?_ ?_
  · exact (List.filterMap_append ..).trans (List.append_nil _)
  · simp [State.WasPlaced]
  · exact (List.filterMap_append ..).trans (List.append_nil _)
  · have hhanded : ({ s with phase := .settling given 0, log := s.log ++ [.given given] } :
        State ρ π β κ).handedTo j = s.handedTo j :=
      (List.filterMap_append ..).trans (List.append_nil _)
    rw [hhanded]
    rw [hphase] at hok
    exact hok
  · refine logOk_append h.log (fun given' he => ?_) fun _ _ _ he => nomatch he
    cases he
    exact hrequests
  · rcases h.pipe with hlook | hall
    · rw [hphase] at hlook
      cases hlook
    · exact .inr hall

theorem pipeOk_of_sub (h : PipeOk s)
    (hphase : ¬(s.phase matches .looking)) (hpipe : s'.pipe = s.pipe)
    (hwaiters : s'.waiters = s.waiters)
    (hslots : ∀ k, (s'.slots k).waits = true →
      (s.slots k).waits = true ∧ (s'.slots k).owner = (s.slots k).owner) : PipeOk s' := by
  rcases h with hlook | hall
  · exact absurd hlook hphase
  · refine .inr fun k hwaits hwaiting => ?_
    obtain ⟨hwaits, howner⟩ := hslots k hwaits
    rw [hwaiters, howner] at hwaiting
    rw [hpipe]
    exact hall k hwaits hwaiting

theorem SlotOk.request_none {call : Call ρ π β} {deliveries : List (Answered κ)}
    {outcome : Option (Answered κ)} {w : Waiting ρ π β κ} (h : SlotOk call deliveries outcome w)
    (hstream : w.streamFd.isSome = true) : w.request = none := by
  obtain ⟨fd, hfd⟩ := Option.isSome_iff_exists.1 hstream
  have hhanded := h.handed
  rw [Waiting.handed, hfd] at hhanded
  rw [h.request]
  cases call with
  | answer => cases hhanded
  | stream => rfl

/-- A step of the loop at one slot, the others being left as they are. -/
theorem inv_loop_at {w : Waiting ρ π β κ}
    (h : Inv calls s) (hnot : ¬(s.phase matches .looking))
    (hslots : s'.slots = Function.update s.slots k w) (hwaiters : s'.waiters = s.waiters)
    (hpipe : s'.pipe = s.pipe) (hreturned : ∀ j, s'.returnedBy j = s.returnedBy j)
    (hplaced : ∀ j, s'.WasPlaced j ↔ s.WasPlaced j)
    (hhanded : ∀ j, (∀ k, ¬(s.waiters j).Has k) → s'.handedTo j = s.handedTo j)
    (hown : w.inUse = (s.slots k).inUse ∧ w.owner = (s.slots k).owner)
    (hwaits : w.waits = true → (s.slots k).waits = true)
    (hat : ∀ j, (s.waiters j).Has k →
      SlotOk (calls j) (s.handedTo j) (s.phase.outcomeAt k) (s.slots k) →
      SlotOk (calls j) (s'.handedTo j) (s'.phase.outcomeAt k) w)
    (helse : ∀ j k', k' ≠ k → (s.waiters j).Has k' →
      s'.handedTo j = s.handedTo j ∧ s'.phase.outcomeAt k' = s.phase.outcomeAt k')
    (hphase : PhaseOk s') (hrequests : RequestsOf calls s'.phase.requests)
    (hlog : LogOk calls s'.log) : Inv calls s' := by
  refine inv_loop h hwaiters hreturned hplaced hhanded (fun k' => ?_) (fun j k' hk' _ hok => ?_)
    hphase hrequests hlog (pipeOk_of_sub h.pipe hnot hpipe hwaiters fun k' hk' => ?_)
  all_goals rw [hslots] at *
  all_goals rcases eq_or_ne k' k with rfl | hne
  · rwa [Function.update_self]
  · rw [Function.update_of_ne hne]
    exact ⟨rfl, rfl⟩
  · rw [Function.update_self]
    exact hat j hk' hok
  · rw [Function.update_of_ne hne, (helse j k' hne hk').1, (helse j k' hne hk').2]
    exact hok
  · rw [Function.update_self] at hk' ⊢
    exact ⟨hwaits hk', hown.2⟩
  · rw [Function.update_of_ne hne] at hk' ⊢
    exact ⟨hk', rfl⟩

theorem pendingFrom_update
    {at_ : ℕ} {w : Waiting ρ π β κ} (h : PendingFrom s given k)
    (hslots : s'.slots = Function.update s.slots k w)
    (hw : w.Pending → at_ ≤ k.val ∧ GivenTo given w)
    (hle : ∀ k', k' ≠ k → k.val ≤ k'.val → at_ ≤ k'.val) : PendingFrom s' given at_ := by
  intro k' hk'
  rw [hslots] at hk' ⊢
  rcases eq_or_ne k' k with rfl | hne
  · rw [Function.update_self] at hk' ⊢
    exact hw hk'
  · rw [Function.update_of_ne hne] at hk' ⊢
    exact ⟨hle k' hne (h k' hk').1, (h k' hk').2⟩

theorem inv_visit
    (h : Inv calls s) (hphase : s.phase = .settling given k) : Inv calls (s.visit given k) := by
  have hrequests : RequestsOf calls given := by
    have := h.requests
    rwa [hphase] at this
  obtain ⟨hpending, hlast⟩ : PendingFrom s given k ∧ lastGiven s.log = some given := by
    have := h.phase
    rwa [PhaseOk, hphase] at this
  have hnot : ¬(s.phase matches .looking) := by
    rw [hphase]
    exact Bool.false_ne_true
  have hnone : ∀ k', s.phase.outcomeAt k' = none := fun k' => by
    rw [hphase]
    rfl
  unfold State.visit
  split_ifs with hdue
  · simp only [Waiting.due, Bool.and_eq_true, Bool.not_eq_true', Bool.or_eq_true] at hdue
    obtain ⟨⟨hin, hopen⟩, hwhy⟩ := hdue
    refine inv_loop_at h hnot rfl rfl rfl (fun _ => rfl) (fun _ => Iff.rfl) (fun _ _ => rfl)
      ⟨rfl, rfl⟩ (fun hw => ?_) (fun j _ hok => ?_) (fun j k' _ _ => ⟨rfl, (hnone k').symm⟩)
      ⟨pendingFrom_update hpending rfl (fun hw => ⟨le_rfl, fun r hr => ?_⟩) fun _ _ => id, hlast,
        ?_⟩
      hrequests h.log
    · simp [Waiting.waits] at hw
    · rw [hnone] at hok
      exact hok.taken
    · rcases hwhy with hstream | htaken
      · have hno := (h.slotOk hin).request_none hstream
        exact absurd (hno.symm.trans hr) (by simp)
      · exact (hpending k ⟨hin, htaken, hopen⟩).2 r hr
    · dsimp only
      rw [Function.update_self]
      exact ⟨⟨hin, rfl, hopen⟩, rfl, rfl⟩
  · refine inv_loop h rfl (fun _ => rfl) (fun _ => Iff.rfl) (fun _ _ => rfl) (fun _ => ⟨rfl, rfl⟩)
      (fun j k' _ _ hok => ?_) ⟨fun k' hk' => ?_, hlast⟩ hrequests h.log
      (pipeOk_of_sub h.pipe hnot rfl rfl fun _ hk' => ⟨hk', rfl⟩)
    · rw [hnone] at hok
      exact hok
    · obtain ⟨hle, hgiven⟩ := hpending k' hk'
      refine ⟨Nat.succ_le_of_lt (lt_of_le_of_ne hle fun heq => hdue ?_), hgiven⟩
      have hk'' : (s.slots k').Pending := hk'
      rw [Fin.ext heq]
      simp [Waiting.due, hk''.1, hk''.2.1, hk''.2.2]

theorem inv_settled {at_ : ℕ} (h : Inv calls s)
    (hphase : s.phase = .settling given at_) (hend : ¬at_ < pendingMax) :
    Inv calls { s with phase := .waiting } := by
  obtain ⟨hpending, -⟩ : PendingFrom s given at_ ∧ lastGiven s.log = some given := by
    have := h.phase
    rwa [PhaseOk, hphase] at this
  refine inv_loop h rfl (fun _ => rfl) (fun _ => Iff.rfl) (fun _ _ => rfl) (fun _ => ⟨rfl, rfl⟩)
    (fun j k _ _ hok => ?_) (fun k hk => hend ((hpending k hk).1.trans_lt k.isLt))
    (fun p hp => nomatch hp) h.log (pipeOk_of_sub h.pipe ?_ rfl rfl fun _ hk => ⟨hk, rfl⟩)
  · rw [hphase] at hok
    exact hok
  · rw [hphase]
    exact Bool.false_ne_true

theorem handedTo_handed (s : State ρ π β κ) (s' : State ρ π β κ) {i j : ℕ} {what : Handed ρ π β}
    {outcome : Answered κ} (hlog : s'.log = s.log ++ [Event.handed i what outcome]) :
    s'.handedTo j = s.handedTo j ++ if i = j then [outcome] else [] := by
  rw [State.handedTo, hlog, List.filterMap_append, State.handedTo]
  by_cases h : i = j <;> simp [Event.handedOf, h]

theorem inv_deliver {owner : ℕ}
    {what : Handed ρ π β} (h : Inv calls s) (hphase : s.phase = .delivering given k owner what)
    (outcome : Answered κ) : Inv calls (s.deliver given k owner what outcome) := by
  have hrequests : RequestsOf calls given := by
    have := h.requests
    rwa [hphase] at this
  obtain ⟨hpending, hlast, hk, howner, hwhat⟩ : PendingFrom s given k ∧
      lastGiven s.log = some given ∧ (s.slots k).Pending ∧ (s.slots k).owner = owner ∧
      (s.slots k).handed = what := by
    have := h.phase
    rwa [PhaseOk, hphase] at this
  have hok := h.slotOk hk.1
  have hhas := h.has hk.1
  rw [howner] at hok hhas
  unfold State.deliver
  dsimp only
  generalize outcome.upTo what = o
  set s' : State ρ π β κ := { s with
    slots := Function.update s.slots k { s.slots k with after := o.after }
    phase := .delivered given k o
    log := s.log ++ [.handed owner what o] }
  have hhanded : ∀ j, s'.handedTo j = s.handedTo j ++ if owner = j then [o] else [] :=
    fun j => handedTo_handed s s' rfl
  have hnone : ∀ k', s.phase.outcomeAt k' = none := fun k' => by
    rw [hphase]
    rfl
  refine inv_loop_at h (by rw [hphase]; exact Bool.false_ne_true) rfl rfl rfl (fun j => ?_)
    (fun j => ?_) (fun j hj => ?_) ⟨rfl, rfl⟩ id (fun j hj hok' => ?_) (fun j k' hne hk' => ?_)
    ⟨pendingFrom_update hpending rfl (fun _ => ⟨le_rfl, (hpending k hk).2⟩) fun _ _ => id, ?_, ?_⟩
    hrequests ?_
  · exact (List.filterMap_append ..).trans (List.append_nil _)
  · simp [State.WasPlaced, s']
  · rw [hhanded, if_neg, List.append_nil]
    rintro rfl
    exact hj k hhas
  · obtain rfl := h.same hhas hj
    rw [hhanded, if_pos rfl]
    have hout : s'.phase.outcomeAt k = some o := by
      rw [Phase.outcomeAt, if_pos rfl]
    rw [hnone] at hok'
    obtain ⟨hready, hdeliveries, -⟩ := hok'.open_ hk.2.2
    rw [hout, hdeliveries]
    refine ⟨hok'.inUse, hok'.request, hok'.handed, fun _ => ⟨hready, rfl, rfl⟩, fun hans => ?_⟩
    rw [hk.2.2] at hans
    cases hans
  · have hj : owner ≠ j := fun hj => hne (by
      rw [← hj] at hk'
      rcases hhas with hhas | hhas <;> rcases hk' with hk' | hk' <;> rw [hhas] at hk' <;>
        cases hk' <;> rfl)
    rw [hhanded, if_neg hj, List.append_nil, hnone, Phase.outcomeAt, if_neg (Ne.symm hne)]
    exact ⟨rfl, rfl⟩
  · rw [lastGiven, List.filterMap_append]
    exact (congrArg List.getLast? (List.append_nil _)).trans hlast
  · dsimp only [s']
    rw [Function.update_self]
    exact hk
  · refine logOk_append h.log (fun _ he => nomatch he) fun i what' o' he => ?_
    cases he
    refine ⟨hwhat.symm.trans hok.handed, fun r hr => ⟨given, hlast, ?_⟩⟩
    have := (hpending k hk).2 r (hok.request.trans hr)
    rwa [howner] at this

theorem inv_settle
    {o : Answered κ} (h : Inv calls s) (hphase : s.phase = .delivered given k o) :
    Inv calls (s.settle given k o) := by
  have hrequests : RequestsOf calls given := by
    have := h.requests
    rwa [hphase] at this
  obtain ⟨hpending, hlast, hk⟩ : PendingFrom s given k ∧ lastGiven s.log = some given ∧
      (s.slots k).Pending := by
    have := h.phase
    rwa [PhaseOk, hphase] at this
  have hout : s.phase.outcomeAt k = some o := by
    rw [hphase, Phase.outcomeAt, if_pos rfl]
  refine inv_loop_at h (by rw [hphase]; exact Bool.false_ne_true) rfl rfl rfl (fun _ => rfl)
    (fun _ => Iff.rfl) (fun _ _ => rfl) ⟨rfl, rfl⟩ (fun hw => ?_) (fun j _ hok => ?_)
    (fun j k' hne _ => ⟨rfl, ?_⟩)
    ⟨pendingFrom_update hpending rfl (fun hw => nomatch hw.2.2) fun k' hne hle =>
      Nat.succ_le_of_lt (lt_of_le_of_ne hle fun heq => hne (Fin.ext heq.symm)), hlast⟩
    hrequests h.log
  · simp [Waiting.waits] at hw
  · rw [hout] at hok
    obtain ⟨-, hdeliveries, hafter⟩ := hok.open_ hk.2.2
    refine ⟨hok.inUse, hok.request, hok.handed, (fun hopen => nomatch hopen),
      fun _ => .inr ⟨o, hdeliveries, rfl, ?_⟩⟩
    rw [Waiting.ready]
    dsimp only
    rw [hafter]
    cases hwork : (some o).bind Answered.after with
    | none => exact hwork.symm
    | some r => exact hwork.symm
  · rw [hphase, Phase.outcomeAt, if_neg (Ne.symm hne)]
    rfl

/-- Shutting a mailbox answers what was in use. -/
theorem shut_eq (w : Waiting ρ π β κ) :
    w.shut.inUse = w.inUse ∧ w.shut.owner = w.owner ∧ ¬(w.shut.inUse = true ∧
      w.shut.answered = false) := by
  rw [Waiting.shut]
  split_ifs with h
  · exact ⟨rfl, rfl, fun h' => nomatch h'.2⟩
  · refine ⟨rfl, rfl, fun h' => h ?_⟩
    rw [h'.1, h'.2]
    rfl

theorem inv_shut (h : Inv calls s) (hphase : s.phase = .waiting) :
    Inv calls { s with shut := true, slots := fun k => (s.slots k).shut } := by
  refine inv_loop h rfl (fun _ => rfl) (fun _ => Iff.rfl) (fun _ _ => rfl)
    (fun k => ⟨(shut_eq _).1, (shut_eq _).2.1⟩) (fun j k _ _ hok => ?_) ?_ h.requests h.log
    (.inr fun k hk => ?_)
  · have hnone : s.phase.outcomeAt k = none := by
      rw [hphase]
      rfl
    rw [hnone] at hok
    change SlotOk _ _ (s.phase.outcomeAt k) (s.slots k).shut
    rw [hnone, Waiting.shut]
    split_ifs with hopen
    · simp only [Bool.and_eq_true, Bool.not_eq_true'] at hopen
      obtain ⟨hready, hdeliveries, -⟩ := hok.open_ hopen.2
      refine ⟨hok.inUse, hok.request, hok.handed, (fun h => nomatch h),
        fun _ => .inl ⟨hdeliveries, rfl, ?_⟩⟩
      rw [Waiting.ready, if_neg]
      rw [hready]
      exact Bool.false_ne_true
    · exact hok
  · rw [PhaseOk]
    dsimp only
    rw [hphase]
    exact fun k hk => (shut_eq _).2.2 ⟨hk.1, hk.2.2⟩
  · simp only [Waiting.waits, Bool.and_eq_true, Bool.not_eq_true'] at hk
    exact absurd ⟨hk.1.1.1, hk.1.2⟩ (shut_eq (s.slots k)).2.2

/-- What a step can do, one case each. -/
theorem step_cases {a : Action κ}
    (h : step calls capacity s a = some s') : Stepped calls capacity s a s' := by
  cases a
  all_goals simp only [step] at h
  all_goals split at h
  all_goals try cases h
  · exact .place ‹_›
  · exact .nudge ‹_›
  · split at h <;> cases h
    exact .wake ‹_› ‹_› ‹_›
  · exact .finish ‹_›
  · exact .look ‹_›
  · exact .drain ‹_›
  · exact .take ‹_›
  · exact .pass ‹_›
  · split_ifs at h with hlt <;> cases h
    · exact .visit ‹_› hlt
    · exact .settled ‹_› hlt
  · exact .deliver ‹_›
  · exact .settle ‹_›
  · exact .shut ‹_›

/-- The step lemma of the invariant. -/
theorem inv_step {a : Action κ} (hcap : 0 < capacity) (h : Inv calls s)
    (hstep : step calls capacity s a = some s') : Inv calls s' := by
  cases step_cases hstep with
  | place hi => exact inv_place h hi
  | nudge hi => exact inv_nudge h hcap hi
  | wake hi hanswered hresult => exact inv_wake h hi hanswered hresult
  | @finish i comes hi =>
    have hok := h.waiters i
    rw [WaiterOk, hi] at hok
    obtain ⟨hreturned, o, hone, hafter⟩ := hok
    refine inv_returns h (fun k hk => ?_) hreturned (.inr ⟨o, hone, ?_⟩)
    · rw [hi] at hk
      rcases hk with hk | hk <;> cases hk
    · rw [Answered.final, hafter]
      rfl
  | look hphase => exact inv_look h hphase
  | @drain bytes hphase => exact inv_drain h hphase bytes
  | take hphase => exact inv_take h hphase
  | pass hphase => exact inv_pass h hphase
  | visit hphase _ => exact inv_visit h hphase
  | settled hphase hlt => exact inv_settled h hphase hlt
  | @deliver outcome _ _ _ _ hphase => exact inv_deliver h hphase outcome
  | settle hphase => exact inv_settle h hphase
  | shut hphase => exact inv_shut h hphase

/-- The invariant at the start. -/
theorem inv_start : Inv calls ({} : State ρ π β κ) where
  waiters := fun _ => ⟨rfl, rfl, fun h => nomatch h⟩
  owners := fun _ hk => nomatch hk
  phase := fun _ hk => nomatch hk.1
  requests := fun _ hp => nomatch hp
  log := ⟨(fun _ hin => nomatch hin), fun before _ _ _ _ heq => by simp at heq⟩
  pipe := .inr fun _ hk => nomatch hk

/-- The run lemma of the invariant. -/
theorem inv_run (hcap : 0 < capacity) :
    ∀ {actions : List (Action κ)} {s₀ : State ρ π β κ}, Inv calls s₀ →
      run calls capacity s₀ actions = some s → Inv calls s
  | [], _, h, hrun => Option.some.inj hrun ▸ h
  | a :: actions, s₀, h, hrun => by
    obtain ⟨s₁, hstep, hrest⟩ := Option.bind_eq_some_iff.1 hrun
    exact inv_run hcap (inv_step hcap h hstep) hrest

/-! ## A round answers what it took -/

/-- A thread is on its way : it has left the outside, and its slot, where it has one, was taken or
answered. -/
def Seen (s : State ρ π β κ) (i : ℕ) : Prop :=
  s.waiters i ≠ .outside ∧
    ∀ k, (s.waiters i).Has k → (s.slots k).taken = true ∨ (s.slots k).answered = true

theorem Seen.mono (h : Seen s i)
    (hwaiter : s'.waiters i = s.waiters i)
    (hslot : ∀ k, (s.waiters i).Has k →
      (s.slots k).taken = true ∨ (s.slots k).answered = true →
      (s'.slots k).taken = true ∨ (s'.slots k).answered = true) : Seen s' i :=
  ⟨hwaiter ▸ h.1, fun k hk => hslot k (hwaiter ▸ hk) (h.2 k (hwaiter ▸ hk))⟩

theorem Seen.update {k₀ : Fin pendingMax} {w : Waiting ρ π β κ}
    {s' : State ρ π β κ} (h : Seen s i) (hwaiter : s'.waiters i = s.waiters i)
    (hslots : s'.slots = Function.update s.slots k₀ w)
    (hw : (s.waiters i).Has k₀ → (s.slots k₀).taken = true ∨ (s.slots k₀).answered = true →
      w.taken = true ∨ w.answered = true) : Seen s' i := by
  refine h.mono hwaiter fun k hk hseen => ?_
  rw [hslots]
  by_cases heq : k = k₀
  · rw [heq, Function.update_self]
    exact hw (heq ▸ hk) (heq ▸ hseen)
  · rw [Function.update_of_ne heq]
    exact hseen

theorem seen_of_update {i j : ℕ} {w : Waiter κ} (h : Seen s i)
    (hw : w ≠ .outside) (hhas : ∀ k, w.Has k → (s.waiters j).Has k) :
    Seen { s with waiters := Function.update s.waiters j w } i := by
  by_cases heq : i = j
  · refine ⟨?_, fun k hk => ?_⟩
    · dsimp only
      rw [heq, Function.update_self]
      exact hw
    · dsimp only at hk
      rw [heq, Function.update_self] at hk
      exact h.2 k (heq ▸ hhas k hk)
  · exact h.mono (Function.update_of_ne heq ..) fun _ _ hseen => hseen

theorem seen_returns {i j : ℕ} (reply : Reply κ) (h : Seen s i) :
    Seen (s.returns j reply) i := by
  have hnone : ∀ k, ¬(Waiter.returned reply).Has k := fun k hk => by
    rcases hk with hk | hk <;> cases hk
  exact seen_of_update (w := .returned reply) h (fun hno => nomatch hno)
    fun k hk => absurd hk (hnone k)

theorem seen_step {a : Action κ} (hinv : Inv calls s)
    (h : Seen s i) (hstep : step calls capacity s a = some s') : Seen s' i := by
  cases step_cases hstep with
  | @place j hj =>
    have hne : i ≠ j := fun heq => h.1 (heq ▸ hj)
    unfold State.place
    split_ifs
    · exact seen_returns _ h
    · cases hslot : s.slotToWaitIn with
      | none => exact seen_returns _ h
      | some k =>
        refine h.update (Function.update_of_ne hne ..) rfl fun hk => ?_
        have hin := ((hinv.waiters i).slot hk).2.2.inUse
        have hfree := List.find?_some hslot
        rw [hin] at hfree
        cases hfree
  | @nudge j k hj =>
    have := seen_of_update (j := j) (w := .waiting k) h (fun hno => nomatch hno) fun k' hk' => by
      rcases hk' with hk' | hk'
      · cases hk'
      · rw [Waiter.waiting.inj hk'] at hj
        exact .inl hj
    exact this
  | @wake j k reply hj _ _ =>
    have hleft : Seen { s with slots := Function.update s.slots k (s.slots k).left } i :=
      h.update rfl rfl fun _ hseen => hseen
    unfold State.wake
    dsimp only
    split
    · exact seen_of_update hleft (fun hno => nomatch hno) fun k' hk' => by
        rcases hk' with hk' | hk' <;> cases hk'
    · exact seen_returns _ hleft
  | finish _ => exact seen_returns _ h
  | look _ => exact h
  | drain _ => exact h
  | take _ =>
    refine h.mono rfl fun k _ hseen => ?_
    rw [take_slot]
    split_ifs
    · exact .inl rfl
    · exact hseen
  | pass _ => exact h
  | visit _ _ =>
    unfold State.visit
    split_ifs
    · exact h.update rfl rfl fun _ _ => .inl rfl
    · exact h
  | settled _ _ => exact h
  | deliver _ => exact h.update rfl rfl fun _ hseen => hseen
  | settle _ => exact h.update rfl rfl fun _ _ => .inr rfl
  | shut _ =>
    refine h.mono rfl fun k _ hseen => ?_
    change (s.slots k).shut.taken = true ∨ (s.slots k).shut.answered = true
    rw [Waiting.shut]
    split_ifs
    · exact .inr rfl
    · exact hseen

/-- The run lemma of having been seen. -/
theorem seen_run (hcap : 0 < capacity) :
    ∀ {actions : List (Action κ)} {s₀ : State ρ π β κ}, Inv calls s₀ → Seen s₀ i →
      run calls capacity s₀ actions = some s → Seen s i
  | [], _, _, h, hrun => Option.some.inj hrun ▸ h
  | a :: actions, s₀, hinv, h, hrun => by
    obtain ⟨s₁, hstep, hrest⟩ := Option.bind_eq_some_iff.1 hrun
    exact seen_run hcap (inv_step hcap hinv hstep) (seen_step hinv h hstep) hrest

/-- A look sees every request that waits. -/
theorem seen_take (hinv : Inv calls s)
    (hk : (s.waiters i).Has k) (hrequest : (calls i).isRequest.isSome = true) : Seen s.take i := by
  refine ⟨fun hno => ?_, fun k' hk' => ?_⟩
  · have hno : s.waiters i = .outside := hno
    rw [hno] at hk
    rcases hk with hk | hk <;> cases hk
  · obtain ⟨-, -, hok⟩ := (hinv.waiters i).slot hk'
    rw [take_slot]
    by_cases hseen : (s.slots k').taken = true ∨ (s.slots k').answered = true
    · split_ifs
      · exact .inl rfl
      · exact hseen
    · rw [not_or, Bool.not_eq_true, Bool.not_eq_true] at hseen
      have hwaits : (s.slots k').waits = true := by
        rw [Waiting.waits, hok.inUse, hseen.1, hseen.2, hok.request, hrequest]
        rfl
      rw [if_pos hwaits]
      exact .inl rfl

/-- An answered caller can be woken. -/
theorem wake_enabled (hinv : Inv calls s)
    (hk : s.waiters i = .waiting k) (hanswered : (s.slots k).answered = true) :
    ∃ s', step calls capacity s (.wake i) = some s' := by
  obtain ⟨-, -, hok⟩ := (hinv.waiters i).slot (.inr hk)
  obtain ⟨reply, hresult⟩ : ∃ reply, (s.slots k).result = some reply := by
    rcases hok.closed hanswered with ⟨-, h, -⟩ | ⟨o, -, h, -⟩
    · exact ⟨_, h⟩
    · exact ⟨_, h⟩
  exact ⟨s.wake i k reply, by simp only [step, hk, hanswered, hresult]⟩

/-! ## Over every run -/

/-- What a thread may return : what came of its request, which was handed over, or a refusal, when
it was not. It was refused for want of a slot only if it never had one. -/
def ReturnsAs (s : State ρ π β κ) (i : ℕ) (reply : Reply κ) : Prop :=
  s.handedTo i = [] ∧ (reply = .shuttingDown ∨ reply = .full ∧ ¬s.WasPlaced i) ∨
    ∃ o, s.handedTo i = [o] ∧ reply = .came o.final

/-- Nothing is handed twice. -/
theorem handed_once (h : Inv calls s) (i : ℕ) :
    (s.handedTo i).length ≤ 1 := by
  have hok := h.waiters i
  have hslot : ∀ k, (s.waiters i).Has k → (s.handedTo i).length ≤ 1 := by
    intro k hk
    obtain ⟨-, -, hok⟩ := (h.waiters i).slot hk
    cases hanswered : (s.slots k).answered with
    | false =>
      rw [(hok.open_ hanswered).2.1]
      cases s.phase.outcomeAt k with
      | none => exact Nat.zero_le _
      | some o => exact le_rfl
    | true =>
      rcases hok.closed hanswered with ⟨hnone, -⟩ | ⟨o, hone, -⟩
      · rw [hnone]
        exact Nat.zero_le _
      · rw [hone]
        exact le_rfl
  rw [WaiterOk] at hok
  cases hw : s.waiters i with
  | outside =>
    rw [hw] at hok
    rw [hok.1]
    exact Nat.zero_le _
  | placed k => exact hslot k (.inl hw)
  | waiting k => exact hslot k (.inr hw)
  | working comes =>
    rw [hw] at hok
    obtain ⟨-, o, hone, -⟩ := hok
    rw [hone]
    exact le_rfl
  | returned reply =>
    rw [hw] at hok
    rcases hok.2 with ⟨hnone, -⟩ | ⟨o, hone, -⟩
    · rw [hnone]
      exact Nat.zero_le _
    · rw [hone]
      exact le_rfl

/-- A caller gets back one reply at most, its own. -/
theorem returned_once (h : Inv calls s) (i : ℕ) :
    s.returnedBy i = [] ∨ ∃ reply, s.returnedBy i = [reply] ∧ ReturnsAs s i reply := by
  have hok := h.waiters i
  rw [WaiterOk] at hok
  cases hw : s.waiters i with
  | outside =>
    rw [hw] at hok
    exact .inl hok.2.1
  | placed k => exact .inl ((h.waiters i).slot (.inl hw)).2.1
  | waiting k => exact .inl ((h.waiters i).slot (.inr hw)).2.1
  | working comes =>
    rw [hw] at hok
    exact .inl hok.1
  | returned reply =>
    rw [hw] at hok
    exact .inr ⟨reply, hok⟩

/-- In every run of connection threads and the loop, from an empty mailbox : a thread's request is
handed over once at most, as the thread made it and after the pass of a round that was given it;
what a pass is given are requests; a thread returns once at most, with what came of its request or
refused; a request whose thread has nudged has a byte in the pipe or was seen to, whenever the loop
starts to wait; and once a round has taken a request and settled, or the mailbox was shut, its
thread can go. -/
theorem mailbox_delivers (calls : ℕ → Call ρ π β) (capacity : ℕ) (hcap : 0 < capacity)
    (actions : List (Action κ)) (s : State ρ π β κ)
    (hrun : run calls capacity {} actions = some s) :
    (∀ i, (s.handedTo i).length ≤ 1) ∧
      (∀ before i what outcome after, s.log = before ++ Event.handed i what outcome :: after →
        what = (calls i).handed ∧ ∀ r, (calls i).isRequest = some r →
          ∃ given, lastGiven before = some given ∧ (i, r) ∈ given) ∧
      (∀ given, .given given ∈ s.log → RequestsOf calls given) ∧
      (∀ i, s.returnedBy i = [] ∨ ∃ reply, s.returnedBy i = [reply] ∧ ReturnsAs s i reply) ∧
      (s.phase = .waiting → s.pipe = 0 → ∀ k, (s.slots k).waits = true →
        s.waiters (s.slots k).owner = .placed k) ∧
      (∀ i k s₁ more s₂, (s.waiters i).Has k → (calls i).isRequest.isSome = true →
        step calls capacity s .take = some s₁ ∨ step calls capacity s .shut = some s₁ →
        run calls capacity s₁ more = some s₂ → s₂.phase = .waiting →
        ∀ k', s₂.waiters i = .waiting k' → ∃ s₃, step calls capacity s₂ (.wake i) = some s₃) := by
  have h := inv_run hcap inv_start hrun
  refine ⟨handed_once h, h.log.2, h.log.1, returned_once h, fun hphase hpipe k hk => ?_,
    fun i k s₁ more s₂ hhas hrequest hstep hmore hphase k' hk' => ?_⟩
  · have hin : (s.slots k).inUse = true := by
      simp only [Waiting.waits, Bool.and_eq_true] at hk
      exact hk.1.1.1
    refine (h.owners k hin).resolve_right fun hwaiting => ?_
    rcases h.pipe with hlook | hall
    · rw [hphase] at hlook
      cases hlook
    · exact absurd (hall k hk hwaiting) (by omega)
  · have hinv₁ : Inv calls s₁ := hstep.elim (inv_step hcap h) (inv_step hcap h)
    have hseen : Seen s₁ i := by
      rcases hstep with hstep | hstep
      · cases step_cases hstep
        exact seen_take h hhas hrequest
      · cases step_cases hstep
        refine ⟨fun hno => ?_, fun k' hk' => .inr ?_⟩
        · have hno : s.waiters i = .outside := hno
          rw [hno] at hhas
          rcases hhas with hhas | hhas <;> cases hhas
        · have hin := ((h.waiters i).slot hk').2.2.inUse
          by_contra hopen
          exact (shut_eq (s.slots k')).2.2
            ⟨(shut_eq _).1.trans hin, Bool.eq_false_iff.2 hopen⟩
    have hinv₂ := inv_run hcap hinv₁ hmore
    have hseen₂ := seen_run hcap hinv₁ hseen hmore
    refine wake_enabled hinv₂ hk' ?_
    have hin := ((hinv₂.waiters i).slot (.inr hk')).2.2.inUse
    by_contra hopen
    rw [Bool.not_eq_true] at hopen
    have htaken := (hseen₂.2 k' (.inr hk')).resolve_right (by rw [hopen]; decide)
    exact not_pending_of_idle hinv₂.phase (.inl hphase) k' ⟨hin, htaken, hopen⟩

def numbered : ℕ → Call ℕ ℕ ℕ := fun i => .answer i i .here i i

/-- A round that answers the first thread's request with work to do on the thread; the second is
placed once the loop has taken. -/
def oneRound : List (Action ℕ) :=
  ([.place 0, .nudge 0, .look, .drain 1, .take, .place 1, .pass, .visit, .deliver ⟨7, some 9⟩,
    .settle] : List (Action ℕ)) ++ List.replicate 8 Action.visit ++
    ([.wake 0, .finish 0] : List (Action ℕ))

theorem one_round_returns :
    ∃ s, run numbered 1 {} oneRound = some s ∧
      ∃ reply, s.returnedBy 0 = [reply] ∧ ReturnsAs s 0 reply := by
  have hruns : (run numbered 1 {} oneRound).map (fun s => (s.returnedBy 0).length) = some 1 := rfl
  obtain ⟨s, hs, hone⟩ := Option.map_eq_some_iff.1 hruns
  refine ⟨s, hs, ?_⟩
  rcases (mailbox_delivers numbered 1 (by decide) oneRound s hs).2.2.2.1 0 with hnone | hreply
  · rw [hnone] at hone
    cases hone
  · exact hreply

end Netcfgd.Mailbox
