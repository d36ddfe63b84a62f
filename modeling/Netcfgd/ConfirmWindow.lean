import Netcfgd.Daemon
import Netcfgd.Trace

/-!
# The commit-confirm window

What a window is for, as a protocol on what the daemon does (`Protocol.Next`) : a window is
opened only where none is open, over the last-good document of that moment; while it is open
the last-good document is not written and no drift is corrected; a revert runs the last-good
document and happens only inside a window; and a window is closed by a confirmation, a revert
or its expiry. `moves_step` is the step lemma, that what a step does is a piece of the
protocol and closes a window only in the step's own way, and the invariant rule of `Trace`
carries it along a run (`follows_states`).

A request for a second window is to be refused before anything runs. It is
(`refused_of_seconds`) wherever the seconds it asks for are not lost : the number is cut to
32 bits, so that a positive multiple of 2^32 is a request for no window at all, which an open
window does not stop (`windowIntegrity_iff`, `second_window_not_refused`).
-/

namespace Netcfgd

open Trace

variable {Doc Obs σ : Type*} (docs : DocumentModel Doc)

/-! ## The protocol -/

/-- The state of the protocol : the last-good document and the window. -/
structure Protocol (Doc : Type*) where
  lastGood : Option Doc
  window : Option Window

namespace Protocol

inductive Next : Protocol Doc → Event Doc → Protocol Doc → Prop
  | request (p : Protocol Doc) (d : Doc) (ops : List (Op × Bool)) (j : Journal) :
      Next p (.applied .request d ops j) p
  | drift (g : Option Doc) (d : Doc) (ops : List (Op × Bool)) (j : Journal) :
      Next ⟨g, none⟩ (.applied .drift d ops j) ⟨g, none⟩
  | replan (w : Window) (d : Doc) (ops : List (Op × Bool)) (j : Journal) :
      Next ⟨some d, some w⟩ (.applied .revert d ops j) ⟨some d, some w⟩
  | undone (w : Window) (g : Option Doc) (ops : List (Op × Bool)) :
      Next ⟨g, some w⟩ (.undone ops) ⟨g, some w⟩
  | opened (w : Window) (d : Doc) (covers : Option String)
      (hash : w.lastGoodHash = docs.hash d) :
      Next ⟨some d, none⟩ (.opened w d covers) ⟨some d, some w⟩
  | closed (w : Window) (g : Option Doc) (how : Closing) :
      Next ⟨g, some w⟩ (.closed how) ⟨g, none⟩
  | recorded (g : Option Doc) (d : Doc) : Next ⟨g, none⟩ (.recorded d) ⟨some d, none⟩

/-- The window of a state names the hash of its last-good document. -/
def Targets (p : Protocol Doc) : Prop :=
  ∀ w, p.window = some w → ∃ d, p.lastGood = some d ∧ docs.hash d = w.lastGoodHash

theorem targets_of_closed (g : Option Doc) : Targets docs ⟨g, none⟩ := by
  intro w hw
  simp at hw

/-- The step lemma : an event leaves the window aimed at the last-good document. -/
theorem Next.targets {p q : Protocol Doc} {e : Event Doc} (h : Next docs p e q)
    (hp : Targets docs p) : Targets docs q := by
  cases h with
  | request | replan | undone => exact hp
  | drift | closed | recorded => exact targets_of_closed docs _
  | opened w d covers hash =>
    intro w' hw'
    obtain rfl := Option.some.inj hw'
    exact ⟨d, rfl, hash.symm⟩

end Protocol

namespace Daemon

/-- What the protocol sees of a daemon. -/
def view (s : Daemon Doc Obs σ) : Protocol Doc :=
  ⟨s.lastGood, s.window⟩

/-- From `s` to `s'` by a piece of the protocol that closes a window in one way at most. -/
def Moves (how : Option Closing) (s s' : Daemon Doc Obs σ) : Prop :=
  ∃ events, s'.log = s.log ++ events ∧ Follows (Protocol.Next docs) s.view events s'.view ∧
    ∀ h, .closed h ∈ events → how = some h

section Moves

variable {docs} {how : Option Closing} {s s' s'' : Daemon Doc Obs σ}

theorem Moves.of_eq (hlog : s'.log = s.log) (hview : s'.view = s.view) : Moves docs how s s' :=
  ⟨[], by simpa using hlog, hview ▸ .nil, by simp⟩

theorem Moves.refl : Moves docs how s s :=
  .of_eq rfl rfl

theorem Moves.trans (h : Moves docs how s s') (h' : Moves docs how s' s'') :
    Moves docs how s s'' := by
  obtain ⟨es, hlog, hf, hc⟩ := h
  obtain ⟨es', hlog', hf', hc'⟩ := h'
  refine ⟨es ++ es', by rw [hlog', hlog, List.append_assoc], hf.append hf', fun k hk => ?_⟩
  rcases List.mem_append.1 hk with hk | hk
  · exact hc k hk
  · exact hc' k hk

theorem Moves.event {e : Event Doc} (hlog : s'.log = s.log ++ [e])
    (hnext : Protocol.Next docs s.view e s'.view) (hne : ∀ h, e ≠ .closed h) :
    Moves docs how s s' :=
  ⟨[e], hlog, .one hnext, fun h hh => absurd (List.mem_singleton.1 hh).symm (hne h)⟩

end Moves

/-! ## The pieces -/

variable {docs} {m : Moment Doc Obs σ} {how : Option Closing} {s : Daemon Doc Obs σ}

theorem moves_reobserve : Moves docs how s (reobserve m s) :=
  .of_eq rfl rfl

theorem moves_writeLastGood (d : Doc) (hw : s.window = none) :
    Moves docs how s (writeLastGood d s) := by
  refine .event rfl ?_ (by simp)
  simp only [view, writeLastGood, hw]
  exact .recorded _ _

theorem moves_clearWindow {w : Window} (h : Closing) (hw : s.window = some w) :
    Moves docs (some h) s (clearWindow h s) := by
  refine ⟨[.closed h], rfl, .one ?_, by simp⟩
  simp only [view, clearWindow, hw]
  exact .closed _ _ _

theorem moves_request (e : Executor σ) (p : Plan) (d : Doc) :
    Moves docs how s (applyPlan .request e p d s).2 :=
  .event rfl (.request _ _ _ _) (by simp)

theorem moves_drift (e : Executor σ) (p : Plan) (d : Doc) (hw : s.window = none) :
    Moves docs how s (applyPlan .drift e p d s).2 := by
  refine .event rfl ?_ (by simp)
  simp only [view, applyPlan, hw]
  exact .drift _ _ _ _

theorem moves_arm {d : Doc} (seconds : ℕ) (hw : s.window = none) (hd : s.lastGood = some d) :
    Moves docs how s (arm docs m seconds d s) := by
  refine .event rfl ?_ (by simp)
  simp only [view, arm, hw, hd]
  exact .opened _ _ _ rfl

theorem moves_armWindow {d : Doc} (p : Plan) (j : Journal) (seconds : ℕ)
    (hw : s.window = none) (hd : s.lastGood = some d) :
    Moves docs how s (armWindow docs m p j seconds d s) := by
  unfold armWindow
  cases hs : s.desired with
  | none => exact moves_arm seconds hw hd
  | some desired =>
    exact (Moves.of_eq rfl rfl).trans
      (moves_arm (s := { s with armed := _ }) seconds hw hd)

theorem mayArm_eq_ok {d : Doc} (h : mayArm m s = .ok d) :
    s.window = none ∧ s.lastGood = some d := by
  unfold mayArm at h
  split at h
  · cases h
  · next hw =>
    split at h
    · cases h
    · next hd =>
      obtain rfl := Except.ok.inj h
      exact ⟨hw, hd⟩

theorem windowTarget_eq_ok {seconds : ℕ} {d : Doc} (h : windowTarget m seconds s = .ok (some d)) :
    s.window = none ∧ s.lastGood = some d := by
  unfold windowTarget at h
  split_ifs at h
  · cases h
  · cases hm : mayArm m s with
    | error why =>
      rw [hm] at h
      cases h
    | ok d' =>
      rw [hm] at h
      obtain rfl := Option.some.inj (Except.ok.inj h)
      exact mayArm_eq_ok hm

theorem moves_settleWithoutAWindow : Moves docs how s (settleWithoutAWindow s) := by
  unfold settleWithoutAWindow
  split
  · exact .refl
  · next hw =>
    have harmed : Moves docs how s { s with armed := none } := .of_eq rfl rfl
    dsimp only
    split
    · exact harmed.trans (moves_writeLastGood _ hw)
    · exact harmed

theorem moves_finishApply {p : Plan} {j : Journal} {seconds : ℕ} {target : Option Doc}
    (h : ∀ d, target = some d → s.window = none ∧ s.lastGood = some d) :
    Moves docs how s (finishApply docs m p j seconds target s) := by
  unfold finishApply
  split
  · next d =>
    obtain ⟨hw, hd⟩ := h d rfl
    exact moves_reobserve.trans (moves_armWindow p j seconds hw hd)
  · exact moves_reobserve.trans moves_settleWithoutAWindow

/-! ## The requests -/

theorem moves_applyRequest (ask : Ask) : Moves docs how s (applyRequest docs m ask s).2 := by
  unfold applyRequest
  split
  · exact .refl
  · split
    · exact .refl
    · exact .refl
    · split
      · exact .refl
      · next target htarget =>
        have hseen : ∀ seen, Moves docs how s { s with observed := some seen } :=
          fun _ => .of_eq rfl rfl
        dsimp only
        split
        · exact hseen _
        · split
          · exact hseen _
          · refine ((hseen _).trans (moves_request _ _ _)).trans (moves_finishApply ?_)
            rintro d rfl
            exact windowTarget_eq_ok htarget

theorem moves_confirmRequest : Moves docs (some .confirm) s (confirmRequest docs s).2 := by
  unfold confirmRequest keep
  split
  · exact .refl
  · next hw =>
    have hclear : Moves docs (some .confirm) s { clearWindow .confirm s with armed := none } :=
      (moves_clearWindow .confirm hw).trans (.of_eq rfl rfl)
    split
    · exact hclear.trans (moves_writeLastGood _ rfl)
    · exact hclear

theorem moves_undo {w : Window} (e : Executor σ) (a : Armed) (hw : s.window = some w) :
    Moves docs how s (undo m e a s) := by
  unfold undo
  split_ifs
  · exact .refl
  · refine .event rfl ?_ (by simp)
    simp only [view, hw]
    exact .undone _ _ _

@[simp] theorem view_undo (e : Executor σ) (a : Armed) : (undo m e a s).view = s.view := by
  unfold undo
  split_ifs <;> rfl

@[simp] theorem desired_undo (e : Executor σ) (a : Armed) :
    (undo m e a s).desired = s.desired := by
  unfold undo
  split_ifs <;> rfl

theorem moves_replanOntoLastGood {w : Window} {d : Doc} (e : Executor σ)
    (hw : s.window = some w) (hg : s.lastGood = some d) (hd : s.desired = some d) :
    Moves docs how s (replanOntoLastGood m e s) := by
  unfold replanOntoLastGood
  split
  · next desired observed hdesired _ =>
    obtain rfl : d = desired := by rw [hd] at hdesired; exact Option.some.inj hdesired
    split
    · exact .refl
    · refine .event rfl ?_ (by simp)
      simp only [view, applyPlan, hw, hg]
      exact .replan _ _ _ _
  · exact .refl

@[simp] theorem window_replanOntoLastGood (e : Executor σ) :
    (replanOntoLastGood m e s).window = s.window := by
  unfold replanOntoLastGood
  split
  · split <;> rfl
  · rfl

theorem moves_revert (k : Closing) (e : Executor σ) :
    Moves docs (some k) s (revert docs m k e s).2 := by
  unfold revert
  split
  · exact .refl
  · next w hw =>
    split
    · exact (moves_clearWindow k hw).trans (.of_eq rfl rfl)
    · next d hd =>
      -- from the state the inverses leave, whatever was armed
      have hrest : ∀ s₂ : Daemon Doc Obs σ, Moves docs (some k) s s₂ → s₂.view = s.view →
          s₂.desired = some d →
          Moves docs (some k) s (reobserve m (clearWindow k
            (replanOntoLastGood m e { s₂ with armed := none }))) := by
        intro s₂ hmoves hview hdesired
        obtain ⟨hg₂, hw₂⟩ := Protocol.mk.inj hview
        rw [hd] at hg₂
        rw [hw] at hw₂
        have hdisarm : Moves docs (some k) s₂ { s₂ with armed := none } := .of_eq rfl rfl
        have hreplan : Moves docs (some k) { s₂ with armed := none }
            (replanOntoLastGood m e { s₂ with armed := none }) :=
          moves_replanOntoLastGood e hw₂ hg₂ hdesired
        refine ((hmoves.trans hdisarm).trans hreplan).trans ?_
        refine (moves_clearWindow (w := w) k ?_).trans moves_reobserve
        rw [window_replanOntoLastGood]
        exact hw₂
      have hback : Moves docs (some k) s
          { s with rejected := rejects docs s, desired := some d } := .of_eq rfl rfl
      dsimp only
      split
      · exact hrest _ (hback.trans (moves_undo e _ hw)) (view_undo e _) (desired_undo e _)
      · exact hrest _ hback rfl rfl

theorem moves_revertRequest : Moves docs (some .revert) s (revertRequest docs m s).2 := by
  unfold revertRequest
  split
  · exact .refl
  · split
    · exact .refl
    · exact moves_revert .revert _

/-! ## The pass -/

theorem moves_resolveWindow : Moves docs (some .expiry) s (resolveWindow docs m s) := by
  unfold resolveWindow
  split
  · exact .refl
  · split_ifs
    · split
      · exact .refl
      · exact moves_revert .expiry _
    · exact .refl

theorem moves_stateReload (compiled : Except String Doc) :
    Moves docs how s (stateReload docs compiled s).2 := by
  unfold stateReload
  split
  · exact .of_eq rfl rfl
  · split_ifs
    · exact .refl
    · exact .of_eq rfl rfl

theorem decideArming_eq_some {new : Bool} {desired d : Doc} {seconds : ℕ}
    (h : decideArming docs m new desired s = some (seconds, d)) :
    s.window = none ∧ s.lastGood = some d := by
  unfold decideArming at h
  dsimp only at h
  split at h
  · next hg =>
    obtain ⟨-, rfl⟩ := Prod.mk.inj (Option.some.inj h)
    split_ifs at hg
    cases hm : mayArm m s with
    | error why => simp [hm, Except.toOption] at hg
    | ok d' =>
      simp only [hm, Except.toOption, Option.some.injEq] at hg
      obtain rfl := hg
      exact mayArm_eq_ok hm
  · cases h

theorem moves_reconcileDrift {new : Bool} {p : Plan} {desired : Doc} {observed : Obs}
    (hw : s.window = none) :
    Moves docs how s (reconcileDrift docs m new p desired observed s) := by
  unfold reconcileDrift
  split
  · exact .refl
  · split_ifs
    · exact .refl
    · dsimp only
      split
      · exact .refl
      · next restricted _ _ _ e _ =>
        have hdrift : Moves docs how s (applyPlan .drift e restricted desired s).2 :=
          moves_drift e restricted desired hw
        split
        · next seconds d harm =>
          obtain ⟨-, hd⟩ := decideArming_eq_some harm
          exact (hdrift.trans moves_reobserve).trans (moves_armWindow _ _ _ hw hd)
        · exact hdrift.trans moves_reobserve

theorem moves_look {new : Bool} {requests : List Waiting} :
    Moves docs how s (look docs m new requests s) := by
  unfold look
  dsimp only
  split
  · split
    · exact moves_reobserve
    · split_ifs with _ hdefers
      · exact moves_reobserve
      · exact moves_reobserve
      · have hw : (reobserve m s).window = none := by
          simp only [defers, Bool.or_eq_true, not_or, Option.not_isSome_iff_eq_none] at hdefers
          exact hdefers.1
        exact moves_reobserve.trans (moves_reconcileDrift hw)
  · exact moves_reobserve

theorem moves_resolveAndReload (input : PassInput Doc) :
    Moves docs (some .expiry) s (resolveAndReload docs m input s).2 := by
  have hresolve : Moves docs (some .expiry) s
      (if shouldResolveWindow input.wake then resolveWindow docs m s else s) := by
    split_ifs
    · exact moves_resolveWindow
    · exact .refl
  unfold resolveAndReload
  dsimp only
  split
  · exact hresolve.trans (moves_stateReload _)
  · exact hresolve

theorem moves_release (requests : List Waiting) : Moves docs how s (release requests s) := by
  unfold release
  split_ifs
  · exact .of_eq rfl rfl
  · exact .refl

theorem moves_pass (input : PassInput Doc) :
    Moves docs (some .expiry) s (pass docs m input s) := by
  have hfirst : Moves docs (some .expiry) s (resolveAndReload docs m input s).2 :=
    moves_resolveAndReload input
  unfold pass
  dsimp only
  refine (hfirst.trans ?_).trans (moves_release _)
  split_ifs
  · exact moves_look
  · exact .refl

/-! ## Runs -/

def Step.closes : Step Doc Obs σ → Option Closing
  | .apply .. => none
  | .confirm => some .confirm
  | .revert _ => some .revert
  | .pass .. => some .expiry

/-- What one step of the daemon does to the protocol. -/
theorem moves_step (s : Daemon Doc Obs σ) (l : Step Doc Obs σ) :
    Moves docs l.closes s (step docs s l) := by
  cases l with
  | apply ask m => exact moves_applyRequest ask
  | confirm => exact moves_confirmRequest
  | revert m => exact moves_revertRequest
  | pass input m => exact moves_pass input

variable (docs)

/-- The run lemma : what is logged leads to the state that is seen. -/
theorem follows_states (s : Daemon Doc Obs σ) (ls : List (Step Doc Obs σ)) :
    ∀ t ∈ states (step docs) s.unwatched ls,
      Follows (Protocol.Next docs) s.unwatched.view t.log t.view := by
  refine forall_mem_states ls _ .nil fun x _ hx => ?_
  have hmoves : Moves docs x.2.closes x.1 (step docs x.1 x.2) := moves_step x.1 x.2
  obtain ⟨es, hlog, hf, -⟩ := hmoves
  rw [hlog]
  exact hx.append hf

/-! ## A second window -/

/-- A request that asks for a window. -/
def Ask.WantsWindow (ask : Ask) : Prop :=
  ∃ v, ask.confirm = some v ∧ 0 < v

/-- The request asks for a window of a positive multiple of 2^32 seconds. -/
def Ask.Wraps (ask : Ask) : Prop :=
  ∃ v, ask.confirm = some v ∧ 0 < v ∧ (2 ^ 32 : ℤ) ∣ v

/-- A window of no seconds is asked for exactly where the number wraps. -/
theorem Ask.seconds_eq_zero_iff {ask : Ask} (h : ask.WantsWindow) :
    ask.seconds = 0 ↔ ask.Wraps := by
  obtain ⟨v, hv, hpos⟩ := h
  have hnonneg : 0 ≤ v % 2 ^ 32 := Int.emod_nonneg v (by norm_num)
  have hwraps : ask.Wraps ↔ (2 ^ 32 : ℤ) ∣ v := by
    refine ⟨?_, fun hdvd => ⟨v, hv, hpos, hdvd⟩⟩
    rintro ⟨v', hv', -, hdvd⟩
    rw [hv] at hv'
    obtain rfl := Option.some.inj hv'
    exact hdvd
  rw [hwraps, Int.dvd_iff_emod_eq_zero]
  simp only [Ask.seconds, hv, hpos, if_true]
  omega

/-- The request would run, a window apart : the configuration compiles, the machine is known
and planned for, and the executor opens. -/
def Starts (m : Moment Doc Obs σ) (ask : Ask) (s : Daemon Doc Obs σ) : Prop :=
  s.diagnostics = none ∧ ∃ desired observed, s.desired = some desired ∧
    s.observed = some observed ∧
    (∃ p, m.plan (ask.options docs m none) desired
      ((m.observe s.kernel s.desired).getD observed) = .ok p) ∧
    ∃ e, m.executor = .ok e

/-- The request is answered with an error, and nothing was done. -/
def Refused (m : Moment Doc Obs σ) (ask : Ask) (s : Daemon Doc Obs σ) : Prop :=
  (∃ why, (applyRequest docs m ask s).1 = .error why) ∧ (applyRequest docs m ask s).2.log = s.log

variable {docs}

/-- An apply that asks for seconds is refused while a window is open. -/
theorem refused_of_seconds {w : Window} {ask : Ask} (hw : s.window = some w)
    (h : ask.seconds ≠ 0) : Refused docs m ask s := by
  have htarget : ∃ why, windowTarget m ask.seconds s = .error why := by
    rw [windowTarget, if_neg h, mayArm, hw]
    exact ⟨_, rfl⟩
  obtain ⟨why, htarget⟩ := htarget
  unfold Refused applyRequest
  split
  · exact ⟨⟨_, rfl⟩, rfl⟩
  · split
    · exact ⟨⟨_, rfl⟩, rfl⟩
    · exact ⟨⟨_, rfl⟩, rfl⟩
    · rw [htarget]
      exact ⟨⟨_, rfl⟩, rfl⟩

/-- One that asks for none is refused exactly where nothing starts. -/
theorem refused_iff_not_starts {ask : Ask} (h : ask.seconds = 0) :
    Refused docs m ask s ↔ ¬Starts docs m ask s := by
  have htarget : windowTarget m ask.seconds s = .ok none := by rw [windowTarget, if_pos h]
  unfold Refused Starts applyRequest
  cases hdiag : s.diagnostics with
  | some why => simp
  | none =>
    cases hdesired : s.desired with
    | none => simp
    | some desired =>
      cases hobserved : s.observed with
      | none => simp
      | some observed =>
        simp only [htarget]
        cases hplan : m.plan (ask.options docs m none) desired
            ((m.observe s.kernel (some desired)).getD observed) with
        | error why => simp [hplan]
        | ok p =>
          cases hexec : m.executor with
          | error why => simp
          | ok e => simp [hplan]

variable (docs)

/-- The window holds its promises along a run. -/
structure WindowIntegrity (s : Daemon Doc Obs σ) (ls : List (Step Doc Obs σ)) : Prop where
  /-- At every moment the run has done a word of the protocol. -/
  follows : ∀ t ∈ states (step docs) s ls, Follows (Protocol.Next docs) s.view t.log t.view
  /-- An open window names the last-good document. -/
  targets : ∀ t ∈ states (step docs) s ls, t.view.Targets docs
  /-- A window is closed by a confirmation, a revert or a pass that finds it expired. -/
  closes : ∀ x ∈ steps (step docs) s ls, Moves docs x.2.closes x.1 (step docs x.1 x.2)
  /-- A second window is refused before anything runs. -/
  refuses : ∀ x ∈ steps (step docs) s ls, ∀ ask m, x.2 = .apply ask m →
    x.1.window.isSome → ask.WantsWindow → Refused docs m ask x.1

/-- The window holds its promises along a run if and only if no apply that could start asks,
inside a window, for a positive multiple of 2^32 seconds. -/
theorem windowIntegrity_iff (s : Daemon Doc Obs σ) (ls : List (Step Doc Obs σ)) :
    WindowIntegrity docs s.unwatched ls ↔
      ∀ x ∈ steps (step docs) s.unwatched ls, ∀ ask m, x.2 = .apply ask m →
        x.1.window.isSome → ask.Wraps → ¬Starts docs m ask x.1 := by
  constructor
  · intro h x hx ask m hask hw hwraps
    have hwants : ask.WantsWindow := hwraps.imp fun v hv => ⟨hv.1, hv.2.1⟩
    have hzero := (Ask.seconds_eq_zero_iff hwants).2 hwraps
    exact (refused_iff_not_starts hzero).1 (h.refuses x hx ask m hask hw hwants)
  · intro h
    refine ⟨follows_states docs s ls, fun t ht => ?_, fun x _ => moves_step x.1 x.2, ?_⟩
    · exact (follows_states docs s ls t ht).invariant (Protocol.targets_of_closed docs _)
        fun hnext => hnext.targets
    · intro x hx ask m hask hw hwants
      by_cases hzero : ask.seconds = 0
      · have hwraps := (Ask.seconds_eq_zero_iff hwants).1 hzero
        exact (refused_iff_not_starts hzero).2 (h x hx ask m hask hw hwraps)
      · obtain ⟨w, hw⟩ := Option.isSome_iff_exists.1 hw
        exact refused_of_seconds hw hzero

/-- Inside a window of a minute, an apply that asks for one of 2^32 seconds is carried
out. -/
theorem second_window_not_refused :
    ¬WindowIntegrity textDocuments (holdingText "eth0" "").unwatched
      [.apply { confirm := some 60 } (oneOpMoment (.ok ())),
        .apply { confirm := some (2 ^ 32) } (oneOpMoment (.ok ()))] := by
  intro h
  obtain ⟨⟨why, hwhy⟩, -⟩ := h.refuses _ (List.mem_cons_of_mem _ List.mem_cons_self) _ _ rfl rfl
    ⟨2 ^ 32, rfl, by norm_num⟩
  cases hwhy

end Daemon

end Netcfgd
