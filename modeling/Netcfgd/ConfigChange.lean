import Netcfgd.Daemon
import Netcfgd.Trace

/-!
# The changes a pass applies by itself

A document that asks for a confirm window is to get one when a pass applies it for the first
time. A pass arms a window where it finds the configuration new, and finds it new where its
own reload moved the desired document (`configIsNew_iff`). What a pass does is spelled out
once (`log_pass`) : the end of its log is empty, or the run of a restricted plan, followed by
a window where `decideArming` says so.

So a pass arms a window over a change if and only if it took the change up itself
(`changesCovered_iff`). A document whose reload came in an earlier pass, held back by a window
that was open, is applied as drift and gets none (`deferred_change_uncovered`).
-/

namespace Netcfgd

open Trace

namespace Daemon

variable {Doc Obs σ : Type*} (docs : DocumentModel Doc) (m : Moment Doc Obs σ)

/-! ## What a pass does -/

/-- The end of a pass's log : nothing, or a plan for the desired document and the window over
it. -/
def PassTail (configIsNew : Bool) (s : Daemon Doc Obs σ) (tail : List (Event Doc)) : Prop :=
  tail = [] ∨ ∃ desired ops j window, s.desired = some desired ∧
    tail = .applied .drift desired ops j :: window ∧
    match decideArming docs m configIsNew desired (reobserve m s) with
    | some (_, lastGood) => ∃ w, window = [.opened w lastGood (some (docs.hash desired))]
    | none => window = []

variable {docs m}

variable {s : Daemon Doc Obs σ}

theorem log_armWindow {desired : Doc} (p : Plan) (j : Journal)
    (seconds : ℕ) (lastGood : Doc) (hd : s.desired = some desired) :
    ∃ w, (armWindow docs m p j seconds lastGood s).log =
      s.log ++ [Event.opened w lastGood (some (docs.hash desired))] := by
  unfold armWindow
  rw [hd]
  exact ⟨_, rfl⟩

theorem log_reconcileDrift {new : Bool} {p : Plan} {desired : Doc}
    {observed : Obs} (hd : s.desired = some desired) :
    ∃ tail, (reconcileDrift docs m new p desired observed (reobserve m s)).log =
      s.log ++ tail ∧ PassTail docs m new s tail := by
  have hnone : (reobserve m s).log = s.log ++ [] := by simp [reobserve]
  unfold reconcileDrift
  split
  · exact ⟨[], hnone, .inl rfl⟩
  · next restricted _ =>
    split_ifs
    · exact ⟨[], hnone, .inl rfl⟩
    · dsimp only
      split
      · exact ⟨[], hnone, .inl rfl⟩
      · next e _ =>
        obtain ⟨ops, j, hrun⟩ : ∃ ops j, (applyPlan .drift e restricted desired
            (reobserve m s)).2.log = s.log ++ [Event.applied .drift desired ops j] := ⟨_, _, rfl⟩
        split
        · next seconds lastGood harm =>
          obtain ⟨w, hw⟩ : ∃ w, (armWindow docs m restricted
              (applyPlan .drift e restricted desired (reobserve m s)).1 seconds lastGood
              (reobserve m (applyPlan .drift e restricted desired (reobserve m s)).2)).log =
              (applyPlan .drift e restricted desired (reobserve m s)).2.log ++
                [.opened w lastGood (some (docs.hash desired))] :=
            log_armWindow (s := reobserve m (applyPlan .drift e restricted desired
              (reobserve m s)).2) _ _ _ _ hd
          refine ⟨[.applied .drift desired ops j, .opened w lastGood (some (docs.hash desired))],
            ?_, .inr ⟨desired, ops, j, _, hd, rfl, ?_⟩⟩
          · rw [hw, hrun, List.append_assoc]
            rfl
          · rw [harm]
            exact ⟨w, rfl⟩
        · next harm =>
          refine ⟨[.applied .drift desired ops j], hrun, .inr ⟨desired, ops, j, [], hd, rfl, ?_⟩⟩
          rw [harm]

theorem log_look {new : Bool} {requests : List Waiting} :
    ∃ tail, (look docs m new requests s).log = s.log ++ tail ∧ PassTail docs m new s tail := by
  have hnone : (reobserve m s).log = s.log ++ [] := by simp [reobserve]
  unfold look
  dsimp only
  split
  · next desired observed hdesired _ =>
    split
    · exact ⟨[], hnone, .inl rfl⟩
    · split_ifs
      · exact ⟨[], hnone, .inl rfl⟩
      · exact ⟨[], hnone, .inl rfl⟩
      · exact log_reconcileDrift hdesired
  · exact ⟨[], hnone, .inl rfl⟩

theorem log_pass {input : PassInput Doc} :
    ∃ tail, (pass docs m input s).log = (resolveAndReload docs m input s).2.log ++ tail ∧
      PassTail docs m (resolveAndReload docs m input s).1 (resolveAndReload docs m input s).2
        tail := by
  have hrelease : ∀ s : Daemon Doc Obs σ, (release input.requests s).log = s.log := by
    intro s
    unfold release
    split_ifs <;> rfl
  unfold pass
  dsimp only
  rw [hrelease]
  split
  · exact log_look
  · exact ⟨[], by simp, .inl rfl⟩

/-! ## Arming -/

/-- Where the document asks for a window, none is open and there is a last-good document to
go back to, a window is armed if and only if the configuration is new. -/
theorem decideArming_isSome {new : Bool} {desired lastGood : Doc} {v : ℤ}
    (hv : docs.confirmDefault desired = some v) (hpos : 0 < v) (hw : s.window = none)
    (hg : s.lastGood = some lastGood) (hne : docs.isEmpty lastGood = false) :
    (decideArming docs m new desired s).isSome = new := by
  have hwindow : planConfirmWindow docs desired {} = some v := by
    simp [planConfirmWindow, hv, hpos]
  have hmay : mayArm m s = .ok lastGood := by simp [mayArm, hw, hg]
  unfold decideArming
  dsimp only
  rw [hwindow, hmay]
  cases new with
  | false => simp [arms]
  | true => simp [arms, hpos, hne, Except.toOption, not_le.2 hpos]

variable (docs m)

def desiredBefore (input : PassInput Doc) (s : Daemon Doc Obs σ) : Option Doc :=
  (if shouldResolveWindow input.wake then resolveWindow docs m s else s).desired

/-- The pass takes the document up itself : it reloads, and held no document of this hash
before. -/
def TakesUp (input : PassInput Doc) (s : Daemon Doc Obs σ) (d : Doc) : Prop :=
  input.wake.configChanged ∧ (desiredBefore docs m input s).map docs.hash ≠ some (docs.hash d)

variable {docs m}

theorem configIsNew_iff {input : PassInput Doc} {d : Doc}
    (hd : (resolveAndReload docs m input s).2.desired = some d) :
    (resolveAndReload docs m input s).1 = true ↔ TakesUp docs m input s d := by
  unfold TakesUp desiredBefore
  unfold resolveAndReload at hd ⊢
  dsimp only at hd ⊢
  split
  · next hchanged =>
    rw [if_pos hchanged] at hd
    unfold reload at hd ⊢
    dsimp only at hd ⊢
    rw [hd]
    simp [hchanged]
  · next hchanged => simp [hchanged]

/-! ## Runs -/

variable (docs)

/-- A pass applies a document for the first time, and the document asks for a window that
could be armed : no window is open, and the last-good document is not the empty one. `window`
is what the pass does after it. -/
def AppliesChange (m : Moment Doc Obs σ) (input : PassInput Doc) (s : Daemon Doc Obs σ) (d : Doc)
    (window : List (Event Doc)) : Prop :=
  let s₁ := (resolveAndReload docs m input s).2
  (∃ ops j, (pass docs m input s).log = s₁.log ++ Event.applied .drift d ops j :: window) ∧
    (∀ actor d' ops j, .applied actor d' ops j ∈ s₁.log → docs.hash d' ≠ docs.hash d) ∧
    (∃ v, docs.confirmDefault d = some v ∧ 0 < v) ∧ s₁.window = none ∧
    ∃ lastGood, s₁.lastGood = some lastGood ∧ docs.isEmpty lastGood = false

/-- A window was opened for a document. -/
def Covers (d : Doc) (window : List (Event Doc)) : Prop :=
  ∃ w lastGood, .opened w lastGood (some (docs.hash d)) ∈ window

/-- Along the run, every change a pass applies by itself is covered by a window. -/
def ChangesCovered (s : Daemon Doc Obs σ) (ops : List (Operation Doc Obs σ)) : Prop :=
  ∀ x ∈ steps (operate docs) s ops, ∀ input m, x.2 = .step (.pass input m) →
    ∀ d window, AppliesChange docs m input x.1 d window → Covers docs d window

variable {docs}

/-- A change that is applied is covered exactly where it is taken up. -/
theorem covers_iff {input : PassInput Doc} {d : Doc}
    {window : List (Event Doc)} (h : AppliesChange docs m input s d window) :
    Covers docs d window ↔ TakesUp docs m input s d := by
  obtain ⟨⟨ops, j, hlog⟩, -, ⟨v, hv, hpos⟩, hw, lastGood, hg, hne⟩ := h
  obtain ⟨tail, hlog', htail⟩ : ∃ tail, (pass docs m input s).log =
      (resolveAndReload docs m input s).2.log ++ tail ∧ PassTail docs m
        (resolveAndReload docs m input s).1 (resolveAndReload docs m input s).2 tail := log_pass
  have heq : tail = .applied .drift d ops j :: window :=
    List.append_cancel_left (hlog'.symm.trans hlog)
  rcases htail with rfl | ⟨desired, ops', j', window', hd, rfl, harm⟩
  · cases heq
  · obtain ⟨hevent, rfl⟩ := List.cons.inj heq
    obtain ⟨-, rfl, -, -⟩ := Event.applied.inj hevent
    have hnew : (decideArming docs m (resolveAndReload docs m input s).1 desired
        (reobserve m (resolveAndReload docs m input s).2)).isSome =
          (resolveAndReload docs m input s).1 := decideArming_isSome hv hpos hw hg hne
    rw [← configIsNew_iff hd, ← hnew]
    split at harm
    · next secs g harm' =>
      obtain ⟨w, rfl⟩ := harm
      simp [Covers, harm']
    · next harm' =>
      subst harm
      simp [Covers, harm']

variable (docs)

/-- Every change the passes of a run apply by themselves is covered by a window if and only
if each was taken up by the pass that applies it. -/
theorem changesCovered_iff (s : Daemon Doc Obs σ) (ops : List (Operation Doc Obs σ)) :
    ChangesCovered docs s.unwatched ops ↔
      ∀ x ∈ steps (operate docs) s.unwatched ops, ∀ input m, x.2 = .step (.pass input m) →
        ∀ d window, AppliesChange docs m input x.1 d window → TakesUp docs m input x.1 d :=
  forall_congr' fun _ => forall_congr' fun _ => forall_congr' fun _ => forall_congr' fun _ =>
    forall_congr' fun _ => forall_congr' fun _ => forall_congr' fun _ => forall_congr' covers_iff

/-- A configuration edited inside a window is held back, and applied as drift once the window
is confirmed : no window covers it. -/
theorem deferred_change_uncovered :
    ¬ChangesCovered textDocuments (holdingText "eth0" "lo").unwatched
      [.step (.apply { confirm := some 60 } (oneOpMoment (.ok ()))),
        .step (.pass { wake := { configChanged := true }, compiled := .ok "eth1" }
          (oneOpMoment (.ok ()))),
        .step .confirm,
        .step (.pass { wake := { ticked := true }, compiled := .ok "eth1" }
          (oneOpMoment (.ok ())))] := by
  intro h
  have hbefore : ∀ actor (d : String) ops j,
      Event.applied actor d ops j ∈ [Event.applied .request "eth0" [(.linkUp "eth0", true)]
        [⟨0, "link.up", some "eth0", ⟨some "eth0", "link", "up", "down"⟩, .done, none⟩],
        .opened ⟨60, 60, 0, "lo"⟩ "lo" (some "eth0"), .closed .confirm] → d ≠ "eth1" := by
    intro actor d ops j hmem
    obtain ⟨-, rfl, -⟩ : actor = .request ∧ d = "eth0" ∧ _ := by simpa using hmem
    decide
  obtain ⟨w, lastGood, hmem⟩ := h _
    (List.mem_cons_of_mem _ (List.mem_cons_of_mem _ (List.mem_cons_of_mem _ List.mem_cons_self)))
    _ _ rfl "eth1" [] ⟨⟨_, _, rfl⟩, hbefore, ⟨60, rfl, by norm_num⟩, rfl, "lo", rfl, by decide⟩
  cases hmem

end Daemon

end Netcfgd
