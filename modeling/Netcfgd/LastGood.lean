import Netcfgd.Daemon
import Netcfgd.Trace

/-!
# The last-good document

What a revert goes back to is to be a configuration that worked : the empty one, one that was
confirmed while its window was open, or one whose apply left no failed action when it was
recorded. Three paths write it. A confirmation writes what its window covered
(`sound_confirmRequest`), the startup apply what its journal says succeeded
(`sound_converge`), and an apply without a window what it applied. No path takes a record
back : a document that is applied again and fails stays the one to go back to
(`revert_keeps_last_good`).

`lastGood_worked` is about every run where an apply that settles without a window has every
required op carried out (`SettlesClean`). The invariant `Sound` carries it, and beside the
promise it says what a confirmation relies on : an open window covers the document the armed
record names.
-/

namespace Netcfgd

open Trace

variable {Doc Obs σ : Type*}

/-! ## Applies without a failure -/

/-- No action of the journal failed ; one the plan outlived may be unmet. -/
def Journal.LeftNoFailure (j : Journal) : Prop :=
  ∀ r ∈ j, r.outcome ≠ .failed

theorem Journal.LeftNoFailure.of_succeeded {j : Journal} (h : j.succeeded) :
    j.LeftNoFailure := by
  intro r hr hfailed
  have := List.all_eq_true.1 h r hr
  simp [hfailed] at this

/-- Every op from here on is accepted, or is one an apply goes on without. -/
def Executor.CarriesOut (e : Executor σ) : List Op → σ → Prop
  | [], _ => True
  | op :: ops, s => (e.succeeds s op ∨ applyOptional op) ∧ e.CarriesOut ops (e.after s op)

theorem Executor.carriesOut_logged (e : Executor σ) :
    ∀ (ops : List Op) (s : σ) (log : List (Op × Bool)),
      e.CarriesOut ops s → e.logged.CarriesOut ops (s, log)
  | [], _, _, _ => trivial
  | op :: ops, s, _, h => ⟨h.1, e.carriesOut_logged ops (e.after s op) _ h.2⟩

theorem leftNoFailure_runPlan (e : Executor σ) :
    ∀ (as : List Action) (s : σ), e.CarriesOut (as.map Action.op) s →
      Journal.LeftNoFailure (runPlan e as false s).1
  | [], _, _ => by simp [runPlan, Journal.LeftNoFailure]
  | a :: as, s, ⟨ha, has⟩ => by
    have ih := leftNoFailure_runPlan e as (e.after s a.op) has
    unfold runPlan
    simp only [Executor.succeeds, Executor.after] at ha ih
    split
    · next hx =>
      rw [hx] at ih
      intro r hr
      rcases List.mem_cons.1 hr with rfl | hr
      · simp [recordOf]
      · exact ih r hr
    · next hx =>
      rw [hx] at ha ih
      have hopt : applyOptional a.op = true := by simpa using ha
      intro r hr
      simp only [hopt, Bool.not_true, if_true] at hr
      rcases List.mem_cons.1 hr with rfl | hr
      · simp [recordOf]
      · exact ih r hr

/-! ## What a log says of a document -/

/-- The document was applied, and its most recent apply left no failed action. -/
def LastApplyWorked (log : List (Event Doc)) (d : Doc) : Prop :=
  ∃ pre actor ops j post, log = pre ++ Event.applied actor d ops j :: post ∧ j.LeftNoFailure ∧
    ∀ actor' ops' j', .applied actor' d ops' j' ∉ post

/-- A window over the document of this hash was opened and has not been closed. -/
def OpenOver (log : List (Event Doc)) (covers : String) : Prop :=
  ∃ pre w g post, log = pre ++ Event.opened w g (some covers) :: post ∧ ∀ how, .closed how ∉ post

/-- The document was confirmed while a window over it was open. -/
def Confirmed (docs : DocumentModel Doc) (log : List (Event Doc)) (d : Doc) : Prop :=
  ∃ pre post, log = pre ++ Event.closed .confirm :: post ∧ OpenOver pre (docs.hash d)

/-- The window over the document has just been confirmed. -/
def JustConfirmed (docs : DocumentModel Doc) (log : List (Event Doc)) (d : Doc) : Prop :=
  ∃ pre, log = pre ++ [Event.closed .confirm] ∧ OpenOver pre (docs.hash d)

/-- Whenever a document was recorded, the window over it had just been confirmed or its most recent
apply had left no failed action. -/
def RecordsWorked (docs : DocumentModel Doc) (log : List (Event Doc)) : Prop :=
  ∀ pre d post, log = pre ++ Event.recorded d :: post →
    JustConfirmed docs pre d ∨ LastApplyWorked pre d

/-- The document's most recent apply had left no failed action when it was last recorded,
with `post` what happened since. -/
def RecordedAfterSuccess (log : List (Event Doc)) (d : Doc) (post : List (Event Doc)) : Prop :=
  ∃ pre, log = pre ++ Event.recorded d :: post ∧ (∀ d', .recorded d' ∉ post) ∧ LastApplyWorked pre d

section Logs

variable {docs : DocumentModel Doc} {log : List (Event Doc)} {d : Doc}

theorem OpenOver.append {covers : String} (h : OpenOver log covers) (es : List (Event Doc))
    (hes : ∀ how, .closed how ∉ es) : OpenOver (log ++ es) covers := by
  obtain ⟨pre, w, g, post, rfl, hpost⟩ := h
  refine ⟨pre, w, g, post ++ es, by simp, fun how hmem => ?_⟩
  rcases List.mem_append.1 hmem with hmem | hmem
  · exact hpost how hmem
  · exact hes how hmem

theorem Confirmed.append (h : Confirmed docs log d) (es : List (Event Doc)) :
    Confirmed docs (log ++ es) d := by
  obtain ⟨pre, post, rfl, hopen⟩ := h
  exact ⟨pre, post ++ es, by simp, hopen⟩

theorem JustConfirmed.confirmed (h : JustConfirmed docs log d) : Confirmed docs log d := by
  obtain ⟨pre, rfl, hopen⟩ := h
  exact ⟨pre, [], rfl, hopen⟩

theorem RecordsWorked.append (h : RecordsWorked docs log) (es : List (Event Doc))
    (hes : ∀ d', .recorded d' ∉ es) : RecordsWorked docs (log ++ es) := by
  intro pre d' post heq
  rcases List.append_eq_append_iff.1 heq with ⟨as, -, has⟩ | ⟨as, hlog, has⟩
  · exact absurd (has ▸ by simp) (hes d')
  · rcases List.cons_eq_append_iff.1 has with ⟨-, has⟩ | ⟨as', rfl, -⟩
    · exact absurd (has ▸ by simp) (hes d')
    · exact h pre d' as' hlog

theorem RecordsWorked.concat (h : RecordsWorked docs log)
    (hd : JustConfirmed docs log d ∨ LastApplyWorked log d) :
    RecordsWorked docs (log ++ [Event.recorded d]) := by
  intro pre d' post heq
  rcases List.eq_nil_or_concat post with rfl | ⟨post', e, rfl⟩
  · obtain ⟨rfl, hsame⟩ := List.append_inj' heq rfl
    obtain rfl : d = d' := by simpa using hsame
    exact hd
  · rw [List.concat_eq_append, ← List.cons_append, ← List.append_assoc] at heq
    obtain ⟨rfl, -⟩ := List.append_inj' heq rfl
    exact h pre d' post' rfl

theorem RecordedAfterSuccess.append {post : List (Event Doc)}
    (h : RecordedAfterSuccess log d post) (es : List (Event Doc))
    (hes : ∀ d', .recorded d' ∉ es) : RecordedAfterSuccess (log ++ es) d (post ++ es) := by
  obtain ⟨pre, rfl, hpost, hworked⟩ := h
  refine ⟨pre, by simp, fun d' hmem => ?_, hworked⟩
  rcases List.mem_append.1 hmem with hmem | hmem
  · exact hpost d' hmem
  · exact hes d' hmem

theorem lastApplyWorked_concat {actor : Actor} {ops : List (Op × Bool)} {j : Journal}
    (hj : j.LeftNoFailure) : LastApplyWorked (log ++ [Event.applied actor d ops j]) d :=
  ⟨log, actor, ops, j, [], rfl, hj, by simp⟩

theorem LastApplyWorked.append (h : LastApplyWorked log d) :
    ∀ es : List (Event Doc), (∀ actor ops j, .applied actor d ops j ∈ es → j.LeftNoFailure) →
      LastApplyWorked (log ++ es) d := by
  intro es
  induction es using List.reverseRecOn with
  | nil =>
    intro _
    simpa using h
  | append_singleton es e ih =>
    intro hes
    obtain ⟨pre, actor, ops, j, post, hlog, hj, hpost⟩ :=
      ih fun actor ops j hmem => hes actor ops j (by simp [hmem])
    by_cases he : ∃ actor' ops' j', e = .applied actor' d ops' j'
    · obtain ⟨actor', ops', j', rfl⟩ := he
      rw [← List.append_assoc]
      exact lastApplyWorked_concat (hes actor' ops' j' (by simp))
    · refine ⟨pre, actor, ops, j, post ++ [e], ?_, hj, ?_⟩
      · rw [← List.append_assoc, hlog]
        simp
      · intro actor' ops' j' hmem
        rcases List.mem_append.1 hmem with hmem | hmem
        · exact hpost actor' ops' j' hmem
        · exact he ⟨actor', ops', j', (List.mem_singleton.1 hmem).symm⟩

/-- Where an apply of the document is the last one, it is the one that worked. -/
theorem LastApplyWorked.leftNoFailure {actor : Actor} {ops : List (Op × Bool)} {j : Journal}
    {post : List (Event Doc)} (h : LastApplyWorked (log ++ Event.applied actor d ops j :: post) d)
    (hpost : ∀ actor' ops' j', .applied actor' d ops' j' ∉ post) : j.LeftNoFailure := by
  obtain ⟨pre, actor', ops', j', post', heq, hj, hpost'⟩ := h
  rcases List.append_eq_append_iff.1 heq with ⟨as, -, has⟩ | ⟨as, -, has⟩
  · rcases List.cons_eq_append_iff.1 has with ⟨-, has⟩ | ⟨as', -, rfl⟩
    · obtain ⟨⟨-, -, rfl⟩, -⟩ : (_ ∧ _ ∧ j' = j) ∧ _ := by simpa using has
      exact hj
    · exact absurd (by simp) (hpost actor' ops' j')
  · rcases List.cons_eq_append_iff.1 has with ⟨-, has⟩ | ⟨as', -, rfl⟩
    · obtain ⟨⟨-, -, rfl⟩, -⟩ : (_ ∧ _ ∧ j = j') ∧ _ := by simpa using has
      exact hj
    · exact absurd (by simp) (hpost' actor ops j)

/-- A document recorded after a success is one whose most recent apply worked, as long as no
apply of it has failed since. -/
theorem RecordedAfterSuccess.lastApplyWorked {post : List (Event Doc)}
    (h : RecordedAfterSuccess log d post)
    (hpost : ∀ actor ops j, .applied actor d ops j ∈ post → j.LeftNoFailure) :
    LastApplyWorked log d := by
  obtain ⟨pre, rfl, -, hworked⟩ := h
  refine hworked.append (.recorded d :: post) fun actor ops j hmem => ?_
  rcases List.mem_cons.1 hmem with hmem | hmem
  · cases hmem
  · exact hpost actor ops j hmem

end Logs

namespace Daemon

variable (docs : DocumentModel Doc)

/-! ## The invariant -/

/-- An open window covers the document the armed record names, the last-good document is the
empty one, a confirmed one, or one whose most recent apply had worked when it was recorded, and
so was every document recorded before. -/
structure Sound (s : Daemon Doc Obs σ) : Prop where
  covered : ∀ w, s.window = some w → ∃ a covers, s.armed = some a ∧ a.document = some covers ∧
    OpenOver s.log covers
  worked : ∀ d, s.lastGood = some d → d = docs.empty ∨ Confirmed docs s.log d ∨
    ∃ post, RecordedAfterSuccess s.log d post
  records : RecordsWorked docs s.log

/-- From `s` to `s'` with the last-good document left alone. -/
structure Leaves (s s' : Daemon Doc Obs σ) (es : List (Event Doc)) : Prop where
  log : s'.log = s.log ++ es
  lastGood : s'.lastGood = s.lastGood
  noRecord : ∀ d, .recorded d ∉ es

variable {docs} {m : Moment Doc Obs σ} {s s' s'' : Daemon Doc Obs σ} {es es' : List (Event Doc)}

theorem Leaves.worked (h : Leaves s s' es) (hs : Sound docs s) :
    ∀ d, s'.lastGood = some d → d = docs.empty ∨ Confirmed docs s'.log d ∨
      ∃ post, RecordedAfterSuccess s'.log d post := by
  intro d hd
  rw [h.log]
  rw [h.lastGood] at hd
  rcases hs.worked d hd with hempty | hconfirmed | ⟨post, hrecorded⟩
  · exact .inl hempty
  · exact .inr (.inl (hconfirmed.append es))
  · exact .inr (.inr ⟨post ++ es, hrecorded.append es h.noRecord⟩)

theorem Leaves.trans (h : Leaves s s' es) (h' : Leaves s' s'' es') :
    Leaves s s'' (es ++ es') where
  log := by rw [h'.log, h.log, List.append_assoc]
  lastGood := h'.lastGood.trans h.lastGood
  noRecord d hmem := by
    rcases List.mem_append.1 hmem with hmem | hmem
    · exact h.noRecord d hmem
    · exact h'.noRecord d hmem

theorem Leaves.of_eq (hlog : s'.log = s.log) (hg : s'.lastGood = s.lastGood) :
    Leaves s s' [] :=
  ⟨by simpa using hlog, hg, by simp⟩

theorem Sound.closed (hs : Sound docs s) (h : Leaves s s' es) (hw : s'.window = none) :
    Sound docs s' :=
  ⟨fun w hw' => by simp [hw] at hw', h.worked hs, h.log ▸ hs.records.append es h.noRecord⟩

theorem Sound.kept (hs : Sound docs s) (h : Leaves s s' es) (hw : s'.window = s.window)
    (ha : s'.armed = s.armed) (hes : ∀ how, .closed how ∉ es) : Sound docs s' := by
  refine ⟨fun w hw' => ?_, h.worked hs, h.log ▸ hs.records.append es h.noRecord⟩
  obtain ⟨a, covers, harmed, hdoc, hopen⟩ := hs.covered w (hw ▸ hw')
  exact ⟨a, covers, ha.trans harmed, hdoc, h.log ▸ hopen.append es hes⟩

theorem Sound.recorded {d : Doc} (hs : Sound docs s) (hd : JustConfirmed docs s.log d ∨
    LastApplyWorked s.log d) : Sound docs (writeLastGood d s) := by
  refine ⟨fun w hw => ?_, fun d' hd' => ?_, hs.records.concat hd⟩
  · obtain ⟨a, covers, harmed, hdoc, hopen⟩ := hs.covered w hw
    exact ⟨a, covers, harmed, hdoc, hopen.append _ (by simp)⟩
  · obtain rfl : d = d' := Option.some.inj hd'
    rcases hd with hd | hd
    · exact .inr (.inl (hd.confirmed.append _))
    · exact .inr (.inr ⟨[], s.log, rfl, by simp, hd⟩)

/-! ## What leaves the record alone -/

theorem sound_reobserve (hs : Sound docs s) : Sound docs (reobserve m s) :=
  hs.kept (.of_eq rfl rfl) rfl rfl (by simp)

theorem sound_applyPlan (actor : Actor) (e : Executor σ) (p : Plan) (d : Doc)
    (hs : Sound docs s) : Sound docs (applyPlan actor e p d s).2 :=
  hs.kept ⟨rfl, rfl, by simp⟩ rfl rfl (by simp)

theorem sound_stateReload (compiled : Except String Doc) (hs : Sound docs s) :
    Sound docs (stateReload docs compiled s).2 := by
  unfold stateReload
  split
  · exact hs.kept (.of_eq rfl rfl) rfl rfl (by simp)
  · split_ifs
    · exact hs
    · exact hs.kept (.of_eq rfl rfl) rfl rfl (by simp)

theorem sound_armWindow {d : Doc} (p : Plan) (j : Journal) (seconds : ℕ) (g : Doc)
    (hd : s.desired = some d) (hs : Sound docs s) :
    Sound docs (armWindow docs m p j seconds g s) := by
  have hleaves : ∃ es, Leaves s (armWindow docs m p j seconds g s) es := by
    unfold armWindow
    rw [hd]
    exact ⟨_, rfl, rfl, by simp⟩
  obtain ⟨es, hleaves⟩ := hleaves
  refine ⟨fun w _ => ?_, hleaves.worked hs,
    hleaves.log ▸ hs.records.append es hleaves.noRecord⟩
  refine ⟨armedFrom p j (docs.hash d), docs.hash d, ?_, rfl, s.log, ?_⟩
  · simp only [armWindow, hd, arm]
  · simp only [armWindow, hd, arm]
    exact ⟨_, g, [], rfl, by simp⟩

theorem lastApplyWorked_applyPlan (actor : Actor) {e : Executor σ} {p : Plan} (d : Doc)
    (h : e.CarriesOut (p.actions.map Action.op) s.kernel) :
    LastApplyWorked (applyPlan actor e p d s).2.log d :=
  lastApplyWorked_concat (leftNoFailure_runPlan _ _ _ (e.carriesOut_logged _ _ _ h))

/-! ## The requests -/

theorem sound_settleWithoutAWindow (hs : Sound docs s)
    (h : s.window = none → ∀ d, s.desired = some d → LastApplyWorked s.log d) :
    Sound docs (settleWithoutAWindow s) := by
  unfold settleWithoutAWindow
  split
  · exact hs
  · next hw =>
    have hdisarm : Sound docs { s with armed := none } := hs.closed (.of_eq rfl rfl) hw
    dsimp only
    split
    · next d hd => exact hdisarm.recorded (.inr (h hw d hd))
    · exact hdisarm

/-- An apply that records its document has every required op carried out : the plan a
request without a window runs, where no window is open. -/
def SettlesClean (docs : DocumentModel Doc) (m : Moment Doc Obs σ) (ask : Ask)
    (s : Daemon Doc Obs σ) : Prop :=
  s.window = none → ask.seconds = 0 → ∀ desired observed p e, s.desired = some desired →
    s.observed = some observed →
    m.plan (ask.options docs m none) desired ((m.observe s.kernel s.desired).getD observed) =
      .ok p →
    m.executor = .ok e → e.CarriesOut (p.actions.map Action.op) s.kernel

theorem sound_applyRequest {ask : Ask} (hs : Sound docs s) (h : SettlesClean docs m ask s) :
    Sound docs (applyRequest docs m ask s).2 := by
  have hseen : ∀ seen, Sound docs { s with observed := some seen } :=
    fun _ => hs.kept (.of_eq rfl rfl) rfl rfl (by simp)
  unfold applyRequest
  split
  · exact hs
  · split
    · exact hs
    · exact hs
    · next desired observed hdesired hobserved =>
      split
      · exact hs
      · next target htarget =>
        dsimp only
        split
        · exact hseen _
        · next p hplan =>
          split
          · exact hseen _
          · next e hexec =>
            have hrun := sound_applyPlan .request e p desired
              (hseen ((m.observe s.kernel s.desired).getD observed))
            unfold finishApply
            split
            · exact sound_armWindow _ _ _ _ hdesired (sound_reobserve hrun)
            · refine sound_settleWithoutAWindow (sound_reobserve hrun) fun hw d hd => ?_
              obtain rfl : desired = d := Option.some.inj (hdesired.symm.trans hd)
              have hzero : ask.seconds = 0 := by
                unfold windowTarget at htarget
                split_ifs at htarget with hzero
                · exact hzero
                · cases hmay : mayArm m s <;> simp [hmay, Except.map] at htarget
              exact lastApplyWorked_applyPlan .request _
                (h hw hzero desired observed p e hdesired hobserved hplan hexec)

theorem sound_confirmRequest (hs : Sound docs s) : Sound docs (confirmRequest docs s).2 := by
  unfold confirmRequest keep
  split
  · exact hs
  · next w hw =>
    have hclear : Sound docs { clearWindow .confirm s with armed := none } :=
      hs.closed ⟨rfl, rfl, by simp⟩ rfl
    split
    · next d hd =>
      refine hclear.recorded (.inl ⟨s.log, rfl, ?_⟩)
      obtain ⟨a, covers, harmed, hdoc, hopen⟩ := hs.covered w hw
      rw [whatTheWindowCovered, harmed, Option.bind_some, hdoc] at hd
      obtain ⟨-, hhash⟩ := Option.filter_eq_some_iff.1 hd
      rw [of_decide_eq_true hhash]
      exact hopen
    · exact hclear

theorem leaves_undo (e : Executor σ) (a : Armed) : ∃ es, Leaves s (undo m e a s) es := by
  unfold undo
  split_ifs
  · exact ⟨[], .of_eq rfl rfl⟩
  · exact ⟨_, rfl, rfl, by simp⟩

theorem leaves_replanOntoLastGood (e : Executor σ) :
    ∃ es, Leaves s (replanOntoLastGood m e s) es := by
  unfold replanOntoLastGood
  split
  · split
    · exact ⟨[], .of_eq rfl rfl⟩
    · exact ⟨_, rfl, rfl, by simp⟩
  · exact ⟨[], .of_eq rfl rfl⟩

theorem leaves_revert (how : Closing) (e : Executor σ) :
    ∃ es, Leaves s (revert docs m how e s).2 es ∧
      ((revert docs m how e s).2.window = none ∨ (revert docs m how e s).2 = s) := by
  unfold revert
  split
  · exact ⟨[], .of_eq rfl rfl, .inr rfl⟩
  · split
    · exact ⟨_, ⟨rfl, rfl, by simp⟩, .inl rfl⟩
    · next d hd =>
      have hback : Leaves s { s with rejected := rejects docs s, desired := some d } [] :=
        .of_eq rfl rfl
      have hrest : ∀ (s₂ : Daemon Doc Obs σ) (es₂ : List (Event Doc)), Leaves s s₂ es₂ →
          ∃ es, Leaves s (reobserve m (clearWindow how
            (replanOntoLastGood m e { s₂ with armed := none }))) es := by
        intro s₂ es₂ h₂
        obtain ⟨es₃, h₃⟩ := leaves_replanOntoLastGood (m := m) (s := { s₂ with armed := none }) e
        exact ⟨es₂ ++ es₃ ++ [Event.closed how], (h₂.trans ⟨h₃.log, h₃.lastGood, h₃.noRecord⟩).trans
          ⟨rfl, rfl, by simp⟩⟩
      dsimp only
      split
      · next a _ =>
        obtain ⟨es₂, h₂⟩ := leaves_undo (m := m)
          (s := { s with rejected := rejects docs s, desired := some d }) e a
        obtain ⟨es, hes⟩ := hrest _ _ (hback.trans h₂)
        exact ⟨es, hes, .inl rfl⟩
      · obtain ⟨es, hes⟩ := hrest _ _ hback
        exact ⟨es, hes, .inl rfl⟩

theorem sound_revert (how : Closing) (e : Executor σ) (hs : Sound docs s) :
    Sound docs (revert docs m how e s).2 := by
  have hleaves : ∃ es, Leaves s (revert docs m how e s).2 es ∧
      ((revert docs m how e s).2.window = none ∨ (revert docs m how e s).2 = s) :=
    leaves_revert how e
  obtain ⟨es, hleaves, hw | heq⟩ := hleaves
  · exact hs.closed hleaves hw
  · rw [heq]
    exact hs

theorem sound_revertRequest (hs : Sound docs s) : Sound docs (revertRequest docs m s).2 := by
  unfold revertRequest
  split
  · exact hs
  · split
    · exact hs
    · exact sound_revert .revert _ hs

/-! ## The pass and the start -/

theorem sound_resolveWindow (hs : Sound docs s) : Sound docs (resolveWindow docs m s) := by
  unfold resolveWindow
  split
  · exact hs
  · split_ifs
    · split
      · exact hs
      · exact sound_revert .expiry _ hs
    · exact hs

theorem sound_reconcileDrift {new : Bool} {p : Plan} {desired : Doc} {observed : Obs}
    (hd : s.desired = some desired) (hs : Sound docs s) :
    Sound docs (reconcileDrift docs m new p desired observed s) := by
  unfold reconcileDrift
  split
  · exact hs
  · split_ifs
    · exact hs
    · dsimp only
      split
      · exact hs
      · next restricted _ _ _ e _ =>
        have hrun := sound_reobserve (m := m) (sound_applyPlan .drift e restricted desired hs)
        split
        · exact sound_armWindow _ _ _ _ hd hrun
        · exact hrun

theorem sound_look {new : Bool} {requests : List Waiting} (hs : Sound docs s) :
    Sound docs (look docs m new requests s) := by
  have hseen : Sound docs (reobserve m s) := sound_reobserve hs
  unfold look
  dsimp only
  split
  · next desired observed hdesired _ =>
    split
    · exact hseen
    · split_ifs
      · exact hseen
      · exact hseen
      · exact sound_reconcileDrift hdesired hseen
  · exact hseen

theorem sound_resolveAndReload (input : PassInput Doc) (hs : Sound docs s) :
    Sound docs (resolveAndReload docs m input s).2 := by
  have hresolve : Sound docs
      (if shouldResolveWindow input.wake then resolveWindow docs m s else s) := by
    split_ifs
    · exact sound_resolveWindow hs
    · exact hs
  unfold resolveAndReload
  dsimp only
  split
  · exact sound_stateReload _ hresolve
  · exact hresolve

theorem sound_release (requests : List Waiting) (hs : Sound docs s) :
    Sound docs (release requests s) := by
  unfold release
  split_ifs
  · exact hs.kept (.of_eq rfl rfl) rfl rfl (by simp)
  · exact hs

theorem sound_pass (input : PassInput Doc) (hs : Sound docs s) :
    Sound docs (pass docs m input s) := by
  have hfirst : Sound docs (resolveAndReload docs m input s).2 := sound_resolveAndReload input hs
  unfold pass
  dsimp only
  refine sound_release _ ?_
  split_ifs
  · exact sound_look hfirst
  · exact hfirst

theorem sound_converge (hs : Sound docs s) : Sound docs (converge m s) := by
  have hseen : Sound docs (reobserve m s) := sound_reobserve hs
  unfold converge
  split
  · exact hs
  · next desired _ =>
    dsimp only
    split
    · exact hseen
    · split
      · exact hseen
      · split
        · exact hseen
        · next e _ _ p _ =>
          have hrun := sound_reobserve (m := m) (sound_applyPlan .startup e p desired hseen)
          split_ifs with hsucceeded
          · exact hrun.recorded (.inr (lastApplyWorked_concat (.of_succeeded hsucceeded)))
          · exact hrun

/-! ## Runs -/

variable (docs)

/-- A daemon at its first start : nothing has happened, and the last-good document is the
empty one. -/
def first (s : Daemon Doc Obs σ) : Daemon Doc Obs σ :=
  { s with window := none, armed := none, lastGood := some docs.empty, log := [] }

theorem sound_first (s : Daemon Doc Obs σ) : Sound docs (s.first docs) :=
  ⟨fun w hw => by simp [first] at hw, fun d hd => .inl (Option.some.inj hd).symm,
    fun pre d post h => by simp [first] at h⟩

/-- The step lemma of soundness. -/
theorem sound_operate {s : Daemon Doc Obs σ} (op : Operation Doc Obs σ) (hs : Sound docs s)
    (h : ∀ ask m, op = .step (.apply ask m) → SettlesClean docs m ask s) :
    Sound docs (operate docs s op) := by
  cases op with
  | reload compiled => exact sound_stateReload compiled hs
  | converge m => exact sound_converge hs
  | step l =>
    cases l with
    | apply ask m => exact sound_applyRequest hs (h ask m rfl)
    | confirm => exact sound_confirmRequest hs
    | revert m => exact sound_revertRequest hs
    | pass input m => exact sound_pass input hs

/-- The last-good document is the empty one, one that was confirmed while its window was
open, or one whose most recent apply left no failed action. -/
def LastGoodWorked (s : Daemon Doc Obs σ) : Prop :=
  ∀ d, s.lastGood = some d → d = docs.empty ∨ Confirmed docs s.log d ∨ LastApplyWorked s.log d

/-- In a run whose applies without a window, outside one, have every required op carried out,
the last-good document is at every moment the empty one, a confirmed one, or one whose most
recent apply had left no failed action when it was recorded; in the last case its most recent
apply still has, unless the document was applied again since and failed. And no document was
ever recorded on an apply that had failed : either the window over it had just been confirmed, or
its most recent apply had left no failed action. -/
theorem lastGood_worked (s : Daemon Doc Obs σ) (ops : List (Operation Doc Obs σ))
    (h : ∀ x ∈ steps (operate docs) (s.first docs) ops, ∀ ask m,
      x.2 = .step (.apply ask m) → SettlesClean docs m ask x.1) :
    ∀ t ∈ states (operate docs) (s.first docs) ops,
      (∀ d, t.lastGood = some d → d = docs.empty ∨ Confirmed docs t.log d ∨
        ∃ post, RecordedAfterSuccess t.log d post ∧
          ((∀ actor ops j, .applied actor d ops j ∈ post → j.LeftNoFailure) →
            LastApplyWorked t.log d)) ∧
      RecordsWorked docs t.log := by
  intro t ht
  have hsound : Sound docs t := forall_mem_states ops _ (sound_first docs s)
    (fun x hx hs => sound_operate docs x.2 hs (h x hx)) t ht
  refine ⟨fun d hd => ?_, hsound.records⟩
  rcases hsound.worked d hd with hempty | hconfirmed | ⟨post, hrecorded⟩
  · exact .inl hempty
  · exact .inr (.inl hconfirmed)
  · exact .inr (.inr ⟨post, hrecorded, hrecorded.lastApplyWorked⟩)

/-- A run that meets the condition : an apply that is carried out, and one inside a window
that is not. -/
theorem lastGood_worked_run :
    let ops : List (Operation String Unit Unit) :=
      [.step (.apply {} (oneOpMoment (.ok ()))),
        .step (.apply { confirm := some 60 } (oneOpMoment (.ok ()))),
        .step (.apply {} (oneOpMoment (.error "no such device")))]
    ∀ t ∈ states (operate textDocuments) ((holdingText "eth0" "").first textDocuments) ops,
      (∀ d, t.lastGood = some d → d = "" ∨ Confirmed textDocuments t.log d ∨
        ∃ post, RecordedAfterSuccess t.log d post ∧
          ((∀ actor ops j, .applied actor d ops j ∈ post → j.LeftNoFailure) →
            LastApplyWorked t.log d)) ∧
      RecordsWorked textDocuments t.log := by
  refine lastGood_worked textDocuments _ _ ?_
  intro x hx ask m hask hw hzero desired observed p e hdesired hobserved hplan hexec
  rcases List.mem_cons.1 hx with rfl | hx
  · cases hask
    cases hplan
    cases hexec
    exact ⟨.inl rfl, trivial⟩
  · rcases List.mem_cons.1 hx with rfl | hx
    · cases hask
      cases hzero
    · rcases List.mem_cons.1 hx with rfl | hx
      · cases hw
      · cases hx

/-- A revert whose way back is refused at an action says so and leaves the last-good document
what it was, one whose most recent apply is now the one that failed. -/
theorem revert_keeps_last_good :
    ¬∀ t ∈ states (operate textDocuments) ((holdingText "eth0" "").first textDocuments)
      [.step (.apply {} (oneOpMoment (.ok ()))),
        .step (.apply { confirm := some 60 } (oneOpMoment (.ok ()))),
        .step (.revert (oneOpMoment (.error "no such device")))],
      t.LastGoodWorked textDocuments := by
  intro h
  rcases h _ (run_mem_states _ _ _) "eth0" rfl with hempty | ⟨pre, post, heq, -⟩ | hworked
  · exact absurd hempty (by decide)
  · -- The window closed on the revert alone.
    have hmem : Event.closed .confirm ∈ pre ++ Event.closed .confirm :: post := by simp
    rw [← heq] at hmem
    exact absurd hmem (by decide)
  · -- The last apply of the document is the revert's, whose only action failed.
    have hlast : LastApplyWorked ((run (operate textDocuments)
        ((holdingText "eth0" "").first textDocuments) [.step (.apply {} (oneOpMoment (.ok ()))),
          .step (.apply { confirm := some 60 } (oneOpMoment (.ok ())))]).log ++
        Event.applied .revert "eth0" [(.linkUp "eth0", false)]
          [⟨0, "link.up", some "eth0", ⟨some "eth0", "link", "up", "down"⟩, .failed,
            some "no such device"⟩] :: [.closed .revert]) "eth0" := hworked
    exact hlast.leftNoFailure (by simp) _ List.mem_cons_self rfl

end Daemon

end Netcfgd
